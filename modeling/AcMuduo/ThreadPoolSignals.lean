import AcMuduo.ThreadPool
import Mathlib.Data.Fintype.Card

namespace AcMuduo.ThreadPool

open Machine

variable {n : Nat} {P F : Type} [DecidableEq P] {max k : Nat} {s t : State n P F}
  {e : Event n P F} {p : P} {function : Option F} {w : Fin n}

/-- Each sleeping worker is at its `wait`, once. While workers sleep un-notified the others are
enough for the queue, and while producers do, the notified ones are enough for the free slots,
where `k` of them have just got the mutex back. -/
structure Inv (max k : Nat) (s : State n P F) : Prop where
  nodup : s.notEmpty.sleepers.Nodup
  asleep : ∀ w ∈ s.notEmpty.sleepers, s.workers w = .waiting
  bound : 0 < max → s.queue.length ≤ max
  enough : s.notEmpty.waiting ≠ [] → s.queue.length + s.notEmpty.waiting.length ≤ n
  slots : 0 < max → s.notFull.waiting ≠ [] →
    max ≤ s.queue.length + s.notFull.notified.length + k
  stopped : s.running = false → s.notEmpty.waiting = [] ∧ s.notFull.waiting = []
  stopper : s.stopper ≠ .idle → s.running = false

omit [DecidableEq P] in
theorem inv_init : Inv max 0 (.init : State n P F) := by
  constructor <;> simp [State.init, CondVar.empty, CondVar.sleepers]

omit [DecidableEq P] in
theorem Inv.returning (h : Inv max 0 s) : Inv max 1 s :=
  { h with slots := fun hmax hw => (h.slots hmax hw).trans (Nat.le_succ _) }

theorem RunMove.inv (h : RunMove max s p function t) (hs : Inv max 1 s) : Inv max 0 t := by
  cases h with
  | waits hfull hrunning =>
    have hle : max ≤ s.queue.length := by
      simp only [isFull, Bool.and_eq_true, decide_eq_true_eq] at hfull
      exact hfull.2
    refine { hs with slots := fun _ _ => hle.trans (Nat.le_add_right _ _), stopped := fun hr => ?_ }
    rw [show s.running = false from hr] at hrunning
    cases hrunning
  | refused hrunning =>
    exact { hs with slots := fun _ hw => absurd (hs.stopped hrunning).2 hw }
  | @pushes woken c hfull hrunning hnotify =>
    have hlen := CondVar.notifyOne_length hnotify
    have hperm := CondVar.sleepers_notifyOne hnotify
    have hqueue : (s.queue ++ [⟨p, function⟩] : List (Task P F)).length =
        s.queue.length + 1 := by simp
    refine ⟨hperm.nodup_iff.mpr hs.nodup, fun w hw => hs.asleep w (hperm.mem_iff.mp hw),
      fun hmax => ?_, fun hw => ?_, fun hmax hw => ?_, fun hr => ?_, hs.stopper⟩
    · have hroom : s.queue.length < max := by simpa [isFull, hmax] using hfull
      exact hqueue.trans_le hroom
    · show (s.queue ++ [⟨p, function⟩] : List (Task P F)).length + c.waiting.length ≤ n
      have hpos := List.length_pos_of_ne_nil hw
      have henough := hs.enough (mt (CondVar.notifyOne_waiting hnotify) hw)
      change 0 < c.waiting.length at hpos
      omega
    · show max ≤ (s.queue ++ [⟨p, function⟩] : List (Task P F)).length +
        s.notFull.notified.length + 0
      have hslots := hs.slots hmax hw
      omega
    · rw [show s.running = false from hr] at hrunning
      cases hrunning

theorem TakeMove.inv (h : TakeMove max s w t) (hs : Inv max 0 s)
    (hw : w ∉ s.notEmpty.sleepers) : Inv max 0 t := by
  have hother : ∀ c x, x ∈ s.notEmpty.sleepers → (setWorker s w c).workers x = .waiting := by
    intro c x hx
    have hne : x ≠ w := fun heq => hw (heq ▸ hx)
    exact (Function.update_of_ne hne _ _).trans (hs.asleep x hx)
  cases h with
  | waits hqueue hrunning =>
    have hnodup : (w :: s.notEmpty.sleepers).Nodup := List.nodup_cons.mpr ⟨hw, hs.nodup⟩
    refine { hs with nodup := hnodup, asleep := fun x hx => ?_, enough := fun _ => ?_,
                     stopped := fun hr => ?_ }
    · cases List.mem_cons.mp hx with
      | inl heq => exact heq ▸ Function.update_self _ _ _
      | inr hx => exact hother .waiting x hx
    · have hwaiting : (w :: s.notEmpty.waiting).Nodup := by
        simp only [CondVar.sleepers, List.append_assoc, ← List.cons_append] at hnodup
        exact (List.nodup_append.mp hnodup).1
      have hcard := hwaiting.length_le_card
      rw [Fintype.card_fin] at hcard
      show s.queue.length + (w :: s.notEmpty.waiting).length ≤ n
      rwa [hqueue, List.length_nil, Nat.zero_add]
    · rw [show s.running = false from hr] at hrunning
      cases hrunning
  | nothing hqueue hrunning => exact { hs with asleep := hother _ }
  | @takes task queue woken c hqueue hnotify hunbound =>
    have hlen : s.queue.length = queue.length + 1 := by rw [hqueue]; rfl
    refine { hs with asleep := hother _, bound := fun hmax => ?_, enough := fun hwait => ?_,
                     slots := fun hmax hwait => ?_, stopped := fun hr => ?_ }
    · show queue.length ≤ max
      have hbound := hs.bound hmax
      omega
    · show queue.length + s.notEmpty.waiting.length ≤ n
      have henough := hs.enough hwait
      omega
    · show max ≤ queue.length + c.notified.length + 0
      have hone := CondVar.notifyOne_length (hnotify hmax)
      have hold := mt (CondVar.notifyOne_waiting (hnotify hmax)) hwait
      have hslots := hs.slots hmax hold
      have hmore := hone.2 hold
      omega
    · refine ⟨(hs.stopped hr).1, ?_⟩
      show c.waiting = []
      have hnil := (hs.stopped hr).2
      cases Nat.eq_zero_or_pos max with
      | inl hzero => rw [hunbound hzero, hnil]
      | inr hmax => exact CondVar.notifyOne_waiting (hnotify hmax) hnil

theorem Move.inv (h : Move max s e t) (hs : Inv max 0 s) : Inv max 0 t := by
  have hawake : ∀ w, s.workers w ≠ .waiting → w ∉ s.notEmpty.sleepers := fun w hw hmem =>
    hw (hs.asleep w hmem)
  have hset : ∀ w c, s.workers w ≠ .waiting → Inv max 0 (setWorker s w c) := by
    intro w c hw
    refine { hs with asleep := fun x hx => ?_ }
    have hne : x ≠ w := fun heq => hawake w hw (heq ▸ hx)
    exact (Function.update_of_ne hne _ _).trans (hs.asleep x hx)
  cases h with
  | ran hp hn => exact { hs with }
  | run hp h => exact h.inv hs.returning
  | @resume p function woken c t hp hleave h =>
    have hlen := CondVar.leave_length hleave
    refine h.inv { hs with slots := fun hmax hw => ?_, stopped := fun hr => ?_ }
    · show max ≤ s.queue.length + c.notified.length + 1
      have hslots := hs.slots hmax (hlen.1 ▸ hw)
      omega
    · exact ⟨(hs.stopped hr).1, hlen.1.trans (hs.stopped hr).2⟩
  | @wakeProducer p c hwake =>
    have hlen := CondVar.wake_length hwake
    have hold := CondVar.wake_waiting hwake
    refine { hs with slots := fun hmax _ => ?_, stopped := fun hr => ?_ }
    · show max ≤ s.queue.length + c.notified.length + 0
      rw [hlen.2]
      exact hs.slots hmax hold
    · exact absurd (hs.stopped hr).2 hold
  | test hw => exact hset _ _ (by simp [hw])
  | take hw h => exact h.inv hs (hawake _ (by simp [hw]))
  | @retake w woken c t hw hleave h =>
    have hperm := CondVar.sleepers_leave hleave
    have hlen := CondVar.leave_length hleave
    have hnodup := List.nodup_cons.mp (hperm.nodup_iff.mp hs.nodup)
    refine h.inv { hs with nodup := hnodup.2, asleep := fun x hx => ?_, enough := fun hw => ?_,
                           stopped := fun hr => ?_ } hnodup.1
    · exact hs.asleep x (hperm.mem_iff.mpr (List.mem_cons_of_mem w hx))
    · show s.queue.length + c.waiting.length ≤ n
      rw [hlen.1]
      exact hs.enough (hlen.1 ▸ hw)
    · exact ⟨hlen.1.trans (hs.stopped hr).1, (hs.stopped hr).2⟩
  | @wakeWorker w c hwake =>
    have hlen := CondVar.wake_length hwake
    have hperm := CondVar.sleepers_wake hwake
    have hold := CondVar.wake_waiting hwake
    refine { hs with nodup := hperm.nodup_iff.mpr hs.nodup, asleep := fun x hx => ?_,
                     enough := fun _ => ?_, stopped := fun hr => ?_ }
    · exact hs.asleep x (hperm.mem_iff.mp hx)
    · show s.queue.length + c.waiting.length ≤ n
      have henough := hs.enough hold
      omega
    · exact absurd (hs.stopped hr).1 hold
  | execute hw | skip hw _ | finish hw => exact hset _ _ (by simp [hw])
  | stop hstop =>
    refine { hs with nodup := ?_, asleep := fun x hx => ?_, enough := fun hw => absurd rfl hw,
                     slots := fun _ hw => absurd rfl hw, stopped := fun _ => ⟨rfl, rfl⟩,
                     stopper := fun _ => rfl }
    · rw [CondVar.sleepers_notifyAll]
      exact hs.nodup
    · rw [CondVar.sleepers_notifyAll] at hx
      exact hs.asleep x hx
  | join hstop hw =>
    exact { hs with stopper := fun _ => hs.stopper (by simp [hstop]) }

theorem run_inv {es : List (Event n P F)} (h : run (step max) .init es = .ok s) : Inv max 0 s :=
  run_invariant (fun _ _ _ hs ht => (move_of_step ht).inv hs) inv_init h

/-- In every reachable state of a pool with workers: with tasks in the queue not all of them sleep
un-notified, with a producer asleep un-notified there are not more free slots than producers
notified and not back, and after the critical section of `stop` no thread sleeps un-notified. -/
theorem no_lost_signal {es : List (Event n P F)} (hn : 1 ≤ n)
    (h : run (step max) .init es = .ok s) :
    (s.queue ≠ [] → s.running = true → ∃ w, w ∉ s.notEmpty.waiting) ∧
    (0 < max → s.notFull.waiting ≠ [] → s.running = true →
      max - s.queue.length ≤ s.notFull.notified.length) ∧
    (s.stopper ≠ .idle → s.notEmpty.waiting = [] ∧ s.notFull.waiting = []) := by
  have hs := run_inv h
  refine ⟨fun hqueue _ => ?_, fun hmax hw _ => ?_, fun hstop => hs.stopped (hs.stopper hstop)⟩
  · by_contra hall
    rw [not_exists] at hall
    have hmem : ∀ w, w ∈ s.notEmpty.waiting := fun w => not_not.mp (hall w)
    have hpos := List.length_pos_of_ne_nil hqueue
    have henough := hs.enough (List.ne_nil_of_mem (hmem ⟨0, hn⟩))
    have hcover : List.finRange n ⊆ s.notEmpty.waiting := fun w _ => hmem w
    have hcard := (List.nodup_finRange n).subperm hcover |>.length_le
    rw [List.length_finRange] at hcard
    omega
  · have hslots := hs.slots hmax hw
    omega

def producerWaits : List (Event 1 Nat Unit) :=
  [.test 0, .take 0 none, .run 0 (some ()) (some 0), .run 1 (some ()) none]

theorem no_lost_signal_producerWaits : ∃ s, run (step 1) .init producerWaits = .ok s ∧
    (∃ w, w ∉ s.notEmpty.waiting) ∧ 1 - s.queue.length ≤ s.notFull.notified.length :=
  have hrun : run (step 1) .init producerWaits = .ok _ := rfl
  have hkept := no_lost_signal (by decide) hrun
  ⟨_, rfl, hkept.1 (by decide) rfl, hkept.2.1 (by decide) (by decide) rfl⟩

end AcMuduo.ThreadPool
