import AcMuduo.EventLoop

namespace AcMuduo.EventLoop

open Machine

variable {T F C : Type}

def Pc.beforePoll : Pc F C → Bool
  | .entered | .test | .polling => true
  | _ => false

def Pc.inDoPendingFunctors : Pc F C → Bool
  | .functors | .running _ | .calling _ => true
  | _ => false

def Pc.inBatch : Pc F C → Bool
  | .running _ | .calling _ => true
  | _ => false

/-- A thread other than the loop's has pushed a functor and not yet written the eventfd. -/
def WakeupOwed (s : State T F C) : Prop := ∃ t, s.callers (some t) = .queueing

def Signalled (s : State T F C) : Prop := s.loop.wakeupFd ≠ 0 ∨ WakeupOwed s

theorem Signalled.mono {s t : State T F C} (h : Signalled s)
    (hfd : s.loop.wakeupFd ≠ 0 → t.loop.wakeupFd ≠ 0)
    (hcallers : ∀ x, s.callers (some x) = .queueing → t.callers (some x) = .queueing) :
    Signalled t := by
  cases h with
  | inl h => exact .inl (hfd h)
  | inr h =>
    obtain ⟨x, hx⟩ := h
    exact .inr ⟨x, hcallers x hx⟩

/-- A pending functor is announced from the swap on to the end of `poll`. While the batch runs,
the announcement may still be a wake-up that the loop thread itself is about to write. -/
structure Awake (s : State T F C) : Prop where
  calling : s.pc.inDoPendingFunctors = true → s.loop.callingPendingFunctors = true
  beforePoll : s.pc.beforePoll = true → s.loop.pendingFunctors ≠ [] → Signalled s
  inBatch : s.pc.inBatch = true → s.loop.pendingFunctors ≠ [] →
    Signalled s ∨ s.callers none = .queueing

theorem awake_init : Awake (State.init : State T F C) := by
  constructor <;> simp [State.init, Pc.inDoPendingFunctors, Pc.inBatch, Loop.new]

theorem Pc.inBatch_le {pc : Pc F C} (h : pc.inBatch = true) : pc.inDoPendingFunctors = true := by
  cases pc <;> simp_all [Pc.inBatch, Pc.inDoPendingFunctors]

theorem awake_of_handling {s : State T F C} (hp : s.pc.beforePoll = false)
    (hb : s.pc.inDoPendingFunctors = true → s.loop.callingPendingFunctors = true)
    (hn : s.pc.inBatch = false) : Awake s := by
  exact ⟨hb, by simp [hp], by simp [hn]⟩

variable [DecidableEq T]

theorem queueing_update {s : State T F C} {who : Option T} (c : Caller)
    (hwho : s.callers who ≠ .queueing) (w : Option T) (hw : s.callers w = .queueing) :
    Function.update s.callers who c w = .queueing := by
  have hne : w ≠ who := fun he => hwho (he ▸ hw)
  rwa [Function.update_of_ne hne]

theorem awake_push {s : State T F C} {who : Option T} (f : F) (h : Awake s)
    (hcall : mayCall s who = true) :
    Awake { s with
      loop := queueInLoop f s.loop, callers := Function.update s.callers who .queueing } := by
  cases who with
  | some t =>
    have hs : WakeupOwed { s with
        loop := queueInLoop f s.loop
        callers := Function.update s.callers (some t) .queueing } := ⟨t, by simp⟩
    exact ⟨h.calling, fun _ _ => .inr hs, fun _ _ => .inl (.inr hs)⟩
  | none =>
    refine ⟨h.calling, fun hpc _ => ?_, fun _ _ => .inr (by simp)⟩
    cases hp : s.pc <;> simp [Pc.beforePoll, mayCall, Pc.inUserCode, hp] at hpc hcall

theorem awake_quit {s : State T F C} {who : Option T} (h : Awake s)
    (hwho : s.callers who = .idle) :
    Awake { s with
      loop := { s.loop with quit := true }
      callers := Function.update s.callers who .quitting } := by
  have hne : s.callers who ≠ .queueing := by simp [hwho]
  have hkeep := queueing_update .quitting hne
  refine ⟨h.calling, fun hpc hp => (h.beforePoll hpc hp).mono id fun x => hkeep _,
    fun hpc hp => ?_⟩
  exact (h.inBatch hpc hp).imp (fun hs => hs.mono id fun x => hkeep _) (hkeep none)

theorem awake_wakeQueue {s : State T F C} {who : Option T} (h : Awake s) :
    Awake { s with
      loop := wakeAfterQueue who.isNone s.loop
      callers := Function.update s.callers who .idle } := by
  cases who with
  | some t =>
    have hs : (wakeAfterQueue false s.loop).wakeupFd ≠ 0 := by
      simpa [wakeAfterQueue] using wakeup_ne_zero s.loop
    refine ⟨fun hpc => ?_, fun _ _ => .inl hs, fun _ _ => .inl (.inl hs)⟩
    simpa using h.calling hpc
  | none =>
    refine ⟨fun hpc => ?_, fun hpc hp => ?_, fun hpc hp => ?_⟩
    · simpa using h.calling hpc
    · exact (h.beforePoll hpc (by simpa using hp)).mono wakeAfterQueue_ne_zero fun x hx => by
        simpa using hx
    · have hc := h.calling (Pc.inBatch_le hpc)
      refine .inl (.inl ?_)
      simpa [wakeAfterQueue, hc] using wakeup_ne_zero s.loop

theorem awake_wakeQuit {s : State T F C} {who : Option T} (h : Awake s)
    (hwho : s.callers who = .quitting) :
    Awake { s with
      loop := wakeAfterQuit who.isNone s.loop
      callers := Function.update s.callers who .idle } := by
  have hne : s.callers who ≠ .queueing := by simp [hwho]
  have hkeep := queueing_update .idle hne
  refine ⟨fun hpc => ?_, fun hpc hp => ?_, fun hpc hp => ?_⟩
  · simpa using h.calling hpc
  · exact (h.beforePoll hpc (by simpa using hp)).mono wakeAfterQuit_ne_zero fun x => hkeep _
  · exact (h.inBatch hpc (by simpa using hp)).imp
      (fun hs => hs.mono wakeAfterQuit_ne_zero fun x => hkeep _) (hkeep none)

def EntersEmpty (s : State T F C) (e : Event T F C) : Prop :=
  e = .loop .enter → s.loop.pendingFunctors = []

theorem awake_step (s : State T F C) (e : Event T F C) (t : State T F C) (h : Awake s)
    (henter : EntersEmpty s e) (hstep : step s e = .ok t) : Awake t := by
  cases step_move hstep with
  | push who f hwho hcall => exact awake_push f h hcall
  | quit who hwho hcall => exact awake_quit h hwho
  | wakeQueue who hwho => exact awake_wakeQueue h
  | wakeQuit who hwho => exact awake_wakeQuit h hwho
  | enter hself hpc hl => constructor <;> simp [Pc.inBatch, Pc.inDoPendingFunctors, henter rfl]
  | resetQuit hself hpc =>
    refine ⟨by simp [Pc.inDoPendingFunctors], fun _ hp => ?_, by simp [Pc.inBatch]⟩
    exact h.beforePoll (by simp [hpc, Pc.beforePoll]) hp
  | leave hself hpc hq => exact awake_of_handling rfl (by simp [Pc.inDoPendingFunctors]) rfl
  | iterate hself hpc hq =>
    refine ⟨by simp [Pc.inDoPendingFunctors], fun _ hp => ?_, by simp [Pc.inBatch]⟩
    exact h.beforePoll (by simp [hpc, Pc.beforePoll]) hp
  | poll active hself hpc => exact awake_of_handling rfl (by simp [Pc.inDoPendingFunctors]) rfl
  | handleWakeup active hself hpc =>
    exact awake_of_handling rfl (by simp [Pc.inDoPendingFunctors]) rfl
  | handleOther c active hself hpc =>
    exact awake_of_handling rfl (by simp [Pc.inDoPendingFunctors]) rfl
  | doPendingFunctors hself hpc => exact awake_of_handling rfl (fun _ => rfl) rfl
  | swap hself hpc =>
    have hc := h.calling (by simp [hpc, Pc.inDoPendingFunctors])
    exact ⟨fun _ => hc, by simp [Pc.beforePoll], by simp⟩
  | call f batch hself hpc =>
    have hb : s.pc.inBatch = true := by simp [hpc, Pc.inBatch]
    exact ⟨fun _ => h.calling (Pc.inBatch_le hb), by simp [Pc.beforePoll], fun _ => h.inBatch hb⟩
  | ret batch hself hpc =>
    have hb : s.pc.inBatch = true := by simp [hpc, Pc.inBatch]
    exact ⟨fun _ => h.calling (Pc.inBatch_le hb), by simp [Pc.beforePoll], fun _ => h.inBatch hb⟩
  | finish hself hpc =>
    have hb : s.pc.inBatch = true := by simp [hpc, Pc.inBatch]
    refine ⟨by simp [Pc.inDoPendingFunctors], fun _ hp => ?_, by simp [Pc.inBatch]⟩
    exact (h.inBatch hb hp).resolve_right (by simp [hself])

/-- A functor that is pending when the loop polls has been announced, or is about to be. -/
theorem no_lost_wakeup {es : List (Event T F C)} {s : State T F C}
    (hrun : run step State.init es = .ok s) (henter : Throughout step EntersEmpty State.init es)
    (hpoll : s.pc = .test ∨ s.pc = .polling) (hpending : s.loop.pendingFunctors ≠ []) :
    s.loop.wakeupFd ≠ 0 ∨ ∃ t, s.callers (some t) = .queueing := by
  have h := run_invariant_of awake_step awake_init henter hrun
  refine h.beforePoll ?_ hpending
  rcases hpoll with hpc | hpc <;> simp [hpc, Pc.beforePoll]

def pushDuringPoll : List (Event Bool Nat Unit) :=
  [.loop .enter, .loop .resetQuit, .loop .test, .caller (some true) (.push 7)]

theorem no_lost_wakeup_pushDuringPoll :
    ∃ s, run step State.init pushDuringPoll = .ok s ∧ s.loop.pendingFunctors = [7] ∧
      (s.loop.wakeupFd ≠ 0 ∨ ∃ t, s.callers (some t) = .queueing) := by
  have hrun : run step State.init pushDuringPoll = .ok _ := rfl
  refine ⟨_, rfl, rfl, no_lost_wakeup hrun ?_ (.inr rfl) (by simp [queueInLoop])⟩
  simp [pushDuringPoll, Throughout, EntersEmpty, State.init, Loop.new]

def Pc.rest : Pc F C → List F
  | .running batch | .calling batch => batch
  | _ => []

def pushed (_ : State T F C) : Event T F C → State T F C → List F
  | .caller _ (.push f), _ => [f]
  | _, _ => []

def executed (s : State T F C) : Event T F C → State T F C → List F
  | .loop .call, _ => s.pc.rest.take 1
  | _, _ => []

def held (s : State T F C) : List F := s.pc.rest ++ s.loop.pendingFunctors

theorem held_step (s : State T F C) (e : Event T F C) (t : State T F C)
    (hstep : step s e = .ok t) : executed s e t ++ held t = held s ++ pushed s e t := by
  cases step_move hstep with
  | push who f hwho hcall => simp [executed, pushed, held, queueInLoop]
  | quit who hwho hcall => simp [executed, pushed, held]
  | wakeQueue who hwho => simp [executed, pushed, held]
  | wakeQuit who hwho => simp [executed, pushed, held]
  | enter hself hpc hl => simp [executed, pushed, held, Pc.rest, hpc]
  | resetQuit hself hpc => simp [executed, pushed, held, Pc.rest, hpc]
  | leave hself hpc hq => simp [executed, pushed, held, Pc.rest, hpc]
  | iterate hself hpc hq => simp [executed, pushed, held, Pc.rest, hpc]
  | poll active hself hpc => simp [executed, pushed, held, Pc.rest, hpc]
  | handleWakeup active hself hpc => simp [executed, pushed, held, Pc.rest, hpc, handleRead]
  | handleOther c active hself hpc => simp [executed, pushed, held, Pc.rest, hpc]
  | doPendingFunctors hself hpc => simp [executed, pushed, held, Pc.rest, hpc]
  | swap hself hpc => simp [executed, pushed, held, Pc.rest, hpc]
  | call f batch hself hpc => simp [executed, pushed, held, Pc.rest, hpc]
  | ret batch hself hpc => simp [executed, pushed, held, Pc.rest, hpc]
  | finish hself hpc => simp [executed, pushed, held, Pc.rest, hpc]

theorem run_held {es : List (Event T F C)} {s t : State T F C} (hrun : run step s es = .ok t) :
    observe step executed s es ++ held t = held s ++ observe step pushed s es :=
  run_conserves (P := fun _ _ => True) (I := fun _ => True)
    (fun s e t _ _ h => ⟨trivial, held_step s e t h⟩) trivial throughout_true hrun

theorem batch_step (s : State T F C) (e : Event T F C) (t : State T F C)
    (hb : s.pc.inBatch = true) (he : e ≠ .loop .finish) (hstep : step s e = .ok t) :
    t.pc.inBatch = true ∧ executed s e t ++ t.pc.rest = s.pc.rest := by
  cases step_move hstep with
  | push who f hwho hcall => exact ⟨hb, rfl⟩
  | quit who hwho hcall => exact ⟨hb, rfl⟩
  | wakeQueue who hwho => exact ⟨hb, rfl⟩
  | wakeQuit who hwho => exact ⟨hb, rfl⟩
  | enter hself hpc hl => simp [hpc, Pc.inBatch] at hb
  | resetQuit hself hpc => simp [hpc, Pc.inBatch] at hb
  | leave hself hpc hq => simp [hpc, Pc.inBatch] at hb
  | iterate hself hpc hq => simp [hpc, Pc.inBatch] at hb
  | poll active hself hpc => simp [hpc, Pc.inBatch] at hb
  | handleWakeup active hself hpc => simp [hpc, Pc.inBatch] at hb
  | handleOther c active hself hpc => simp [hpc, Pc.inBatch] at hb
  | doPendingFunctors hself hpc => simp [hpc, Pc.inBatch] at hb
  | swap hself hpc => simp [hpc, Pc.inBatch] at hb
  | call f batch hself hpc => exact ⟨rfl, by simp [executed, hpc, Pc.rest]⟩
  | ret batch hself hpc => exact ⟨rfl, by simp [executed, hpc, Pc.rest]⟩
  | finish hself hpc => exact absurd rfl he

theorem run_batch {es : List (Event T F C)} {s t : State T F C} (hb : s.pc.inBatch = true)
    (hes : .loop .finish ∉ es) (hrun : run step s es = .ok t) :
    observe step executed s es ++ t.pc.rest = s.pc.rest := by
  have hstep : ∀ (s : State T F C) e t, s.pc.inBatch = true → e ≠ .loop .finish →
      step s e = .ok t → t.pc.inBatch = true ∧
        executed s e t ++ t.pc.rest = s.pc.rest ++ (fun _ _ _ => []) s e t := by
    intro s e t hb he h
    simpa using batch_step s e t hb he h
  have h := run_conserves hstep hb
    (throughout_of_forall fun e he => ne_of_mem_of_not_mem he hes) hrun
  simpa using h

/-- Functors are called once each, in push order. From its swap on, a call of
`do_pending_functors` calls the functors that were pending at the swap, and when it returns it
has called them all; what has been called then was pushed before the swap. -/
theorem functors_run_once_in_order {es : List (Event T F C)} {s : State T F C}
    (hrun : run step State.init es = .ok s) :
    observe step executed State.init es ++ s.pc.rest ++ s.loop.pendingFunctors =
      observe step pushed State.init es ∧
    ∀ pre mid, es = pre ++ .loop .swap :: mid → .loop .finish ∉ mid →
      observe step executed State.init es ++ s.pc.rest = observe step pushed State.init pre ∧
      ∃ a b, run step State.init pre = .ok a ∧ step a (.loop .swap) = .ok b ∧
        observe step executed b mid ++ s.pc.rest = a.loop.pendingFunctors ∧
        ∀ t, step s (.loop .finish) = .ok t →
          observe step executed b mid = a.loop.pendingFunctors := by
  refine ⟨by simpa [held, State.init, Loop.new, Pc.rest] using run_held hrun, ?_⟩
  rintro pre mid rfl hmid
  obtain ⟨a, ha, hrest⟩ := run_append_ok.mp hrun
  obtain ⟨b, hswap, hb⟩ := run_cons_ok.mp hrest
  obtain ⟨hpa, hpb⟩ := swap_pc hswap
  have hbatch := run_batch (by simp [hpb, Pc.inBatch]) hmid hb
  have hpre : observe step executed State.init pre ++ a.loop.pendingFunctors =
      observe step pushed State.init pre := by
    simpa [held, State.init, Loop.new, hpa, Pc.rest] using run_held ha
  rw [hpb, Pc.rest] at hbatch
  refine ⟨?_, a, b, ha, hswap, hbatch, fun t hfin => ?_⟩
  · rw [observe_append ha, observe_cons hswap, ← hpre, List.append_assoc, ← hbatch]
    simp [executed]
  · cases step_move hfin with
    | finish hself hpc => simpa [hpc, Pc.rest] using hbatch

/-- A functor pushes another one, as a second thread does, while the first batch is run. -/
def pushDuringBatch : List (Event Bool Nat Unit) :=
  [.caller (some true) (.push 1), .caller (some true) .wake, .loop .enter, .loop .resetQuit,
    .loop .test, .loop (.poll [.wakeup]), .loop .handle, .loop .doPendingFunctors, .loop .swap,
    .loop .call, .caller none (.push 2), .caller none .wake, .caller (some true) (.push 3),
    .loop .ret]

theorem functors_run_once_in_order_pushDuringBatch :
    ∃ s, run step State.init pushDuringBatch = .ok s ∧
      observe step executed State.init pushDuringBatch = [1] ∧ s.loop.pendingFunctors = [2, 3] ∧
      observe step executed State.init pushDuringBatch ++ s.pc.rest ++ s.loop.pendingFunctors =
        observe step pushed State.init pushDuringBatch :=
  ⟨_, rfl, rfl, rfl, (functors_run_once_in_order
    (show run step State.init pushDuringBatch = .ok _ from rfl)).1⟩

end AcMuduo.EventLoop
