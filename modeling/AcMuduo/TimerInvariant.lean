import AcMuduo.TimerOperations

namespace AcMuduo.TimerQueue

open Machine

def Pc.batch : Pc → List Entry
  | .running _ expired _ | .calling _ expired _ => expired
  | _ => []

def Pc.rest : Pc → List Entry
  | .running _ _ rest | .calling _ _ rest => rest
  | _ => []

structure Inv (s : State) : Prop where
  owned : Owned s.heap s.timers s.activeTimers s.adding (s.pc.batch.map Entry.timer)
  rest : s.pc.rest ⊆ s.pc.batch

theorem inv_init (c : Int) : Inv (.init c) := ⟨owned_init, List.nil_subset _⟩

def added (s : State) (p : Addr) (t : Timer) : State :=
  let s' := { s with
    adding := s.adding.erase p
    timers := s.timers.insert ⟨t.expiration, p⟩
    activeTimers := s.activeTimers.insert ⟨p, t.sequence⟩ }
  if earliestChanged s.timers t.expiration then resetTimerFd s' t.expiration else s'

def rearmed (s : State) : State :=
  if 0 < nextExpire s.timers then resetTimerFd s (nextExpire s.timers) else s

inductive Move (s : State) : Event → State → Prop where
  | alloc {p expiration interval} (hp : s.heap p = none) (hmax : p ≠ uintptrMax) :
    Move s (.alloc p expiration interval) { s with
      heap := Function.update s.heap p (some ⟨expiration, interval, s.numCreated + 1⟩)
      numCreated := s.numCreated + 1
      adding := Insert.insert p s.adding }
  | tick {c} : Move s (.tick c) { s with clock := c }
  | add {p t} (hpc : s.pc.inUserCode = true) (hp : p ∈ s.adding) (ht : s.heap p = some t) :
    Move s (.add p) (added s p t)
  | cancelActive {p t} (hpc : s.pc.inUserCode = true) (ht : s.heap p = some t)
    (hq : (⟨p, t.sequence⟩ : TimerId) ∈ s.activeTimers) :
    Move s (.cancel ⟨p, t.sequence⟩) { s with
      heap := Function.update s.heap p none
      timers := s.timers.erase ⟨t.expiration, p⟩
      activeTimers := s.activeTimers.erase ⟨p, t.sequence⟩ }
  | cancelNoted {id} (hpc : s.pc.inUserCode = true) (hid : id ∉ s.activeTimers)
    (hcalling : s.callingExpiredTimers = true) :
    Move s (.cancel id) { s with cancelingTimers := s.cancelingTimers.insert id }
  | cancelIgnored {id} (hpc : s.pc.inUserCode = true) (hid : id ∉ s.activeTimers)
    (hcalling : s.callingExpiredTimers = false) : Move s (.cancel id) s
  | handleRead (hpc : s.pc = .idle) : Move s .handleRead { s with pc := .reading s.clock }
  | expire {now left} (hpc : s.pc = .reading now)
    (howned : Owned s.heap (s.timers.dropBelow ⟨now, uintptrMax⟩) left s.adding
      ((s.timers.below ⟨now, uintptrMax⟩).map Entry.timer)) :
    Move s .expire { readTimerFd s with
      timers := s.timers.dropBelow ⟨now, uintptrMax⟩
      activeTimers := left
      callingExpiredTimers := true
      cancelingTimers := .empty
      pc := .running now (s.timers.below ⟨now, uintptrMax⟩) (s.timers.below ⟨now, uintptrMax⟩) }
  | call {now expired it rest} (hpc : s.pc = .running now expired (it :: rest)) :
    Move s .call { s with pc := .calling now expired rest }
  | ret {now expired rest} (hpc : s.pc = .calling now expired rest) :
    Move s .ret { s with pc := .running now expired rest }
  | finish {now expired s'} (hpc : s.pc = .running now expired [])
    (howned : Owned s'.heap s'.timers s'.activeTimers s'.adding [])
    (hkept : Kept now { s with callingExpiredTimers := false, pc := .idle } s') :
    Move s .finish (rearmed s')

variable {s t : State} {e : Event}

theorem readTimerFd_eq (s : State) : ∃ fd, readTimerFd s = { s with timerFd := fd } := by
  rw [readTimerFd]
  split
  · exact ⟨_, rfl⟩
  · exact ⟨s.timerFd, rfl⟩

theorem step_move (hs : Inv s) (e : Event) :
    step s e = .error .disabled ∨ ∃ t, step s e = .ok t ∧ Move s e t := by
  cases e with
  | alloc p expiration interval =>
    by_cases h : s.heap p = none ∧ p ≠ uintptrMax
    · exact .inr ⟨_, by simp only [step, h, and_self, ↓reduceIte, ne_eq, not_false_eq_true],
        .alloc h.1 h.2⟩
    · exact .inl (by simp only [step, h, ↓reduceIte])
  | tick c => exact .inr ⟨_, rfl, .tick⟩
  | add p =>
    by_cases h : s.pc.inUserCode = true ∧ p ∈ s.adding
    · obtain ⟨t, ht⟩ := Option.ne_none_iff_exists'.mp (hs.owned.allocated p (.inl h.2))
      refine .inr ⟨_, ?_, .add h.1 h.2 ht⟩
      simp only [step, h, and_self, ↓reduceIte]
      exact addTimerInLoop_eq (s := { s with adding := s.adding.erase p }) (hs.owned.hand h.2) ht
    · exact .inl (by simp only [step, h, ↓reduceIte])
  | cancel id =>
    by_cases h : s.pc.inUserCode = true
    · apply Or.inr
      simp only [step, h, ↓reduceIte]
      by_cases hid : id ∈ s.activeTimers
      · obtain ⟨p, q⟩ := id
        obtain ⟨t, ht, rfl⟩ := hs.owned.live p q hid
        exact ⟨_, cancelInLoop_active hs.owned ht hid, .cancelActive h ht hid⟩
      · rw [cancelInLoop_inactive hs.owned.size hid]
        by_cases hc : s.callingExpiredTimers = true
        · exact ⟨_, by rw [if_pos hc], .cancelNoted h hid hc⟩
        · exact ⟨_, by rw [if_neg hc], .cancelIgnored h hid (by simpa using hc)⟩
    · exact .inl (by simp only [step, h, ↓reduceIte, Bool.false_eq_true])
  | handleRead =>
    cases hpc : s.pc with
    | idle => exact .inr ⟨_, by simp only [step, hpc], .handleRead hpc⟩
    | _ => exact .inl (by simp only [step, hpc])
  | expire =>
    cases hpc : s.pc with
    | reading now =>
      have howned := hs.owned
      obtain ⟨fd, hfd⟩ := readTimerFd_eq s
      rw [hpc] at howned
      obtain ⟨left, hrun, hleft⟩ := getExpired_eq (s := readTimerFd s)
        (by rw [hfd]; exact howned) now
      rw [hfd] at hrun hleft
      refine .inr ⟨_, ?_, .expire hpc hleft⟩
      simp only [step, hpc]
      rw [hfd, hrun]
      rfl
    | _ => exact .inl (by simp only [step, hpc])
  | call =>
    cases hpc : s.pc with
    | running now expired rest =>
      cases rest with
      | nil => exact .inl (by simp only [step, hpc])
      | cons it rest =>
        have hrest := hs.rest
        have howned := hs.owned
        rw [hpc] at hrest howned
        have hit : it.timer ∈ expired.map Entry.timer :=
          List.mem_map_of_mem (hrest (by simp [Pc.rest]))
        obtain ⟨t, ht⟩ := Option.ne_none_iff_exists'.mp (howned.allocated it.timer (.inr hit))
        exact .inr ⟨_, by simp only [step, hpc, deref_eq ht, bind, Except.bind], .call hpc⟩
    | _ => exact .inl (by simp only [step, hpc])
  | ret =>
    cases hpc : s.pc with
    | calling now expired rest => exact .inr ⟨_, by simp only [step, hpc], .ret hpc⟩
    | _ => exact .inl (by simp only [step, hpc])
  | finish =>
    cases hpc : s.pc with
    | running now expired rest =>
      cases rest with
      | cons it rest => exact .inl (by simp only [step, hpc])
      | nil =>
        have howned := hs.owned
        rw [hpc] at howned
        obtain ⟨s', hrun, howned', hkept⟩ := resetOne_fold now expired
          (s := { s with callingExpiredTimers := false, pc := .idle }) howned
        refine .inr ⟨_, ?_, .finish hpc howned' hkept⟩
        simp only [step, hpc, reset, hrun, rearm_eq howned', bind, Except.bind, rearmed]
    | _ => exact .inl (by simp only [step, hpc])

theorem move_of_step (hs : Inv s) (he : step s e = .ok t) : Move s e t :=
  of_eq_ok (step_move hs e) he

theorem Move.inv (h : Move s e t) (hs : Inv s) : Inv t := by
  obtain ⟨howned, hrest⟩ := hs
  cases h with
  | alloc hp hmax => exact ⟨howned.alloc hp hmax _, hrest⟩
  | tick => exact ⟨howned, hrest⟩
  | add hpc hp ht =>
    have h' := (howned.hand hp).insert ht
    rw [added]
    split
    · exact ⟨h', hrest⟩
    · exact ⟨h', hrest⟩
  | cancelActive hpc ht hq => exact ⟨howned.cancel ht hq, hrest⟩
  | cancelNoted hpc hid hcalling => exact ⟨howned, hrest⟩
  | cancelIgnored hpc hid hcalling => exact ⟨howned, hrest⟩
  | handleRead hpc =>
    rw [hpc] at howned
    exact ⟨howned, List.nil_subset _⟩
  | expire hpc howned' =>
    obtain ⟨fd, hfd⟩ := readTimerFd_eq s
    rw [hfd]
    exact ⟨howned', List.Subset.refl _⟩
  | call hpc =>
    rw [hpc] at howned hrest
    exact ⟨howned, fun x hx => hrest (List.mem_cons_of_mem _ hx)⟩
  | ret hpc =>
    rw [hpc] at howned hrest
    exact ⟨howned, hrest⟩
  | @finish now expired s' hpc howned' hkept =>
    have hs' : Inv s' := by
      refine ⟨?_, ?_⟩ <;> rw [hkept.pc]
      · exact howned'
      · exact List.nil_subset _
    rw [rearmed]
    split
    · exact ⟨hs'.owned, hs'.rest⟩
    · exact hs'

theorem run_inv (c : Int) (es : List Event) :
    run step (.init c) es = .error .disabled ∨ ∃ s, run step (.init c) es = .ok s ∧ Inv s := by
  refine run_safe (fun s e hs => ?_) (inv_init c) es
  exact (step_move hs e).imp id fun ⟨t, ht, hm⟩ => ⟨t, ht, hm.inv hs⟩

/-- In every run the two sets agree with the heap, each timer handed to the queue is in both sets
or in the batch, and nothing is deleted twice, used after its deletion or asserted in vain. -/
theorem timers_owned (c : Int) (es : List Event) :
    (∀ f, run step (.init c) es ≠ .error (.fault f)) ∧
    ∀ s, run step (.init c) es = .ok s →
      (∀ e p, (⟨e, p⟩ : Entry) ∈ s.timers ↔
        ∃ t, s.heap p = some t ∧ t.expiration = e ∧
          (⟨p, t.sequence⟩ : TimerId) ∈ s.activeTimers) ∧
      ∀ p t, s.heap p = some t → p ∉ s.adding →
        (((⟨t.expiration, p⟩ : Entry) ∈ s.timers ∧ (⟨p, t.sequence⟩ : TimerId) ∈ s.activeTimers ∧
          ∀ x ∈ s.pc.batch, x.timer ≠ p) ∨
        ((∃ x ∈ s.pc.batch, x.timer = p) ∧
          (∀ e, (⟨e, p⟩ : Entry) ∉ s.timers) ∧ ∀ q, (⟨p, q⟩ : TimerId) ∉ s.activeTimers)) := by
  constructor
  · intro f
    cases run_inv c es with
    | inl hrun => simp [hrun]
    | inr h =>
      obtain ⟨s, hrun, _⟩ := h
      simp [hrun]
  · intro s hrun
    have howned : Owned s.heap s.timers s.activeTimers s.adding (s.pc.batch.map Entry.timer) :=
      (of_eq_ok (run_inv c es) hrun).owned
    refine ⟨howned.entry, fun p t ht hadd => ?_⟩
    by_cases hb : p ∈ s.pc.batch.map Entry.timer
    · exact .inr ⟨by simpa using hb, howned.not_timers_of_loose (.inr hb),
        howned.not_active_of_loose (.inr hb)⟩
    · have hq : (⟨p, t.sequence⟩ : TimerId) ∈ s.activeTimers := by
        by_contra hq
        exact ((howned.loose p t ht).mp hq).elim hadd hb
      refine .inl ⟨(howned.entry _ p).mpr ⟨t, ht, rfl, hq⟩, hq, fun x hx hxp => hb ?_⟩
      exact List.mem_map.mpr ⟨x, hx, hxp⟩

end AcMuduo.TimerQueue
