import AcMuduo.TimerInvariant

namespace AcMuduo.TimerQueue

open Machine

def idAt (s : State) (p : Addr) : Option TimerId := (s.heap p).map fun t => ⟨p, t.sequence⟩

def called (s : State) (e : Event) (_ : State) : List TimerId :=
  match e, s.pc with
  | .call, .running _ _ (it :: _) => (idAt s it.timer).toList
  | _, _ => []

def inserted (s : State) (e : Event) (_ : State) : List TimerId :=
  match e with
  | .add p => (idAt s p).toList
  | _ => []

def cancelled (_ : State) (e : Event) (_ : State) : List TimerId :=
  match e with
  | .cancel id => [id]
  | _ => []

def Alive (s : State) (id : TimerId) : Prop := idAt s id.timer = some id

instance (s : State) (id : TimerId) : Decidable (Alive s id) :=
  inferInstanceAs (Decidable (idAt s id.timer = some id))

variable {s t u : State} {e : Event} {p : Addr} {id : TimerId} {now : Int}

theorem alive_iff : Alive s id ↔ ∃ x, s.heap id.timer = some x ∧ x.sequence = id.sequence := by
  cases id
  simp [Alive, idAt]

theorem idAt_eq_some : idAt s p = some id ↔ Alive s id ∧ id.timer = p := by
  constructor
  · intro h
    have hp : id.timer = p := by
      obtain ⟨x, _, hx⟩ := Option.map_eq_some_iff.mp h
      exact hx ▸ rfl
    exact ⟨by rwa [Alive, hp], hp⟩
  · rintro ⟨h, rfl⟩
    exact h

def afterReset (now : Int) (canceling : SortedSet TimerId) (p : Addr) (x : Timer) : Option Timer :=
  if x.repeats ∧ ⟨p, x.sequence⟩ ∉ canceling then some (x.restart now) else none

theorem afterReset_sequence {canceling : SortedSet TimerId} {x y : Timer}
    (h : afterReset now canceling p x = some y) :
    y.sequence = x.sequence ∧ ⟨p, x.sequence⟩ ∉ canceling := by
  rw [afterReset] at h
  split at h
  · rename_i hr
    cases h
    exact ⟨Timer.restart_sequence, hr.2⟩
  · cases h

structure SameNotes (s s' : State) : Prop where
  numCreated : s'.numCreated = s.numCreated
  callingExpiredTimers : s'.callingExpiredTimers = s.callingExpiredTimers
  cancelingTimers : s'.cancelingTimers = s.cancelingTimers

theorem insert_heap {b : Bool} (h : insert s p = .ok (t, b)) :
    t.heap = s.heap ∧ SameNotes s t := by
  simp only [TimerQueue.insert, bind_eq_ok, Except.ok.injEq, Prod.mk.injEq] at h
  obtain ⟨_, _, x, _, _, _, _, _, _, _, rfl, _⟩ := h
  exact ⟨rfl, rfl, rfl, rfl⟩

theorem resetOne_heap {it : Entry} {x : Timer} (hx : s.heap it.timer = some x)
    (h : resetOne now s it = .ok t) :
    t.heap = Function.update s.heap it.timer (afterReset now s.cancelingTimers it.timer x) ∧
      SameNotes s t := by
  simp only [resetOne, deref_eq hx, bind, Except.bind] at h
  split at h
  · rename_i hr
    split at h
    · cases h
    · rename_i y hins
      cases h
      obtain ⟨hheap, hnotes⟩ := insert_heap hins
      exact ⟨by rw [hheap, afterReset, if_pos hr], hnotes.1, hnotes.2, hnotes.3⟩
  · rename_i hr
    rw [delete_eq hx, Except.ok.injEq] at h
    subst h
    exact ⟨by rw [afterReset, if_neg hr], rfl, rfl, rfl⟩

theorem resetOne_fold_heap {l : List Entry} (hnodup : (l.map Entry.timer).Nodup)
    (hl : ∀ it ∈ l, s.heap it.timer ≠ none) (h : l.foldlM (resetOne now) s = .ok t) :
    (∀ it ∈ l, ∀ x, s.heap it.timer = some x →
      t.heap it.timer = afterReset now s.cancelingTimers it.timer x) ∧
    (∀ p, p ∉ l.map Entry.timer → t.heap p = s.heap p) ∧ SameNotes s t := by
  induction l generalizing s with
  | nil =>
    cases h
    exact ⟨by simp, fun _ _ => rfl, rfl, rfl, rfl⟩
  | cons it l ih =>
    obtain ⟨hnm, hnodup⟩ := List.nodup_cons.mp hnodup
    obtain ⟨x, hx⟩ := Option.ne_none_iff_exists'.mp (hl it (by simp))
    rw [List.foldlM_cons] at h
    obtain ⟨s₁, hone, hrest⟩ := bind_eq_ok.mp h
    obtain ⟨hheap, hnotes⟩ := resetOne_heap hx hone
    have hne : ∀ it' ∈ l, it'.timer ≠ it.timer := fun it' hit' he =>
      hnm (he ▸ List.mem_map_of_mem hit')
    have hsame : ∀ p, p ≠ it.timer → s₁.heap p = s.heap p := fun p hp => by
      rw [hheap, Function.update_of_ne hp]
    obtain ⟨hdue, hother, hnotes'⟩ := ih hnodup
      (fun it' hit' => by rw [hsame _ (hne it' hit')]; exact hl it' (by simp [hit'])) hrest
    refine ⟨fun it' hit' y hy => ?_, fun p hp => ?_, ?_⟩
    · cases List.mem_cons.mp hit' with
      | inl heq =>
        subst heq
        rw [hx, Option.some.injEq] at hy
        rw [hother _ hnm, hheap, Function.update_self, hy]
      | inr hit' =>
        rw [← hsame _ (hne it' hit')] at hy
        rw [hdue it' hit' y hy, hnotes.cancelingTimers]
    · rw [List.map_cons, List.mem_cons, not_or] at hp
      rw [hother p hp.2, hsame p hp.1]
    · exact ⟨hnotes'.1.trans hnotes.1, hnotes'.2.trans hnotes.2, hnotes'.3.trans hnotes.3⟩

def Pc.inBatch : Pc → Bool
  | .running _ _ _ | .calling _ _ _ => true
  | _ => false

/-- The ownership, and what the queue's notes tell. -/
structure Good (s : State) : Prop where
  inv : Inv s
  bound : ∀ p x, s.heap p = some x → x.sequence ≤ s.numCreated
  calling : s.pc.inBatch = true → s.callingExpiredTimers = true
  suffix : s.pc.rest <:+ s.pc.batch

theorem good_init (c : Int) : Good (.init c) :=
  ⟨inv_init c, (fun _ _ h => nomatch h), (fun h => nomatch h), List.suffix_refl _⟩

theorem finish_effect {expired : List Entry} (hs : Inv s) (hpc : s.pc = .running now expired [])
    (h : step s .finish = .ok t) :
    (∀ it ∈ expired, ∀ x, s.heap it.timer = some x →
      t.heap it.timer = afterReset now s.cancelingTimers it.timer x) ∧
    (∀ p, p ∉ expired.map Entry.timer → t.heap p = s.heap p) ∧
    (∀ e ∈ s.timers, e ∈ t.timers) ∧ t.adding = s.adding ∧ t.numCreated = s.numCreated ∧
    t.pc = .idle := by
  have howned := hs.owned
  rw [hpc] at howned
  obtain ⟨s', hrun, howned', hkept⟩ := resetOne_fold now expired
    (s := { s with callingExpiredTimers := false, pc := .idle }) howned
  obtain ⟨hdue, hother, hnotes⟩ := resetOne_fold_heap
    (s := { s with callingExpiredTimers := false, pc := .idle }) howned.nodup
    (fun it hit => howned.allocated _ (.inr (List.mem_map_of_mem hit))) hrun
  simp only [step, hpc, reset, hrun, rearm_eq howned', bind, Except.bind, Except.ok.injEq] at h
  obtain ⟨fd, rfl⟩ : ∃ fd, t = { s' with timerFd := fd } := by
    subst h
    split
    · exact ⟨_, rfl⟩
    · exact ⟨s'.timerFd, rfl⟩
  exact ⟨hdue, hother, hkept.old, hkept.adding, hnotes.numCreated, hkept.pc⟩

theorem added_eq (s : State) (p : Addr) (x : Timer) : ∃ fd, added s p x = { s with
    adding := s.adding.erase p
    timers := s.timers.insert ⟨x.expiration, p⟩
    activeTimers := s.activeTimers.insert ⟨p, x.sequence⟩
    timerFd := fd } := by
  unfold added
  dsimp only
  split
  · exact ⟨_, rfl⟩
  · exact ⟨s.timerFd, rfl⟩

theorem step_heap (hs : Inv s) (h : step s e = .ok t) {x : Timer} (hx : t.heap p = some x) :
    (∃ y, s.heap p = some y ∧ y.sequence = x.sequence) ∨
      s.heap p = none ∧ x.sequence = s.numCreated + 1 ∧ t.numCreated = s.numCreated + 1 ∧
        p ∈ t.adding := by
  cases move_of_step hs h with
  | @alloc q _ _ hq _ =>
    by_cases hpq : p = q
    · subst hpq
      simp only [Function.update_self, Option.some.injEq] at hx
      subst hx
      exact .inr ⟨hq, rfl, rfl, by simp⟩
    · exact .inl ⟨x, by simpa [Function.update_of_ne hpq] using hx, rfl⟩
  | @add q y _ _ _ =>
    obtain ⟨fd, hadd⟩ := added_eq s q y
    rw [hadd] at hx
    exact .inl ⟨x, hx, rfl⟩
  | @cancelActive q _ _ _ _ =>
    by_cases hpq : p = q
    · simp [hpq] at hx
    · exact .inl ⟨x, by simpa [Function.update_of_ne hpq] using hx, rfl⟩
  | expire _ _ =>
    obtain ⟨fd, hfd⟩ := readTimerFd_eq s
    rw [hfd] at hx
    exact .inl ⟨x, hx, rfl⟩
  | @finish now expired _ hpc _ _ =>
    obtain ⟨hdue, hother, _⟩ := finish_effect hs hpc h
    by_cases hp : p ∈ expired.map Entry.timer
    · obtain ⟨it, hit, rfl⟩ := List.mem_map.mp hp
      have howned := hs.owned
      rw [hpc] at howned
      obtain ⟨y, hy⟩ := Option.ne_none_iff_exists'.mp (howned.allocated _ (.inr hp))
      rw [hdue it hit y hy] at hx
      exact .inl ⟨y, hy, (afterReset_sequence hx).1.symm⟩
    · rw [hother p hp] at hx
      exact .inl ⟨x, hx, rfl⟩
  | tick | cancelNoted _ _ _ | cancelIgnored _ _ _ | handleRead _ | call _ | ret _ =>
    exact .inl ⟨x, hx, rfl⟩

theorem step_numCreated (hs : Inv s) (h : step s e = .ok t) : s.numCreated ≤ t.numCreated := by
  cases move_of_step hs h with
  | alloc _ _ => exact Int.le_add_one le_rfl
  | @add q y _ _ _ =>
    obtain ⟨fd, hadd⟩ := added_eq s q y
    rw [hadd]
  | expire _ _ =>
    obtain ⟨fd, hfd⟩ := readTimerFd_eq s
    rw [hfd]
  | finish hpc _ _ => exact (finish_effect hs hpc h).2.2.2.2.1.ge
  | _ => exact le_rfl

theorem alive_of_step (hs : Inv s) (hid : id.sequence ≤ s.numCreated) (h : step s e = .ok t)
    (ht : Alive t id) : Alive s id := by
  obtain ⟨x, hx, hseq⟩ := alive_iff.mp ht
  cases step_heap hs h hx with
  | inl hold =>
    obtain ⟨y, hy, heq⟩ := hold
    exact alive_iff.mpr ⟨y, hy, heq.trans hseq⟩
  | inr hnew =>
    have := hnew.2.1
    omega

/-- The step deletes the timer at `p`: `cancel_in_loop` finds it, or `reset` does not put it back. -/
def Deletes (s : State) (e : Event) (p : Addr) : Prop :=
  match e with
  | .cancel id => id ∈ s.activeTimers ∧ id.timer = p
  | .finish => p ∈ s.pc.batch.map Entry.timer ∧
    ∃ x ∈ s.heap p, ¬ (x.repeats ∧ ⟨p, x.sequence⟩ ∉ s.cancelingTimers)
  | _ => False

instance (s : State) (e : Event) (p : Addr) : Decidable (Deletes s e p) :=
  match e with
  | .cancel id => inferInstanceAs (Decidable (id ∈ s.activeTimers ∧ id.timer = p))
  | .finish => inferInstanceAs (Decidable (p ∈ s.pc.batch.map Entry.timer ∧
    ∃ x ∈ s.heap p, ¬ (x.repeats ∧ ⟨p, x.sequence⟩ ∉ s.cancelingTimers)))
  | .alloc _ _ _ | .tick _ | .add _ | .handleRead | .expire | .call | .ret =>
    inferInstanceAs (Decidable False)

theorem alive_of_not_deletes (hs : Inv s) (hid : Alive s id) (hdel : ¬ Deletes s e id.timer)
    (h : step s e = .ok t) : Alive t id := by
  obtain ⟨x, hx, hseq⟩ := alive_iff.mp hid
  cases move_of_step hs h with
  | @alloc q _ _ hq _ =>
    have hne : id.timer ≠ q := by
      rintro rfl
      rw [hq] at hx
      cases hx
    exact alive_iff.mpr ⟨x, (Function.update_of_ne hne _ _).trans hx, hseq⟩
  | @add q y _ _ _ =>
    obtain ⟨fd, hadd⟩ := added_eq s q y
    rw [hadd]
    exact hid
  | @cancelActive q y _ _ hq =>
    have hne : id.timer ≠ q := fun he => hdel ⟨hq, he.symm⟩
    exact alive_iff.mpr ⟨x, (Function.update_of_ne hne _ _).trans hx, hseq⟩
  | expire _ _ =>
    obtain ⟨fd, hfd⟩ := readTimerFd_eq s
    rw [hfd]
    exact hid
  | @finish now expired _ hpc _ _ =>
    obtain ⟨hdue, hother, _⟩ := finish_effect hs hpc h
    by_cases hp : id.timer ∈ expired.map Entry.timer
    · obtain ⟨it, hit, hitp⟩ := List.mem_map.mp hp
      have hback : x.repeats ∧ ⟨id.timer, x.sequence⟩ ∉ s.cancelingTimers := by
        by_contra hback
        refine hdel ⟨?_, x, hx, hback⟩
        rw [hpc]
        exact hp
      have ht := hdue it hit x (hitp ▸ hx)
      rw [hitp, afterReset, if_pos hback] at ht
      exact alive_iff.mpr ⟨_, ht, Timer.restart_sequence.trans hseq⟩
    · exact alive_iff.mpr ⟨x, (hother _ hp).trans hx, hseq⟩
  | tick | cancelNoted _ _ _ | cancelIgnored _ _ _ | handleRead _ | call _ | ret _ => exact hid

theorem good_step (hs : Good s) (h : step s e = .ok t) : Good t := by
  have hmove := move_of_step hs.inv h
  have hbound : ∀ p x, t.heap p = some x → x.sequence ≤ t.numCreated := by
    intro p x hx
    cases step_heap hs.inv h hx with
    | inl hold =>
      obtain ⟨y, hy, heq⟩ := hold
      exact heq ▸ (hs.bound p y hy).trans (step_numCreated hs.inv h)
    | inr hnew => exact (hnew.2.1.trans hnew.2.2.1.symm).le
  refine ⟨hmove.inv hs.inv, hbound, fun hb => ?_, ?_⟩
  · cases hmove with
    | @add q y _ _ _ =>
      obtain ⟨fd, hadd⟩ := added_eq s q y
      rw [hadd] at hb ⊢
      exact hs.calling hb
    | expire _ _ => rfl
    | handleRead _ => cases hb
    | call hpc | ret hpc => exact hs.calling (by rw [hpc]; rfl)
    | finish hpc _ _ =>
      rw [(finish_effect hs.inv hpc h).2.2.2.2.2] at hb
      cases hb
    | _ => exact hs.calling hb
  · have hsuffix := hs.suffix
    cases hmove with
    | @add q y _ _ _ =>
      obtain ⟨fd, hadd⟩ := added_eq s q y
      rw [hadd]
      exact hsuffix
    | expire _ _ => exact List.suffix_refl _
    | handleRead _ => exact List.suffix_refl _
    | call hpc =>
      rw [hpc] at hsuffix
      exact (List.suffix_cons _ _).trans hsuffix
    | ret hpc =>
      rw [hpc] at hsuffix
      exact hsuffix
    | finish hpc _ _ =>
      rw [(finish_effect hs.inv hpc h).2.2.2.2.2]
      exact List.suffix_refl _
    | _ => exact hsuffix

theorem good_run {es : List Event} (hs : Good s) (h : run step s es = .ok t) :
    Good t ∧ s.numCreated ≤ t.numCreated :=
  run_invariant (I := fun t => Good t ∧ s.numCreated ≤ t.numCreated)
    (fun _ _ _ h ht => ⟨good_step h.1 ht, h.2.trans (step_numCreated h.1.inv ht)⟩)
    ⟨hs, le_rfl⟩ h

theorem run_good {c : Int} {es : List Event} (h : run step (.init c) es = .ok s) : Good s :=
  run_invariant (fun _ _ _ => good_step) (good_init c) h

theorem adding_of_step (hs : Inv s) (h : step s e = .ok t) (hp : p ∈ t.adding) :
    p ∈ s.adding ∨ s.heap p = none := by
  cases move_of_step hs h with
  | alloc hq _ =>
    cases Finset.mem_insert.mp hp with
    | inl heq => exact .inr (heq ▸ hq)
    | inr hp => exact .inl hp
  | @add q y _ _ _ =>
    obtain ⟨fd, hadd⟩ := added_eq s q y
    rw [hadd] at hp
    exact .inl (Finset.mem_of_mem_erase hp)
  | expire _ _ =>
    obtain ⟨fd, hfd⟩ := readTimerFd_eq s
    rw [hfd] at hp
    exact .inl hp
  | finish hpc _ _ =>
    rw [(finish_effect hs hpc h).2.2.2.1] at hp
    exact .inl hp
  | _ => exact .inl hp

theorem inUserCode_of_cancel (h : step s (.cancel id) = .ok t) : s.pc.inUserCode = true := by
  simp only [step] at h
  split at h
  · assumption
  · cases h

structure Received (s : State) (id : TimerId) : Prop where
  numbered : id.sequence ≤ s.numCreated
  notAdding : Alive s id → id.timer ∉ s.adding

theorem received_step (hr : Received s id) (hs : Good s) (h : step s e = .ok t) :
    Received t id := by
  refine ⟨hr.numbered.trans (step_numCreated hs.inv h), fun halive hadding => ?_⟩
  have hold := alive_of_step hs.inv hr.numbered h halive
  obtain ⟨x, hx, _⟩ := alive_iff.mp hold
  cases adding_of_step hs.inv h hadding with
  | inl hp => exact hr.notAdding hold hp
  | inr hp =>
    rw [hp] at hx
    cases hx

theorem adding_of_inserted (hs : Inv s) (h : step s e = .ok t) (hid : id ∈ inserted s e t) :
    Alive s id ∧ id.timer ∈ s.adding := by
  cases e with
  | add p =>
    obtain ⟨halive, rfl⟩ := idAt_eq_some.mp (Option.mem_toList.mp hid)
    cases move_of_step hs h with
    | add _ hp _ => exact ⟨halive, hp⟩
  | _ => cases hid

theorem received_of_inserted (hs : Good s) (h : step s e = .ok t) (hid : id ∈ inserted s e t) :
    Received t id := by
  cases e with
  | add p =>
    obtain ⟨halive, rfl⟩ := idAt_eq_some.mp (Option.mem_toList.mp hid)
    obtain ⟨x, hx, hseq⟩ := alive_iff.mp halive
    refine ⟨?_, fun _ => ?_⟩
    · exact hseq ▸ (hs.bound _ x hx).trans (step_numCreated hs.inv h)
    · cases move_of_step hs.inv h with
      | @add q y _ _ _ =>
        obtain ⟨fd, hadd⟩ := added_eq s id.timer y
        rw [hadd]
        exact Finset.notMem_erase _ _
  | _ => cases hid

theorem run_inserted {c : Int} {es : List Event} (hrun : run step (.init c) es = .ok s)
    (hid : id ∈ observe step inserted (.init c) es) : Received s id := by
  have hstep : ∀ h a e b, (Good a ∧ ∀ id ∈ h, Received a id) → True → step a e = .ok b →
      Good b ∧ ∀ id ∈ h ++ inserted a e b, Received b id := by
    rintro h a e b ⟨ha, hold⟩ - hab
    refine ⟨good_step ha hab, fun id hid => ?_⟩
    cases List.mem_append.mp hid with
    | inl hid => exact received_step (hold id hid) ha hab
    | inr hid => exact received_of_inserted ha hab hid
  exact (run_observed hstep ⟨good_init c, fun _ h => nomatch h⟩ throughout_true hrun).2 id hid

/-- No step inserts a timer that was received before. -/
theorem not_inserted_of_received {es : List Event} (hs : Good s) (hr : Received s id)
    (hrun : run step s es = .ok t) : id ∉ observe step inserted s es := by
  have hstep : ∀ h a e b, (Good a ∧ Received a id ∧ id ∉ h) → True → step a e = .ok b →
      Good b ∧ Received b id ∧ id ∉ h ++ inserted a e b := by
    rintro h a e b ⟨ha, hr, hid⟩ - hab
    refine ⟨good_step ha hab, received_step hr ha hab, fun hmem => ?_⟩
    cases List.mem_append.mp hmem with
    | inl hold => exact hid hold
    | inr hnew =>
      obtain ⟨halive, hadding⟩ := adding_of_inserted ha.inv hab hnew
      exact hr.notAdding halive hadding
  exact (run_observed hstep ⟨hs, hr, List.not_mem_nil⟩ throughout_true hrun).2.2

end AcMuduo.TimerQueue
