import AcMuduo.TimerOwnership

namespace AcMuduo.TimerQueue

open Machine

variable {adding : Finset Addr} {batch : List Addr} {p : Addr} {t : Timer} {s : State}

theorem deref_eq (ht : s.heap p = some t) : deref s p = .ok t := by
  simp [deref, ht]

theorem delete_eq (ht : s.heap p = some t) :
    delete s p = .ok { s with heap := Function.update s.heap p none } := by
  simp [TimerQueue.delete, ht]

theorem insert_eq (h : Owned s.heap s.timers s.activeTimers adding (p :: batch))
    (ht : s.heap p = some t) :
    insert s p = .ok ({ s with
      timers := s.timers.insert ⟨t.expiration, p⟩
      activeTimers := s.activeTimers.insert ⟨p, t.sequence⟩ },
      earliestChanged s.timers t.expiration) := by
  have hloose : p ∈ adding ∨ p ∈ p :: batch := .inr (by simp)
  have hsize := (h.insert ht).size
  simp [TimerQueue.insert, deref_eq ht, h.size, h.not_timers_of_loose hloose,
    h.not_active_of_loose hloose, hsize, bind, Except.bind]

theorem addTimerInLoop_eq (h : Owned s.heap s.timers s.activeTimers adding (p :: batch))
    (ht : s.heap p = some t) :
    addTimerInLoop s p =
      let s' := { s with
        timers := s.timers.insert ⟨t.expiration, p⟩
        activeTimers := s.activeTimers.insert ⟨p, t.sequence⟩ }
      .ok (if earliestChanged s.timers t.expiration then resetTimerFd s' t.expiration else s') := by
  simp only [addTimerInLoop, insert_eq h ht, bind, Except.bind]
  split
  · simp [deref, ht]
  · rfl

theorem cancelInLoop_active (h : Owned s.heap s.timers s.activeTimers adding batch)
    (ht : s.heap p = some t) (hq : (⟨p, t.sequence⟩ : TimerId) ∈ s.activeTimers) :
    cancelInLoop s ⟨p, t.sequence⟩ = .ok { s with
      heap := Function.update s.heap p none
      timers := s.timers.erase ⟨t.expiration, p⟩
      activeTimers := s.activeTimers.erase ⟨p, t.sequence⟩ } := by
  have hentry := (h.entry t.expiration p).mpr ⟨t, ht, rfl, hq⟩
  have hsize := (h.cancel ht hq).size
  simp [cancelInLoop, TimerQueue.delete, deref_eq ht, ht, h.size, hq, hentry, hsize, bind,
    Except.bind]

theorem cancelInLoop_inactive (h : s.timers.size = s.activeTimers.size) {id : TimerId}
    (hid : id ∉ s.activeTimers) :
    cancelInLoop s id = .ok (if s.callingExpiredTimers then
      { s with cancelingTimers := s.cancelingTimers.insert id } else s) := by
  cases hc : s.callingExpiredTimers <;> simp [cancelInLoop, h, hid, hc, bind, Except.bind]

theorem eraseActive_fold {l : List Entry} (hnodup : (l.map Entry.timer).Nodup)
    (hlive : ∀ p q, (⟨p, q⟩ : TimerId) ∈ s.activeTimers → ∃ t, s.heap p = some t ∧ t.sequence = q)
    (hl : ∀ x ∈ l, ∃ t, s.heap x.timer = some t ∧
      (⟨x.timer, t.sequence⟩ : TimerId) ∈ s.activeTimers) :
    ∃ left, l.foldlM eraseActive s = .ok { s with activeTimers := left } ∧
      (∀ x, x ∈ left ↔ x ∈ s.activeTimers ∧ x.timer ∉ l.map Entry.timer) ∧
      left.size + l.length = s.activeTimers.size := by
  induction l generalizing s with
  | nil => exact ⟨s.activeTimers, rfl, by simp, rfl⟩
  | cons it l ih =>
    obtain ⟨t, ht, hq⟩ := hl it (by simp)
    obtain ⟨hnm, hnodup⟩ := List.nodup_cons.mp hnodup
    let s' := { s with activeTimers := s.activeTimers.erase ⟨it.timer, t.sequence⟩ }
    have hs' : eraseActive s it = .ok s' := by
      simp [eraseActive, deref_eq ht, hq, bind, Except.bind, s']
    have hlive' : ∀ p q, (⟨p, q⟩ : TimerId) ∈ s'.activeTimers →
        ∃ t, s'.heap p = some t ∧ t.sequence = q := fun p q h =>
      hlive p q (SortedSet.mem_erase.mp h).2
    have hl' : ∀ x ∈ l, ∃ t, s'.heap x.timer = some t ∧
        (⟨x.timer, t.sequence⟩ : TimerId) ∈ s'.activeTimers := by
      intro x hx
      obtain ⟨u, hu, hxq⟩ := hl x (by simp [hx])
      refine ⟨u, hu, SortedSet.mem_erase.mpr ⟨fun he => hnm ?_, hxq⟩⟩
      exact List.mem_map.mpr ⟨x, hx, (TimerId.mk.inj he).1⟩
    obtain ⟨left, hrun, hmem, hsize⟩ := ih hnodup hlive' hl'
    refine ⟨left, ?_, fun x => ?_, ?_⟩
    · rw [List.foldlM_cons, hs']
      exact hrun
    · rw [hmem, List.map_cons, List.mem_cons, not_or]
      have hx : x ∈ s.activeTimers → (x ≠ ⟨it.timer, t.sequence⟩ ↔ x.timer ≠ it.timer) := by
        intro hx
        refine not_congr ⟨fun he => he ▸ rfl, fun he => ?_⟩
        obtain ⟨u, hu, hseq⟩ := hlive x.timer x.sequence hx
        rw [he, ht] at hu
        cases hu
        cases x
        simp_all
      simp only [s', SortedSet.mem_erase]
      tauto
    · have := SortedSet.size_erase hq
      simp only [s', List.length_cons] at hsize ⊢
      omega

theorem getExpired_eq (h : Owned s.heap s.timers s.activeTimers adding []) (now : Int) :
    ∃ left, getExpired s now = .ok ({ s with
        timers := s.timers.dropBelow ⟨now, uintptrMax⟩, activeTimers := left },
        s.timers.below ⟨now, uintptrMax⟩) ∧
      Owned s.heap (s.timers.dropBelow ⟨now, uintptrMax⟩) left adding
        ((s.timers.below ⟨now, uintptrMax⟩).map Entry.timer) := by
  have hl : ∀ x ∈ s.timers.below ⟨now, uintptrMax⟩, ∃ t, s.heap x.timer = some t ∧
      (⟨x.timer, t.sequence⟩ : TimerId) ∈ s.activeTimers := by
    intro x hx
    obtain ⟨t, ht, _, hq⟩ := (h.entry x.expiration x.timer).mp (SortedSet.mem_below.mp hx).1
    exact ⟨t, ht, hq⟩
  obtain ⟨left, hrun, hleft, hsize⟩ := eraseActive_fold
    (s := { s with timers := s.timers.dropBelow ⟨now, uintptrMax⟩ })
    (h.nodup_below _) h.live hl
  have howned := h.expire hleft hsize
  have hfirst : ((s.timers.dropBelow ⟨now, uintptrMax⟩).first?.all
      fun e => now < e.expiration) = true := by
    rw [Option.all_eq_true]
    intro e hf
    obtain ⟨he, hle⟩ := SortedSet.mem_dropBelow.mp (SortedSet.first?_eq_some hf).1
    simpa using h.lt_of_sentry_le he hle
  refine ⟨left, ?_, howned⟩
  simp only [getExpired, h.size, decide_true, assert_true, hfirst, hrun, howned.size, bind,
    Except.bind]

/-- What the loop of `reset` leaves alone, and that it only adds entries not earlier than `now`. -/
structure Kept (now : Int) (s s' : State) : Prop where
  adding : s'.adding = s.adding
  timerFd : s'.timerFd = s.timerFd
  clock : s'.clock = s.clock
  pc : s'.pc = s.pc
  old : ∀ x ∈ s.timers, x ∈ s'.timers
  new : ∀ x ∈ s'.timers, x ∈ s.timers ∨ now ≤ x.expiration

theorem Kept.refl (now : Int) (s : State) : Kept now s s :=
  ⟨rfl, rfl, rfl, rfl, fun _ => id, fun _ => .inl⟩

theorem Kept.trans {now : Int} {s s' s'' : State} (h : Kept now s s') (h' : Kept now s' s'') :
    Kept now s s'' :=
  ⟨h'.adding.trans h.adding, h'.timerFd.trans h.timerFd, h'.clock.trans h.clock,
    h'.pc.trans h.pc, fun x hx => h'.old x (h.old x hx),
    fun x hx => (h'.new x hx).elim (h.new x) .inr⟩

theorem Timer.restart_expiration {now : Int} (hr : t.repeats = true) :
    now ≤ (t.restart now).expiration := by
  have hn := t.interval.micros_nonneg hr
  simp only [Timer.restart, hr, ↓reduceIte, addTime]
  omega

theorem Timer.restart_sequence {now : Int} : (t.restart now).sequence = t.sequence := by
  rw [Timer.restart]
  split <;> rfl

theorem resetOne_eq (now : Int) {it : Entry}
    (h : Owned s.heap s.timers s.activeTimers s.adding (it.timer :: batch)) :
    ∃ s', resetOne now s it = .ok s' ∧
      Owned s'.heap s'.timers s'.activeTimers s'.adding batch ∧ Kept now s s' := by
  obtain ⟨t, ht⟩ := Option.ne_none_iff_exists'.mp (h.allocated it.timer (.inr (by simp)))
  by_cases hr : t.repeats = true ∧ (⟨it.timer, t.sequence⟩ : TimerId) ∉ s.cancelingTimers
  · have hrestart := h.restart ht (u := t.restart now) Timer.restart_sequence
    have hself : Function.update s.heap it.timer (some (t.restart now)) it.timer =
        some (t.restart now) := by simp
    have hins := insert_eq
      (s := { s with heap := Function.update s.heap it.timer (some (t.restart now)) })
      hrestart hself
    refine ⟨{ s with
      heap := Function.update s.heap it.timer (some (t.restart now))
      timers := s.timers.insert ⟨(t.restart now).expiration, it.timer⟩
      activeTimers := s.activeTimers.insert ⟨it.timer, (t.restart now).sequence⟩ },
      ?_, hrestart.insert hself, ⟨rfl, rfl, rfl, rfl, ?_, ?_⟩⟩
    · simp only [resetOne, deref_eq ht, hr, hins, not_false_eq_true, and_self, ↓reduceIte, bind,
        Except.bind]
    · intro x hx
      exact SortedSet.mem_insert.mpr (.inr hx)
    · intro x hx
      cases SortedSet.mem_insert.mp hx with
      | inl heq =>
        subst heq
        exact .inr (Timer.restart_expiration hr.1)
      | inr hx => exact .inl hx
  · refine ⟨{ s with heap := Function.update s.heap it.timer none }, ?_, h.delete,
      ⟨rfl, rfl, rfl, rfl, fun _ => id, fun _ => .inl⟩⟩
    simp only [resetOne, deref_eq ht, hr, ↓reduceIte, delete_eq ht, bind, Except.bind]

theorem resetOne_fold (now : Int) (l : List Entry)
    (h : Owned s.heap s.timers s.activeTimers s.adding (l.map Entry.timer)) :
    ∃ s', l.foldlM (resetOne now) s = .ok s' ∧
      Owned s'.heap s'.timers s'.activeTimers s'.adding [] ∧ Kept now s s' := by
  induction l generalizing s with
  | nil => exact ⟨s, rfl, h, .refl now s⟩
  | cons it l ih =>
    obtain ⟨s₁, hone, howned, hkept⟩ := resetOne_eq now h
    obtain ⟨s₂, hrun, howned', hkept'⟩ := ih howned
    refine ⟨s₂, ?_, howned', hkept.trans hkept'⟩
    rw [List.foldlM_cons, hone]
    exact hrun

def nextExpire (timers : SortedSet Entry) : Int :=
  match timers.first? with
  | none => 0
  | some e => e.expiration

theorem rearm_eq (h : Owned s.heap s.timers s.activeTimers adding batch) :
    rearm s =
      .ok (if 0 < nextExpire s.timers then resetTimerFd s (nextExpire s.timers) else s) := by
  cases hf : s.timers.first? with
  | none => simp [rearm, nextExpire, hf, bind, Except.bind]
  | some e =>
    obtain ⟨t, ht, hexp, _⟩ :=
      (h.entry e.expiration e.timer).mp (SortedSet.first?_eq_some hf).1
    simp only [rearm, nextExpire, hf, deref_eq ht, hexp, bind, Except.bind]
    split <;> rfl

end AcMuduo.TimerQueue
