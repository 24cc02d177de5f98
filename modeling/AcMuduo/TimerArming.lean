import AcMuduo.TimerInvariant

namespace AcMuduo.TimerQueue

open Machine

variable {fd : TimerFd} {s t : State} {e : Event}

/-- The timerfd has fired unread or will fire, in time for `x` or within 100 microseconds of its
setting. -/
def Covers (fd : TimerFd) (x : Int) : Prop :=
  ∃ a, fd.armed = some a ∧ a.deadline ≤ max x (a.setAt + 100)

theorem Covers.mono {x y : Int} (h : Covers fd x) (hxy : x ≤ y) : Covers fd y := by
  obtain ⟨a, ha, hd⟩ := h
  exact ⟨a, ha, hd.trans (max_le_max_right _ hxy)⟩

/-- A value that `timerfd_settime` takes as a time and not as a request to disarm. -/
def Timespec.Arms (v : Timespec) : Prop :=
  (v.sec ≠ 0 ∨ v.nsec ≠ 0) ∧ 0 ≤ v.nsec ∧ v.nsec < 1000000000

theorem howMuchTimeFromNow_eq (x now : Int) :
    let v := howMuchTimeFromNow x now
    v.Arms ∧ 0 ≤ v.sec ∧ v.sec * kMicroSecondsPerSecond + v.nsec.tdiv 1000 = max 100 (x - now) := by
  have hmicros : (if x - now < 100 then 100 else x - now) = max 100 (x - now) := by
    split <;> omega
  obtain ⟨m, hm⟩ := Int.eq_ofNat_of_zero_le (show 0 ≤ max 100 (x - now) by omega)
  have hpos : 100 ≤ (m : Int) := by omega
  simp only [howMuchTimeFromNow, hmicros, hm, kMicroSecondsPerSecond, Timespec.Arms]
  rw [Int.tdiv_eq_ediv_of_nonneg (by omega), Int.tmod_eq_emod_of_nonneg (by omega),
    Int.tdiv_eq_ediv_of_nonneg (by omega)]
  omega

theorem resetTimerFd_covers (s : State) (x : Int) : Covers (resetTimerFd s x).timerFd x := by
  obtain ⟨⟨hnz, hn, hlt⟩, hsec, hsum⟩ := howMuchTimeFromNow_eq x s.clock
  refine ⟨⟨s.clock, s.clock + max 100 (x - s.clock)⟩, ?_, by dsimp only; omega⟩
  rw [← hsum]
  simp only [resetTimerFd, timerfdSettime]
  rw [if_neg (by omega), if_neg (by omega), Int.add_assoc]

theorem resetTimerFd_settimes (s : State) (x : Int) :
    (resetTimerFd s x).timerFd.settimes =
      s.timerFd.settimes ++ [howMuchTimeFromNow x s.clock] := by
  simp only [resetTimerFd, timerfdSettime]
  split
  · rfl
  · split <;> rfl

theorem readTimerFd_settimes (s : State) :
    (readTimerFd s).timerFd.settimes = s.timerFd.settimes := by
  rw [readTimerFd]
  split <;> rfl

theorem nextExpire_le {timers : SortedSet Entry} {x : Entry} (hx : x ∈ timers) :
    ∃ y ∈ timers, nextExpire timers = y.expiration ∧ y.expiration ≤ x.expiration := by
  cases hf : timers.first? with
  | none => exact absurd hx (SortedSet.first?_eq_none.mp hf x)
  | some y =>
    obtain ⟨hy, hle⟩ := SortedSet.first?_eq_some hf
    refine ⟨y, hy, by rw [nextExpire, hf], ?_⟩
    cases Entry.le_iff.mp (hle x hx) with
    | inl hlt => exact hlt.le
    | inr h => exact h.1.le

theorem earliestChanged_iff {timers : SortedSet Entry} {x : Int} :
    earliestChanged timers x = true ↔ ∀ y ∈ timers, x < y.expiration := by
  rw [earliestChanged]
  cases hf : timers.first? with
  | none => simp [SortedSet.first?_eq_none.mp hf]
  | some y =>
    obtain ⟨hy, hle⟩ := SortedSet.first?_eq_some hf
    simp only [Option.all_some, decide_eq_true_eq]
    refine ⟨fun h z hz => ?_, fun h => h y hy⟩
    cases Entry.le_iff.mp (hle z hz) with
    | inl hlt => exact h.trans hlt
    | inr heq => exact heq.1 ▸ h

/-- The expirations that the timerfd has to cover. While a batch is being run only those that
`reset` takes for invalid, since for the others `reset` sets the timerfd again. -/
def Pc.mustCover : Pc → Int → Prop
  | .idle, _ | .reading _, _ => True
  | .running _ _ _, x | .calling _ _ _, x => x ≤ 0

theorem Pc.mustCover_mono {pc : Pc} {x y : Int} (h : pc.mustCover y) (hxy : x ≤ y) :
    pc.mustCover x := by
  cases pc with
  | idle => trivial
  | reading now => trivial
  | running now expired rest => exact hxy.trans h
  | calling now expired rest => exact hxy.trans h

def Pc.now? : Pc → Option Int
  | .idle => none
  | .reading now | .running now _ _ | .calling now _ _ => some now

structure FdInv (s : State) : Prop where
  clock : 0 < s.clock
  now : ∀ now, s.pc.now? = some now → 0 < now
  covers : ∀ x ∈ s.timers, s.pc.mustCover x.expiration → Covers s.timerFd x.expiration
  settimes : ∀ v ∈ s.timerFd.settimes, v.Arms

theorem fdInv_init {c : Int} (hc : 0 < c) : FdInv (.init c) :=
  ⟨hc, by simp [State.init, Pc.now?], by simp [State.init], by simp [State.init]⟩

theorem fdInv_resetTimerFd {x : Int} (hclock : 0 < s.clock)
    (hnow : ∀ now, s.pc.now? = some now → 0 < now) (hset : ∀ v ∈ s.timerFd.settimes, v.Arms)
    (hx : ∀ y ∈ s.timers, x ≤ y.expiration) : FdInv (resetTimerFd s x) := by
  refine ⟨hclock, hnow, fun y hy _ => (resetTimerFd_covers s x).mono (hx y hy), ?_⟩
  rw [resetTimerFd_settimes]
  intro v hv
  cases List.mem_append.mp hv with
  | inl hv => exact hset v hv
  | inr hv => exact List.mem_singleton.mp hv ▸ (howMuchTimeFromNow_eq x s.clock).1

theorem FdInv.added (hs : FdInv s) {p : Addr} {u : Timer} : FdInv (added s p u) := by
  rw [TimerQueue.added]
  by_cases hc : earliestChanged s.timers u.expiration = true
  · rw [if_pos hc]
    have hlt := earliestChanged_iff.mp hc
    refine fdInv_resetTimerFd hs.clock hs.now hs.settimes fun y hy => ?_
    cases SortedSet.mem_insert.mp hy with
    | inl heq =>
      subst heq
      exact le_rfl
    | inr hy => exact (hlt y hy).le
  · rw [if_neg hc]
    rw [earliestChanged_iff] at hc
    push Not at hc
    obtain ⟨y, hy, hle⟩ := hc
    refine ⟨hs.clock, hs.now, fun x hx hm => ?_, hs.settimes⟩
    cases SortedSet.mem_insert.mp hx with
    | inl heq =>
      subst heq
      exact (hs.covers y hy (Pc.mustCover_mono hm hle)).mono hle
    | inr hx => exact hs.covers x hx hm

theorem FdInv.rearmed {s' : State} (hclock : 0 < s'.clock) (hpc : s'.pc = .idle)
    (hset : ∀ v ∈ s'.timerFd.settimes, v.Arms)
    (hold : ∀ y ∈ s'.timers, y.expiration ≤ 0 → Covers s'.timerFd y.expiration) :
    FdInv (rearmed s') := by
  have hidle : ∀ n, s'.pc.now? = some n → 0 < n := by
    rw [hpc]
    exact fun n hn => nomatch hn
  rw [TimerQueue.rearmed]
  by_cases hnext : 0 < nextExpire s'.timers
  · rw [if_pos hnext]
    refine fdInv_resetTimerFd hclock hidle hset fun x hx => ?_
    obtain ⟨y, _, heq, hle⟩ := nextExpire_le hx
    exact heq ▸ hle
  · rw [if_neg hnext]
    refine ⟨hclock, hidle, fun x hx _ => ?_, hset⟩
    obtain ⟨y, hy, heq, hle⟩ := nextExpire_le hx
    exact (hold y hy (by omega)).mono hle

theorem Move.fdInv (h : Move s e t) (hs : FdInv s) (howned : Inv s)
    (htick : ∀ c, e = .tick c → 0 < c) : FdInv t := by
  cases h with
  | alloc hp hmax => exact ⟨hs.clock, hs.now, hs.covers, hs.settimes⟩
  | @tick c => exact ⟨htick c rfl, hs.now, hs.covers, hs.settimes⟩
  | add hpc hp ht => exact hs.added
  | cancelActive hpc ht hq =>
    exact ⟨hs.clock, hs.now, fun x hx => hs.covers x (SortedSet.mem_erase.mp hx).2, hs.settimes⟩
  | cancelNoted hpc hid hcalling => exact ⟨hs.clock, hs.now, hs.covers, hs.settimes⟩
  | cancelIgnored hpc hid hcalling => exact hs
  | handleRead hpc =>
    refine ⟨hs.clock, fun now hnow => ?_, fun x hx _ => hs.covers x hx (by rw [hpc]; trivial),
      hs.settimes⟩
    cases hnow
    exact hs.clock
  | @expire now left hpc _ =>
    obtain ⟨fd, hfd⟩ := readTimerFd_eq s
    have hnow := hs.now now (by rw [hpc, Pc.now?])
    refine ⟨?_, fun n hn => ?_, fun x hx hm => ?_, ?_⟩
    · rw [hfd]
      exact hs.clock
    · cases hn
      exact hnow
    · obtain ⟨hx, hle⟩ := SortedSet.mem_dropBelow.mp hx
      exact absurd (hnow.trans (howned.owned.lt_of_sentry_le hx hle)) (not_lt.mpr hm)
    · have := readTimerFd_settimes s
      exact this ▸ hs.settimes
  | call hpc =>
    have hnow := hs.now
    have hcovers := hs.covers
    rw [hpc] at hnow hcovers
    exact ⟨hs.clock, hnow, hcovers, hs.settimes⟩
  | ret hpc =>
    have hnow := hs.now
    have hcovers := hs.covers
    rw [hpc] at hnow hcovers
    exact ⟨hs.clock, hnow, hcovers, hs.settimes⟩
  | @finish now expired s' hpc _ hkept =>
    have hnow := hs.now now (by rw [hpc, Pc.now?])
    refine FdInv.rearmed (by rw [hkept.clock]; exact hs.clock) hkept.pc
      (by rw [hkept.timerFd]; exact hs.settimes) fun y hy hle => ?_
    have hys : y ∈ s.timers := (hkept.new y hy).resolve_right (by omega)
    rw [hkept.timerFd]
    exact hs.covers y hys (by rw [hpc]; exact hle)

/-- In every run with a positive clock, whenever the loop thread is outside the timer queue and
timers wait, the timerfd has fired unread or will fire, not later than the earliest of them and
100 microseconds from its setting; and every value it is set to is a valid time. -/
theorem timerfd_armed {c : Int} {es : List Event} (hc : 0 < c)
    (hticks : ∀ t, Event.tick t ∈ es → 0 < t) (hrun : run step (.init c) es = .ok s) :
    (s.pc = .idle → ∀ x, s.timers.first? = some x →
      ∃ a, s.timerFd.armed = some a ∧ a.deadline ≤ max x.expiration (a.setAt + 100)) ∧
    ∀ v ∈ s.timerFd.settimes, (v.sec ≠ 0 ∨ v.nsec ≠ 0) ∧ 0 ≤ v.nsec ∧ v.nsec < 1000000000 := by
  have hinv : Inv s ∧ FdInv s := by
    have hpos : Throughout step (fun _ e => ∀ t, e = .tick t → 0 < t) (.init c) es :=
      throughout_of_forall fun e he t (het : e = .tick t) => hticks t (het ▸ he)
    refine run_invariant_of (I := fun s => Inv s ∧ FdInv s) (fun s e t hs ht he => ?_)
      ⟨inv_init c, fdInv_init hc⟩ hpos hrun
    have hmove := move_of_step hs.1 he
    exact ⟨hmove.inv hs.1, hmove.fdInv hs.2 hs.1 ht⟩
  refine ⟨fun hpc x hx => ?_, hinv.2.settimes⟩
  exact hinv.2.covers x (SortedSet.first?_eq_some hx).1 (by rw [hpc]; trivial)

def addAtZero : List Event :=
  [.alloc 16 (-5) ⟨false, 0, nofun⟩, .add 16, .tick 2000, .handleRead, .expire, .call,
    .alloc 32 0 ⟨false, 0, nofun⟩, .add 32, .ret, .finish]

theorem timerfd_armed_addAtZero : ∃ s, run step (.init 1000) addAtZero = .ok s ∧
    ∃ a, s.timerFd.armed = some a ∧ a.deadline ≤ max 0 (a.setAt + 100) :=
  have hrun : run step (.init 1000) addAtZero = .ok _ := rfl
  ⟨_, rfl, (timerfd_armed (by decide) (by simp [addAtZero]) hrun).1 rfl ⟨0, 32⟩ rfl⟩

end AcMuduo.TimerQueue
