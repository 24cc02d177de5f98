import Mathlib.Algebra.Order.Ring.Nat
import AcMuduo.ReadyQueue
import AcMuduo.SelectorLaws
import AcMuduo.CInt

namespace AcMuduo.EpollEvents

open Machine Poller EpollPoller ReadyQueue

variable {C : Type} [DecidableEq C]

def kInitEventListSize : Nat := 16

/-- The channels that the kernel has on its ready list, and `events_`. The active channels that the
polls have found so far are kept for the record. -/
structure State (C : Type) where
  ready : List C
  events : List (EpollEvent C)
  chan : Channels C
  polls : List (List C)

/-- With a `maxevents`, and with the events of the channels on the ready list, it returns what it
has written, where `none` is -1, and what the ready list is then. -/
abbrev EpollWait (C : Type) : Type :=
  Int → (C → BitVec 32) → List C → Option (List (EpollEvent C)) × List C

/-- What is documented of it: a `maxevents` that is not positive is refused, and if more channels
are ready, the next calls go on with those that have not been returned. -/
structure TakesTurns (epollWait : EpollWait C) : Prop where
  refuses : ∀ maxevents ≤ 0, ∀ mask ready, epollWait maxevents mask ready = (none, ready)
  returns : ∀ maxevents > 0, ∀ mask ready, (epollWait maxevents mask ready).1 =
    some ((ready.take maxevents.toNat).map fun c => ⟨mask c, c⟩)
  serves : ∀ maxevents > 0, ∀ mask ready,
    Served maxevents.toNat ready (epollWait maxevents mask ready).2

section

variable (epollWait : EpollWait C) (null : C)

def blank : EpollEvent C := ⟨0, null⟩

def State.init : State C := ⟨[], List.replicate kInitEventListSize (blank null), .init, []⟩

def fillIn (events returned : List (EpollEvent C)) : List (EpollEvent C) :=
  (returned ++ events.drop returned.length).take events.length

def grow (events : List (EpollEvent C)) (numEvents : Nat) : List (EpollEvent C) :=
  if numEvents = events.length then events ++ List.replicate events.length (blank null) else events

def poll (mask : C → BitVec 32) (s : State C) : Except (Stop Fault) (State C) := do
  let (result, ready) := epollWait (CInt.narrow s.events.length) mask s.ready
  match result with
  | none => .ok { s with ready := ready, polls := s.polls ++ [[]] }
  | some returned =>
    let numEvents := returned.length
    let events := fillIn s.events returned
    if 0 < numEvents then
      let (chan, activeChannels) ← fillActiveChannels events numEvents s.chan []
      .ok ⟨ready, grow null events numEvents, chan, s.polls ++ [activeChannels]⟩
    else .ok ⟨ready, events, s.chan, s.polls ++ [[]]⟩

inductive Event (C : Type) where
  | wakes (c : C)
  | idles (c : C)
  | poll (mask : C → BitVec 32)

def Event.isPoll : Event C → Bool
  | .poll _ => true
  | _ => false

def step (s : State C) : Event C → Except (Stop Fault) (State C)
  | .wakes c => .ok { s with ready := join s.ready c }
  | .idles c => .ok { s with ready := s.ready.erase c }
  | .poll mask => poll epollWait null mask s

end

/-- No channel is on the ready list twice. The vector is as long as at first, or twice as long as
the longest list of active channels, and its length is at most the first one that is no `int`. -/
structure Inv (s : State C) : Prop where
  nodup : s.ready.Nodup
  power : ∃ k ≤ 27, s.events.length = kInitEventListSize * 2 ^ k
  used : s.events.length = kInitEventListSize ∨ ∃ active ∈ s.polls,
    s.events.length = 2 * active.length

variable {epollWait : EpollWait C} {null : C} {s t : State C} {c : C} {mask : C → BitVec 32}
  {es : List (Event C)}

omit [DecidableEq C] in
theorem length_grow (null : C) (events : List (EpollEvent C)) (numEvents : Nat) :
    (grow null events numEvents).length =
      if numEvents = events.length then 2 * events.length else events.length := by
  rw [grow]
  split
  · rw [List.length_append, List.length_replicate, Nat.two_mul]
  · rfl

omit [DecidableEq C] in
theorem length_fillIn (events returned : List (EpollEvent C)) :
    (fillIn events returned).length = events.length := by
  rw [fillIn, List.length_take, List.length_append, List.length_drop]
  omega

omit [DecidableEq C] in
theorem fillIn_eq {events returned : List (EpollEvent C)} (h : returned.length ≤ events.length) :
    fillIn events returned = returned ++ events.drop returned.length := by
  apply List.take_of_length_le
  rw [List.length_append, List.length_drop]
  omega

theorem fillActiveChannels_append (events rest : List (EpollEvent C)) (chan : Channels C)
    (activeChannels : List C) :
    fillActiveChannels (events ++ rest) events.length chan activeChannels =
      fillActiveChannels events events.length chan activeChannels := by
  have hle : events.length ≤ (events ++ rest).length := by
    rw [List.length_append]
    exact Nat.le_add_right _ _
  simp only [fillActiveChannels, hle, List.take_left', List.take_length, Nat.le_refl]

structure Polled (mask : C → BitVec 32) (s t : State C) : Prop where
  isInt : s.events.length < 2 ^ 31
  ready : Served s.events.length s.ready t.ready
  polls : t.polls = s.polls ++ [s.ready.take s.events.length]
  revents : ∀ c ∈ s.ready.take s.events.length, t.chan.revents c = mask c
  size : t.events.length =
    if s.events.length ≤ s.ready.length then 2 * s.events.length else s.events.length

structure Refused (s t : State C) : Prop where
  notInt : s.events.length = 2 ^ 31
  eq : t = { s with polls := s.polls ++ [[]] }

theorem poll_refused (hwait : TakesTurns epollWait) (hsize : s.events.length = 2 ^ 31) :
    poll epollWait null mask s = .ok { s with polls := s.polls ++ [[]] } := by
  have hnarrow : CInt.narrow s.events.length ≤ 0 := by
    rw [hsize]
    decide
  rw [poll, hwait.refuses _ hnarrow]

theorem poll_polled (hwait : TakesTurns epollWait) (hnodup : s.ready.Nodup)
    (hpos : 0 < s.events.length) (hsize : s.events.length < 2 ^ 31) (null : C)
    (mask : C → BitVec 32) : ∃ t, poll epollWait null mask s = .ok t ∧ Polled mask s t := by
  have hnarrow : CInt.narrow s.events.length = s.events.length :=
    CInt.narrow_eq (by omega) (by omega)
  have hreturns := hwait.returns s.events.length (by omega) mask s.ready
  have hserves := hwait.serves s.events.length (by omega) mask s.ready
  rw [Int.toNat_natCast] at hreturns hserves
  have hchannels : ((s.ready.take s.events.length).map fun c =>
      (⟨mask c, c⟩ : EpollEvent C)).map EpollEvent.channel = s.ready.take s.events.length := by
    rw [List.map_map]
    exact List.map_id _
  have hreturned : ((s.ready.take s.events.length).map fun c =>
      (⟨mask c, c⟩ : EpollEvent C)).length = min s.events.length s.ready.length := by
    rw [List.length_map, List.length_take]
  obtain ⟨chan, hfill, -, -, hrevents⟩ := fillActiveChannels_chan s.chan []
    (hchannels ▸ hnodup.sublist (List.take_sublist _ _))
  have hactive : fillActiveChannels (fillIn s.events ((s.ready.take s.events.length).map fun c =>
      (⟨mask c, c⟩ : EpollEvent C))) ((s.ready.take s.events.length).map fun c =>
      (⟨mask c, c⟩ : EpollEvent C)).length s.chan [] =
        .ok (chan, s.ready.take s.events.length) := by
    rw [fillIn_eq (hreturned ▸ Nat.min_le_left _ _), fillActiveChannels_append, hfill, hchannels]
    rfl
  have hmask : ∀ c ∈ s.ready.take s.events.length, chan.revents c = mask c := fun c hc =>
    hrevents _ (List.mem_map_of_mem hc)
  simp only [poll, hnarrow, hreturns, hactive, bind, Except.bind]
  split
  · refine ⟨_, rfl, hsize, hserves, rfl, hmask, ?_⟩
    rw [length_grow, length_fillIn, hreturned]
    exact if_congr ⟨fun h => by omega, Nat.min_eq_left⟩ rfl rfl
  · -- nothing is ready
    rename_i hnone
    have hready : s.ready = [] := by
      apply List.eq_nil_of_length_eq_zero
      omega
    refine ⟨_, rfl, hsize, hserves, ?_, ?_, ?_⟩
    · rw [hready, List.take_nil]
    · rw [hready, List.take_nil]
      exact fun c hc => absurd hc List.not_mem_nil
    · have hsmall : ¬ s.events.length ≤ s.ready.length := by
        rw [hready, List.length_nil]
        omega
      rw [if_neg hsmall, length_fillIn]

theorem poll_cases (hwait : TakesTurns epollWait) (h : Inv s) (null : C) (mask : C → BitVec 32) :
    ∃ t, poll epollWait null mask s = .ok t ∧ (Polled mask s t ∨ Refused s t) := by
  obtain ⟨k, hk, hlength⟩ := h.power
  have hlow := Nat.two_pow_pos k
  have hhigh : 2 ^ k ≤ 2 ^ 27 := Nat.pow_le_pow_right (by decide) hk
  rw [show kInitEventListSize = 16 from rfl] at hlength
  by_cases hsize : s.events.length = 2 ^ 31
  · exact ⟨_, poll_refused hwait hsize, .inr ⟨hsize, rfl⟩⟩
  · obtain ⟨t, ht, hpolled⟩ := poll_polled hwait h.nodup (by omega) (by omega) null mask
    exact ⟨t, ht, .inl hpolled⟩

/-- With its vector the poller finds what `EpollPoller.poll` finds in the answer of the kernel. -/
theorem poll_answer {p : EpollPoller.State C} {returned : List (EpollEvent C)}
    (hanswer : (epollWait (CInt.narrow s.events.length) mask s.ready).1 = some returned)
    (hchan : p.chan = s.chan) (ht : poll epollWait null mask s = .ok t) :
    ∃ active, t.polls = s.polls ++ [active] ∧
      EpollPoller.poll p returned = .ok ({ p with chan := t.chan }, active) := by
  simp only [poll, hanswer] at ht
  split at ht
  · obtain ⟨⟨chan, active⟩, hfill, ht⟩ := bind_eq_ok.mp ht
    cases ht
    have hroom : returned.length ≤ s.events.length := by
      obtain ⟨u, hassert, -⟩ := bind_eq_ok.mp hfill
      rw [assert_eq_ok, decide_eq_true_iff, length_fillIn] at hassert
      exact hassert
    rw [fillIn_eq hroom, fillActiveChannels_append, ← hchan] at hfill
    exact ⟨active, rfl, bind_eq_ok.mpr ⟨_, hfill, rfl⟩⟩
  · rename_i hnone
    cases ht
    have hnil : returned = [] :=
      List.eq_nil_of_length_eq_zero (Nat.le_zero.mp (Nat.le_of_not_lt hnone))
    rw [hnil, ← hchan]
    exact ⟨[], rfl, rfl⟩

omit [DecidableEq C] in
theorem inv_init (null : C) : Inv (State.init null) where
  nodup := List.nodup_nil
  power := ⟨0, by decide, List.length_replicate⟩
  used := .inl List.length_replicate

omit [DecidableEq C] in
theorem Polled.inv (h : Inv s) (hpoll : Polled mask s t) : Inv t := by
  obtain ⟨k, hk, hlength⟩ := h.power
  have hnodup := hpoll.ready.perm.nodup_iff.mpr h.nodup
  have hsize := hpoll.size
  by_cases hfull : s.events.length ≤ s.ready.length
  · rw [if_pos hfull] at hsize
    refine ⟨hnodup, ⟨k + 1, ?_, ?_⟩, .inr ⟨s.ready.take s.events.length, ?_, ?_⟩⟩
    · -- a length of `2 ^ 31` is not doubled
      by_contra hlarge
      have hint := hpoll.isInt
      have hpow : 2 ^ 27 ≤ 2 ^ k := Nat.pow_le_pow_right (by decide) (by omega)
      rw [hlength, show kInitEventListSize = 16 from rfl] at hint
      omega
    · rw [hsize, hlength, Nat.pow_succ, Nat.mul_left_comm, Nat.mul_comm 2]
    · rw [hpoll.polls]
      exact List.mem_concat_self
    · rw [hsize, List.length_take, Nat.min_eq_left hfull]
  · rw [if_neg hfull] at hsize
    refine ⟨hnodup, ⟨k, hk, by rw [hsize, hlength]⟩, ?_⟩
    rw [hsize, hpoll.polls]
    refine h.used.imp id ?_
    rintro ⟨active, hactive, hactive'⟩
    exact ⟨active, List.mem_append_left _ hactive, hactive'⟩

omit [DecidableEq C] in
theorem Refused.inv (h : Inv s) (hpoll : Refused s t) : Inv t := by
  rw [hpoll.eq]
  refine ⟨h.nodup, h.power, h.used.imp id ?_⟩
  rintro ⟨active, hactive, hlength⟩
  exact ⟨active, List.mem_append_left _ hactive, hlength⟩

theorem Inv.step (hwait : TakesTurns epollWait) (h : Inv s) {e : Event C}
    (ht : step epollWait null s e = .ok t) : Inv t := by
  cases e with
  | wakes c =>
    cases ht
    exact ⟨nodup_join h.nodup c, h.power, h.used⟩
  | idles c =>
    cases ht
    exact ⟨h.nodup.sublist List.erase_sublist, h.power, h.used⟩
  | poll mask =>
    obtain ⟨u, hu, hpoll⟩ := poll_cases hwait h null mask
    cases hu.symm.trans ht
    exact hpoll.elim (Polled.inv h) (Refused.inv h)

theorem exists_run (hwait : TakesTurns epollWait) (h : Inv s) (es : List (Event C)) :
    ∃ t, run (step epollWait null) s es = .ok t := by
  induction es generalizing s with
  | nil => exact ⟨s, rfl⟩
  | cons e es ih =>
    obtain ⟨u, hu⟩ : ∃ u, EpollEvents.step epollWait null s e = .ok u := by
      cases e with
      | wakes c | idles c => exact ⟨_, rfl⟩
      | poll mask =>
        obtain ⟨u, hu, -⟩ := poll_cases hwait h null mask
        exact ⟨u, hu⟩
    exact exists_bind_ok hu (ih (h.step hwait hu))

theorem inv_of_run (hwait : TakesTurns epollWait)
    (hs : run (step epollWait null) (State.init null) es = .ok s) : Inv s :=
  run_invariant (fun _ _ _ h ht => h.step hwait ht) (inv_init null) hs

/-- Whatever has happened before, a poll does not fail in its assert and finds the channels that
are ready, each once and with its events, up to the size of the vector. No channel is lost from the
ready list, and the vector is doubled if it was not larger than that. Only with `2 ^ 31` entries,
which are too many for an `int`, the kernel refuses and nothing is found. -/
theorem poll_exact (hwait : TakesTurns epollWait)
    (hs : run (step epollWait null) (State.init null) es = .ok s) (mask : C → BitVec 32) :
    ∃ t active, step epollWait null s (.poll mask) = .ok t ∧ t.polls = s.polls ++ [active] ∧
      t.ready.Perm s.ready ∧ active.Nodup ∧
      (s.events.length < 2 ^ 31 → active = s.ready.take s.events.length ∧
        (∀ c ∈ active, t.chan.revents c = mask c) ∧
        (s.ready.length < s.events.length →
          active = s.ready ∧ t.events.length = s.events.length) ∧
        (s.events.length ≤ s.ready.length → t.events.length = 2 * s.events.length)) ∧
      (2 ^ 31 ≤ s.events.length → active = [] ∧ t.ready = s.ready ∧ t.events = s.events) ∧
      ∃ k, s.events.length = kInitEventListSize * 2 ^ k ∧
        (k = 0 ∨ ∃ active ∈ s.polls, s.events.length = 2 * active.length) := by
  have hinv := inv_of_run hwait hs
  obtain ⟨k, -, hk⟩ := hinv.power
  have hused : k = 0 ∨ ∃ active ∈ s.polls, s.events.length = 2 * active.length := by
    refine hinv.used.imp (fun hinit => ?_) id
    by_contra hne
    have hpow : 2 ^ 1 ≤ 2 ^ k := Nat.pow_le_pow_right (by decide) (by omega)
    rw [hk, show kInitEventListSize = 16 from rfl] at hinit
    omega
  obtain ⟨t, ht, hpoll | hpoll⟩ := poll_cases hwait hinv null mask
  · have hint := hpoll.isInt
    refine ⟨t, _, ht, hpoll.polls, hpoll.ready.perm, hinv.nodup.sublist (List.take_sublist _ _),
      fun _ => ⟨rfl, hpoll.revents, fun hroom => ⟨List.take_of_length_le (Nat.le_of_lt hroom), ?_⟩,
        fun hfull => ?_⟩, fun hlarge => by omega, k, hk, hused⟩
    · rw [hpoll.size, if_neg (by omega)]
    · rw [hpoll.size, if_pos hfull]
  · have hint := hpoll.notInt
    have heq := hpoll.eq
    subst heq
    exact ⟨_, [], ht, rfl, .refl _, List.nodup_nil, fun hsmall => by omega,
      fun _ => ⟨rfl, rfl, rfl⟩, k, hk, hused⟩

def linuxWait : EpollWait C := fun maxevents mask ready =>
  if maxevents ≤ 0 then (none, ready)
  else (some ((ready.take maxevents.toNat).map fun c => ⟨mask c, c⟩), serve maxevents.toNat ready)

omit [DecidableEq C] in
theorem takesTurns_linuxWait : TakesTurns (linuxWait : EpollWait C) where
  refuses _ hmax _ _ := if_pos hmax
  returns _ hmax _ _ := by rw [linuxWait, if_neg (Int.not_le.mpr hmax)]
  serves _ hmax _ _ := by
    rw [linuxWait, if_neg (Int.not_le.mpr hmax)]
    exact served_serve _ _

theorem poll_exact_two : ∃ s : State Nat,
    run (step linuxWait 0) (State.init 0) [.wakes 3, .wakes 5] = .ok s ∧
    ∃ t active, step linuxWait 0 s (.poll fun _ => kReadEvent) = .ok t ∧
      t.polls = s.polls ++ [active] ∧ active = s.ready.take s.events.length := by
  have hs : run (step linuxWait 0) (State.init 0) [.wakes 3, .wakes 5] = .ok _ := rfl
  obtain ⟨t, active, ht, hpolls, -, -, hfound, -⟩ :=
    poll_exact takesTurns_linuxWait hs fun _ => kReadEvent
  exact ⟨_, hs, t, active, ht, hpolls, (hfound (by decide)).1⟩

def FoundSince (n : Nat) (c : C) (t : State C) : Prop := ∃ active ∈ t.polls.drop n, c ∈ active

theorem polls_of_step (hwait : TakesTurns epollWait) {e : Event C} (h : Inv s)
    (ht : step epollWait null s e = .ok t) : s.polls <+: t.polls := by
  cases e with
  | wakes c =>
    cases ht
    exact List.prefix_rfl
  | idles c =>
    cases ht
    exact List.prefix_rfl
  | poll mask =>
    obtain ⟨u, hu, hpoll⟩ := poll_cases hwait h null mask
    cases hu.symm.trans ht
    cases hpoll with
    | inl hpoll =>
      rw [hpoll.polls]
      exact List.prefix_append _ _
    | inr hpoll =>
      rw [hpoll.eq]
      exact List.prefix_append _ _

theorem polls_of_run (hwait : TakesTurns epollWait) (h : Inv s)
    (ht : run (step epollWait null) s es = .ok t) : s.polls <+: t.polls := by
  have hboth : Inv t ∧ s.polls <+: t.polls := run_invariant
    (I := fun t => Inv t ∧ s.polls <+: t.polls)
    (fun u e v hu hv => ⟨hu.1.step hwait hv, hu.2.trans (polls_of_step hwait hu.1 hv)⟩)
    ⟨h, List.prefix_rfl⟩ ht
  exact hboth.2

theorem found_or_closer (hc : c ∈ s.ready) (hpoll : Polled mask s t) :
    c ∈ s.ready.take s.events.length ∨ c ∈ t.ready ∧
      t.ready.idxOf c + s.events.length = s.ready.idxOf c ∧
        t.events.length = 2 * s.events.length := by
  obtain hfound | ⟨hle, hcloser⟩ := hpoll.ready.mem_take_or_idxOf hc
  · exact .inl hfound
  · have hlt := List.idxOf_lt_length_of_mem hc
    rw [hpoll.size, if_pos (by omega)]
    exact .inr ⟨hpoll.ready.perm.mem_iff.mpr hc, hcloser, rfl⟩

omit [DecidableEq C] in
theorem Refused.used (h : Inv s) (hpoll : Refused s t) : ∃ active ∈ s.polls,
    active.length = 2 ^ 30 := by
  have hsize := hpoll.notInt
  obtain hinit | ⟨active, hactive, hlength⟩ := h.used
  · rw [hsize] at hinit
    exact absurd hinit (by decide)
  · exact ⟨active, hactive, by omega⟩

omit [DecidableEq C] in
theorem FoundSince.of_le {m n : Nat} (hle : m ≤ n) (h : FoundSince n c t) : FoundSince m c t := by
  obtain ⟨active, hactive, hc⟩ := h
  exact ⟨active, (List.drop_sublist_drop_left _ hle).subset hactive, hc⟩

omit [DecidableEq C] in
theorem foundSince_of_next {active : List C} (hpolls : s.polls ++ [active] <+: t.polls)
    (hc : c ∈ active) : FoundSince s.polls.length c t := by
  obtain ⟨later, hlater⟩ := hpolls
  refine ⟨active, ?_, hc⟩
  rw [← hlater, List.append_assoc, List.drop_left]
  exact List.mem_cons_self

theorem foundSince_of_run (hwait : TakesTurns epollWait) (h : Inv s) (hc : c ∈ s.ready)
    (hidle : ∀ e ∈ es, e ≠ .idles c) (ht : run (step epollWait null) s es = .ok t)
    (hpolls : s.ready.idxOf c + s.events.length < 2 ^ es.countP Event.isPoll * s.events.length) :
    FoundSince s.polls.length c t ∨ ∃ active ∈ t.polls, active.length = 2 ^ 30 := by
  induction es generalizing s with
  | nil =>
    rw [List.countP_nil, Nat.pow_zero, Nat.one_mul] at hpolls
    omega
  | cons e es ih =>
    obtain ⟨u, hu, hrun⟩ := run_cons_ok.mp ht
    have hlater := polls_of_run hwait h ht
    clear ht
    rw [List.forall_mem_cons] at hidle
    have hinv := h.step hwait hu
    cases e with
    | wakes d =>
      cases hu
      rw [List.countP_cons_of_neg Bool.false_ne_true] at hpolls
      have hfound := ih hinv (mem_join.mpr (.inl hc)) hidle.2 hrun
        ((idxOf_join hc d).symm ▸ hpolls)
      exact hfound
    | idles d =>
      cases hu
      have hne : c ≠ d := by
        rintro rfl
        exact hidle.1 rfl
      rw [List.countP_cons_of_neg Bool.false_ne_true] at hpolls
      have hidx := Nat.add_le_add_right (idxOf_erase_le hne s.ready) s.events.length
      have hfound := ih hinv ((List.mem_erase_of_ne hne).mpr hc) hidle.2 hrun
        (Nat.lt_of_le_of_lt hidx hpolls)
      exact hfound
    | poll mask =>
      obtain ⟨u', hu', hpoll⟩ := poll_cases hwait h null mask
      cases hu'.symm.trans hu
      cases hpoll with
      | inr hpoll =>
        obtain ⟨active, hactive, hlength⟩ := hpoll.used h
        exact .inr ⟨active, hlater.subset hactive, hlength⟩
      | inl hpoll =>
        have hprefix := polls_of_run hwait hinv hrun
        rw [hpoll.polls] at hprefix
        obtain hfound | ⟨hmem, hcloser, hsize⟩ := found_or_closer hc hpoll
        · exact .inl (foundSince_of_next hprefix hfound)
        · rw [List.countP_cons_of_pos (by rfl), Nat.pow_succ] at hpolls
          -- the next polls have to cover what is left with a vector of twice the size
          have hrest : u.ready.idxOf c + u.events.length <
              2 ^ es.countP Event.isPoll * u.events.length := by
            rw [hsize, ← Nat.mul_assoc]
            omega
          have hle : s.polls.length ≤ u.polls.length := by
            rw [hpoll.polls, List.length_append]
            exact Nat.le_add_right _ _
          exact (ih hinv hmem hidle.2 hrun hrest).imp_left (.of_le hle)

/-- No channel starves: one that stays ready is found by one of the next `n` polls, if fewer than
`16 * (2 ^ n - 1)` channels come before it, whatever else becomes ready in the meantime. The size of
the vector stops being an `int` only when a poll has found `2 ^ 30` channels. -/
theorem no_starvation (hwait : TakesTurns epollWait) {pre : List (Event C)} {n : Nat}
    (hs : run (step epollWait null) (State.init null) pre = .ok s) (hc : c ∈ s.ready)
    (hidle : ∀ e ∈ es, e ≠ .idles c) (ht : run (step epollWait null) s es = .ok t)
    (hn : es.countP Event.isPoll = n)
    (hbefore : s.ready.idxOf c < kInitEventListSize * (2 ^ n - 1)) :
    FoundSince s.polls.length c t ∨ ∃ active ∈ t.polls, active.length = 2 ^ 30 := by
  have hinv := inv_of_run hwait hs
  obtain ⟨k, -, hk⟩ := hinv.power
  have hle : kInitEventListSize ≤ s.events.length := by
    rw [hk]
    exact Nat.le_mul_of_pos_right _ (Nat.two_pow_pos k)
  apply foundSince_of_run hwait hinv hc hidle ht
  have hmul := Nat.mul_le_mul_right (2 ^ n - 1) hle
  have hpow := Nat.two_pow_pos n
  have hsplit : 2 ^ n * s.events.length = s.events.length * (2 ^ n - 1) + s.events.length := by
    rw [Nat.mul_comm, ← Nat.mul_succ]
    congr 1
    omega
  rw [hn, hsplit]
  omega

theorem no_starvation_seventeen : ∃ s t : State Nat,
    run (step linuxWait 0) (State.init 0) ((List.range 17).map .wakes) = .ok s ∧
    run (step linuxWait 0) s [.poll fun _ => kReadEvent, .poll fun _ => kReadEvent] = .ok t ∧
    (FoundSince s.polls.length 16 t ∨ ∃ active ∈ t.polls, active.length = 2 ^ 30) := by
  have hs : run (step linuxWait 0) (State.init 0) ((List.range 17).map .wakes) =
    .ok { State.init 0 with ready := List.range 17 } := rfl
  obtain ⟨t, ht⟩ := exists_run takesTurns_linuxWait (inv_of_run takesTurns_linuxWait hs)
    [.poll fun _ => kReadEvent, .poll fun _ => kReadEvent]
  exact ⟨_, t, hs, ht,
    no_starvation (n := 2) takesTurns_linuxWait hs (by decide) (by simp) ht rfl (by decide)⟩

end AcMuduo.EpollEvents
