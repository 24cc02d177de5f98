import AcMuduo.Selector

namespace AcMuduo.PollPoller

open Machine Poller

variable {C : Type} {fd : C → Int} {s t : State C} {c d : C}

def decode (f : Int) : Int := if f < 0 then -f - 1 else f

theorem decode_of_nonneg {f : Int} (h : 0 ≤ f) : decode f = f := if_neg (by omega)

/-- Every channel in `channels_` has an entry, and every entry belongs to one. -/
structure Rows (fd : C → Int) (s : State C) : Prop where
  row : ∀ f c, s.channels[f]? = some c → fd c = f ∧ ∃ (i : Nat) (pfd : PollFd),
    s.chan.index c = i ∧ s.pollFds[i]? = some pfd ∧ decode pfd.fd = f
  owner : ∀ i < s.pollFds.size, ∃ c, s.channels[fd c]? = some c ∧ s.chan.index c = i

theorem rows_init : Rows fd .init := ⟨fun f c h => by simp [State.init] at h,
  fun i hi => by simp [State.init] at hi⟩

theorem Rows.fd_eq (h : Rows fd s) {f : Int} (hc : s.channels[f]? = some c) : fd c = f :=
  (h.row f c hc).1

theorem Rows.index_inj (h : Rows fd s) (hc : s.channels[fd c]? = some c)
    (hd : s.channels[fd d]? = some d) (hcd : s.chan.index c = s.chan.index d) : c = d := by
  obtain ⟨-, i, pfd, hi, hpfd, hf⟩ := h.row _ _ hc
  obtain ⟨-, j, pfd', hj, hpfd', hf'⟩ := h.row _ _ hd
  have hij : i = j := by omega
  subst hij
  rw [hpfd] at hpfd'
  cases hpfd'
  rw [← hf, hf', hd] at hc
  exact (Option.some.inj hc).symm

theorem Rows.owner_row (h : Rows fd s) {i : Nat} {pfd : PollFd} (hpfd : s.pollFds[i]? = some pfd) :
    ∃ c, s.channels[fd c]? = some c ∧ s.chan.index c = i ∧ decode pfd.fd = fd c := by
  obtain ⟨c, hc, hi⟩ := h.owner i (Array.getElem?_eq_some_iff.mp hpfd).1
  obtain ⟨-, j, pfd', hj, hpfd', hf⟩ := h.row _ _ hc
  have hij : i = j := by omega
  subst hij
  rw [hpfd] at hpfd'
  cases hpfd'
  exact ⟨c, hc, hi, hf⟩

theorem entryAt_eq_ok {i : Nat} {pfd : PollFd} :
    entryAt s i = .ok pfd ↔ s.pollFds[i]? = some pfd := by
  rw [entryAt]
  split <;> simp_all

theorem Rows.set (h : Rows fd s) (hpos : ∀ c, 0 ≤ fd c) (hc : s.channels[fd c]? = some c) {i : Nat}
    (hi : s.chan.index c = i) (x : BitVec 32) (events : BitVec 16) : Rows fd { s with
      pollFds := s.pollFds.setIfInBounds i ⟨encode (fd c) x, events, 0⟩ } := by
  have hcode : decode (encode (fd c) x) = fd c := decode_encode (hpos c) x
  refine ⟨fun f d hd => ?_, fun j hj => h.owner j (by simpa using hj)⟩
  obtain ⟨hfd, j, pfd, hj, hpfd, hrow⟩ := h.row f d hd
  refine ⟨hfd, j, ?_⟩
  by_cases hij : i = j
  · subst hij
    have hlt : i < s.pollFds.size := (Array.getElem?_eq_some_iff.mp hpfd).1
    have hdc : d = c := h.index_inj (hfd ▸ hd) hc (by omega)
    exact ⟨_, hj, Array.getElem?_setIfInBounds_self_of_lt hlt, by rw [hcode, ← hfd, hdc]⟩
  · exact ⟨pfd, hj, by rw [Array.getElem?_setIfInBounds_ne hij, hpfd], hrow⟩

theorem of_erase {f : Int} (hd : (s.channels.erase (fd c))[f]? = some d) :
    s.channels[f]? = some d ∧ f ≠ fd c := by
  rw [getElem?_erase] at hd
  split at hd
  · cases hd
  · rename_i hf
    exact ⟨hd, hf⟩

theorem erase_of_ne (hc : s.channels[fd c]? = some c)
    (hd : s.channels[fd d]? = some d) (hdc : d ≠ c) :
    (s.channels.erase (fd c))[fd d]? = some d := by
  have hf : fd d ≠ fd c := by
    intro hf
    rw [← hf, hd] at hc
    exact hdc (Option.some.inj hc)
  rw [getElem?_erase, if_neg hf, hd]

theorem Rows.pop (h : Rows fd s) (hc : s.channels[fd c]? = some c)
    (hlast : s.chan.index c + 1 = s.pollFds.size) : Rows fd { s with
      channels := s.channels.erase (fd c)
      pollFds := s.pollFds.pop } := by
  refine ⟨fun f d hd => ?_, fun j hj => ?_⟩
  · obtain ⟨hd, hf⟩ := of_erase hd
    obtain ⟨hfd, j, pfd, hj, hpfd, hrow⟩ := h.row f d hd
    have hlt : j < s.pollFds.size := (Array.getElem?_eq_some_iff.mp hpfd).1
    have hne : s.chan.index d ≠ s.chan.index c := fun he =>
      hf (hfd ▸ congrArg fd (h.index_inj (hfd ▸ hd) hc he))
    exact ⟨hfd, j, pfd, hj, by rw [Array.getElem?_pop, if_pos (by omega), hpfd], hrow⟩
  · rw [Array.size_pop] at hj
    obtain ⟨d, hd, hdj⟩ := h.owner j (by omega)
    have hdc : d ≠ c := by
      rintro rfl
      omega
    exact ⟨d, erase_of_ne hc hd hdc, hdj⟩

variable [DecidableEq C]

theorem updateChannel_cases (h : updateChannel fd s c = .ok t) :
    s.channels[fd c]? = none ∧ t = { s with
      pollFds := s.pollFds.push ⟨fd c, (s.chan.events c).setWidth 16, 0⟩
      chan := s.chan.setIndex c s.pollFds.size
      channels := s.channels.insert (fd c) c } ∨
    s.channels[fd c]? = some c ∧ ∃ i : Nat, s.chan.index c = i ∧ i < s.pollFds.size ∧
      t = { s with
        pollFds := s.pollFds.setIfInBounds i
          ⟨encode (fd c) (s.chan.events c), (s.chan.events c).setWidth 16, 0⟩ } := by
  by_cases hindex : s.chan.index c < 0
  · simp only [updateChannel, hindex, if_true, bind_eq_ok, assert_eq_ok, decide_eq_true_eq,
      Except.ok.injEq] at h
    obtain ⟨-, hnone, rfl⟩ := h
    exact .inl ⟨hnone, by simp⟩
  · simp only [updateChannel, hindex, if_false, bind_eq_ok, assert_eq_ok, decide_eq_true_eq,
      Except.ok.injEq, entryAt_eq_ok] at h
    obtain ⟨-, -, -, hc, -, ⟨hpos, hlt⟩, pfd, -, -, -, rfl⟩ := h
    obtain ⟨i, hi⟩ := Int.eq_ofNat_of_zero_le hpos
    refine .inr ⟨hc, i, hi, by omega, ?_⟩
    rw [hi, Int.toNat_natCast, encode]
    split <;> rfl

theorem removeChannel_cases (h : removeChannel fd s c = .ok t) : s.channels[fd c]? = some c ∧
    ∃ i : Nat, s.chan.index c = i ∧ i < s.pollFds.size ∧
      (i + 1 = s.pollFds.size ∧ t = { s with
        channels := s.channels.erase (fd c), pollFds := s.pollFds.pop } ∨
      i + 1 < s.pollFds.size ∧ ∃ back d, s.pollFds[s.pollFds.size - 1]? = some back ∧
        (s.channels.erase (fd c))[decode back.fd]? = some d ∧ t = { s with
          channels := s.channels.erase (fd c)
          chan := s.chan.setIndex d i
          pollFds := (s.pollFds.swapIfInBounds i (s.pollFds.size - 1)).pop }) := by
  simp only [removeChannel, bind_eq_ok, assert_eq_ok, decide_eq_true_eq, entryAt_eq_ok] at h
  obtain ⟨-, -, -, hc, -, he, -, ⟨hpos, hlt⟩, pfd, hpfd, -, -, h⟩ := h
  obtain ⟨i, hi⟩ := Int.eq_ofNat_of_zero_le hpos
  refine ⟨hc, i, hi, by omega, ?_⟩
  split at h
  · rename_i hlast
    exact .inl ⟨by omega, (Except.ok.inj h).symm⟩
  · rename_i hlast
    obtain ⟨back, hback, h⟩ := bind_eq_ok.mp h
    rw [entryAt_eq_ok] at hback
    split at h
    · cases h
    · rename_i d hd
      refine .inr ⟨by omega, back, d, hback, hd, ?_⟩
      rw [← Except.ok.inj h, hi, Int.toNat_natCast]

theorem Rows.insert (h : Rows fd s) (hpos : ∀ c, 0 ≤ fd c) (hnone : s.channels[fd c]? = none)
    (events : BitVec 16) : Rows fd { s with
      pollFds := s.pollFds.push ⟨fd c, events, 0⟩
      chan := s.chan.setIndex c s.pollFds.size
      channels := s.channels.insert (fd c) c } := by
  refine ⟨fun f d hd => ?_, fun i hi => ?_⟩
  · rw [getElem?_insert] at hd
    split at hd
    · rename_i hf
      cases hd
      exact ⟨hf.symm, s.pollFds.size, _, by simp, Array.getElem?_push_size,
        (decode_of_nonneg (hpos c)).trans hf.symm⟩
    · rename_i hf
      obtain ⟨hfd, i, pfd, hi, hpfd, hrow⟩ := h.row f d hd
      have hdc : d ≠ c := by
        rintro rfl
        exact hf hfd.symm
      have hlt : i < s.pollFds.size := (Array.getElem?_eq_some_iff.mp hpfd).1
      exact ⟨hfd, i, pfd, by simp [hdc, hi], by
        rw [Array.getElem?_push_lt hlt, ← Array.getElem?_eq_getElem hlt, hpfd], hrow⟩
  · rw [Array.size_push] at hi
    cases Nat.lt_succ_iff_lt_or_eq.mp hi with
    | inl hi =>
      obtain ⟨d, hd, hindex⟩ := h.owner i hi
      have hf : fd d ≠ fd c := by
        intro hf
        rw [hf, hnone] at hd
        cases hd
      have hdc : d ≠ c := by
        rintro rfl
        exact hf rfl
      exact ⟨d, by rw [getElem?_insert, if_neg hf, hd], by simp [hdc, hindex]⟩
    | inr heq => exact ⟨c, by simp, by simp [heq]⟩

theorem Rows.swap (h : Rows fd s) (hc : s.channels[fd c]? = some c) {i : Nat}
    (hi : s.chan.index c = i) (hlast : i + 1 < s.pollFds.size) (hd : s.channels[fd d]? = some d)
    (hdl : s.chan.index d = (s.pollFds.size - 1 : Nat)) : Rows fd { s with
      channels := s.channels.erase (fd c)
      chan := s.chan.setIndex d i
      pollFds := (s.pollFds.swapIfInBounds i (s.pollFds.size - 1)).pop } := by
  have hdc : d ≠ c := by
    rintro rfl
    omega
  refine ⟨fun f x hx => ?_, fun j hj => ?_⟩
  · obtain ⟨hx, hf⟩ := of_erase hx
    obtain ⟨hfd, j, pfd, hj, hpfd, hrow⟩ := h.row f x hx
    have hlt : j < s.pollFds.size := (Array.getElem?_eq_some_iff.mp hpfd).1
    by_cases hxd : x = d
    · have hjl : j = s.pollFds.size - 1 := by
        subst hxd
        omega
      refine ⟨hfd, i, pfd, by simp [hxd], ?_, hrow⟩
      rw [getElem?_swapIfInBounds_pop hlast, if_pos hlast, if_pos rfl, ← hjl, hpfd]
    · have hne : s.chan.index x ≠ s.chan.index c := fun he =>
        hf (hfd ▸ congrArg fd (h.index_inj (hfd ▸ hx) hc he))
      have hne' : s.chan.index x ≠ s.chan.index d := fun he =>
        hxd (h.index_inj (hfd ▸ hx) hd he)
      refine ⟨hfd, j, pfd, by simp [hxd, hj], ?_, hrow⟩
      rw [getElem?_swapIfInBounds_pop hlast, if_pos (by omega), if_neg (by omega), hpfd]
  · simp only [Array.size_pop, Array.size_swapIfInBounds] at hj
    by_cases hji : j = i
    · exact ⟨d, erase_of_ne hc hd hdc, by simp [hji]⟩
    · obtain ⟨x, hx, hxj⟩ := h.owner j (by omega)
      have hxc : x ≠ c := by
        rintro rfl
        omega
      have hxd : x ≠ d := by
        rintro rfl
        omega
      exact ⟨x, erase_of_ne hc hx hxc, by simp [hxd, hxj]⟩

theorem Rows.of_step (h : Rows fd s) (hpos : ∀ c, 0 ≤ fd c) {o : Op C} (hs : step fd s o = .ok t) :
    Rows fd t ∧ Maps fd s.channels t.channels o ∧ t.chan.revents = s.chan.revents := by
  cases o with
  | update u c =>
    -- the new events are no part of what the rows say
    have hrows : Rows fd { s with chan := s.chan.setEvents c (u.events (s.chan.events c)) } :=
      ⟨h.row, h.owner⟩
    obtain ⟨hnone, rfl⟩ | ⟨hc, i, hi, -, rfl⟩ := updateChannel_cases hs
    · exact ⟨hrows.insert hpos hnone _, ⟨.inl hnone, fun f => getElem?_insert _ _ _ _⟩, rfl⟩
    · refine ⟨hrows.set hpos hc hi _ _, ⟨.inr hc, fun f => ?_⟩, rfl⟩
      split
      · rename_i hf
        exact hf ▸ hc
      · rfl
  | remove c =>
    obtain ⟨-, -, hs⟩ := bind_eq_ok.mp hs
    obtain ⟨hc, i, hi, -, hend⟩ := removeChannel_cases hs
    have hmaps := fun f => getElem?_erase s.channels f (fd c)
    obtain ⟨hlast, rfl⟩ | ⟨hlast, back, d, hback, hd, rfl⟩ := hend
    · exact ⟨h.pop hc (by omega), ⟨hc, hmaps⟩, rfl⟩
    · obtain ⟨x, hx, hxl, hxf⟩ := h.owner_row hback
      rw [hxf] at hd
      have hxd : x = d := Option.some.inj (hx.symm.trans (of_erase hd).1)
      subst hxd
      exact ⟨h.swap hc hi hlast hx hxl, ⟨hc, hmaps⟩, rfl⟩

theorem updateChannel_onlyAsserts : OnlyAsserts (updateChannel fd s c) := by
  rw [updateChannel]
  split
  · exact .assert_bind fun _ => onlyAsserts_ok _
  · refine .assert_bind fun _ => .assert_bind fun _ => .assert_bind fun hindex => ?_
    rw [decide_eq_true_eq] at hindex
    have hlt : (s.chan.index c).toNat < s.pollFds.size := by omega
    rw [entryAt, Array.getElem?_eq_getElem hlt]
    exact .assert_bind fun _ => onlyAsserts_ok _

theorem Rows.removeChannel_onlyAsserts (h : Rows fd s) : OnlyAsserts (removeChannel fd s c) := by
  refine .assert_bind fun _ => .assert_bind fun hc => .assert_bind fun _ =>
    .assert_bind fun hindex => ?_
  rw [decide_eq_true_eq] at hc hindex
  have hlt : (s.chan.index c).toNat < s.pollFds.size := by omega
  rw [entryAt, Array.getElem?_eq_getElem hlt]
  refine .assert_bind fun _ => ?_
  dsimp only
  split
  · exact onlyAsserts_ok _
  · rename_i hlast
    have hend : s.pollFds.size - 1 < s.pollFds.size := by omega
    have hback := Array.getElem?_eq_getElem hend
    obtain ⟨d, hd, hdl, hdf⟩ := h.owner_row hback
    have hdc : d ≠ c := by
      rintro rfl
      omega
    have hfind := erase_of_ne hc hd hdc
    rw [← hdf] at hfind
    rw [entryAt, hback]
    simp only [decode] at hfind
    simp only [bind, Except.bind, hfind]
    exact onlyAsserts_ok _

theorem Rows.step_onlyAsserts (h : Rows fd s) (o : Op C) : OnlyAsserts (step fd s o) := by
  cases o with
  | update u c => exact updateChannel_onlyAsserts
  | remove c => exact OnlyAsserts.assert_bind fun _ => h.removeChannel_onlyAsserts

def registry (fd : C → Int) (s : State C) : Registry C :=
  ⟨s.chan.events, fun c => if s.channels[fd c]? = some c then .registered else .fresh⟩

theorem registry_status : (registry fd s).status c = .registered ↔ s.channels[fd c]? = some c := by
  rw [registry]
  dsimp only
  split <;> simp_all

theorem Rows.known (h : Rows fd s) : Known fd s.channels (registry fd s) := by
  intro f c
  rw [registry_status]
  constructor
  · intro hc
    have hf := h.fd_eq hc
    exact ⟨hf, hf ▸ hc⟩
  · rintro ⟨rfl, hc⟩
    exact hc

section Poll

variable {result : Nat → BitVec 16}

omit [DecidableEq C] in
theorem Rows.polled (h : Rows fd s) : Rows fd { s with pollFds := polled s result } := by
  refine ⟨fun f c hc => ?_, fun i hi => h.owner i (by simpa [PollPoller.polled] using hi)⟩
  obtain ⟨hf, i, pfd, hi, hpfd, hrow⟩ := h.row f c hc
  exact ⟨hf, i, { pfd with revents := result i }, hi, by simp [PollPoller.polled, hpfd], hrow⟩

omit [DecidableEq C] in
theorem Rows.ready_nodup (h : Rows fd s)
    (hready : ∀ pfd ∈ s.pollFds, pfd.isReady = true → 0 ≤ pfd.fd) :
    ((s.pollFds.toList.filter PollFd.isReady).map PollFd.fd).Nodup := by
  rw [List.Nodup, List.pairwise_map, List.pairwise_filter, List.pairwise_iff_getElem]
  intro i j hi hj hij hri hrj heq
  have howner : ∀ k (hk : k < s.pollFds.toList.length), s.pollFds.toList[k].isReady = true →
      ∃ c, s.channels[fd c]? = some c ∧ s.chan.index c = k ∧ s.pollFds.toList[k].fd = fd c := by
    intro k hk hrk
    have hget : s.pollFds[k]? = some s.pollFds.toList[k] := by
      rw [← Array.getElem?_toList, List.getElem?_eq_getElem hk]
    obtain ⟨c, hc, hck, hcf⟩ := h.owner_row hget
    rw [decode_of_nonneg (hready _ (Array.mem_of_getElem? hget) hrk)] at hcf
    exact ⟨c, hc, hck, hcf⟩
  obtain ⟨c, hc, hci, hcf⟩ := howner i hi hri
  obtain ⟨d, hd, hdj, hdf⟩ := howner j hj hrj
  rw [← hcf, heq, hdf, hd] at hc
  cases hc
  omega

theorem Rows.ready_owner (h : Rows fd s)
    (hready : ∀ pfd ∈ s.pollFds, pfd.isReady = true → 0 ≤ pfd.fd) :
    ∀ pfd ∈ s.pollFds.toList, pfd.isReady = true →
      ∃ c, fd c = pfd.fd ∧ (registry fd s).status c = .registered := by
  intro pfd hpfd hr
  have hmem := Array.mem_toList_iff.mp hpfd
  obtain ⟨i, hi⟩ := Array.mem_iff_getElem?.mp hmem
  obtain ⟨c, hc, -, hcf⟩ := h.owner_row hi
  rw [decode_of_nonneg (hready pfd hmem hr)] at hcf
  exact ⟨c, hcf.symm, registry_status.mpr hc⟩

theorem countP_revents {fds : List PollFd} (h : ∀ pfd ∈ fds, 0 ≤ pfd.revents.toInt) :
    fds.countP (fun pfd => pfd.revents ≠ 0) = fds.countP PollFd.isReady := by
  refine List.countP_congr fun pfd hpfd => ?_
  have := h pfd hpfd
  have hzero : pfd.revents = 0 ↔ pfd.revents.toInt = 0 := by
    rw [← BitVec.toInt_inj]
    rfl
  simp only [PollFd.isReady, ne_eq, hzero, decide_not, Bool.not_eq_true', decide_eq_false_iff_not,
    decide_eq_true_eq]
  omega

theorem fillActiveChannels_index {channels : ChannelMap C} {fds : List PollFd} {n : Int}
    {chan chan' : Channels C} {active active' : List C}
    (h : fillActiveChannels fd channels fds n chan active = .ok (chan', active')) :
    chan'.index = chan.index := by
  induction fds generalizing n chan active with
  | nil =>
    cases h
    rfl
  | cons pfd fds ih =>
    rw [fillActiveChannels] at h
    split at h
    · split at h
      · split at h
        · cases h
        · obtain ⟨-, -, h⟩ := bind_eq_ok.mp h
          rw [ih h]
          rfl
      · exact ih h
    · cases h
      rfl

omit [DecidableEq C] in
theorem reports_eq {fds : List PollFd} {owners : List C} {chan : Channels C} {P : C → Prop}
    (h : List.Forall₂ (fun pfd c => fd c = pfd.fd ∧ P c ∧
      chan.revents c = pfd.revents.signExtend 32) fds owners) :
    (∀ c ∈ owners, P c) ∧ owners.map (fun c => (fd c, chan.revents c)) =
      fds.map fun pfd => (pfd.fd, pfd.revents.signExtend 32) := by
  induction h with
  | nil => exact ⟨nofun, rfl⟩
  | cons h _ ih =>
    obtain ⟨hfd, hP, hrevents⟩ := h
    exact ⟨List.forall_mem_cons.mpr ⟨hP, ih.1⟩,
      by rw [List.map_cons, List.map_cons, ih.2, hfd, hrevents]⟩

theorem Rows.of_poll (h : Rows fd s) (hvalid : Valid s result) : ∃ t active,
    poll fd s result = .ok (t, active) ∧ Rows fd t ∧ t.channels = s.channels ∧ active.Nodup ∧
    (∀ c ∈ active, s.channels[fd c]? = some c) ∧
    active.map (fun c => (fd c, t.chan.revents c)) = reports s result := by
  obtain ⟨hsign, hready⟩ := hvalid
  have hpolled : Rows fd { s with pollFds := PollPoller.polled s result } := h.polled
  have hnodup := hpolled.ready_nodup hready
  obtain ⟨chan, owners, hfill, hmap, howners, -⟩ := fillActiveChannels_eq h.known s.chan []
    (hpolled.ready_owner hready) hnodup
  have hcount := countP_revents fun pfd hpfd => hsign pfd (Array.mem_toList_iff.mp hpfd)
  dsimp only at hfill hmap howners
  rw [← hcount, List.nil_append] at hfill
  obtain ⟨hreg, hreports⟩ := reports_eq howners
  have hindex := fillActiveChannels_index hfill
  refine ⟨{ s with pollFds := PollPoller.polled s result, chan := chan }, owners, ?_, ?_, rfl,
    .of_map fd (hmap ▸ hnodup), fun c hc => registry_status.mp (hreg c hc), hreports⟩
  · simp only [poll, hfill, bind, Except.bind]
  · refine ⟨fun f c hc => ?_, fun i hi => ?_⟩
    · simp only [hindex]
      exact hpolled.row f c hc
    · simp only [hindex]
      exact hpolled.owner i hi

end Poll

theorem lawful (hpos : ∀ c, 0 ≤ fd c) : Lawful selector fd (Rows fd) where
  init := rows_init
  empty f := by simp [selector, interface, State.init]
  under s f c h hc := h.fd_eq hc
  error s o h := h.step_onlyAsserts o
  step s o t h hs := h.of_step hpos hs
  poll s a h hvalid := by
    obtain ⟨t, active, hpoll, hrows, hchannels, hnodup, hreg, hreports⟩ := h.of_poll hvalid
    exact ⟨t, active, hpoll, hrows, hchannels, hnodup,
      fun c hc => decide_eq_true (hreg c hc), hreports⟩

end AcMuduo.PollPoller
