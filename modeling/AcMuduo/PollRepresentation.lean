import AcMuduo.PollPoller

namespace AcMuduo.PollPoller

open Machine Poller

variable {C : Type} {fd : C → Int} {r : Registry C} {s : State C} {c d : C}

/-- The `fd` of an entry: that of the channel, or a negative one for a channel without events. -/
def encode (f : Int) (events : BitVec 32) : Int := if events = kNoneEvent then -f - 1 else f

theorem encode_inj {f g : Int} {x y : BitVec 32} (hf : 0 ≤ f) (hg : 0 ≤ g)
    (h : encode f x = encode g y) : f = g := by
  simp only [encode] at h
  split at h <;> split at h <;> omega

def entry (s : State C) (c : C) : Option (Int × BitVec 32) :=
  s.pollFds[(s.chan.index c).toNat]?.map fun pfd => (pfd.fd, pfd.events.signExtend 32)

structure Slot (fd : C → Int) (s : State C) (c : C) (i : Nat) (x : BitVec 32) : Prop where
  index : s.chan.index c = i
  entry : ∃ pfd, s.pollFds[i]? = some pfd ∧ pfd.fd = encode (fd c) x ∧ pfd.events = x.setWidth 16

structure Rep (fd : C → Int) (r : Registry C) (s : State C) : Prop where
  events : s.chan.events = r.events
  pollable : ∀ c, Pollable (r.events c)
  fresh : ∀ c, r.status c = .fresh → s.chan.index c < 0
  known : Known fd s.channels r
  slot : ∀ c, r.status c = .registered → ∃ i, Slot fd s c i (r.events c)
  owner : ∀ i < s.pollFds.size, ∃ c, r.status c = .registered ∧ s.chan.index c = i
  size : s.channels.size = s.pollFds.size

theorem rep_init : Rep fd .init .init := by
  refine ⟨rfl, fun c => .inl rfl, fun c _ => ?_, known_init, fun c h => ?_, fun i hi => ?_, rfl⟩
  · simp [State.init, Channels.init]
  · simp [Registry.init] at h
  · simp [State.init] at hi

theorem Slot.fd_eq {i : Nat} {x y : BitVec 32} (h : Slot fd s c i x) (h' : Slot fd s d i y)
    (hc : 0 ≤ fd c) (hd : 0 ≤ fd d) : fd c = fd d := by
  obtain ⟨pfd, hpfd, hfd, _⟩ := h.entry
  obtain ⟨pfd', hpfd', hfd', _⟩ := h'.entry
  rw [hpfd] at hpfd'
  cases hpfd'
  exact encode_inj hc hd (hfd.symm.trans hfd')

theorem Rep.index_inj (h : Rep fd r s) (hfd : Function.Injective fd) (hpos : ∀ c, 0 ≤ fd c)
    (hc : r.status c = .registered) (hd : r.status d = .registered)
    (hcd : s.chan.index c = s.chan.index d) : c = d := by
  obtain ⟨i, hi⟩ := h.slot c hc
  obtain ⟨j, hj⟩ := h.slot d hd
  have hij : i = j := by
    have := hi.index
    have := hj.index
    omega
  exact hfd (hi.fd_eq (hij ▸ hj) (hpos c) (hpos d))

theorem Rep.size_erase (h : Rep fd r s) (hc : r.status c = .registered) :
    (s.channels.erase (fd c)).size + 1 = s.pollFds.size := by
  obtain ⟨i, _, pfd, hpfd, _⟩ := h.slot c hc
  have hi : i < s.pollFds.size := (Array.getElem?_eq_some_iff.mp hpfd).1
  have hmem : s.channels.contains (fd c) = true := by
    rw [Std.TreeMap.contains_eq_isSome_getElem?, h.known.getElem?_of_registered hc]
    rfl
  have hsize := h.size
  rw [Std.TreeMap.size_erase, if_pos hmem]
  omega

theorem Rep.owner_entry (h : Rep fd r s) {i : Nat} {pfd : PollFd}
    (hpfd : s.pollFds[i]? = some pfd) : ∃ c, r.status c = .registered ∧ s.chan.index c = i ∧
      pfd.fd = encode (fd c) (r.events c) ∧ pfd.events = (r.events c).setWidth 16 := by
  obtain ⟨c, hc, hi⟩ := h.owner i (Array.getElem?_eq_some_iff.mp hpfd).1
  obtain ⟨j, hj, pfd', hpfd', hrest⟩ := h.slot c hc
  have hij : i = j := by omega
  subst hij
  rw [hpfd] at hpfd'
  cases hpfd'
  exact ⟨c, hc, hi, hrest⟩

theorem Rep.entry_eq (h : Rep fd r s) (hc : r.status c = .registered) :
    entry s c = some (encode (fd c) (r.events c), r.events c) := by
  obtain ⟨i, hi, pfd, hpfd, hfd, hev⟩ := h.slot c hc
  simp [entry, hi, hpfd, hfd, hev, (h.pollable c).short]

variable [DecidableEq C]

theorem updateChannel_new (hindex : s.chan.index c < 0) (hc : s.channels[fd c]? = none) :
    updateChannel fd s c = .ok { s with
      pollFds := s.pollFds.push ⟨fd c, (s.chan.events c).setWidth 16, 0⟩
      chan := s.chan.setIndex c s.pollFds.size
      channels := s.channels.insert (fd c) c } := by
  simp [updateChannel, hindex, hc, bind, Except.bind]

theorem updateChannel_registered {i : Nat} {x : BitVec 32} (h : Slot fd s c i x)
    (hc : s.channels[fd c]? = some c) :
    updateChannel fd s c = .ok { s with
      pollFds := s.pollFds.setIfInBounds i
        ⟨encode (fd c) (s.chan.events c), (s.chan.events c).setWidth 16, 0⟩ } := by
  obtain ⟨hindex, pfd, hpfd, hfd, _⟩ := h
  have hneg : ¬ (i : Int) < 0 := by omega
  have hfd' : pfd.fd = fd c ∨ pfd.fd = -fd c - 1 := by
    rw [hfd, encode]
    split <;> simp
  obtain ⟨hi, rfl⟩ := Array.getElem?_eq_some_iff.mp hpfd
  by_cases h : s.chan.events c = kNoneEvent <;>
    simp [updateChannel, hindex, hneg, hc, entryAt, hfd', h, encode, hi, bind, Except.bind]

theorem removeChannel_last {i : Nat} (h : Slot fd s c i kNoneEvent)
    (hc : s.channels[fd c]? = some c) (hevents : s.chan.events c = kNoneEvent)
    (hlast : i + 1 = s.pollFds.size) :
    removeChannel fd s c = .ok { s with
      channels := s.channels.erase (fd c)
      pollFds := s.pollFds.pop } := by
  obtain ⟨hindex, pfd, hpfd, hfd, hpe⟩ := h
  obtain ⟨hi, rfl⟩ := Array.getElem?_eq_some_iff.mp hpfd
  have hlast' : ((i : Int) = s.pollFds.size - 1) = True := eq_true (by omega)
  have hshort : (kNoneEvent.setWidth 16).signExtend 32 = kNoneEvent := by decide
  simp [removeChannel, hindex, hc, hevents, entryAt, hi, hfd, hpe, encode, hlast', hshort, bind,
    Except.bind]

theorem decode_encode {f : Int} (hf : 0 ≤ f) (x : BitVec 32) :
    (if encode f x < 0 then -encode f x - 1 else encode f x) = f := by
  rw [encode]
  split <;> split <;> omega

theorem removeChannel_swap {i : Nat} {x : BitVec 32} (h : Slot fd s c i kNoneEvent)
    (hc : s.channels[fd c]? = some c) (hevents : s.chan.events c = kNoneEvent)
    (hlast : i + 1 < s.pollFds.size) (hd : Slot fd s d (s.pollFds.size - 1) x)
    (hdc : s.channels[fd d]? = some d) (hpos : 0 ≤ fd d) (hne : fd c ≠ fd d) :
    removeChannel fd s c = .ok { s with
      channels := s.channels.erase (fd c)
      chan := s.chan.setIndex d i
      pollFds := (s.pollFds.swapIfInBounds i (s.pollFds.size - 1)).pop } := by
  obtain ⟨hindex, pfd, hpfd, hfd, hpe⟩ := h
  obtain ⟨_, back, hback, hbfd, _⟩ := hd
  obtain ⟨hi, rfl⟩ := Array.getElem?_eq_some_iff.mp hpfd
  obtain ⟨hj, rfl⟩ := Array.getElem?_eq_some_iff.mp hback
  have hlast' : ¬ (i : Int) = s.pollFds.size - 1 := by omega
  have hshort : (kNoneEvent.setWidth 16).signExtend 32 = kNoneEvent := by decide
  have hcode : encode (fd c) kNoneEvent = -fd c - 1 := rfl
  have herase : (s.channels.erase (fd c))[fd d]? = some d := by
    simp [Std.TreeMap.getElem?_erase, hne, hdc]
  simp [removeChannel, hindex, hc, hevents, entryAt, hi, hj, hfd, hpe, hcode, hlast', hshort, hbfd,
    decode_encode hpos, herase, bind, Except.bind]

theorem getElem?_swapIfInBounds_pop {α : Type} {xs : Array α} {i : Nat} (hi : i + 1 < xs.size)
    (k : Nat) : (xs.swapIfInBounds i (xs.size - 1)).pop[k]? =
      if k + 1 < xs.size then if k = i then xs[xs.size - 1]? else xs[k]? else none := by
  have h1 : i < xs.size := by omega
  have h2 : xs.size - 1 < xs.size := by omega
  rw [Array.swapIfInBounds_def, dif_pos h1, dif_pos h2, Array.getElem?_pop, Array.size_swap,
    Array.getElem?_swap]
  grind

theorem Rep.update_fresh (h : Rep fd r s) (hfd : Function.Injective fd) {u : Update}
    (hc : r.status c = .fresh) (hu : u.events (r.events c) ≠ kNoneEvent) :
    ∃ s', step fd s (.update u c) = .ok s' ∧ Rep fd (r.update u c) s' := by
  have hnone := h.known.getElem?_eq_none (c := c) (free_of_injective hfd) (by rw [hc]; decide)
  refine ⟨_, updateChannel_new (h.fresh c hc) hnone, ?_⟩
  refine ⟨by simp [Registry.update, h.events], Registry.update_pollable h.pollable,
    fun d hd => ?_, h.known.insert (free_of_injective hfd) u, fun d hd => ?_, fun i hi => ?_, ?_⟩
  · obtain ⟨hdc, hd⟩ := Registry.update_status_eq_fresh.mp hd
    simpa [hdc] using h.fresh d hd
  · by_cases hdc : d = c
    · subst hdc
      refine ⟨s.pollFds.size, by simp, _, Array.getElem?_push_size, ?_, ?_⟩
      · simp [encode, hu]
      · simp [h.events]
    · obtain ⟨i, hindex, pfd, hpfd, hrest⟩ := h.slot d (by simpa [hdc] using hd)
      have hi : i < s.pollFds.size := (Array.getElem?_eq_some_iff.mp hpfd).1
      refine ⟨i, by simpa [hdc] using hindex, pfd, ?_, by simpa [hdc] using hrest⟩
      rw [Array.getElem?_push_lt hi]
      exact hpfd ▸ (Array.getElem?_eq_getElem hi).symm
  · rw [Array.size_push] at hi
    cases Nat.lt_succ_iff_lt_or_eq.mp hi with
    | inl hi =>
      obtain ⟨d, hd, hindex⟩ := h.owner i hi
      have hdc : d ≠ c := by
        rintro rfl
        simp [hc] at hd
      exact ⟨d, by simpa [hdc] using hd, by simpa [hdc] using hindex⟩
    | inr heq =>
      subst heq
      exact ⟨c, by simp, by simp⟩
  · have hmem : fd c ∉ s.channels := by
      rw [Std.TreeMap.mem_iff_isSome_getElem?, hnone]
      simp
    simp [Std.TreeMap.size_insert, hmem, h.size]

theorem Rep.update_registered (h : Rep fd r s) (hfd : Function.Injective fd)
    (hpos : ∀ c, 0 ≤ fd c) {u : Update} (hc : r.status c = .registered) :
    ∃ s', step fd s (.update u c) = .ok s' ∧ Rep fd (r.update u c) s' := by
  obtain ⟨i, hindex, pfd, hpfd, hpfd'⟩ := h.slot c hc
  have hi : i < s.pollFds.size := (Array.getElem?_eq_some_iff.mp hpfd).1
  refine ⟨_, updateChannel_registered (x := r.events c) ⟨hindex, pfd, hpfd, hpfd'⟩
    (h.known.getElem?_of_registered hc), ?_⟩
  refine ⟨by simp [Registry.update, h.events], Registry.update_pollable h.pollable,
    fun d hd => h.fresh d (Registry.update_status_eq_fresh.mp hd).2, h.known.update hc u,
    fun d hd => ?_, fun j hj => ?_, by simpa using h.size⟩
  · by_cases hdc : d = c
    · subst hdc
      exact ⟨i, hindex, _, Array.getElem?_setIfInBounds_self_of_lt hi, by simp [h.events]⟩
    · have hd : r.status d = .registered := by simpa [hdc] using hd
      obtain ⟨j, hj, pfd', hpfd', hrest⟩ := h.slot d hd
      have hij : i ≠ j := by
        rintro rfl
        exact hdc (h.index_inj hfd hpos hd hc (hj.trans hindex.symm))
      refine ⟨j, hj, pfd', ?_, by simpa [hdc] using hrest⟩
      rw [Array.getElem?_setIfInBounds_ne hij, hpfd']
  · obtain ⟨d, hd, hindex⟩ := h.owner j (by simpa using hj)
    exact ⟨d, Registry.update_status_eq_registered.mpr (.inr hd), hindex⟩

theorem Rep.remove_last (h : Rep fd r s) (hfd : Function.Injective fd) (hpos : ∀ c, 0 ≤ fd c)
    (hc : r.status c = .registered) (hlast : s.chan.index c + 1 = s.pollFds.size) :
    Rep fd (r.remove c) { s with
      channels := s.channels.erase (fd c)
      pollFds := s.pollFds.pop } := by
  refine ⟨h.events, h.pollable, fun d hd => h.fresh d (Registry.remove_status_eq_fresh.mp hd).2,
    h.known.erase hc, fun d hd => ?_, fun j hj => ?_, ?_⟩
  · obtain ⟨hdc, hd⟩ := Registry.remove_status_eq_registered.mp hd
    obtain ⟨j, hj, pfd, hpfd, hrest⟩ := h.slot d hd
    have hjs : j < s.pollFds.size := (Array.getElem?_eq_some_iff.mp hpfd).1
    have hne : s.chan.index d ≠ s.chan.index c := fun he => hdc (h.index_inj hfd hpos hd hc he)
    refine ⟨j, hj, pfd, ?_, hrest⟩
    rw [Array.getElem?_pop, if_pos (by omega), hpfd]
  · rw [Array.size_pop] at hj
    obtain ⟨d, hd, hdj⟩ := h.owner j (by omega)
    have hdc : d ≠ c := by
      rintro rfl
      omega
    exact ⟨d, by simpa [hdc] using hd, hdj⟩
  · have := h.size_erase hc
    simp only [Array.size_pop]
    omega

theorem Rep.remove_swap (h : Rep fd r s) (hfd : Function.Injective fd) (hpos : ∀ c, 0 ≤ fd c)
    {i : Nat} (hc : r.status c = .registered) (hindex : s.chan.index c = i)
    (hlast : i + 1 < s.pollFds.size) (hd : r.status d = .registered)
    (hdl : s.chan.index d = (s.pollFds.size - 1 : Nat)) :
    Rep fd (r.remove c) { s with
      channels := s.channels.erase (fd c)
      chan := s.chan.setIndex d i
      pollFds := (s.pollFds.swapIfInBounds i (s.pollFds.size - 1)).pop } := by
  have hdc : d ≠ c := by
    rintro rfl
    omega
  refine ⟨h.events, h.pollable, fun x hx => ?_, h.known.erase hc, fun x hx => ?_,
    fun j hj => ?_, ?_⟩
  · obtain ⟨_, hx⟩ := Registry.remove_status_eq_fresh.mp hx
    have hxd : x ≠ d := by
      rintro rfl
      simp [hd] at hx
    simpa [hxd] using h.fresh x hx
  · obtain ⟨hxc, hx⟩ := Registry.remove_status_eq_registered.mp hx
    obtain ⟨j, hj, pfd, hpfd, hrest⟩ := h.slot x hx
    by_cases hxd : x = d
    · subst hxd
      have hjl : j = s.pollFds.size - 1 := by omega
      subst hjl
      refine ⟨i, by simp, pfd, ?_, hrest⟩
      rw [getElem?_swapIfInBounds_pop hlast, if_pos hlast, if_pos rfl, hpfd]
    · have hjs : j < s.pollFds.size := (Array.getElem?_eq_some_iff.mp hpfd).1
      have hne : s.chan.index x ≠ s.chan.index c := fun he => hxc (h.index_inj hfd hpos hx hc he)
      have hne' : s.chan.index x ≠ s.chan.index d := fun he => hxd (h.index_inj hfd hpos hx hd he)
      refine ⟨j, by simpa [hxd] using hj, pfd, ?_, hrest⟩
      rw [getElem?_swapIfInBounds_pop hlast, if_pos (by omega), if_neg (by omega), hpfd]
  · have hjs : j + 1 < s.pollFds.size := by
      simp only [Array.size_pop, Array.size_swapIfInBounds] at hj
      omega
    by_cases hji : j = i
    · exact ⟨d, by simpa [hdc] using hd, by simp [hji]⟩
    · obtain ⟨x, hx, hxj⟩ := h.owner j (by omega)
      have hxc : x ≠ c := by
        rintro rfl
        omega
      have hxd : x ≠ d := by
        rintro rfl
        omega
      exact ⟨x, by simpa [hxc] using hx, by simpa [hxd] using hxj⟩
  · have := h.size_erase hc
    simp only [Array.size_pop, Array.size_swapIfInBounds]
    omega

theorem Rep.remove (h : Rep fd r s) (hfd : Function.Injective fd) (hpos : ∀ c, 0 ≤ fd c)
    (hc : r.status c = .registered) (he : r.events c = kNoneEvent) :
    ∃ s', step fd s (.remove c) = .ok s' ∧ Rep fd (r.remove c) s' := by
  obtain ⟨i, hslot⟩ := h.slot c hc
  rw [he] at hslot
  have hindex := hslot.index
  have hknown := h.known.getElem?_of_registered hc
  have hevents : s.chan.events c = kNoneEvent := by rw [h.events, he]
  have hstep : step fd s (.remove c) = removeChannel fd s c := by
    simp [step, hevents, bind, Except.bind]
  obtain ⟨pfd, hpfd, _⟩ := hslot.entry
  have hi : i < s.pollFds.size := (Array.getElem?_eq_some_iff.mp hpfd).1
  rw [hstep]
  by_cases hlast : i + 1 = s.pollFds.size
  · exact ⟨_, removeChannel_last hslot hknown hevents hlast,
      h.remove_last hfd hpos hc (by omega)⟩
  · obtain ⟨d, hd, hdl⟩ := h.owner (s.pollFds.size - 1) (by omega)
    obtain ⟨l, hdslot⟩ := h.slot d hd
    have hl : l = s.pollFds.size - 1 := by
      have := hdslot.index
      omega
    subst hl
    have hdc : c ≠ d := by
      rintro rfl
      omega
    exact ⟨_, removeChannel_swap hslot hknown hevents (by omega) hdslot
      (h.known.getElem?_of_registered hd) (hpos d) (hfd.ne hdc),
      h.remove_swap hfd hpos hc hindex (by omega) hd hdl⟩

theorem step_related {o : Op C} (hfd : Function.Injective fd) (hpos : ∀ c, 0 ≤ fd c)
    (h : Rep fd r s) (ho : r.FirstEnables o ∧ r.NotAfterRemoval o) :
    Related (Rep fd) (r.step o) (step fd s o) := by
  obtain ⟨hfirst, hafter⟩ := ho
  cases o with
  | update u c =>
    obtain ⟨s', hs', hrep⟩ : ∃ s', step fd s (.update u c) = .ok s' ∧ Rep fd (r.update u c) s' := by
      cases hc : r.status c with
      | fresh => exact h.update_fresh hfd hc (hfirst hc)
      | registered => exact h.update_registered hfd hpos hc
      | removed => exact absurd hc hafter
    rw [hs']
    exact hrep
  | remove c =>
    by_cases he : r.events c = kNoneEvent
    · by_cases hc : r.status c = .registered
      · obtain ⟨s', hs', hrep⟩ := h.remove hfd hpos hc he
        rw [Registry.step_remove hc he, hs']
        exact hrep
      · have hnone := h.known.getElem?_eq_none (free_of_injective hfd) hc
        simp [Registry.step, step, removeChannel, h.events, he, hc, hnone, assert, Related, bind,
          Except.bind]
    · simp [Registry.step, step, h.events, he, assert, Related, bind, Except.bind]

end AcMuduo.PollPoller
