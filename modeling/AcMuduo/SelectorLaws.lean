import AcMuduo.PollRows

namespace AcMuduo

open Machine Poller

variable {C : Type} {fd : C → Int}

namespace EpollPoller

variable {r : Registry C} {s t : State C} {c : C} {events : List (EpollEvent C)}

theorem Rep.registered_of_canReturn (h : Rep fd r s) {event : EpollEvent C}
    (he : s.epoll.CanReturn event) : r.status event.channel = .registered := by
  obtain ⟨f, entry, hentry, hchannel⟩ := he
  obtain ⟨c, -, hadded, rfl⟩ := (h.interest f entry).mp hentry
  rw [hchannel]
  exact h.indexed.registered (.inl hadded)

variable [DecidableEq C]

theorem Rep.onlyAsserts_update (h : Rep fd r s) (u : Update) (c : C) :
    OnlyAsserts (step fd s (.update u c)) := by
  have hok : Free fd r c → OnlyAsserts (step fd s (.update u c)) := by
    intro hfree
    obtain ⟨t, ht, -⟩ := h.update u hfree
    rw [ht]
    exact onlyAsserts_ok t
  cases h.indexed c with
  | inl hreg => exact hok (h.known.free_of_registered hreg.1)
  | inr hnew =>
    cases hnone : s.channels[fd c]? with
    | none => exact hok (h.known.free_of_none hnone)
    | some d =>
      intro e he
      simp [step, updateChannel, hnew.2, hnone, assert, bind, Except.bind] at he
      exact he.symm

theorem Rep.onlyAsserts_remove (h : Rep fd r s) (c : C) : OnlyAsserts (step fd s (.remove c)) := by
  by_cases he : s.chan.events c = kNoneEvent
  · by_cases hc : s.channels[fd c]? = some c
    · obtain ⟨t, ht, -⟩ := h.remove ((h.known _ _).mp hc).2 (h.events ▸ he)
      rw [ht]
      exact onlyAsserts_ok t
    · refine OnlyAsserts.assert_bind fun _ => .assert_bind fun _ => .assert_bind fun hc' => ?_
      rw [decide_eq_true_eq] at hc'
      exact absurd hc' hc
  · refine OnlyAsserts.assert_bind fun he' => ?_
    rw [decide_eq_true_eq] at he'
    exact absurd he' he

theorem maps_update {r : Registry C} {s t : ChannelMap C} {u : Update} (hs : Known fd s r)
    (ht : Known fd t (r.update u c)) (hfree : Free fd r c) : Maps fd s t (.update u c) := by
  refine ⟨?_, fun f => ?_⟩
  · by_cases hc : r.status c = .registered
    · exact .inr (hs.getElem?_of_registered hc)
    · exact .inl (hs.getElem?_eq_none hfree hc)
  · ext d
    rw [ht, Registry.update_status_eq_registered]
    split
    · rename_i hf
      subst hf
      constructor
      · rintro ⟨hd, rfl | hreg⟩
        · rfl
        · rw [hfree d hreg hd]
      · intro hd
        cases hd
        exact ⟨rfl, .inl rfl⟩
    · rename_i hf
      rw [hs]
      refine and_congr_right fun hd => or_iff_right ?_
      rintro rfl
      exact hf hd.symm

theorem maps_remove {r : Registry C} {s t : ChannelMap C} (hs : Known fd s r)
    (ht : Known fd t (r.remove c)) (hc : r.status c = .registered) : Maps fd s t (.remove c) := by
  refine ⟨hs.getElem?_of_registered hc, fun f => ?_⟩
  ext d
  rw [ht, Registry.remove_status_eq_registered]
  split
  · rename_i hf
    subst hf
    refine ⟨fun h => ?_, nofun⟩
    obtain ⟨hd, hdc, hreg⟩ := h
    exact absurd (hs.free_of_registered hc d hreg hd) hdc
  · rename_i hf
    rw [hs]
    refine and_congr_right fun hd => and_iff_right ?_
    rintro rfl
    exact hf hd.symm

theorem Rep.maps (h : Rep fd r s) {o : Op C} (hs : step fd s o = .ok t) :
    Maps fd s.channels t.channels o := by
  obtain ⟨r', hr', h'⟩ := h.of_step hs
  cases o with
  | update u c =>
    cases hr'
    exact maps_update h.known h'.known (h.free_of_update hs)
  | remove c =>
    obtain ⟨hc, he⟩ := h.registered_of_remove hs
    rw [Registry.step_remove hc he] at hr'
    cases hr'
    exact maps_remove h.known h'.known hc

omit [DecidableEq C] in
theorem update_chan {op : CtlOp} (h : update fd op s c = .ok t) : t.chan = s.chan := by
  simp only [update] at h
  split at h
  · cases h
    rfl
  · split at h
    · cases h
      rfl
    · cases h

theorem step_revents {o : Op C} (h : step fd s o = .ok t) : t.chan.revents = s.chan.revents := by
  cases o with
  | update u c =>
    simp only [step, updateChannel] at h
    split at h
    · split at h
      · obtain ⟨-, -, h⟩ := bind_eq_ok.mp h
        rw [update_chan h]
        rfl
      · obtain ⟨-, -, h⟩ := bind_eq_ok.mp h
        rw [update_chan h]
        rfl
    · simp only [bind_eq_ok, assert_eq_ok] at h
      obtain ⟨-, -, -, -, -, -, h⟩ := h
      split at h
      · obtain ⟨s', hs', h⟩ := bind_eq_ok.mp h
        cases h
        have hchan := update_chan hs'
        rw [Channels.setIndex, hchan]
        rfl
      · rw [update_chan h]
        rfl
  | remove c =>
    simp only [step, removeChannel, bind_eq_ok, assert_eq_ok] at h
    obtain ⟨-, -, -, -, -, -, -, -, -, -, h⟩ := h
    split at h
    · obtain ⟨s', hs', h⟩ := bind_eq_ok.mp h
      cases h
      have hchan := update_chan hs'
      rw [Channels.setIndex, hchan]
    · cases h
      rfl

theorem fillActiveChannels_chan (chan : Channels C) (activeChannels : List C)
    (hnodup : (events.map EpollEvent.channel).Nodup) : ∃ chan',
    fillActiveChannels events events.length chan activeChannels =
      .ok (chan', activeChannels ++ events.map EpollEvent.channel) ∧
    chan'.index = chan.index ∧ chan'.events = chan.events ∧
    ∀ event ∈ events, chan'.revents event.channel = event.events := by
  have hfold : ∃ chan', events.foldl (fun (p : Channels C × List C) event =>
      (p.1.setRevents event.channel event.events, p.2 ++ [event.channel]))
      (chan, activeChannels) = (chan', activeChannels ++ events.map EpollEvent.channel) ∧
      chan'.index = chan.index ∧ chan'.events = chan.events ∧
      (∀ event ∈ events, chan'.revents event.channel = event.events) ∧
      ∀ c ∉ events.map EpollEvent.channel, chan'.revents c = chan.revents c := by
    induction events generalizing chan activeChannels with
    | nil => exact ⟨chan, by simp⟩
    | cons event events ih =>
      rw [List.map_cons, List.nodup_cons] at hnodup
      obtain ⟨chan', hfill, hindex, hevents, hin, hout⟩ := ih
        (chan.setRevents event.channel event.events) (activeChannels ++ [event.channel]) hnodup.2
      refine ⟨chan', by simp [hfill], hindex, hevents, List.forall_mem_cons.mpr ⟨?_, hin⟩,
        fun c hc => ?_⟩
      · rw [hout _ hnodup.1]
        simp [Channels.setRevents]
      · rw [List.map_cons, List.mem_cons, not_or] at hc
        rw [hout c hc.2]
        simp [Channels.setRevents, hc.1]
  obtain ⟨chan', hfill, hindex, hevents, hin, -⟩ := hfold
  refine ⟨chan', ?_, hindex, hevents, hin⟩
  simp [fillActiveChannels, hfill, bind, Except.bind]

theorem Rep.of_poll (h : Rep fd r s) (hvalid : Valid s events) : ∃ t active,
    poll s events = .ok (t, active) ∧ Rep fd r t ∧ t.channels = s.channels ∧ active.Nodup ∧
    (∀ c ∈ active, s.channels[fd c]? = some c) ∧
    active.map (fun c => (fd c, t.chan.revents c)) =
      events.map fun event => (fd event.channel, event.events) := by
  obtain ⟨hreturn, hnodup⟩ := hvalid
  obtain ⟨chan, hfill, hindex, hevents, hrevents⟩ := fillActiveChannels_chan s.chan [] hnodup
  rw [List.nil_append] at hfill
  refine ⟨{ s with chan := chan }, events.map EpollEvent.channel, ?_, ?_, rfl, hnodup, ?_, ?_⟩
  · simp only [poll, hfill, bind, Except.bind]
  · refine ⟨hevents.trans h.events, h.known, ?_, ?_, h.answers⟩
    · simp only [hindex]
      exact h.indexed
    · simp only [hindex]
      exact h.interest
  · intro c hc
    obtain ⟨event, hevent, rfl⟩ := List.mem_map.mp hc
    exact h.known.getElem?_of_registered (h.registered_of_canReturn (hreturn event hevent))
  · rw [List.map_map]
    refine List.map_congr_left fun event hevent => ?_
    exact congrArg _ (hrevents event hevent)

theorem lawful (fd : C → Int) : Lawful selector fd (fun s => ∃ r, Rep fd r s) where
  init := ⟨_, rep_init⟩
  empty f := by simp [selector, interface, State.init]
  under s f c h hc := by
    obtain ⟨r, h⟩ := h
    exact ((h.known f c).mp hc).1
  error s o h := by
    obtain ⟨r, h⟩ := h
    cases o with
    | update u c => exact h.onlyAsserts_update u c
    | remove c => exact h.onlyAsserts_remove c
  step s o t h hs := by
    obtain ⟨r, h⟩ := h
    obtain ⟨r', -, h'⟩ := h.of_step hs
    exact ⟨⟨r', h'⟩, h.maps hs, step_revents hs⟩
  poll s a h hvalid := by
    obtain ⟨r, h⟩ := h
    obtain ⟨t, active, hpoll, h', hchannels, hnodup, hreg, hreports⟩ := h.of_poll hvalid
    exact ⟨t, active, hpoll, ⟨r, h'⟩, hchannels, hnodup,
      fun c hc => decide_eq_true (hreg c hc), hreports⟩

end EpollPoller

variable [DecidableEq C]

def BackEnd.Inv (fd : C → Int) : (b : BackEnd) → (b.selector C).State → Prop
  | .poll => PollPoller.Rows fd
  | .epoll => fun s => ∃ r, EpollPoller.Rep fd r s

theorem BackEnd.lawful (hpos : ∀ c, 0 ≤ fd c) :
    ∀ b : BackEnd, Lawful (b.selector C) fd (b.Inv fd)
  | .poll => PollPoller.lawful hpos
  | .epoll => EpollPoller.lawful fd

end AcMuduo
