import AcMuduo.EpollPoller

namespace AcMuduo.EpollPoller

open Machine Poller

variable {C : Type} {fd : C → Int} {r : Registry C} {s : State C} {c d : C} {k : Epoll C}
  {f : Int} {event old : EpollEvent C}

theorem ctl_add (h : k.interest f = none) : k.ctl .add f event =
    (⟨Function.update k.interest f (some event), k.answers ++ [none]⟩, none) := by
  simp [Epoll.ctl, Epoll.errno, h]

theorem ctl_mod (h : k.interest f = some old) : k.ctl .mod f event =
    (⟨Function.update k.interest f (some event), k.answers ++ [none]⟩, none) := by
  simp [Epoll.ctl, Epoll.errno, h]

theorem ctl_del (h : k.interest f = some old) : k.ctl .del f event =
    (⟨Function.update k.interest f none, k.answers ++ [none]⟩, none) := by
  simp [Epoll.ctl, Epoll.errno, h]

/-- The interest set holds the channels with the index `kAdded`, with their events. -/
def Interest (fd : C → Int) (index : C → Int) (events : C → BitVec 32)
    (interest : Int → Option (EpollEvent C)) : Prop :=
  ∀ f event, interest f = some event ↔ ∃ c, fd c = f ∧ index c = kAdded ∧ event = ⟨events c, c⟩

variable {index : C → Int} {events : C → BitVec 32} {interest : Int → Option (EpollEvent C)}
  {x : Int}

theorem Interest.eq_some (h : Interest fd index events interest) (hc : index c = kAdded) :
    interest (fd c) = some ⟨events c, c⟩ :=
  (h _ _).mpr ⟨c, rfl, hc, rfl⟩

theorem Interest.eq_none (h : Interest fd index events interest)
    (hfree : ∀ d, index d = kAdded → fd d = fd c → d = c) (hc : index c ≠ kAdded) :
    interest (fd c) = none := by
  rw [Option.eq_none_iff_forall_ne_some]
  intro event he
  obtain ⟨d, hd, hadded, _⟩ := (h _ _).mp he
  exact hc (hfree d hadded hd ▸ hadded)

variable [DecidableEq C]

theorem Interest.of_ne (h : Interest fd index events interest) (hf : f ≠ fd c) (x : Int)
    (e : BitVec 32) : interest f = some event ↔ ∃ d, fd d = f ∧
      Function.update index c x d = kAdded ∧ event = ⟨Function.update events c e d, d⟩ := by
  rw [h]
  refine exists_congr fun d => and_congr_right fun hd => ?_
  have hdc : d ≠ c := by
    rintro rfl
    exact hf hd.symm
  rw [Function.update_of_ne hdc, Function.update_of_ne hdc]

theorem Interest.set (h : Interest fd index events interest)
    (hfree : ∀ d, index d = kAdded → fd d = fd c → d = c) (e : BitVec 32) :
    Interest fd (Function.update index c kAdded) (Function.update events c e)
      (Function.update interest (fd c) (some ⟨e, c⟩)) := by
  intro f event
  by_cases hf : f = fd c
  · subst hf
    rw [Function.update_self, Option.some.injEq]
    constructor
    · rintro rfl
      exact ⟨c, rfl, by simp, by simp⟩
    · rintro ⟨d, hd, hadded, rfl⟩
      by_cases hdc : d = c
      · rw [hdc, Function.update_self]
      · rw [Function.update_of_ne hdc] at hadded
        exact absurd (hfree d hadded hd) hdc
  · rw [Function.update_of_ne hf]
    exact h.of_ne hf _ e

theorem Interest.clear (h : Interest fd index events interest)
    (hfree : ∀ d, index d = kAdded → fd d = fd c → d = c) (hx : x ≠ kAdded) (e : BitVec 32) :
    Interest fd (Function.update index c x) (Function.update events c e)
      (Function.update interest (fd c) none) := by
  intro f event
  by_cases hf : f = fd c
  · subst hf
    rw [Function.update_self]
    refine ⟨nofun, ?_⟩
    rintro ⟨d, hd, hadded, _⟩
    by_cases hdc : d = c
    · rw [hdc, Function.update_self] at hadded
      exact absurd hadded hx
    · rw [Function.update_of_ne hdc] at hadded
      exact absurd (hfree d hadded hd) hdc
  · rw [Function.update_of_ne hf]
    exact h.of_ne hf _ e

theorem Interest.keep (h : Interest fd index events interest) (hc : index c ≠ kAdded)
    (hx : x ≠ kAdded) : Interest fd (Function.update index c x) events interest := by
  intro f event
  rw [h]
  refine exists_congr fun d => and_congr_right fun _ => ?_
  by_cases hdc : d = c
  · subst hdc
    simp [hc, hx]
  · rw [Function.update_of_ne hdc]

def Indexed (index : C → Int) (r : Registry C) : Prop :=
  ∀ c, r.status c = .registered ∧ (index c = kAdded ∨ index c = kDeleted) ∨
    r.status c ≠ .registered ∧ index c = kNew

theorem Indexed.update (h : Indexed index r) (hx : x = kAdded ∨ x = kDeleted) (u : Update) (c : C) :
    Indexed (Function.update index c x) (r.update u c) := by
  intro d
  by_cases hdc : d = c
  · subst hdc
    simpa using hx
  · simpa [hdc] using h d

theorem Indexed.remove (h : Indexed index r) (c : C) :
    Indexed (Function.update index c kNew) (r.remove c) := by
  intro d
  by_cases hdc : d = c
  · subst hdc
    simp
  · simpa [hdc] using h d

omit [DecidableEq C] in
theorem Indexed.registered (h : Indexed index r) (hc : index c = kAdded ∨ index c = kDeleted) :
    r.status c = .registered := by
  cases h c with
  | inl h => exact h.1
  | inr h =>
    obtain ⟨_, hnew⟩ := h
    rw [hnew] at hc
    exact absurd hc (by decide)

structure Rep (fd : C → Int) (r : Registry C) (s : State C) : Prop where
  events : s.chan.events = r.events
  known : Known fd s.channels r
  indexed : Indexed s.chan.index r
  interest : Interest fd s.chan.index r.events s.epoll.interest
  answers : ∀ a ∈ s.epoll.answers, a = none

omit [DecidableEq C] in
theorem rep_init : Rep fd .init .init := by
  refine ⟨rfl, known_init, fun c => .inr ⟨by simp [Registry.init], rfl⟩, fun f event => ?_,
    by simp [State.init, Epoll.init]⟩
  simp [State.init, Epoll.init, Channels.init, kAdded]

theorem updateChannel_add (hc : s.chan.index c = kNew ∧ s.channels[fd c]? = none ∨
      s.chan.index c = kDeleted ∧ s.channels[fd c]? = some c)
    (hnone : s.epoll.interest (fd c) = none) :
    updateChannel fd s c = .ok { s with
      chan := s.chan.setIndex c kAdded
      channels := s.channels.insert (fd c) c
      epoll := ⟨Function.update s.epoll.interest (fd c) (some ⟨s.chan.events c, c⟩),
        s.epoll.answers ++ [none]⟩ } := by
  cases hc with
  | inl hc =>
    obtain ⟨hindex, hc⟩ := hc
    simp [updateChannel, update, hindex, hc, ctl_add hnone, bind, Except.bind]
  | inr hc =>
    obtain ⟨hindex, hc⟩ := hc
    have hne : kDeleted ≠ kNew := by decide
    simp [updateChannel, update, hindex, hc, hne, ctl_add hnone, bind, Except.bind]

theorem updateChannel_del (hindex : s.chan.index c = kAdded) (hc : s.channels[fd c]? = some c)
    (he : s.chan.events c = kNoneEvent) (hsome : s.epoll.interest (fd c) = some old) :
    updateChannel fd s c = .ok { s with
      chan := s.chan.setIndex c kDeleted
      epoll := ⟨Function.update s.epoll.interest (fd c) none, s.epoll.answers ++ [none]⟩ } := by
  have hne : ¬ (kAdded = kNew ∨ kAdded = kDeleted) := by decide
  simp [updateChannel, update, hindex, hc, hne, he, ctl_del hsome, bind, Except.bind]

theorem updateChannel_mod (hindex : s.chan.index c = kAdded) (hc : s.channels[fd c]? = some c)
    (he : s.chan.events c ≠ kNoneEvent) (hsome : s.epoll.interest (fd c) = some old) :
    updateChannel fd s c = .ok { s with
      epoll := ⟨Function.update s.epoll.interest (fd c) (some ⟨s.chan.events c, c⟩),
        s.epoll.answers ++ [none]⟩ } := by
  have hne : ¬ (kAdded = kNew ∨ kAdded = kDeleted) := by decide
  simp [updateChannel, update, hindex, hc, hne, he, ctl_mod hsome, bind, Except.bind]

theorem removeChannel_added (hindex : s.chan.index c = kAdded) (hc : s.channels[fd c]? = some c)
    (he : s.chan.events c = kNoneEvent) (hsome : s.epoll.interest (fd c) = some old) :
    removeChannel fd s c = .ok { s with
      chan := s.chan.setIndex c kNew
      channels := s.channels.erase (fd c)
      epoll := ⟨Function.update s.epoll.interest (fd c) none, s.epoll.answers ++ [none]⟩ } := by
  simp [removeChannel, update, hindex, hc, he, ctl_del hsome, bind, Except.bind]

theorem removeChannel_deleted (hindex : s.chan.index c = kDeleted)
    (hc : s.channels[fd c]? = some c) (he : s.chan.events c = kNoneEvent) :
    removeChannel fd s c = .ok { s with
      chan := s.chan.setIndex c kNew
      channels := s.channels.erase (fd c) } := by
  have hne : kDeleted ≠ kAdded := by decide
  simp [removeChannel, hindex, hc, he, hne, bind, Except.bind]

theorem answers_append {answers : List (Option Errno)} (h : ∀ a ∈ answers, a = none) :
    ∀ a ∈ answers ++ [none], a = none := by
  intro a ha
  cases List.mem_append.mp ha with
  | inl ha => exact h a ha
  | inr ha => exact List.mem_singleton.mp ha

def nextIndex (index : Int) (events : BitVec 32) : Int :=
  if index = kAdded ∧ events = kNoneEvent then kDeleted else kAdded

theorem nextIndex_eq (index : Int) (events : BitVec 32) :
    nextIndex index events = kAdded ∨ nextIndex index events = kDeleted := by
  rw [nextIndex]
  split <;> simp

omit [DecidableEq C] in
theorem Rep.free_added (h : Rep fd r s) (hfree : Free fd r c) (d : C)
    (hd : s.chan.index d = kAdded) (heq : fd d = fd c) : d = c :=
  hfree d (h.indexed.registered (.inl hd)) heq

theorem Rep.update (h : Rep fd r s) (u : Update) (hfree : Free fd r c) :
    ∃ s', step fd s (.update u c) = .ok s' ∧ Rep fd (r.update u c) s' ∧
      s'.chan.index = Function.update s.chan.index c
        (nextIndex (s.chan.index c) (u.events (r.events c))) := by
  have hevents : Function.update s.chan.events c (u.events (s.chan.events c)) =
      (r.update u c).events := by rw [h.events]; rfl
  have hindexed := h.indexed.update (nextIndex_eq (s.chan.index c) (u.events (r.events c))) u c
  have hself : Function.update s.chan.index c (s.chan.index c) = s.chan.index := by simp
  by_cases hadded : s.chan.index c = kAdded
  · have hc := h.indexed.registered (.inl hadded)
    have hsome := h.interest.eq_some hadded
    have hknown := h.known.getElem?_of_registered hc
    by_cases he : u.events (r.events c) = kNoneEvent
    · have hnext : nextIndex (s.chan.index c) (u.events (r.events c)) = kDeleted := by
        simp [nextIndex, hadded, he]
      rw [hnext] at hindexed ⊢
      exact ⟨_, updateChannel_del hadded hknown (by simp [h.events, he]) hsome,
        ⟨hevents, h.known.update hc u, hindexed,
          h.interest.clear (h.free_added hfree) (by decide) _, answers_append h.answers⟩, rfl⟩
    · have hnext : nextIndex (s.chan.index c) (u.events (r.events c)) = kAdded := by
        simp [nextIndex, he]
      rw [hnext] at hindexed ⊢
      have hset := h.interest.set (h.free_added hfree) (u.events (r.events c))
      rw [← hadded, hself] at hset hindexed ⊢
      refine ⟨_, updateChannel_mod hadded hknown (by simp [h.events, he]) hsome,
        ⟨hevents, h.known.update hc u, hindexed, ?_, answers_append h.answers⟩, rfl⟩
      simpa [h.events, Registry.update] using hset
  · have hnext : nextIndex (s.chan.index c) (u.events (r.events c)) = kAdded := by
      simp [nextIndex, hadded]
    rw [hnext] at hindexed ⊢
    have hcases : s.chan.index c = kNew ∧ s.channels[fd c]? = none ∨
        s.chan.index c = kDeleted ∧ s.channels[fd c]? = some c := by
      cases h.indexed c with
      | inl hreg =>
        obtain ⟨hc, hindex⟩ := hreg
        exact .inr ⟨hindex.resolve_left hadded, h.known.getElem?_of_registered hc⟩
      | inr hnew =>
        obtain ⟨hc, hindex⟩ := hnew
        exact .inl ⟨hindex, h.known.getElem?_eq_none hfree hc⟩
    refine ⟨_, updateChannel_add hcases (h.interest.eq_none (h.free_added hfree) hadded),
      ⟨hevents, h.known.insert hfree u, hindexed, ?_, answers_append h.answers⟩, rfl⟩
    simpa [h.events, Registry.update] using
      h.interest.set (h.free_added hfree) (u.events (r.events c))

theorem Rep.remove (h : Rep fd r s) (hc : r.status c = .registered) (he : r.events c = kNoneEvent) :
    ∃ s', step fd s (.remove c) = .ok s' ∧ Rep fd (r.remove c) s' ∧
      s'.chan.index = Function.update s.chan.index c kNew := by
  have hknown := h.known.getElem?_of_registered hc
  have hevents : s.chan.events c = kNoneEvent := by rw [h.events, he]
  have hstep : step fd s (.remove c) = removeChannel fd s c := by
    simp [step, hevents, bind, Except.bind]
  rw [hstep]
  rcases h.indexed c with ⟨_, hindex | hindex⟩ | ⟨hn, _⟩
  · have hclear := h.interest.clear (x := kNew) (h.free_added (h.known.free_of_registered hc))
      (by decide) (r.events c)
    rw [Function.update_eq_self] at hclear
    exact ⟨_, removeChannel_added hindex hknown hevents (h.interest.eq_some hindex),
      ⟨h.events, h.known.erase hc, h.indexed.remove c, hclear, answers_append h.answers⟩, rfl⟩
  · have hkeep := h.interest.keep (c := c) (x := kNew) (by rw [hindex]; decide) (by decide)
    exact ⟨_, removeChannel_deleted hindex hknown hevents,
      ⟨h.events, h.known.erase hc, h.indexed.remove c, hkeep, h.answers⟩, rfl⟩
  · exact absurd hc hn

theorem step_related {o : Op C} (hfd : Function.Injective fd) (h : Rep fd r s) :
    Related (Rep fd) (r.step o) (step fd s o) := by
  cases o with
  | update u c =>
    obtain ⟨s', hs', hrep, _⟩ := h.update u (free_of_injective hfd)
    rw [hs']
    exact hrep
  | remove c =>
    by_cases he : r.events c = kNoneEvent
    · by_cases hc : r.status c = .registered
      · obtain ⟨s', hs', hrep, _⟩ := h.remove hc he
        rw [Registry.step_remove hc he, hs']
        exact hrep
      · have hnone := h.known.getElem?_eq_none (free_of_injective hfd) hc
        simp [Registry.step, step, removeChannel, h.events, he, hc, hnone, assert, Related, bind,
          Except.bind]
    · simp [Registry.step, step, h.events, he, assert, Related, bind, Except.bind]

theorem fillActiveChannels_eq (events : List (EpollEvent C)) (chan : Channels C)
    (activeChannels : List C) : ∃ chan', fillActiveChannels events events.length chan
      activeChannels = .ok (chan', activeChannels ++ events.map EpollEvent.channel) := by
  have hfold : ∃ chan', events.foldl (fun (p : Channels C × List C) event =>
      (p.1.setRevents event.channel event.events, p.2 ++ [event.channel]))
      (chan, activeChannels) = (chan', activeChannels ++ events.map EpollEvent.channel) := by
    induction events generalizing chan activeChannels with
    | nil => exact ⟨chan, by simp⟩
    | cons event events ih =>
      obtain ⟨chan', h⟩ := ih (chan.setRevents event.channel event.events)
        (activeChannels ++ [event.channel])
      exact ⟨chan', by simp [h]⟩
  obtain ⟨chan', h⟩ := hfold
  refine ⟨chan', ?_⟩
  simp [fillActiveChannels, h, bind, Except.bind]

theorem run_registry {ops : List (Op C)} (hfd : Function.Injective fd)
    (hops : Throughout Registry.step Registry.RemovesIdle .init ops) :
    ∃ r s, run Registry.step .init ops = .ok r ∧ run (step fd) .init ops = .ok s ∧ Rep fd r s := by
  obtain ⟨r, hr⟩ := run_total (fun _ _ h => Registry.step_total h) hops
  have hstep : ∀ r s o, Rep fd r s → Registry.RemovesIdle r o →
      Related (Rep fd) (r.step o) (step fd s o) := fun r s o h _ => step_related hfd h
  have hrel := run_related hstep rep_init hops
  rw [hr] at hrel
  obtain ⟨s, hs, h⟩ := hrel.of_ok
  exact ⟨r, s, hr, hs, h⟩

/-- After every use of the channels in which a removal finds the channel registered and without
events: no assert has failed, `channels_` and the interest set are those that the indices say, the
kernel has accepted every `epoll_ctl`, and what it can return are channels in `channels_`. -/
theorem interest_in_step {ops : List (Op C)} (hfd : Function.Injective fd)
    (hops : Throughout Registry.step Registry.RemovesIdle .init ops) :
    ∃ s, run (step fd) .init ops = .ok s ∧
      (∀ f c, s.channels[f]? = some c ↔
        fd c = f ∧ (s.chan.index c = kAdded ∨ s.chan.index c = kDeleted)) ∧
      (∀ f event, s.epoll.interest f = some event ↔
        ∃ c, fd c = f ∧ s.chan.index c = kAdded ∧ event = ⟨s.chan.events c, c⟩) ∧
      (∀ a ∈ s.epoll.answers, a = none) ∧
      ∀ (events : List (EpollEvent C)) (activeChannels : List C),
        (∀ event ∈ events, s.epoll.CanReturn event) →
        (∃ chan, fillActiveChannels events events.length s.chan activeChannels =
          .ok (chan, activeChannels ++ events.map EpollEvent.channel)) ∧
        ∀ event ∈ events, hasChannel fd s.channels event.channel = true := by
  obtain ⟨r, s, -, hs, h⟩ := run_registry hfd hops
  refine ⟨s, hs, fun f c => ?_, h.events ▸ h.interest, h.answers, fun events activeChannels he =>
    ⟨fillActiveChannels_eq events s.chan activeChannels, fun event hevent => ?_⟩⟩
  · rw [h.known f c]
    refine and_congr_right fun _ => ⟨fun hc => ?_, h.indexed.registered⟩
    cases h.indexed c with
    | inl h => exact h.2
    | inr h => exact absurd hc h.1
  · obtain ⟨f, entry, hentry, hchannel⟩ := he event hevent
    obtain ⟨c, _, hadded, rfl⟩ := (h.interest f entry).mp hentry
    rw [hchannel]
    exact h.known.hasChannel_iff.mpr (h.indexed.registered (.inl hadded))

def idleUpdates : List (Op (Fin 2)) :=
  [.update .enableReading 0, .update .disableAll 0, .update .disableAll 0, .update .disableAll 0,
    .update .disableWriting 1, .remove 0, .update .enableWriting 0]

theorem interest_in_step_idleUpdates :
    ∃ s, run (step (·.val + 3)) .init idleUpdates = .ok s ∧ ∀ a ∈ s.epoll.answers, a = none := by
  have hfd : Function.Injective fun c : Fin 2 => (c.val : Int) + 3 := fun a b h =>
    Fin.ext (by dsimp only at h; omega)
  have hops : Throughout Registry.step Registry.RemovesIdle .init idleUpdates := by decide
  obtain ⟨s, hs, _, _, ha, _⟩ := interest_in_step hfd hops
  exact ⟨s, hs, ha⟩

end AcMuduo.EpollPoller
