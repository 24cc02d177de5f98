import AcMuduo.Reregistration

namespace AcMuduo

open Machine

def OnlyAsserts {α : Type} (x : Except (Stop Fault) α) : Prop :=
  ∀ d, x = .error d → d = .fault .assertFailed

variable {α β : Type} {x : Except (Stop Fault) α} {f : α → Except (Stop Fault) β}

theorem onlyAsserts_ok (a : α) : OnlyAsserts (.ok a) := nofun

theorem onlyAsserts_assert (b : Bool) : OnlyAsserts (assert b) := by
  intro d h
  cases b with
  | true => cases h
  | false => exact (Except.error.inj h).symm

theorem OnlyAsserts.bind (hx : OnlyAsserts x) (hf : ∀ a, x = .ok a → OnlyAsserts (f a)) :
    OnlyAsserts (x >>= f) := by
  intro d h
  obtain hd | ⟨a, ha, hd⟩ := bind_eq_error.mp h
  · exact hx d hd
  · exact hf a ha d hd

theorem OnlyAsserts.assert_bind {b : Bool} {f : Unit → Except (Stop Fault) β}
    (hf : b = true → OnlyAsserts (f ())) : OnlyAsserts (assert b >>= f) :=
  (onlyAsserts_assert b).bind fun _ h => hf (assert_eq_ok.mp h)

end AcMuduo

namespace AcMuduo.Poller

open Machine

variable {C : Type} [DecidableEq C]

/-- What the event loop uses of a poller. An `Answer` is what the kernel has written by the time
that the system call of `poll` returns, `reports` the descriptors in it with their `revents`. -/
structure Selector (C : Type) extends Interface C where
  Answer : Type
  poll : (C → Int) → State → Answer → Except (Stop Fault) (State × List C)
  Valid : (C → Int) → State → Answer → Prop
  reports : (C → Int) → State → Answer → List (Int × BitVec 32)

def Maps (fd : C → Int) (s t : ChannelMap C) : Op C → Prop
  | .update _ c => (s[fd c]? = none ∨ s[fd c]? = some c) ∧
    ∀ f, t[f]? = if f = fd c then some c else s[f]?
  | .remove c => s[fd c]? = some c ∧ ∀ f, t[f]? = if f = fd c then none else s[f]?

/-- A poller that keeps its word, whatever the use made of it: it fails in an assert or not at all,
only an operation on a channel changes `channels_`, and `poll` answers with channels in it. -/
structure Lawful (p : Selector C) (fd : C → Int) (Inv : p.State → Prop) : Prop where
  init : Inv p.init
  empty : ∀ f : Int, (p.channels p.init)[f]? = none
  under : ∀ s f c, Inv s → (p.channels s)[f]? = some c → fd c = f
  error : ∀ s o, Inv s → OnlyAsserts (p.step fd s o)
  step : ∀ s o t, Inv s → p.step fd s o = .ok t → Inv t ∧
    Maps fd (p.channels s) (p.channels t) o ∧ (p.chan t).revents = (p.chan s).revents
  poll : ∀ s a, Inv s → p.Valid fd s a → ∃ t active, p.poll fd s a = .ok (t, active) ∧ Inv t ∧
    p.channels t = p.channels s ∧ active.Nodup ∧
    (∀ c ∈ active, Registered p.toInterface fd s c) ∧
    active.map (fun c => (fd c, (p.chan t).revents c)) = p.reports fd s a

omit [DecidableEq C] in
theorem getElem?_insert (m : ChannelMap C) (f g : Int) (c : C) :
    (m.insert g c)[f]? = if f = g then some c else m[f]? := by
  rw [Std.TreeMap.getElem?_insert]
  by_cases h : f = g
  · simp [h]
  · simp [h, Ne.symm h]

omit [DecidableEq C] in
theorem getElem?_erase (m : ChannelMap C) (f g : Int) :
    (m.erase g)[f]? = if f = g then none else m[f]? := by
  rw [Std.TreeMap.getElem?_erase]
  by_cases h : f = g
  · simp [h]
  · simp [h, Ne.symm h]

omit [DecidableEq C] in
theorem mem_iff_of_maps {fd : C → Int} {s t : ChannelMap C} {o : Op C} (h : Maps fd s t o)
    {d : C} (hd : d ≠ o.channel) : t[fd d]? = some d ↔ s[fd d]? = some d := by
  cases o with
  | update u c =>
    obtain ⟨hs, ht⟩ := h
    rw [ht]
    by_cases hf : fd d = fd c
    · rw [if_pos hf, hf]
      refine ⟨fun h => absurd (Option.some.inj h).symm hd, fun h => ?_⟩
      rw [h] at hs
      cases hs with
      | inl hs => cases hs
      | inr hs => exact absurd (Option.some.inj hs) hd
    · rw [if_neg hf]
  | remove c =>
    obtain ⟨hs, ht⟩ := h
    rw [ht]
    by_cases hf : fd d = fd c
    · rw [if_pos hf, hf, hs]
      exact ⟨nofun, fun h => absurd (Option.some.inj h).symm hd⟩
    · rw [if_neg hf]

end AcMuduo.Poller

namespace AcMuduo

open Machine Poller

variable {C : Type} [DecidableEq C]

namespace PollPoller

/-- `poll`. The answer of `::poll` is the `revents` of each entry; it returns the number of those
that are not zero. -/
def poll (fd : C → Int) (s : State C) (result : Nat → BitVec 16) :
    Except (Stop Fault) (State C × List C) := do
  let pollFds := polled s result
  let numEvents := pollFds.toList.countP fun pfd => pfd.revents ≠ 0
  let (chan, activeChannels) ← fillActiveChannels fd s.channels pollFds.toList numEvents s.chan []
  .ok ({ s with pollFds := pollFds, chan := chan }, activeChannels)

/-- `::poll` sets no sign bit, and ignores an entry with a negative `fd`. -/
def Valid (s : State C) (result : Nat → BitVec 16) : Prop :=
  (∀ pfd ∈ polled s result, 0 ≤ pfd.revents.toInt) ∧
    ∀ pfd ∈ polled s result, pfd.isReady = true → 0 ≤ pfd.fd

def reports (s : State C) (result : Nat → BitVec 16) : List (Int × BitVec 32) :=
  ((polled s result).toList.filter PollFd.isReady).map
    fun pfd => (pfd.fd, pfd.revents.signExtend 32)

def selector : Selector C where
  toInterface := interface
  Answer := Nat → BitVec 16
  poll := poll
  Valid := fun _ => Valid
  reports := fun _ => reports

end PollPoller

namespace EpollPoller

/-- `poll`. The answer of `epoll_wait` is the part of `events_` that it has filled in. -/
def poll (s : State C) (events : List (EpollEvent C)) : Except (Stop Fault) (State C × List C) := do
  let (chan, activeChannels) ← fillActiveChannels events events.length s.chan []
  .ok ({ s with chan := chan }, activeChannels)

/-- `epoll_wait` returns entries of the interest set, each at most once. -/
def Valid (s : State C) (events : List (EpollEvent C)) : Prop :=
  (∀ event ∈ events, s.epoll.CanReturn event) ∧ (events.map EpollEvent.channel).Nodup

def selector : Selector C where
  toInterface := interface
  Answer := List (EpollEvent C)
  poll := fun _ => poll
  Valid := fun _ => Valid
  reports := fun fd _ events => events.map fun event => (fd event.channel, event.events)

end EpollPoller

def BackEnd.selector (C : Type) [DecidableEq C] : BackEnd → Selector C
  | .poll => PollPoller.selector
  | .epoll => EpollPoller.selector

end AcMuduo
