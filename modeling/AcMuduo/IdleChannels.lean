import AcMuduo.PollersAgree
import AcMuduo.Reregistration

namespace AcMuduo.Poller

open Machine

variable {C : Type} [DecidableEq C] {p : Interface C} {fd : C → Int}

/-- A use that `channel_t` permits: a removal finds the channel registered and without events, and
nothing follows it. -/
def Permitted (r : Registry C) (o : Op C) : Prop := r.RemovesIdle o ∧ r.NotAfterRemoval o

instance (r : Registry C) (o : Op C) : Decidable (Permitted r o) :=
  inferInstanceAs (Decidable (_ ∧ _))

/-- After every operation, no channel without events is watched, and each that is registered can be
removed. -/
def UnwatchedIdle (p : Interface C) (fd : C → Int) (ops : List (Op C)) : Prop :=
  ∀ pre, pre <+: ops → ∃ s, run (p.step fd) p.init pre = .ok s ∧
    ∀ c, (p.chan s).events c = kNoneEvent → (∀ events, (fd c, events) ∉ p.watched s) ∧
      (Registered p fd s c → ∃ t, p.step fd s (.remove c) = .ok t)

/-- The states of a poller follow a registry, as long as the updates are good ones. One that is not
makes the kernel watch a channel without events. -/
structure Follows (p : Interface C) (fd : C → Int) (Good : Registry C → Op C → Prop)
    (R : Registry C → p.State → Prop) : Prop where
  init : R .init p.init
  step : ∀ r s o, R r s → Permitted r o → Good r o → Related R (r.step o) (p.step fd s o)
  watched : ∀ r s, R r s → p.watched s = r.watched fd
  events : ∀ r s, R r s → (p.chan s).events = r.events
  registered : ∀ r s c, R r s → Registered p fd s c → r.status c = .registered
  remove : ∀ r c, Good r (.remove c)
  bad : ∀ r s o, R r s → Permitted r o → ¬ Good r o → ∃ t c events, p.step fd s o = .ok t ∧
    (p.chan t).events c = kNoneEvent ∧ (fd c, events) ∈ p.watched t

variable {Good : Registry C → Op C → Prop} {R : Registry C → p.State → Prop} {ops : List (Op C)}

omit [DecidableEq C] in
theorem not_watched {r : Registry C} {c : C} (hfd : Function.Injective fd)
    (he : r.events c = kNoneEvent) (events : BitVec 32) : (fd c, events) ∉ r.watched fd := by
  rintro ⟨d, -, hne, heq⟩
  cases hfd (congrArg Prod.fst heq)
  exact hne he

theorem Follows.run (h : Follows p fd Good R)
    (hops : Throughout Registry.step Permitted .init ops)
    (hgood : Throughout Registry.step Good .init ops) :
    ∃ r s, run Registry.step .init ops = .ok r ∧ run (p.step fd) p.init ops = .ok s ∧ R r s := by
  obtain ⟨r, hr⟩ := run_total (fun _ _ ho => Registry.step_total ho.1) hops
  have hrel := run_related (fun r s o hR ho => h.step r s o hR ho.1 ho.2) h.init (hops.and hgood)
  rw [hr] at hrel
  obtain ⟨s, hs, hR⟩ := hrel.of_ok
  exact ⟨r, s, hr, hs, hR⟩

theorem Follows.unwatchedIdle_iff (h : Follows p fd Good R) (hfd : Function.Injective fd)
    (hops : Throughout Registry.step Permitted .init ops) :
    UnwatchedIdle p fd ops ↔ Throughout Registry.step Good .init ops := by
  constructor
  · intro hidle
    refine throughout_of_first fun pre o post r hsplit hgood hr => ?_
    subst hsplit
    obtain ⟨hpre, hrest⟩ := throughout_append.mp hops
    obtain ⟨r', s, hr', hs, hR⟩ := h.run hpre hgood
    cases hr.symm.trans hr'
    by_contra hbad
    obtain ⟨t, c, events, ht, he, hmem⟩ := h.bad r s o hR (hrest r hr).1 hbad
    obtain ⟨t', ht', hidle⟩ := hidle (pre ++ [o]) ⟨post, by simp⟩
    cases ht'.symm.trans (run_append_ok.mpr ⟨s, hs, run_singleton.trans ht⟩)
    exact (hidle c he).1 events hmem
  · rintro hgood pre ⟨post, rfl⟩
    obtain ⟨r, s, -, hs, hR⟩ := h.run (throughout_append.mp hops).1 (throughout_append.mp hgood).1
    refine ⟨s, hs, fun c he => ?_⟩
    rw [h.events r s hR] at he
    refine ⟨fun events => h.watched r s hR ▸ not_watched hfd he events, fun hreg => ?_⟩
    have hc := h.registered r s c hR hreg
    have hremove : Permitted r (.remove c) := ⟨⟨hc, he⟩, by simp [Registry.NotAfterRemoval, hc]⟩
    have hrel := h.step r s (.remove c) hR hremove (h.remove r c)
    rw [Registry.step_remove hc he] at hrel
    obtain ⟨t, ht, -⟩ := hrel.of_ok
    exact ⟨t, ht⟩

theorem poll_follows (hfd : Function.Injective fd) (hpos : ∀ c, 0 ≤ fd c) :
    Follows PollPoller.interface fd Registry.FirstEnables (PollPoller.Rep fd) where
  init := PollPoller.rep_init
  step _ _ _ hR ho hgood := PollPoller.step_related hfd hpos hR ⟨hgood, ho.2⟩
  watched _ _ hR := poll_watched hR hpos
  events _ _ hR := hR.events
  registered _ _ _ hR hreg := hR.known.hasChannel_iff.mp hreg
  remove _ _ := trivial
  bad r s o hR ho hbad := by
    cases o with
    | remove c => exact absurd trivial hbad
    | update u c =>
      -- The new entry has the descriptor itself.
      obtain ⟨hc, he⟩ := Classical.not_imp.mp hbad
      have hnone := hR.known.getElem?_eq_none (c := c) (free_of_injective hfd) (by simp [hc])
      refine ⟨_, c, _, PollPoller.updateChannel_new (hR.fresh c hc) hnone, ?_,
        ⟨⟨fd c, _, 0⟩, Array.mem_push_self, hpos c, rfl⟩⟩
      simpa [PollPoller.interface, hR.events] using he

theorem epoll_adds {r : Registry C} {t : EpollPoller.State C} {u : Update} {c : C}
    (hfd : Function.Injective fd) (h : EpollPoller.Rep fd r t)
    (hindex : t.chan.index c ≠ EpollPoller.kAdded) :
    ∃ t', EpollPoller.step fd t (.update u c) = .ok t' ∧
      t'.chan.events c = u.events (r.events c) ∧
      (fd c, u.events (r.events c)) ∈ EpollPoller.watched t' := by
  obtain ⟨t', ht', hrep, hnext⟩ := h.update u (free_of_injective hfd (c := c))
  have hadded : t'.chan.index c = EpollPoller.kAdded := by
    simp [hnext, EpollPoller.nextIndex, hindex]
  exact ⟨t', ht', by simp [hrep.events], hrep.mem_watched.mpr ⟨c, rfl, hadded, by simp⟩⟩

theorem epoll_follows (hfd : Function.Injective fd) :
    Follows EpollPoller.interface fd (fun r o => r.FirstEnables o ∧ r.NoIdleUpdate o)
      (fun r t => EpollPoller.Rep fd r t ∧ Active r t) where
  init := ⟨EpollPoller.rep_init, active_init⟩
  step _ _ _ hR ho hgood := epoll_step_related hfd hR ⟨hgood.1, hgood.2, ho.2⟩
  watched _ _ hR := epoll_watched hR.1 hR.2
  events _ _ hR := hR.1.events
  registered _ _ _ hR hreg := hR.1.known.hasChannel_iff.mp hreg
  remove _ _ := ⟨trivial, trivial⟩
  bad r t o hR ho hbad := by
    cases o with
    | remove c => exact absurd ⟨trivial, trivial⟩ hbad
    | update u c =>
      obtain ⟨he, hindex⟩ : u.events (r.events c) = kNoneEvent ∧
          t.chan.index c ≠ EpollPoller.kAdded := by
        rw [Ne, hR.2 c]
        simp only [Registry.FirstEnables, Registry.NoIdleUpdate] at hbad
        by_cases he : u.events (r.events c) = kNoneEvent
        · refine ⟨he, fun hadded => hbad ⟨fun hc => ?_, fun _ hidle => absurd hidle hadded.2⟩⟩
          rw [hc] at hadded
          cases hadded.1
        · exact absurd ⟨fun _ => he, fun _ _ => he⟩ hbad
      obtain ⟨t', ht', hevents, hmem⟩ := epoll_adds (u := u) hfd hR.1 hindex
      exact ⟨t', c, _, ht', hevents.trans he, hmem⟩

end AcMuduo.Poller

namespace AcMuduo.BackEnd

open Machine Poller

variable {C : Type} [DecidableEq C] {fd : C → Int}

/-- The updates that a poller handles well. Both must find some event in the first update of a
channel, and an `epoll_poller_t` also when the channel had none. -/
def Enables : BackEnd → Registry C → Op C → Prop
  | .poll, r, o => r.FirstEnables o
  | .epoll, r, o => r.FirstEnables o ∧ r.NoIdleUpdate o

instance (r : Registry C) (o : Op C) : ∀ b : BackEnd, Decidable (b.Enables r o)
  | .poll => inferInstanceAs (Decidable (r.FirstEnables o))
  | .epoll => inferInstanceAs (Decidable (_ ∧ _))

/-- The channels without events stay unwatched, and can be removed, exactly if every update is one
that the poller handles well. -/
theorem idle_unwatched_iff (b : BackEnd) {ops : List (Op C)} (hfd : Function.Injective fd)
    (hpos : ∀ c, 0 ≤ fd c) (hops : Throughout Registry.step Permitted .init ops) :
    UnwatchedIdle (b.poller C) fd ops ↔ Throughout Registry.step b.Enables .init ops := by
  cases b with
  | poll => exact (poll_follows hfd hpos).unwatchedIdle_iff hfd hops
  | epoll => exact (epoll_follows hfd).unwatchedIdle_iff hfd hops

theorem descriptors_nonneg (c : Nat) : 0 ≤ descriptors c :=
  Int.add_nonneg (Int.natCast_nonneg c) (by decide)

theorem idle_unwatched_iff_idleFirst :
    UnwatchedIdle (epoll.poller Nat) descriptors idleFirst ∧
      UnwatchedIdle (poll.poller Nat) descriptors idleFirst :=
  ⟨(idle_unwatched_iff epoll descriptors_injective descriptors_nonneg (by decide)).mpr (by decide),
    (idle_unwatched_iff poll descriptors_injective descriptors_nonneg (by decide)).mpr (by decide)⟩

def disabledFirst : List (Op Nat) := [.update .disableAll 0]

/-- Both pollers watch the channel then, and the removal from a `poll_poller_t` fails. -/
theorem idle_watched_disabledFirst :
    Throughout Registry.step Permitted .init (disabledFirst ++ [.remove 0]) ∧
      ¬ UnwatchedIdle (poll.poller Nat) descriptors disabledFirst ∧
      ¬ UnwatchedIdle (epoll.poller Nat) descriptors disabledFirst ∧
      run (PollPoller.step descriptors) .init (disabledFirst ++ [.remove 0]) =
        .error (.fault .assertFailed) := by
  have hpermitted : Throughout Registry.step Permitted .init disabledFirst := by decide
  refine ⟨by decide, ?_, ?_, rfl⟩
  · refine ((poll_follows descriptors_injective descriptors_nonneg).unwatchedIdle_iff
      descriptors_injective hpermitted).not.mpr ?_
    decide
  · refine ((epoll_follows descriptors_injective).unwatchedIdle_iff descriptors_injective
      hpermitted).not.mpr ?_
    decide

end AcMuduo.BackEnd
