import AcMuduo.EpollInterest
import AcMuduo.PollDelivery

namespace AcMuduo

namespace Poller

open Machine

variable {C : Type} [DecidableEq C]

/-- What a poller offers, with what can be seen of its state. -/
structure Interface (C : Type) where
  State : Type
  init : State
  step : (C → Int) → State → Op C → Except (Stop Fault) State
  channels : State → ChannelMap C
  chan : State → Channels C
  watched : State → Set (Int × BitVec 32)

variable {p : Interface C} {fd : C → Int}

def Registered (p : Interface C) (fd : C → Int) (s : p.State) (c : C) : Prop :=
  hasChannel fd (p.channels s) c = true

structure SameOthers (p : Interface C) (fd : C → Int) (c : C) (s t : p.State) : Prop where
  events : ∀ d, d ≠ c → (p.chan t).events d = (p.chan s).events d
  registered : ∀ d, d ≠ c → (Registered p fd t d ↔ Registered p fd s d)
  watched : ∀ f events, f ≠ fd c → ((f, events) ∈ p.watched t ↔ (f, events) ∈ p.watched s)

/-- The channel can be removed and, after any use of other channels at the end of which none of them
has its descriptor, registered again: it is in the poller then, and watched with its events. -/
def Reregisters (p : Interface C) (fd : C → Int) (s : p.State) (c : C) : Prop :=
  ∃ t, p.step fd s (.remove c) = .ok t ∧ SameOthers p fd c s t ∧
    ∀ ops u, (∀ o ∈ ops, o.channel ≠ c) → run (p.step fd) t ops = .ok u →
      (∀ d, Registered p fd u d → fd d ≠ fd c) →
      ∃ v, p.step fd u (.update .enableReading c) = .ok v ∧ Registered p fd v c ∧
        (∀ events, (fd c, events) ∈ p.watched v ↔ events = (p.chan v).events c) ∧
        SameOthers p fd c u v

end Poller

def PollPoller.interface {C : Type} [DecidableEq C] : Poller.Interface C :=
  ⟨PollPoller.State C, .init, PollPoller.step, (·.channels), (·.chan), PollPoller.watched⟩

def EpollPoller.interface {C : Type} [DecidableEq C] : Poller.Interface C :=
  ⟨EpollPoller.State C, .init, EpollPoller.step, (·.channels), (·.chan), EpollPoller.watched⟩

inductive BackEnd where
  | poll
  | epoll
  deriving DecidableEq, Repr

def BackEnd.poller (C : Type) [DecidableEq C] : BackEnd → Poller.Interface C
  | .poll => PollPoller.interface
  | .epoll => EpollPoller.interface

namespace EpollPoller

open Machine Poller

variable {C : Type} [DecidableEq C] {fd : C → Int} {r : Registry C} {s t : State C} {c : C}

theorem Rep.free_of_update (h : Rep fd r s) {u : Update} (hs : step fd s (.update u c) = .ok t) :
    Free fd r c := by
  cases h.indexed c with
  | inl hreg => exact h.known.free_of_registered hreg.1
  | inr hnew =>
    simp [step, updateChannel, hnew.2, bind_eq_ok] at hs
    exact h.known.free_of_none (Std.TreeMap.getElem?_eq_none hs.1)

theorem Rep.registered_of_remove (h : Rep fd r s) (hs : step fd s (.remove c) = .ok t) :
    r.status c = .registered ∧ r.events c = kNoneEvent := by
  simp [step, removeChannel, bind_eq_ok] at hs
  obtain ⟨he, -, hc, -⟩ := hs
  exact ⟨((h.known _ _).mp hc).2, h.events ▸ he⟩

theorem Rep.of_step (h : Rep fd r s) {o : Op C} (hs : step fd s o = .ok t) :
    ∃ r', r.step o = .ok r' ∧ Rep fd r' t := by
  cases o with
  | update u c =>
    obtain ⟨t', ht', hrep, -⟩ := h.update u (h.free_of_update hs)
    cases hs.symm.trans ht'
    exact ⟨_, rfl, hrep⟩
  | remove c =>
    obtain ⟨hc, he⟩ := h.registered_of_remove hs
    obtain ⟨t', ht', hrep, -⟩ := h.remove hc he
    cases hs.symm.trans ht'
    exact ⟨_, Registry.step_remove hc he, hrep⟩

theorem run_rep {ops : List (Op C)} (hs : run (step fd) .init ops = .ok s) :
    ∃ r, Rep fd r s := by
  refine run_invariant (I := fun s => ∃ r, Rep fd r s) (fun s o t h ht => ?_) ⟨_, rep_init⟩ hs
  obtain ⟨r, h⟩ := h
  obtain ⟨r', -, h'⟩ := h.of_step ht
  exact ⟨r', h'⟩

theorem run_unregistered {ops : List (Op C)} (h : Rep fd r s) (hc : r.status c ≠ .registered)
    (hops : ∀ o ∈ ops, o.channel ≠ c) (hrun : run (step fd) s ops = .ok t) :
    ∃ r', Rep fd r' t ∧ r'.status c ≠ .registered := by
  refine run_invariant_of (I := fun s => ∃ r, Rep fd r s ∧ r.status c ≠ .registered)
    (fun s o t h ho ht => ?_) ⟨r, h, hc⟩ (throughout_of_forall hops) hrun
  obtain ⟨r, h, hc⟩ := h
  obtain ⟨r', hr', h'⟩ := h.of_step ht
  refine ⟨r', h', ?_⟩
  cases o with
  | update u d =>
    cases hr'
    have hcd : c ≠ d := ho.symm
    rwa [Registry.update_status_of_ne hcd]
  | remove d =>
    obtain ⟨hd, he⟩ := h.registered_of_remove ht
    cases hr'.symm.trans (Registry.step_remove hd he)
    have hcd : c ≠ d := ho.symm
    rwa [Registry.remove_status_of_ne hcd]

omit [DecidableEq C] in
theorem Rep.mem_watched (h : Rep fd r s) {f : Int} {events : BitVec 32} :
    (f, events) ∈ watched s ↔
      ∃ d, fd d = f ∧ s.chan.index d = kAdded ∧ events = r.events d := by
  constructor
  · rintro ⟨d, hd⟩
    obtain ⟨d', hf, hindex, heq⟩ := (h.interest _ _).mp hd
    cases heq
    exact ⟨d, hf, hindex, rfl⟩
  · rintro ⟨d, hf, hindex, rfl⟩
    exact ⟨d, (h.interest _ _).mpr ⟨d, hf, hindex, rfl⟩⟩

theorem sameOthers {r' : Registry C} (h : Rep fd r s) (h' : Rep fd r' t)
    (hevents : ∀ d, d ≠ c → r'.events d = r.events d)
    (hstatus : ∀ d, d ≠ c → r'.status d = r.status d)
    (hindex : ∀ d, d ≠ c → t.chan.index d = s.chan.index d) : SameOthers interface fd c s t := by
  refine ⟨fun d hd => ?_, fun d hd => ?_, fun f events hf => ?_⟩
  · exact (congrFun h'.events d).trans ((hevents d hd).trans (congrFun h.events d).symm)
  · refine h'.known.hasChannel_iff.trans (Iff.trans ?_ h.known.hasChannel_iff.symm)
    rw [hstatus d hd]
  · refine h'.mem_watched.trans (Iff.trans ?_ h.mem_watched.symm)
    refine exists_congr fun d => and_congr_right fun hd => ?_
    have hdc : d ≠ c := by
      rintro rfl
      exact hf hd.symm
    rw [hindex d hdc, hevents d hdc]

theorem reregisters (h : Rep fd r s) (hc : r.status c = .registered)
    (he : r.events c = kNoneEvent) : Reregisters interface fd s c := by
  obtain ⟨t, ht, hrep, hindex⟩ := h.remove hc he
  refine ⟨t, ht, sameOthers h hrep (fun d _ => rfl) (fun d hd => Registry.remove_status_of_ne hd)
    (fun d hd => by simp [hindex, hd]), fun ops u hops hu hfree => ?_⟩
  obtain ⟨r', hrep', hc'⟩ := run_unregistered hrep (by simp) hops hu
  have hfree' : Free fd r' c := by
    intro d hd heq
    exact absurd heq (hfree d (hrep'.known.hasChannel_iff.mpr hd))
  obtain ⟨v, hv, hrepv, hindexv⟩ := hrep'.update .enableReading hfree'
  refine ⟨v, hv, ?_, ?_, sameOthers hrep' hrepv (fun d hd => Registry.update_events_of_ne hd)
    (fun d hd => Registry.update_status_of_ne hd) (fun d hd => by simp [hindexv, hd])⟩
  · exact hrepv.known.hasChannel_iff.mpr (by simp)
  · intro events
    have hnew : u.chan.index c = kNew := by
      cases hrep'.indexed c with
      | inl hreg => exact absurd hreg.1 hc'
      | inr hnew => exact hnew.2
    have hadded : v.chan.index c = kAdded := by
      rw [hindexv, Function.update_self, hnew]
      rfl
    have hreg : (r'.update .enableReading c).status c = .registered := by simp
    refine hrepv.mem_watched.trans ⟨?_, fun hevents => ⟨c, rfl, hadded, ?_⟩⟩
    · rintro ⟨d, hd, hindex, rfl⟩
      rw [hrepv.known.free_of_registered hreg d (hrepv.indexed.registered (.inl hindex)) hd]
      exact (congrFun hrepv.events c).symm
    · exact hevents.trans (congrFun hrepv.events c)

end EpollPoller

namespace PollPoller

open Machine Poller

variable {C : Type} [DecidableEq C] {fd : C → Int} {s t : State C} {c : C}

theorem removed_index (hs : step fd s (.remove c) = .ok t) :
    0 ≤ t.chan.index c ∧ t.channels[fd c]? = none := by
  simp only [step, removeChannel, bind_eq_ok, assert_eq_ok, decide_eq_true_eq] at hs
  obtain ⟨-, -, -, -, -, -, -, -, -, ⟨hindex, -⟩, -, -, -, -, hs⟩ := hs
  have hnone : (s.channels.erase (fd c))[fd c]? = none := by simp
  by_cases hlast : s.chan.index c = s.pollFds.size - 1
  · rw [if_pos hlast] at hs
    cases hs
    exact ⟨hindex, hnone⟩
  · rw [if_neg hlast] at hs
    obtain ⟨back, -, hs⟩ := bind_eq_ok.mp hs
    split at hs
    next => cases hs
    next d hd =>
      cases hs
      refine ⟨?_, hnone⟩
      by_cases hcd : c = d
      · simpa [hcd] using hindex
      · simpa [hcd] using hindex

theorem not_reregisters : ¬ Reregisters interface fd s c := by
  rintro ⟨t, ht, -, hops⟩
  obtain ⟨hindex, hnone⟩ := removed_index ht
  have hfree : ∀ d, Registered interface fd t d → fd d ≠ fd c := by
    intro d hd heq
    have hsome : t.channels[fd d]? = some d := of_decide_eq_true hd
    rw [heq, hnone] at hsome
    cases hsome
  obtain ⟨v, hv, -⟩ := hops [] t (by simp) rfl hfree
  have hupdate : updateChannel fd
      { t with chan := t.chan.setEvents c (Update.enableReading.events (t.chan.events c)) } c =
      .error (.fault .assertFailed) := by
    simp [updateChannel, Int.not_lt.mpr hindex, hnone, assert, bind, Except.bind]
  cases hv.symm.trans hupdate

end PollPoller

namespace BackEnd

open Machine Poller

variable {C : Type} [DecidableEq C] {fd : C → Int}

/-- In every state that a poller can reach, a registered channel without events can be removed and
registered again if the poller is an `epoll_poller_t`, and only then. -/
theorem reregisters_iff (b : BackEnd) {ops : List (Op C)} {s : (b.poller C).State} {c : C}
    (hrun : run ((b.poller C).step fd) (b.poller C).init ops = .ok s)
    (hc : Registered (b.poller C) fd s c) (he : ((b.poller C).chan s).events c = kNoneEvent) :
    Reregisters (b.poller C) fd s c ↔ b = epoll := by
  cases b with
  | poll => exact iff_of_false PollPoller.not_reregisters (by decide)
  | epoll =>
    obtain ⟨r, h⟩ := EpollPoller.run_rep hrun
    have hevents : r.events c = kNoneEvent := h.events ▸ he
    exact iff_of_true (EpollPoller.reregisters h (h.known.hasChannel_iff.mp hc) hevents) rfl

def descriptors (c : Nat) : Int := c + 3

theorem descriptors_injective : Function.Injective descriptors := by
  intro c d h
  simp only [descriptors] at h
  omega

def idleFirst : List (Op Nat) :=
  [.update .enableReading 0, .update .enableWriting 1, .update .disableAll 0]

theorem idleFirst_registry {r : Registry Nat} (h : run Registry.step .init idleFirst = .ok r) :
    r.status 0 = .registered ∧ r.events 0 = kNoneEvent := by
  have hend : (run Registry.step .init idleFirst).map (fun r => (r.status 0, r.events 0)) =
      .ok (.registered, kNoneEvent) := by decide
  rw [h] at hend
  exact Prod.mk.inj (Except.ok.inj hend)

theorem reregisters_iff_idleFirst :
    ∃ s, run (EpollPoller.step descriptors) .init idleFirst = .ok s ∧
      (Reregisters EpollPoller.interface descriptors s 0 ↔ epoll = epoll) := by
  have hops : Throughout Registry.step Registry.RemovesIdle .init idleFirst := by decide
  obtain ⟨r, s, hr, hs, h⟩ := EpollPoller.run_registry descriptors_injective hops
  obtain ⟨hc, he⟩ := idleFirst_registry hr
  exact ⟨s, hs, reregisters_iff epoll hs (h.known.hasChannel_iff.mpr hc) (h.events ▸ he)⟩

/-- A `poll_poller_t` stops at an assert when the removed channel is enabled. -/
theorem poll_removed_enabled :
    run (PollPoller.step descriptors) .init
        (idleFirst ++ [.remove 0, .update .enableReading 0]) = .error (.fault .assertFailed) ∧
      ∃ s, run (PollPoller.step descriptors) .init idleFirst = .ok s ∧
        Registered PollPoller.interface descriptors s 0 ∧ s.chan.events 0 = kNoneEvent ∧
        ¬ Reregisters PollPoller.interface descriptors s 0 := by
  have hpos : ∀ c, 0 ≤ descriptors c := fun c => Int.add_nonneg (Int.natCast_nonneg _) (by decide)
  have hops : Throughout Registry.step PollPoller.Proper .init idleFirst := by decide
  obtain ⟨r, s, hr, hs, h⟩ := PollPoller.run_rep descriptors_injective hpos hops
  obtain ⟨hc, he⟩ := idleFirst_registry hr
  exact ⟨rfl, s, hs, h.known.hasChannel_iff.mpr hc, h.events ▸ he, PollPoller.not_reregisters⟩

end BackEnd

end AcMuduo
