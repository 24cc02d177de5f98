import AcMuduo.EpollInterest
import AcMuduo.PollDelivery

namespace AcMuduo.Poller

open Machine

variable {C : Type} {fd : C → Int} {r : Registry C} {s : PollPoller.State C}
  {t : EpollPoller.State C}

theorem poll_watched (h : PollPoller.Rep fd r s) (hpos : ∀ c, 0 ≤ fd c) :
    PollPoller.watched s = r.watched fd := by
  ext x
  constructor
  · rintro ⟨pfd, hpfd, hnonneg, rfl⟩
    obtain ⟨i, hi⟩ := Array.mem_iff_getElem?.mp hpfd
    obtain ⟨c, hc, _, hfd, hev⟩ := h.owner_entry hi
    rw [hfd, PollPoller.encode_nonneg (hpos c)] at hnonneg
    refine ⟨c, hc, hnonneg, ?_⟩
    rw [hfd, PollPoller.encode_of_ne hnonneg, hev, (h.pollable c).short]
  · rintro ⟨c, hc, he, rfl⟩
    obtain ⟨i, _, pfd, hpfd, hfd, hev⟩ := h.slot c hc
    rw [PollPoller.encode_of_ne he] at hfd
    refine ⟨pfd, Array.mem_of_getElem? hpfd, hfd ▸ hpos c, ?_⟩
    rw [hfd, hev, (h.pollable c).short]

def Active (r : Registry C) (t : EpollPoller.State C) : Prop :=
  ∀ c, t.chan.index c = EpollPoller.kAdded ↔ r.status c = .registered ∧ r.events c ≠ kNoneEvent

theorem active_init : Active (.init : Registry C) .init := fun c => by
  simp [Registry.init, EpollPoller.State.init, Channels.init, EpollPoller.kAdded]

theorem epoll_watched (h : EpollPoller.Rep fd r t) (ha : Active r t) :
    EpollPoller.watched t = r.watched fd := by
  ext ⟨f, e⟩
  constructor
  · rintro ⟨c, hc⟩
    obtain ⟨d, rfl, hadded, hev⟩ := (h.interest _ _).mp hc
    cases hev
    obtain ⟨hreg, hne⟩ := (ha c).mp hadded
    exact ⟨c, hreg, hne, rfl⟩
  · rintro ⟨c, hreg, hne, hx⟩
    cases hx
    exact ⟨c, (h.interest _ _).mpr ⟨c, rfl, (ha c).mpr ⟨hreg, hne⟩, rfl⟩⟩

/-- The first update of a channel enables some event, no later one takes no event from none, and a
channel is not used after its removal. -/
def Tidy (r : Registry C) (o : Op C) : Prop :=
  r.FirstEnables o ∧ r.NoIdleUpdate o ∧ r.NotAfterRemoval o

instance (r : Registry C) (o : Op C) : Decidable (Tidy r o) :=
  inferInstanceAs (Decidable (_ ∧ _ ∧ _))

theorem nextIndex_eq_kAdded {index : Int} {events : BitVec 32}
    (h : index ≠ EpollPoller.kAdded → events ≠ kNoneEvent) :
    EpollPoller.nextIndex index events = EpollPoller.kAdded ↔ events ≠ kNoneEvent := by
  rw [EpollPoller.nextIndex]
  split
  · rename_i hnone
    simp [hnone.2, EpollPoller.kDeleted, EpollPoller.kAdded]
  · rename_i hsome
    simp only [true_iff]
    intro he
    exact h (fun hindex => hsome ⟨hindex, he⟩) he

theorem Active.events_ne (ha : Active r t) {u : Update} {c : C} (ho : Tidy r (.update u c))
    (hindex : t.chan.index c ≠ EpollPoller.kAdded) : u.events (r.events c) ≠ kNoneEvent := by
  obtain ⟨hfirst, hidle, hafter⟩ := ho
  cases hc : r.status c with
  | fresh => exact hfirst hc
  | registered =>
    refine hidle hc (not_ne_iff.mp fun hne => hindex ((ha c).mpr ⟨hc, hne⟩))
  | removed => exact absurd hc hafter

variable [DecidableEq C]

theorem epoll_step_related {o : Op C} (hfd : Function.Injective fd)
    (h : EpollPoller.Rep fd r t ∧ Active r t) (ho : Tidy r o) :
    Related (fun r t => EpollPoller.Rep fd r t ∧ Active r t) (r.step o)
      (EpollPoller.step fd t o) := by
  obtain ⟨hrep, ha⟩ := h
  cases o with
  | update u c =>
    obtain ⟨t', ht', hrep', hindex⟩ := hrep.update u (free_of_injective hfd)
    rw [ht']
    refine ⟨hrep', fun d => ?_⟩
    by_cases hdc : d = c
    · subst hdc
      simp [hindex, nextIndex_eq_kAdded (ha.events_ne ho)]
    · simpa [hindex, hdc] using ha d
  | remove c =>
    have hrel := EpollPoller.step_related (o := .remove c) hfd hrep
    by_cases hok : r.status c = .registered ∧ r.events c = kNoneEvent
    · obtain ⟨t', ht', hrep', hindex⟩ := hrep.remove hok.1 hok.2
      rw [Registry.step_remove hok.1 hok.2, ht']
      refine ⟨hrep', fun d => ?_⟩
      by_cases hdc : d = c
      · subst hdc
        simp [hindex, EpollPoller.kNew, EpollPoller.kAdded]
      · simpa [hindex, hdc] using ha d
    · obtain ⟨d, hd⟩ := Registry.step_remove_error hok
      rw [hd] at hrel ⊢
      exact hrel.of_error

/-- After the same use of the channels, both pollers watch the same descriptors for the same
events and know the same channels, or both have failed in an assert. They have not when every
removal found its channel registered and without events. -/
theorem pollers_agree {ops : List (Op C)} (hfd : Function.Injective fd) (hpos : ∀ c, 0 ≤ fd c)
    (hops : Throughout Registry.step Tidy .init ops) :
    Related (fun s t => PollPoller.watched s = EpollPoller.watched t ∧
        ∀ c, hasChannel fd s.channels c = hasChannel fd t.channels c)
      (run (PollPoller.step fd) .init ops) (run (EpollPoller.step fd) .init ops) ∧
    (Throughout Registry.step Registry.RemovesIdle .init ops →
      ∃ s, run (PollPoller.step fd) .init ops = .ok s) := by
  have hstep : ∀ r s o, PollPoller.Rep fd r s → Tidy r o →
      Related (PollPoller.Rep fd) (r.step o) (PollPoller.step fd s o) := fun r s o h ho =>
    PollPoller.step_related hfd hpos h ⟨ho.1, ho.2.2⟩
  have hpoll := run_related hstep PollPoller.rep_init hops
  have hstep' : ∀ r t o, EpollPoller.Rep fd r t ∧ Active r t → Tidy r o →
      Related (fun r t => EpollPoller.Rep fd r t ∧ Active r t) (r.step o)
        (EpollPoller.step fd t o) := fun r t o h ho => epoll_step_related hfd h ho
  have hepoll := run_related hstep' ⟨EpollPoller.rep_init, active_init⟩ hops
  refine ⟨hpoll.comp hepoll fun r s t hs ht => ⟨?_, fun c => ?_⟩, fun hidle => ?_⟩
  · rw [poll_watched hs hpos, epoll_watched ht.1 ht.2]
  · rw [Bool.eq_iff_iff, hs.known.hasChannel_iff, ht.1.known.hasChannel_iff]
  · obtain ⟨r, hr⟩ := run_total (fun _ _ h => Registry.step_total h) hidle
    rw [hr] at hpoll
    obtain ⟨s, hs, _⟩ := hpoll.of_ok
    exact ⟨s, hs⟩

theorem pollers_agree_swapRemove :
    Related (fun s t => PollPoller.watched s = EpollPoller.watched t ∧
        ∀ c : Fin 3, hasChannel (·.val + 3) s.channels c = hasChannel (·.val + 3) t.channels c)
      (run (PollPoller.step (·.val + 3)) .init PollPoller.swapRemove)
      (run (EpollPoller.step (·.val + 3)) .init PollPoller.swapRemove) :=
  (pollers_agree (fun a b h => Fin.ext (by omega)) (fun _ => by omega)
    (by decide)).1

end AcMuduo.Poller
