import AcMuduo.PollRepresentation
import Mathlib.Data.List.Nodup

namespace AcMuduo.PollPoller

open Machine Poller

variable {C : Type} {fd : C → Int} {r : Registry C} {s : State C} {c d : C}

theorem encode_nonneg {f : Int} {x : BitVec 32} (hf : 0 ≤ f) :
    0 ≤ encode f x ↔ x ≠ kNoneEvent := by
  rw [encode]
  split
  · rename_i hx
    simp only [hx, ne_eq, not_true_eq_false, iff_false]
    omega
  · rename_i hx
    simp [hx, hf]

theorem encode_of_ne {f : Int} {x : BitVec 32} (hx : x ≠ kNoneEvent) : encode f x = f := if_neg hx

section Delivery

variable {result : Nat → BitVec 16}

theorem Rep.polled_owner (h : Rep fd r s) (hpos : ∀ c, 0 ≤ fd c) {i : Nat} {pfd : PollFd}
    (hpfd : (polled s result)[i]? = some pfd) (hnonneg : 0 ≤ pfd.fd) :
    ∃ c, r.status c = .registered ∧ s.chan.index c = i ∧ fd c = pfd.fd := by
  rw [polled, Array.getElem?_mapIdx, Option.map_eq_some_iff] at hpfd
  obtain ⟨old, hold, rfl⟩ := hpfd
  obtain ⟨c, hc, hi, hfd, _⟩ := h.owner_entry hold
  simp only [hfd, encode_nonneg (hpos c)] at hnonneg
  exact ⟨c, hc, hi, by simp [hfd, encode_of_ne hnonneg]⟩

variable (hresult : ∀ pfd ∈ polled s result, pfd.isReady = true → 0 ≤ pfd.fd)
include hresult

theorem Rep.ready_owner (h : Rep fd r s) (hpos : ∀ c, 0 ≤ fd c) :
    ∀ pfd ∈ (polled s result).toList, pfd.isReady = true →
      ∃ c, fd c = pfd.fd ∧ r.status c = .registered := by
  intro pfd hpfd hready
  obtain ⟨i, hi⟩ := Array.mem_iff_getElem?.mp (Array.mem_toList_iff.mp hpfd)
  obtain ⟨c, hc, _, hfd⟩ := h.polled_owner hpos hi
    (hresult pfd (Array.mem_toList_iff.mp hpfd) hready)
  exact ⟨c, hfd, hc⟩

theorem Rep.ready_nodup (h : Rep fd r s) (hfd : Function.Injective fd) (hpos : ∀ c, 0 ≤ fd c) :
    (((polled s result).toList.filter PollFd.isReady).map PollFd.fd).Nodup := by
  rw [List.Nodup, List.pairwise_map, List.pairwise_filter, List.pairwise_iff_getElem]
  intro i j hi hj hij hri hrj heq
  have hget : ∀ k (hk : k < (polled s result).toList.length),
      (polled s result)[k]? = some (polled s result).toList[k] := by
    intro k hk
    rw [← Array.getElem?_toList, List.getElem?_eq_getElem hk]
  have hmem : ∀ k (hk : k < (polled s result).toList.length),
      (polled s result).toList[k] ∈ polled s result := fun k hk =>
    Array.mem_toList_iff.mp (List.getElem_mem hk)
  obtain ⟨c, hc, hci, hcfd⟩ := h.polled_owner hpos (hget i hi) (hresult _ (hmem i hi) hri)
  obtain ⟨d, hd, hdj, hdfd⟩ := h.polled_owner hpos (hget j hj) (hresult _ (hmem j hj) hrj)
  have hcd : c = d := hfd (by rw [hcfd, hdfd, heq])
  rw [hcd] at hci
  omega

end Delivery

variable [DecidableEq C]

theorem fillActiveChannels_eq {channels : ChannelMap C} (hknown : Known fd channels r)
    {fds : List PollFd} (chan : Channels C) (activeChannels : List C)
    (hready : ∀ pfd ∈ fds, pfd.isReady = true → ∃ c, fd c = pfd.fd ∧ r.status c = .registered)
    (hnodup : ((fds.filter PollFd.isReady).map PollFd.fd).Nodup) :
    ∃ chan' owners, fillActiveChannels fd channels fds (fds.countP PollFd.isReady) chan
        activeChannels = .ok (chan', activeChannels ++ owners) ∧
      owners.map fd = (fds.filter PollFd.isReady).map PollFd.fd ∧
      List.Forall₂ (fun pfd c => fd c = pfd.fd ∧ r.status c = .registered ∧
        chan'.revents c = pfd.revents.signExtend 32) (fds.filter PollFd.isReady) owners ∧
      ∀ c, c ∉ owners → chan'.revents c = chan.revents c := by
  induction fds generalizing chan activeChannels with
  | nil => exact ⟨chan, [], by simp [fillActiveChannels], rfl, by simp, fun _ _ => rfl⟩
  | cons pfd fds ih =>
    rw [List.forall_mem_cons] at hready
    by_cases hpfd : pfd.isReady = true
    · obtain ⟨c, hc, hreg⟩ := hready.1 hpfd
      rw [List.filter_cons_of_pos hpfd, List.map_cons, List.nodup_cons] at hnodup
      obtain ⟨chan', owners, hrun, hmap, howners, hframe⟩ := ih
        (chan.setRevents c (pfd.revents.signExtend 32)) (activeChannels ++ [c]) hready.2 hnodup.2
      have hmem : c ∉ owners := by
        intro hmem
        have hfd : fd c ∈ owners.map fd := List.mem_map_of_mem hmem
        rw [hmap, hc] at hfd
        exact hnodup.1 hfd
      refine ⟨chan', c :: owners, ?_, ?_, ?_, ?_⟩
      · have hget : channels[pfd.fd]? = some c := (hknown _ _).mpr ⟨hc, hreg⟩
        have hn : ((fds.countP PollFd.isReady + 1 : Nat) : Int) > 0 := by omega
        rw [List.countP_cons_of_pos hpfd, fillActiveChannels, if_pos hn, if_pos hpfd]
        simp [hget, hc, hrun, bind, Except.bind]
      · rw [List.filter_cons_of_pos hpfd, List.map_cons, List.map_cons, hc, hmap]
      · rw [List.filter_cons_of_pos hpfd]
        refine .cons ⟨hc, hreg, ?_⟩ howners
        rw [hframe c hmem]
        simp [Channels.setRevents]
      · intro d hd
        rw [List.mem_cons, not_or] at hd
        rw [hframe d hd.2]
        simp [Channels.setRevents, hd.1]
    · rw [List.filter_cons_of_neg hpfd] at hnodup ⊢
      rw [List.countP_cons_of_neg hpfd]
      by_cases hn : (fds.countP PollFd.isReady : Int) > 0
      · rw [fillActiveChannels, if_pos hn, if_neg hpfd]
        exact ih chan activeChannels hready.2 hnodup
      · -- the loop stops here, and no entry after this one is ready
        have hzero : fds.countP PollFd.isReady = 0 := by omega
        have hnil : fds.filter PollFd.isReady = [] := by
          rw [← List.length_eq_zero_iff, ← List.countP_eq_length_filter, hzero]
        refine ⟨chan, [], ?_, by rw [hnil]; rfl, by rw [hnil]; exact .nil, fun _ _ => rfl⟩
        rw [fillActiveChannels, if_neg hn, List.append_nil]

/-- `channels_`, `poll_fds_` and the indices of the channels fit together. -/
structure Fits (fd : C → Int) (s : State C) : Prop where
  size : s.channels.size = s.pollFds.size
  index : ∀ c, hasChannel fd s.channels c = true →
    0 ≤ s.chan.index c ∧ s.chan.index c < s.pollFds.size
  index_inj : ∀ c d, hasChannel fd s.channels c = true → hasChannel fd s.channels d = true →
    s.chan.index c = s.chan.index d → c = d
  entry : ∀ c, hasChannel fd s.channels c = true → entry s c =
    some (if s.chan.events c = kNoneEvent then -fd c - 1 else fd c, s.chan.events c)

theorem Rep.fits (h : Rep fd r s) (hfd : Function.Injective fd) (hpos : ∀ c, 0 ≤ fd c) :
    Fits fd s := by
  refine ⟨h.size, fun c hc => ?_, fun c d hc hd => ?_, fun c hc => ?_⟩
  · obtain ⟨i, hi, pfd, hpfd, _⟩ := h.slot c (h.known.hasChannel_iff.mp hc)
    have := (Array.getElem?_eq_some_iff.mp hpfd).1
    omega
  · exact h.index_inj hfd hpos (h.known.hasChannel_iff.mp hc) (h.known.hasChannel_iff.mp hd)
  · rw [h.entry_eq (h.known.hasChannel_iff.mp hc), h.events]
    rfl

/-- The channels are used as the poller asks for: the first update of each enables some event, a
removal finds the channel registered and without events, and is the last use of it. -/
def Proper (r : Registry C) (o : Op C) : Prop :=
  r.FirstEnables o ∧ r.RemovesIdle o ∧ r.NotAfterRemoval o

instance (r : Registry C) (o : Op C) : Decidable (Proper r o) :=
  inferInstanceAs (Decidable (_ ∧ _ ∧ _))

theorem run_rep {ops : List (Op C)} (hfd : Function.Injective fd) (hpos : ∀ c, 0 ≤ fd c)
    (hops : Throughout Registry.step Proper .init ops) :
    ∃ r s, run Registry.step .init ops = .ok r ∧ run (step fd) .init ops = .ok s ∧ Rep fd r s := by
  obtain ⟨r, hr⟩ := run_total (fun _ _ h => Registry.step_total h.2.1) hops
  have hstep : ∀ r s o, Rep fd r s → Proper r o →
      Related (Rep fd) (r.step o) (step fd s o) := fun r s o h ho =>
    step_related hfd hpos h ⟨ho.1, ho.2.2⟩
  have hrel := run_related hstep rep_init hops
  rw [hr] at hrel
  obtain ⟨s, hs, hrep⟩ := hrel.of_ok
  exact ⟨r, s, hr, hs, hrep⟩

/-- After every proper use of the channels no assert has failed, the parts of the poller fit
together, a removal leaves what is watched for the other channels alone, and every ready entry of
a result of `poll` is delivered to its channel, once and in order. -/
theorem poll_poller_delivers {ops : List (Op C)} (hfd : Function.Injective fd)
    (hpos : ∀ c, 0 ≤ fd c) (hops : Throughout Registry.step Proper .init ops) :
    ∃ s, run (step fd) .init ops = .ok s ∧ Fits fd s ∧
      (∀ c, hasChannel fd s.channels c = true → s.chan.events c = kNoneEvent →
        ∃ s', step fd s (.remove c) = .ok s' ∧ ∀ d, d ≠ c → hasChannel fd s.channels d = true →
          hasChannel fd s'.channels d = true ∧ entry s' d = entry s d) ∧
      ∀ (result : Nat → BitVec 16) (activeChannels : List C),
        (∀ pfd ∈ polled s result, pfd.isReady = true → 0 ≤ pfd.fd) →
        ∃ chan owners, fillActiveChannels fd s.channels (polled s result).toList
            ((polled s result).toList.countP PollFd.isReady) s.chan activeChannels =
              .ok (chan, activeChannels ++ owners) ∧
          owners.Nodup ∧
          List.Forall₂ (fun pfd c => fd c = pfd.fd ∧ hasChannel fd s.channels c = true ∧
            chan.revents c = pfd.revents.signExtend 32)
            ((polled s result).toList.filter PollFd.isReady) owners := by
  obtain ⟨r, s, _, hs, hrep⟩ := run_rep hfd hpos hops
  refine ⟨s, hs, hrep.fits hfd hpos, fun c hc he => ?_, fun result activeChannels hresult => ?_⟩
  · obtain ⟨s', hs', hrep'⟩ := hrep.remove hfd hpos (hrep.known.hasChannel_iff.mp hc)
      (by rw [← hrep.events, he])
    refine ⟨s', hs', fun d hdc hd => ?_⟩
    have hd := hrep.known.hasChannel_iff.mp hd
    have hd' := Registry.remove_status_eq_registered.mpr ⟨hdc, hd⟩
    exact ⟨hrep'.known.hasChannel_iff.mpr hd', by rw [hrep'.entry_eq hd', hrep.entry_eq hd]; rfl⟩
  · have hnodup := hrep.ready_nodup hresult hfd hpos
    obtain ⟨chan, owners, hrun, hmap, howners, _⟩ := fillActiveChannels_eq hrep.known s.chan
      activeChannels (hrep.ready_owner hresult hpos) hnodup
    refine ⟨chan, owners, hrun, List.Nodup.of_map fd (hmap ▸ hnodup),
      howners.imp fun pfd c hc => ?_⟩
    exact ⟨hc.1, hrep.known.hasChannel_iff.mpr hc.2.1, hc.2.2⟩

def swapRemove : List (Op (Fin 3)) :=
  [.update .enableReading 0, .update .enableWriting 1, .update .enableReading 2,
    .update .disableAll 2, .update .disableReading 0, .remove 0, .update .enableWriting 2]

theorem poll_poller_delivers_swapRemove :
    ∃ s, run (step (·.val + 3)) .init swapRemove = .ok s ∧ Fits (·.val + 3) s := by
  have hfd : Function.Injective fun c : Fin 3 => (c.val : Int) + 3 := fun a b h =>
    Fin.ext (by dsimp only at h; omega)
  have hops : Throughout Registry.step Proper .init swapRemove := by decide
  obtain ⟨s, hs, hfits, _⟩ := poll_poller_delivers hfd (fun _ => by omega) hops
  exact ⟨s, hs, hfits⟩

end AcMuduo.PollPoller
