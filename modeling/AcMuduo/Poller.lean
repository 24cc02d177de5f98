import AcMuduo.Registry

namespace AcMuduo.Poller

variable {C : Type} {fd : C → Int} {r : Registry C} {c : C}

abbrev ChannelMap (C : Type) := Std.TreeMap Int C

def hasChannel [DecidableEq C] (fd : C → Int) (channels : ChannelMap C) (c : C) : Bool :=
  channels[fd c]? = some c

def Known (fd : C → Int) (channels : ChannelMap C) (r : Registry C) : Prop :=
  ∀ f c, channels[f]? = some c ↔ fd c = f ∧ r.status c = .registered

def Free (fd : C → Int) (r : Registry C) (c : C) : Prop :=
  ∀ d, r.status d = .registered → fd d = fd c → d = c

theorem free_of_injective (hfd : Function.Injective fd) : Free fd r c := fun _ _ h => hfd h

variable {channels : ChannelMap C}

theorem known_init : Known fd (∅ : ChannelMap C) .init := fun f c => by simp [Registry.init]

theorem Known.getElem?_of_registered (h : Known fd channels r) (hc : r.status c = .registered) :
    channels[fd c]? = some c :=
  (h (fd c) c).mpr ⟨rfl, hc⟩

theorem Known.getElem?_eq_none (h : Known fd channels r) (hfree : Free fd r c)
    (hc : r.status c ≠ .registered) : channels[fd c]? = none := by
  cases hf : channels[fd c]? with
  | none => rfl
  | some d =>
    obtain ⟨hd, hreg⟩ := (h _ d).mp hf
    exact absurd (hfree d hreg hd ▸ hreg) hc

theorem Known.free_of_none (h : Known fd channels r) (hnone : channels[fd c]? = none) :
    Free fd r c := by
  intro d hd heq
  have hsome := h.getElem?_of_registered hd
  rw [heq, hnone] at hsome
  cases hsome

theorem Known.free_of_registered (h : Known fd channels r) (hc : r.status c = .registered) :
    Free fd r c := by
  intro d hd heq
  have hsome := h.getElem?_of_registered hd
  rw [heq, h.getElem?_of_registered hc] at hsome
  exact (Option.some.inj hsome).symm

variable [DecidableEq C]

theorem Known.hasChannel_iff (h : Known fd channels r) :
    hasChannel fd channels c = true ↔ r.status c = .registered := by
  simp [hasChannel, h (fd c) c]

theorem Known.insert (h : Known fd channels r) (hfree : Free fd r c) (u : Update) :
    Known fd (channels.insert (fd c) c) (r.update u c) := by
  intro f d
  rw [Std.TreeMap.getElem?_insert]
  by_cases hdc : d = c
  · subst hdc
    by_cases hf : fd d = f
    · simp [hf]
    · have := h f d
      simp [hf, this]
  · by_cases hf : fd c = f
    · subst hf
      have hne : ¬ (fd d = fd c ∧ r.status d = .registered) := fun hd =>
        hdc (hfree d hd.2 hd.1)
      simp [hdc, hne, Ne.symm hdc]
    · simp [hf, h f d, hdc]

theorem Known.update (h : Known fd channels r) (hc : r.status c = .registered) (u : Update) :
    Known fd channels (r.update u c) := by
  intro f d
  rw [h f d]
  by_cases hdc : d = c
  · simp [hdc, hc]
  · simp [hdc]

theorem Known.erase (h : Known fd channels r) (hc : r.status c = .registered) :
    Known fd (channels.erase (fd c)) (r.remove c) := by
  intro f d
  rw [Std.TreeMap.getElem?_erase]
  by_cases hdc : d = c
  · subst hdc
    by_cases hf : fd d = f
    · simp [hf]
    · have := h f d
      simp [hf, this]
  · by_cases hf : fd c = f
    · subst hf
      have hne : ¬ (fd d = fd c ∧ r.status d = .registered) := fun hd =>
        hdc (h.free_of_registered hc d hd.2 hd.1)
      simp [hdc, hne]
    · simp [hf, h f d, hdc]

end AcMuduo.Poller
