import AcMuduo.TimeZoneLocal

namespace AcMuduo.TimeZone

open Machine

variable {data : Data} {s s₁ s₂ : Int} {l l₁ l₂ : Localtime}

section

variable (hdata : data.Consistent)
include hdata

theorem inForce_unique {comp : Comp} {x : Int} (h : InForce data comp x l)
    (h' : InForce data comp x l₁) : l₁ = l := by
  have hkey : comp.key ⟨x, x, 0⟩ = x := by
    rw [Comp.key]
    split <;> rfl
  have hfind : ∀ l, InForce data comp x l → findLocaltime data ⟨x, x, 0⟩ comp = .ok l :=
    fun l hl => (findLocaltime_eq_ok hdata).mpr (hkey.symm ▸ hl)
  exact Except.ok.inj ((hfind l₁ h').symm.trans (hfind l h))

omit hdata in
theorem inForce_until (h : InForce data ⟨true⟩ s l) : ∃ pre post,
    data.transitions = pre ++ post ∧ (∀ u ∈ post.head?, s < u.gmttime) ∧
      ∀ s', s ≤ s' → (∀ u ∈ post.head?, s' < u.gmttime) → InForce data ⟨true⟩ s' l := by
  cases h with
  | first hbefore hl => exact ⟨[], _, rfl, hbefore, fun s' _ hnext => .first hnext hl⟩
  | since pre t post hsplit hle hnext hl =>
    refine ⟨pre ++ [t], post, by simp [hsplit], hnext, fun s' hs hnext' => ?_⟩
    exact .since pre t post hsplit (hle.trans hs) hnext' hl

theorem later_type (h : InForce data ⟨true⟩ s l) : ∃ l', ∀ s₁ l₁, s < s₁ →
    InForce data ⟨true⟩ s₁ l₁ → s₁ + l₁.gmtOffset = s + l.gmtOffset → l₁ = l' := by
  obtain ⟨pre, post, hsplit, hnext, huntil⟩ := inForce_until h
  have hpast : ∀ s₁ l₁, s < s₁ → InForce data ⟨true⟩ s₁ l₁ →
      s₁ + l₁.gmtOffset = s + l.gmtOffset → ∃ u ∈ post.head?, u.gmttime ≤ s₁ := by
    intro s₁ l₁ hlt h₁ hsame
    by_contra hnone
    push Not at hnone
    cases inForce_unique hdata (huntil s₁ hlt.le hnone) h₁
    omega
  cases post with
  | nil =>
    refine ⟨l, fun s₁ l₁ hlt h₁ hsame => ?_⟩
    obtain ⟨u, hu, _⟩ := hpast s₁ l₁ hlt h₁ hsame
    cases hu
  | cons u post =>
    have hu := hnext u rfl
    have hindex := List.getElem?_eq_getElem (hdata.index u (by simp [hsplit]))
    refine ⟨_, fun s₁ l₁ hlt h₁ hsame => inForce_unique hdata (.since pre u post hsplit ?_ ?_ hindex)
      h₁⟩
    · obtain ⟨v, hv, hle⟩ := hpast s₁ l₁ hlt h₁ hsame
      cases hv
      exact hle
    · intro v hv
      obtain ⟨rest, rfl⟩ := List.head?_eq_some_iff.mp hv
      have hapart := hdata.apart
      rw [hsplit, List.isChain_append_cons_cons] at hapart
      have := hapart.2.1 l (inForce_mem h) l₁ (inForce_mem h₁)
      simp only [Comp.key, if_true]
      omega

theorem findLocaltime_second (h₁ : InForce data ⟨true⟩ s₁ l₁) (h₂ : InForce data ⟨true⟩ s₂ l₂)
    (hlt : s₁ < s₂) (hsame : s₁ + l₁.gmtOffset = s₂ + l₂.gmtOffset) :
    findLocaltime data ⟨0, s₂ + l₂.gmtOffset, 0⟩ ⟨false⟩ = .ok l₂ := by
  refine (findLocaltime_eq_ok hdata).mpr (inForce_localtime hdata h₂ fun s' l' h' heq => ?_)
  obtain ⟨l₀, hlater⟩ := later_type hdata h₁
  by_contra hle
  have hl' := hlater s' l' (by omega) h' (by omega)
  have hl₂ := hlater s₂ l₂ hlt h₂ hsame.symm
  rw [hl', hl₂] at heq
  omega

theorem fromLocalTime_second (hfind : findLocaltime data ⟨0, s₂ + l₂.gmtOffset, 0⟩ ⟨false⟩ = .ok l₂)
    (h₂ : InForce data ⟨true⟩ s₂ l₂) (isDst : Bool) (gmtoff : Int) (zone : List UInt8) :
    fromLocalTime data { gmtime (s₂ + l₂.gmtOffset) with
      isdst := if isDst then 1 else 0
      gmtoff := gmtoff
      zone := zone } = .ok (if isDst ∧ l₂.isDst = false then s₂ - 3600 else s₂) := by
  have hto := toLocalTime_of_inForce hdata h₂
  rw [fromLocalTime, timegm_gmtime]
  refine bind_eq_ok.mpr ⟨l₂, hfind, ?_⟩
  rw [Int.add_sub_cancel]
  cases isDst with
  | false => simp
  | true =>
    simp only [if_true, ne_eq, one_ne_zero, not_false_eq_true, hto]
    refine bind_eq_ok.mpr ⟨_, rfl, ?_⟩
    cases l₂.isDst with
    | true => simp
    | false =>
      simp only [Bool.false_eq_true, if_false, and_self, if_true, Except.ok.injEq]
      omega

end

/-- Two instants have the same local time, once with daylight-saving time and once without. -/
structure Repeated (data : Data) (s₁ s₂ : Int) (l₁ l₂ : Localtime) : Prop where
  lt : s₁ < s₂
  first : findLocaltime data ⟨s₁, 0, 0⟩ ⟨true⟩ = .ok l₁
  second : findLocaltime data ⟨s₂, 0, 0⟩ ⟨true⟩ = .ok l₂
  same : s₁ + l₁.gmtOffset = s₂ + l₂.gmtOffset
  flags : l₁.isDst ≠ l₂.isDst

/-- Both instants are recovered exactly if daylight-saving time ends there, by one hour. -/
theorem repeated_hour_iff (hdata : data.Consistent) (h : Repeated data s₁ s₂ l₁ l₂) :
    ((toLocalTime data s₁ >>= fromLocalTime data) = .ok s₁ ∧
      (toLocalTime data s₂ >>= fromLocalTime data) = .ok s₂) ↔
    l₁.isDst = true ∧ l₁.gmtOffset - l₂.gmtOffset = 3600 := by
  have h₁ : InForce data ⟨true⟩ s₁ l₁ := (findLocaltime_eq_ok hdata).mp h.first
  have h₂ : InForce data ⟨true⟩ s₂ l₂ := (findLocaltime_eq_ok hdata).mp h.second
  have hfind := findLocaltime_second hdata h₁ h₂ h.lt h.same
  have hround₁ : (toLocalTime data s₁ >>= fromLocalTime data) =
      .ok (if l₁.isDst ∧ l₂.isDst = false then s₂ - 3600 else s₂) := by
    rw [toLocalTime_of_inForce hdata h₁, h.same]
    exact fromLocalTime_second hdata hfind h₂ l₁.isDst _ _
  have hround₂ : (toLocalTime data s₂ >>= fromLocalTime data) =
      .ok (if l₂.isDst ∧ l₂.isDst = false then s₂ - 3600 else s₂) := by
    rw [toLocalTime_of_inForce hdata h₂]
    exact fromLocalTime_second hdata hfind h₂ l₂.isDst _ _
  have hlt := h.lt
  have hsame := h.same
  have hflags := h.flags
  rw [hround₁, hround₂, Except.ok.injEq, Except.ok.injEq]
  cases hdst₁ : l₁.isDst with
  | true =>
    have hdst₂ : l₂.isDst = false := by simpa [hdst₁] using hflags
    simp only [hdst₂, and_self, if_true, Bool.false_eq_true, if_false, and_true, true_and]
    omega
  | false =>
    simp only [Bool.false_eq_true, false_and, if_false, iff_false]
    omega

theorem repeated_hour_iff_cet :
    (toLocalTime cet2007 1193531400 >>= fromLocalTime cet2007) = .ok 1193531400 ∧
      (toLocalTime cet2007 1193535000 >>= fromLocalTime cet2007) = .ok 1193535000 :=
  have h : Repeated cet2007 1193531400 1193535000 ⟨7200, true, 4⟩ ⟨3600, false, 0⟩ :=
    ⟨by decide, by decide, by decide, by decide, by decide⟩
  (repeated_hour_iff cet2007_consistent h).mpr ⟨rfl, rfl⟩

/-- Lord Howe Island, where the clocks go back by half an hour. -/
def lordHowe2008 : Data where
  transitions := [⟨1207407600, 1207445400, 1⟩]
  localtimes := [⟨39600, true, 0⟩, ⟨37800, false, 4⟩]
  abbreviation := [43, 49, 49, 0, 43, 49, 48, 51, 48, 0]

/-- Dublin, where the time of the winter is the one that is marked. -/
def dublin2008 : Data where
  transitions := [⟨1224982800, 1224982800, 1⟩]
  localtimes := [⟨3600, false, 0⟩, ⟨0, true, 4⟩]
  abbreviation := [73, 83, 84, 0, 71, 77, 84, 0]

theorem repeated_hour_lost :
    (toLocalTime lordHowe2008 1207406700 >>= fromLocalTime lordHowe2008) = .ok 1207404900 ∧
    (toLocalTime dublin2008 1224981000 >>= fromLocalTime dublin2008) = .ok 1224984600 ∧
    ¬ ∀ (data : Data) (s₁ s₂ : Int) (l₁ l₂ : Localtime), data.Consistent →
      Repeated data s₁ s₂ l₁ l₂ → (toLocalTime data s₁ >>= fromLocalTime data) = .ok s₁ ∧
        (toLocalTime data s₂ >>= fromLocalTime data) = .ok s₂ := by
  refine ⟨by decide, by decide, fun h => ?_⟩
  have hdata : lordHowe2008.Consistent := by constructor <;> simp [lordHowe2008]
  have hrepeated : Repeated lordHowe2008 1207406700 1207408500 ⟨39600, true, 0⟩
      ⟨37800, false, 4⟩ := ⟨by decide, by decide, by decide, by decide, by decide⟩
  exact absurd (h _ _ _ _ _ hdata hrepeated).1 (by decide)

end AcMuduo.TimeZone
