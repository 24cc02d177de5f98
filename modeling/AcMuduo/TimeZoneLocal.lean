import AcMuduo.TimeZone
import Mathlib.Data.List.Chain

namespace AcMuduo.TimeZone

open Machine

variable {data : Data} {sentry : Transition} {comp : Comp} {t : Transition}
  {pre post : List Transition}

/-- A zone as a table of transitions far enough apart, or without transitions. -/
structure Data.Consistent (data : Data) : Prop where
  localtimes : data.localtimes ≠ []
  index : ∀ t ∈ data.transitions, t.localtimeIdx < data.localtimes.length
  arrbIdx : ∀ l ∈ data.localtimes, l.arrbIdx ≤ data.abbreviation.length
  increasing : data.transitions.Pairwise fun t u => t.gmttime < u.gmttime
  localtime : ∀ t ∈ data.transitions, ∀ l, data.localtimes[t.localtimeIdx]? = some l →
    t.localtime = t.gmttime + l.gmtOffset
  apart : data.transitions.IsChain fun t u => ∀ l ∈ data.localtimes, ∀ l' ∈ data.localtimes,
    l.gmtOffset - l'.gmtOffset < u.gmttime - t.gmttime

theorem fixed_consistent (eastOfUtc : Int) (name : List UInt8) :
    (Data.fixed eastOfUtc name).Consistent := by
  constructor <;> simp [Data.fixed]

theorem exists_last (key : Transition → Int) (x : Int) (l : List Transition) :
    (∀ u ∈ l.head?, x < key u) ∨ ∃ pre t post, l = pre ++ t :: post ∧ key t ≤ x ∧
      ∀ u ∈ post.head?, x < key u := by
  induction l with
  | nil => exact .inl (by simp)
  | cons t l ih =>
    by_cases hx : x < key t
    · exact .inl (by simpa using hx)
    · apply Or.inr
      cases ih with
      | inl hl => exact ⟨[], t, l, rfl, not_lt.mp hx, hl⟩
      | inr hl =>
        obtain ⟨pre, u, post, rfl, hu⟩ := hl
        exact ⟨t :: pre, u, post, rfl, hu⟩

theorem findLocaltime_of_before
    (h : ∀ u ∈ data.transitions.head?, comp.key sentry < comp.key u) :
    findLocaltime data sentry comp = at? data.localtimes 0 := by
  have hfront : (data.transitions.head?.all fun front => comp.less sentry front) = true := by
    rw [Option.all_eq_true]
    intro u hu
    exact decide_eq_true (h u hu)
  rw [findLocaltime, if_pos hfront]

theorem lowerBoundIdx_eq (hsplit : data.transitions = pre ++ post)
    (hbelow : ∀ u ∈ pre, comp.key u < comp.key sentry)
    (habove : ∀ u ∈ post, comp.key sentry ≤ comp.key u) :
    lowerBoundIdx data sentry comp = pre.length := by
  refine lowerBound_eq (by simp [hsplit]) (fun i hi => ?_) fun i hi hn => ?_
  · have hget : data.transitions[i]? = some pre[i] := by
      rw [hsplit, List.getElem?_append_left hi, List.getElem?_eq_getElem hi]
    simpa [hget, Comp.less] using hbelow _ (List.getElem_mem hi)
  · have hlt : i - pre.length < post.length := by
      rw [hsplit, List.length_append] at hn
      omega
    have hget : data.transitions[i]? = some post[i - pre.length] := by
      rw [hsplit, List.getElem?_append_right hi, List.getElem?_eq_getElem hlt]
    simpa [hget, Comp.less] using habove _ (List.getElem_mem hlt)

theorem at?_eq_ok {α : Type} {l : List α} {i : Nat} {a : α} :
    at? l i = .ok a ↔ l[i]? = some a := by
  cases h : l[i]? <;> simp [at?, h]

theorem findLocaltime_of_last {l : Localtime}
    (hsorted : data.transitions.Pairwise fun t u => comp.key t < comp.key u)
    (hsplit : data.transitions = pre ++ t :: post) (hle : comp.key t ≤ comp.key sentry)
    (hnext : ∀ u ∈ post.head?, comp.key sentry < comp.key u)
    (hl : data.localtimes[t.localtimeIdx]? = some l) : findLocaltime data sentry comp = .ok l := by
  rw [hsplit, List.pairwise_append, List.pairwise_cons] at hsorted
  obtain ⟨-, ⟨hafter, hpost⟩, hpre⟩ := hsorted
  have hbefore : ∀ u ∈ pre, comp.key u < comp.key t := fun u hu => hpre u hu t (.head _)
  have hfront : ¬ (data.transitions.head?.all fun front => comp.less sentry front) = true := by
    cases pre with
    | nil => simpa [hsplit, Comp.less] using hle
    | cons p pre => simpa [hsplit, Comp.less] using ((hbefore p (.head _)).trans_le hle).le
  rw [findLocaltime, if_neg hfront]
  cases hle.eq_or_lt with
  | inl heq =>
    have hindex : lowerBoundIdx data sentry comp = pre.length := by
      apply lowerBoundIdx_eq hsplit (fun u hu => (hbefore u hu).trans_le hle)
      rw [← heq]
      intro u hu
      cases hu with
      | head => exact le_refl _
      | tail _ hu => exact (hafter u hu).le
    simp [hindex, hsplit, Comp.equal, heq, at?_eq_ok, hl]
  | inr hlt =>
    have hindex : lowerBoundIdx data sentry comp = (pre ++ [t]).length := by
      have happ : data.transitions = (pre ++ [t]) ++ post := by simp [hsplit]
      apply lowerBoundIdx_eq happ
      · intro u hu
        cases List.mem_append.mp hu with
        | inl hu => exact (hbefore u hu).trans hlt
        | inr hu => rwa [List.mem_singleton.mp hu]
      · cases post with
        | nil => simp
        | cons u post =>
          have hu := (hnext u rfl).le
          intro v hv
          cases hv with
          | head => exact hu
          | tail _ hv => exact hu.trans ((List.pairwise_cons.mp hpost).1 v hv).le
    have hlast : at? (pre ++ t :: post) pre.length = .ok t := by simp [at?_eq_ok]
    cases post with
    | nil => simp [hindex, hsplit, hlast, bind_eq_ok, at?_eq_ok, hl]
    | cons u post =>
      have hne : comp.equal sentry u = false := decide_eq_false (hnext u rfl).ne
      simp [hindex, hsplit, hne, hlast, bind_eq_ok, at?_eq_ok, hl]

inductive InForce (data : Data) (comp : Comp) (x : Int) (l : Localtime) : Prop where
  | first (hbefore : ∀ u ∈ data.transitions.head?, x < comp.key u)
      (hl : data.localtimes[0]? = some l)
  | since (pre : List Transition) (t : Transition) (post : List Transition)
      (hsplit : data.transitions = pre ++ t :: post) (hle : comp.key t ≤ x)
      (hnext : ∀ u ∈ post.head?, x < comp.key u)
      (hl : data.localtimes[t.localtimeIdx]? = some l)

theorem inForce_mem {x : Int} {l : Localtime} (h : InForce data comp x l) :
    l ∈ data.localtimes := by
  cases h with
  | first _ hl => exact List.mem_of_getElem? hl
  | since _ _ _ _ _ _ hl => exact List.mem_of_getElem? hl

section

variable (hdata : data.Consistent)
include hdata

theorem exists_inForce (comp : Comp) (x : Int) : ∃ l, InForce data comp x l := by
  cases exists_last comp.key x data.transitions with
  | inl hbefore =>
    have hpos := List.length_pos_iff.mpr hdata.localtimes
    exact ⟨_, .first hbefore (List.getElem?_eq_getElem hpos)⟩
  | inr h =>
    obtain ⟨pre, t, post, hsplit, hle, hnext⟩ := h
    have hindex := hdata.index t (by simp [hsplit])
    exact ⟨_, .since pre t post hsplit hle hnext (List.getElem?_eq_getElem hindex)⟩

theorem exists_localtime {t : Transition} (ht : t ∈ data.transitions) :
    ∃ l ∈ data.localtimes, data.localtimes[t.localtimeIdx]? = some l ∧
      t.localtime = t.gmttime + l.gmtOffset := by
  have hindex := List.getElem?_eq_getElem (hdata.index t ht)
  exact ⟨_, List.getElem_mem _, hindex, hdata.localtime t ht _ hindex⟩

theorem localtime_increasing :
    data.transitions.Pairwise fun t u => t.localtime < u.localtime := by
  have hchain : (data.transitions.map (·.localtime)).IsChain (· < ·) := by
    rw [List.isChain_map]
    apply hdata.apart.imp_of_mem_imp
    intro t u ht hu hapart
    obtain ⟨l, hmem, -, hl⟩ := exists_localtime hdata ht
    obtain ⟨l', hmem', -, hl'⟩ := exists_localtime hdata hu
    have := hapart l hmem l' hmem'
    omega
  exact List.pairwise_map.mp hchain.pairwise

theorem key_increasing (comp : Comp) :
    data.transitions.Pairwise fun t u => comp.key t < comp.key u := by
  obtain ⟨compareGmt⟩ := comp
  cases compareGmt with
  | true => exact hdata.increasing
  | false => exact localtime_increasing hdata

theorem findLocaltime_eq_ok {l : Localtime} :
    findLocaltime data sentry comp = .ok l ↔ InForce data comp (comp.key sentry) l := by
  have hfind : ∀ l, InForce data comp (comp.key sentry) l →
      findLocaltime data sentry comp = .ok l := by
    intro l h
    cases h with
    | first hbefore hl =>
      rw [findLocaltime_of_before hbefore]
      exact at?_eq_ok.mpr hl
    | since pre t post hsplit hle hnext hl =>
      exact findLocaltime_of_last (key_increasing hdata comp) hsplit hle hnext hl
  constructor
  · intro h
    obtain ⟨l', hl'⟩ := exists_inForce hdata comp (comp.key sentry)
    cases h.symm.trans (hfind l' hl')
    exact hl'
  · exact hfind l

/-- The next transition is not in force yet in local time either, since the same local time would be
that of a later instant, after the transition. -/
theorem localtime_next {s : Int} {l : Localtime} {u : Transition} (pre : List Transition)
    (hl : l ∈ data.localtimes)
    (hlast : ∀ s' l', InForce data ⟨true⟩ s' l' → s' + l'.gmtOffset = s + l.gmtOffset → s' ≤ s)
    (hsplit : data.transitions = pre ++ u :: post) (hs : s < u.gmttime) :
    s + l.gmtOffset < u.localtime := by
  obtain ⟨l', hmem, hindex, hlocal⟩ := exists_localtime hdata (t := u) (by simp [hsplit])
  by_contra hle
  have hnext : ∀ v ∈ post.head?, s + l.gmtOffset - l'.gmtOffset < v.gmttime := by
    cases post with
    | nil => simp
    | cons v post =>
      have hapart := hdata.apart
      rw [hsplit, List.isChain_append_cons_cons] at hapart
      have := hapart.2.1 l hl l' hmem
      simp
      omega
  have hlater : InForce data ⟨true⟩ (s + l.gmtOffset - l'.gmtOffset) l' :=
    .since pre u post hsplit (by simp [Comp.key]; omega) hnext hindex
  have := hlast _ _ hlater (by omega)
  omega

theorem inForce_localtime {s : Int} {l : Localtime} (h : InForce data ⟨true⟩ s l)
    (hlast : ∀ s' l', InForce data ⟨true⟩ s' l' → s' + l'.gmtOffset = s + l.gmtOffset → s' ≤ s) :
    InForce data ⟨false⟩ (s + l.gmtOffset) l := by
  cases h with
  | first hbefore hl =>
    refine .first (fun u hu => ?_) hl
    obtain ⟨post, hpost⟩ := List.head?_eq_some_iff.mp hu
    exact localtime_next hdata [] (List.mem_of_getElem? hl) hlast hpost (hbefore u hu)
  | since pre t post hsplit hle hnext hl =>
    refine .since pre t post hsplit ?_ (fun u hu => ?_) hl
    · have := hdata.localtime t (by simp [hsplit]) l hl
      simp only [Comp.key] at hle ⊢
      simp at hle ⊢
      omega
    · obtain ⟨rest, rfl⟩ := List.head?_eq_some_iff.mp hu
      exact localtime_next hdata (pre ++ [t]) (List.mem_of_getElem? hl) hlast
        (by simpa using hsplit) (hnext u hu)

theorem toLocalTime_of_inForce {s : Int} {l : Localtime} (h : InForce data ⟨true⟩ s l) :
    toLocalTime data s = .ok { gmtime (s + l.gmtOffset) with
      isdst := if l.isDst then 1 else 0
      gmtoff := l.gmtOffset
      zone := data.abbreviation.drop l.arrbIdx } := by
  refine bind_eq_ok.mpr ⟨l, (findLocaltime_eq_ok hdata).mpr h, ?_⟩
  exact if_pos (hdata.arrbIdx l (inForce_mem h))

end

/-- The local time of no other instant is the same. -/
def Unambiguous (data : Data) (s : Int) : Prop :=
  ∀ l, findLocaltime data ⟨s, 0, 0⟩ ⟨true⟩ = .ok l →
    ∀ s' l', findLocaltime data ⟨s', 0, 0⟩ ⟨true⟩ = .ok l' →
      s' + l'.gmtOffset = s + l.gmtOffset → s' = s

/-- `fromLocalTime` inverts `toLocalTime` where the local time is unambiguous. -/
theorem from_local_time_to_local_time (hdata : data.Consistent) {s : Int}
    (hclear : Unambiguous data s) : (toLocalTime data s >>= fromLocalTime data) = .ok s := by
  obtain ⟨l, hforce⟩ := exists_inForce hdata ⟨true⟩ s
  have hgmt : findLocaltime data ⟨s, 0, 0⟩ ⟨true⟩ = .ok l := (findLocaltime_eq_ok hdata).mpr hforce
  have hlocal : findLocaltime data ⟨0, s + l.gmtOffset, 0⟩ ⟨false⟩ = .ok l := by
    apply (findLocaltime_eq_ok hdata).mpr
    apply inForce_localtime hdata hforce
    exact fun s' l' h' heq => (hclear l hgmt s' l' ((findLocaltime_eq_ok hdata).mpr h') heq).le
  obtain ⟨tm, hto, hseconds⟩ : ∃ tm, toLocalTime data s = .ok tm ∧
      timegm tm = s + l.gmtOffset := by
    exact ⟨_, toLocalTime_of_inForce hdata hforce, timegm_gmtime (s + l.gmtOffset) _ _ _⟩
  refine bind_eq_ok.mpr ⟨tm, hto, ?_⟩
  rw [fromLocalTime, hseconds]
  refine bind_eq_ok.mpr ⟨l, hlocal, ?_⟩
  rw [Int.add_sub_cancel]
  -- Local time that is marked as daylight-saving is found to be marked so again.
  by_cases hdst : tm.isdst = 0
  · rw [if_neg (not_not.mpr hdst)]
  · rw [if_pos hdst]
    exact bind_eq_ok.mpr ⟨tm, hto, if_neg fun h => hdst h.1⟩

def cet2007 : Data where
  transitions := [⟨1174784400, 1174791600, 1⟩, ⟨1193533200, 1193536800, 0⟩]
  localtimes := [⟨3600, false, 0⟩, ⟨7200, true, 4⟩]
  abbreviation := [67, 69, 84, 0, 67, 69, 83, 84, 0]

theorem cet2007_consistent : cet2007.Consistent := by
  constructor <;> simp [cet2007]

theorem cet2007_unambiguous : Unambiguous cet2007 1183248000 := by
  intro l hl s' l' hl' heq
  have hl : l = ⟨7200, true, 4⟩ := Except.ok.inj (hl.symm.trans (by decide))
  have hmem := inForce_mem ((findLocaltime_eq_ok cet2007_consistent).mp hl')
  rw [hl] at heq
  cases hmem with
  | head =>
    -- An instant with the offset of the winter would be in the summer.
    have hs' : s' = 1183251600 := by
      simp only at heq
      omega
    rw [hs'] at hl'
    exact absurd hl' (by decide)
  | tail _ hmem =>
    simp only [List.mem_singleton.mp hmem] at heq
    omega

theorem from_local_time_to_local_time_summer :
    (toLocalTime cet2007 1183248000 >>= fromLocalTime cet2007) = .ok 1183248000 :=
  from_local_time_to_local_time cet2007_consistent cet2007_unambiguous

end AcMuduo.TimeZone
