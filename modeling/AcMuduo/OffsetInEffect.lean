import AcMuduo.TimeZoneLocal

namespace AcMuduo.TimeZone

open Machine

variable {data : Data} {s : Int}

structure Data.InRange (data : Data) : Prop where
  localtimes : data.localtimes ≠ []
  index : ∀ t ∈ data.transitions, t.localtimeIdx < data.localtimes.length
  arrbIdx : ∀ l ∈ data.localtimes, l.arrbIdx ≤ data.abbreviation.length

theorem Data.Consistent.inRange (h : data.Consistent) : data.InRange :=
  ⟨h.localtimes, h.index, h.arrbIdx⟩

def lastTransition (data : Data) (s : Int) : Option Transition :=
  (data.transitions.filter fun t => t.gmttime ≤ s).getLast?

/-- The type of the last transition, or the first type when there is none. -/
def inEffect (data : Data) (s : Int) : Option Localtime :=
  match lastTransition data s with
  | some t => data.localtimes[t.localtimeIdx]?
  | none => data.localtimes[0]?

theorem lastTransition_of_before
    (hsorted : data.transitions.Pairwise fun t u => t.gmttime < u.gmttime)
    (h : ∀ u ∈ data.transitions.head?, s < u.gmttime) : lastTransition data s = none := by
  rw [lastTransition, List.getLast?_eq_none_iff, List.filter_eq_nil_iff]
  intro u hu
  cases hl : data.transitions with
  | nil => simp [hl] at hu
  | cons t l =>
    have ht : s < t.gmttime := h t (by simp [hl])
    rw [hl] at hu hsorted
    cases hu with
    | head => simpa using ht
    | tail _ hu =>
      have := (List.pairwise_cons.mp hsorted).1 u hu
      simp
      omega

theorem lastTransition_of_split {pre post : List Transition} {t : Transition}
    (hsorted : data.transitions.Pairwise fun t u => t.gmttime < u.gmttime)
    (hsplit : data.transitions = pre ++ t :: post) (hle : t.gmttime ≤ s)
    (hnext : ∀ u ∈ post.head?, s < u.gmttime) : lastTransition data s = some t := by
  have hpost : post.filter (fun u => decide (u.gmttime ≤ s)) = [] := by
    have hlast : lastTransition ⟨post, [], []⟩ s = none := by
      rw [hsplit, List.pairwise_append, List.pairwise_cons] at hsorted
      exact lastTransition_of_before hsorted.2.1.2 hnext
    exact List.getLast?_eq_none_iff.mp hlast
  simp [lastTransition, hsplit, List.filter_append, hle, hpost]

/-- `toLocalTime` uses the offset that is in effect. -/
theorem to_local_time_in_effect (hdata : data.InRange)
    (hsorted : data.transitions.Pairwise fun t u => t.gmttime < u.gmttime) (s : Int) :
    ∃ l, inEffect data s = some l ∧ findLocaltime data ⟨s, 0, 0⟩ ⟨true⟩ = .ok l ∧
      toLocalTime data s = .ok { gmtime (s + l.gmtOffset) with
        isdst := if l.isDst then 1 else 0
        gmtoff := l.gmtOffset
        zone := data.abbreviation.drop l.arrbIdx } := by
  have hfind : ∃ l, inEffect data s = some l ∧
      findLocaltime data ⟨s, 0, 0⟩ ⟨true⟩ = .ok l := by
    cases exists_last Transition.gmttime s data.transitions with
    | inl hbefore =>
      have hfirst := List.getElem?_eq_getElem (List.length_pos_iff.mpr hdata.localtimes)
      refine ⟨_, ?_, (findLocaltime_of_before hbefore).trans (at?_eq_ok.mpr hfirst)⟩
      rw [inEffect, lastTransition_of_before hsorted hbefore, hfirst]
    | inr hlast =>
      obtain ⟨pre, t, post, hsplit, hle, hnext⟩ := hlast
      have hindex := List.getElem?_eq_getElem (hdata.index t (by simp [hsplit]))
      refine ⟨_, ?_, findLocaltime_of_last hsorted hsplit hle hnext hindex⟩
      rw [inEffect, lastTransition_of_split hsorted hsplit hle hnext]
      exact hindex
  obtain ⟨l, heffect, hfind⟩ := hfind
  refine ⟨l, heffect, hfind, bind_eq_ok.mpr ⟨l, hfind, if_pos (hdata.arrbIdx l ?_)⟩⟩
  rw [inEffect] at heffect
  split at heffect
  · exact List.mem_of_getElem? heffect
  · exact List.mem_of_getElem? heffect

theorem to_local_time_in_effect_summer :
    ∃ l, inEffect cet2007 1183248000 = some l ∧
      findLocaltime cet2007 ⟨1183248000, 0, 0⟩ ⟨true⟩ = .ok l ∧
      toLocalTime cet2007 1183248000 = .ok { gmtime (1183248000 + l.gmtOffset) with
        isdst := if l.isDst then 1 else 0
        gmtoff := l.gmtOffset
        zone := cet2007.abbreviation.drop l.arrbIdx } :=
  to_local_time_in_effect cet2007_consistent.inRange (by simp [cet2007]) 1183248000

end AcMuduo.TimeZone
