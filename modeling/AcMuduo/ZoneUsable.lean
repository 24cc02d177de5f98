import AcMuduo.OffsetInEffect
import AcMuduo.ZoneBlock

namespace AcMuduo.TimeZone

open Machine

variable {data : Data}

/-- A zone with a type of local time, and with all indices below the sizes. -/
structure Data.WellFormed (data : Data) : Prop where
  localtimes : data.localtimes ≠ []
  index : ∀ t ∈ data.transitions, t.localtimeIdx < data.localtimes.length
  arrbIdx : ∀ l ∈ data.localtimes, l.arrbIdx < data.abbreviation.length

theorem Data.WellFormed.inRange (h : data.WellFormed) : data.InRange :=
  ⟨h.localtimes, h.index, fun l hl => (h.arrbIdx l hl).le⟩

section

variable (hdata : data.InRange) {sentry : Transition} {comp : Comp}
include hdata

theorem at?_localtimes {t : Transition} (ht : t ∈ data.transitions) :
    ∃ l ∈ data.localtimes, at? data.localtimes t.localtimeIdx = .ok l :=
  have hindex := List.getElem?_eq_getElem (hdata.index t ht)
  ⟨_, List.getElem_mem _, at?_eq_ok.mpr hindex⟩

theorem at?_transition {i : Nat} (hi : i < data.transitions.length) :
    ∃ l ∈ data.localtimes,
      (at? data.transitions i >>= fun t => at? data.localtimes t.localtimeIdx) = .ok l := by
  have ht := at?_eq_ok.mpr (List.getElem?_eq_getElem hi)
  obtain ⟨l, hmem, hl⟩ := at?_localtimes hdata (List.getElem_mem hi)
  exact ⟨l, hmem, bind_eq_ok.mpr ⟨_, ht, hl⟩⟩

omit hdata in
theorem equal_of_first {t : Transition}
    (hfront : ¬ (data.transitions.head?.all fun front => comp.less sentry front) = true)
    (hindex : lowerBoundIdx data sentry comp = 0)
    (ht : data.transitions[lowerBoundIdx data sentry comp]? = some t) :
    comp.equal sentry t = true := by
  have hlength : 0 < data.transitions.length := hindex ▸ (List.getElem?_eq_some_iff.mp ht).1
  have hless := lowerBound_not_less
    (fun i => data.transitions[i]?.any fun t => comp.less t sentry) data.transitions.length
  rw [← lowerBoundIdx, ht, hindex] at hless
  rw [hindex, ← List.head?_eq_getElem?] at ht
  simp [ht, Comp.less] at hfront
  simp [Comp.less] at hless
  exact decide_eq_true (by omega)

theorem findLocaltime_inRange (sentry : Transition) (comp : Comp) :
    ∃ l ∈ data.localtimes, findLocaltime data sentry comp = .ok l := by
  rw [findLocaltime]
  split
  · have hfirst := List.getElem?_eq_getElem (List.length_pos_iff.mpr hdata.localtimes)
    exact ⟨_, List.getElem_mem _, at?_eq_ok.mpr hfirst⟩
  · rename_i hfront
    have hlength : 0 < data.transitions.length := by
      cases htransitions : data.transitions with
      | nil => simp [htransitions] at hfront
      | cons t l => simp
    cases ht : data.transitions[lowerBoundIdx data sentry comp]? with
    | none =>
      simp only [ht]
      exact at?_transition hdata (by omega)
    | some t =>
      simp only [ht]
      by_cases hequal : comp.equal sentry t = true
      · rw [if_pos hequal]
        exact at?_localtimes hdata (List.mem_of_getElem? ht)
      · have hindex : lowerBoundIdx data sentry comp ≠ 0 :=
          fun h => hequal (equal_of_first hfront h ht)
        have hlt := (List.getElem?_eq_some_iff.mp ht).1
        rw [if_neg hequal, decide_eq_true hindex, assert_true]
        exact at?_transition hdata (by omega)

theorem toLocalTime_inRange (s : Int) : ∃ tm, toLocalTime data s = .ok tm := by
  obtain ⟨l, hmem, hl⟩ := findLocaltime_inRange hdata ⟨s, 0, 0⟩ ⟨true⟩
  exact ⟨_, bind_eq_ok.mpr ⟨l, hl, if_pos (hdata.arrbIdx l hmem)⟩⟩

theorem fromLocalTime_inRange (localTm : Tm) : ∃ s, fromLocalTime data localTm = .ok s := by
  obtain ⟨l, -, hl⟩ := findLocaltime_inRange hdata ⟨0, timegm localTm, 0⟩ ⟨false⟩
  obtain ⟨tryTm, htry⟩ := toLocalTime_inRange hdata (timegm localTm - l.gmtOffset)
  refine exists_bind_ok hl ?_
  split
  · refine exists_bind_ok htry ?_
    split
    · exact ⟨_, rfl⟩
    · exact ⟨_, rfl⟩
  · exact ⟨_, rfl⟩

end

/-- The constructor indexes nothing out of range. After it the zone is invalid, or its data are
well formed and the times of both kinds can be converted. -/
def Usable (stack : Nat) (zonefile : Option (List UInt8)) : Prop :=
  ∃ data_, ofFile stack zonefile = .ok data_ ∧ (valid data_ = true → ∃ data, data_ = some data ∧
    data.WellFormed ∧ (∀ s, ∃ tm, toLocalTime data s = .ok tm) ∧
    ∀ localTm, ∃ s, fromLocalTime data localTm = .ok s)

section

open StateError

variable {s t : Reading} {stack : Nat} {zonefile : Option (List UInt8)}

def Unnamed (s : Reading) : Prop := s.data.abbreviation = []

theorem keeps_fread {n : Nat} : Keeps Unnamed (File.fread n) := fun _ h => h

theorem keeps_readBytes {n : Int32} : Keeps Unnamed (File.readBytes stack n) :=
  keeps_check.bind fun _ => keeps_check.bind fun _ => keeps_fread.bind fun _ =>
    keeps_check.bind fun _ => keeps_pure

theorem keeps_readInt32 : Keeps Unnamed File.readInt32 :=
  keeps_fread.bind fun _ => keeps_check.bind fun _ => keeps_pure

theorem keeps_readUInt8 : Keeps Unnamed File.readUInt8 := by
  refine keeps_fread.bind fun x => ?_
  split
  · exact keeps_pure
  · exact fun _ h => h

theorem keeps_readHeader : Keeps Unnamed (readHeader stack) := by
  refine keeps_readBytes.bind fun _ => keeps_check.bind fun _ => keeps_readBytes.bind fun _ =>
    keeps_readBytes.bind fun _ => ?_
  exact keeps_readInt32.bind fun _ => keeps_readInt32.bind fun _ => keeps_readInt32.bind fun _ =>
    keeps_readInt32.bind fun _ => keeps_readInt32.bind fun _ => keeps_readInt32.bind fun _ =>
    keeps_pure

theorem keeps_index {α : Type} {l : List α} {i : Nat} : Keeps Unnamed (index l i) := by
  rw [index]
  split
  · exact keeps_pure
  · exact fun _ h => h

theorem keeps_readLocaltime : Keeps Unnamed readLocaltime :=
  keeps_readInt32.bind fun _ => keeps_readUInt8.bind fun _ => keeps_readUInt8.bind fun _ _ h => h

theorem keeps_pushTransition {trans : List Int32} {localtimes : List UInt8} {i : Nat} :
    Keeps Unnamed (pushTransition trans localtimes i) := by
  refine keeps_index.bind fun _ => keeps_index.bind fun _ => ?_
  exact Keeps.bind (fun _ h => h) fun _ => keeps_index.bind fun _ _ h => h

theorem readZone_error {e : Exit} (hs : Unnamed s) (h : readZone stack s = .error e t) :
    Unnamed t := by
  have herror : KeepsOnError Unnamed (readZone stack) := by
    refine keeps_readHeader.bind_onError fun counts => keeps_check.bind_onError fun _ =>
      (keeps_readInt32.repeatM _).bind_onError fun trans =>
      (keeps_readUInt8.repeatM _).bind_onError fun localtimes =>
      (keeps_readLocaltime.repeatM _).bind_onError fun _ =>
      (Keeps.forM (fun _ => keeps_pushTransition) _).bind_onError fun _ =>
      keeps_readBytes.bind_onError fun abbreviation s e t hs h => ?_
    cases h
  exact herror s e t hs h

theorem ofFile_eq (stack : Nat) (zonefile : Option (List UInt8)) : ofFile stack zonefile =
    (readTimeZoneFile stack zonefile .empty).map fun p => if p.1 then some p.2 else none := by
  rw [ofFile]
  cases readTimeZoneFile stack zonefile .empty with
  | error e => rfl
  | ok p =>
    obtain ⟨read, data⟩ := p
    cases read <;> rfl

theorem readTimeZoneFile_true {p : Bool × Data}
    (h : readTimeZoneFile stack zonefile .empty = .ok p) : p.1 = true := by
  cases zonefile with
  | none =>
    cases h
    rfl
  | some rest =>
    rw [readTimeZoneFile] at h
    split at h <;> cases h <;> rfl

theorem valid_of_ofFile {data_ : Option Data} (h : ofFile stack zonefile = .ok data_) :
    valid data_ = true := by
  rw [ofFile_eq] at h
  cases hread : readTimeZoneFile stack zonefile .empty with
  | error e =>
    rw [hread] at h
    cases h
  | ok p =>
    rw [hread] at h
    cases h
    simp [readTimeZoneFile_true hread, valid]

theorem block_of_wellFormed {data : Data} (h : ofFile stack zonefile = .ok (some data))
    (hdata : data.WellFormed) : ∃ (b : Block) (after : List UInt8),
      b.fits stack ∧ zonefile = some (b.encode ++ after) ∧ data = b.data := by
  cases zonefile with
  | none =>
    cases h
    exact absurd rfl hdata.localtimes
  | some rest =>
    rw [ofFile_eq, readTimeZoneFile] at h
    cases hread : readZone stack ⟨rest, .empty⟩ with
    | ok v t =>
      rw [hread] at h
      cases h
      obtain ⟨b, hfits, hrest, hb⟩ := exists_block hread hdata.localtimes
      exact ⟨b, t.rest, hfits, congrArg some hrest, hb⟩
    | error e t =>
      rw [hread] at h
      have hunnamed : Unnamed t := readZone_error (s := ⟨rest, .empty⟩) rfl hread
      cases e with
      | fault f => cases h
      | logicError what =>
        cases h
        obtain ⟨l, hl⟩ := List.exists_mem_of_ne_nil _ hdata.localtimes
        have := hdata.arrbIdx l hl
        rw [hunnamed] at this
        exact absurd this (Nat.not_lt_zero _)

theorem Block.wellFormed_iff (b : Block) : b.data.WellFormed ↔
    b.types ≠ [] ∧ ∀ r ∈ b.types, r.abbrind.toNat < b.abbreviation.length := by
  constructor
  · intro h
    have harrb := h.arrbIdx
    exact ⟨by simpa [Block.data, tablesData] using h.localtimes,
      by simpa [Block.data, tablesData, TypeRecord.localtime] using harrb⟩
  · rintro ⟨htypes, harrb⟩
    constructor
    · simpa [Block.data, tablesData] using htypes
    · intro t ht
      obtain ⟨p, hp, rfl⟩ := List.mem_map.mp ht
      simpa [Block.data, tablesData, joined] using b.index p hp
    · simpa [Block.data, tablesData, TypeRecord.localtime] using harrb

/-- The file gives a usable zone exactly if it starts with a block that has a type, in which the
abbreviation of every type starts before their end, and for which the stack has room. -/
theorem usable_iff (stack : Nat) (zonefile : Option (List UInt8)) : Usable stack zonefile ↔
    15 ≤ stack ∧ ∃ (b : Block) (after : List UInt8), zonefile = some (b.encode ++ after) ∧
      b.abbreviation.length ≤ stack ∧ b.types ≠ [] ∧
      ∀ r ∈ b.types, r.abbrind.toNat < b.abbreviation.length := by
  constructor
  · rintro ⟨data_, hfile, husable⟩
    obtain ⟨data, rfl, hdata, -⟩ := husable (valid_of_ofFile hfile)
    obtain ⟨b, after, ⟨hroom, hfits⟩, hzonefile, rfl⟩ := block_of_wellFormed hfile hdata
    exact ⟨hroom, b, after, hzonefile, hfits, b.wellFormed_iff.mp hdata⟩
  · rintro ⟨hroom, b, after, rfl, hfits, hb⟩
    have hdata := b.wellFormed_iff.mpr hb
    have hfile : ofFile stack (some (b.encode ++ after)) = .ok (some b.data) := by
      rw [ofFile_eq, readTimeZoneFile, b.readZone_encode after ⟨hroom, hfits⟩]
      rfl
    exact ⟨some b.data, hfile, fun _ => ⟨b.data, rfl, hdata, toLocalTime_inRange hdata.inRange,
      fromLocalTime_inRange hdata.inRange⟩⟩

theorem not_usable_none : ¬ ∀ zonefile, Usable (8 * 1024 * 1024) zonefile := by
  intro h
  obtain ⟨data_, hfile, husable⟩ := h none
  cases hfile
  obtain ⟨data, hdata, hformed, -⟩ := husable rfl
  cases hdata
  exact hformed.localtimes rfl

end

end AcMuduo.TimeZone
