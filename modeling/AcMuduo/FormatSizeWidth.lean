import AcMuduo.FormatSize
import AcMuduo.LogFileNames

namespace AcMuduo.LogStream

open Rounding

def Style.digits (f : Style) (n : ℚ) : Nat :=
  (nearestEven (|double (n / f.unit)| * 10 ^ f.decimals)).toNat

/-- The integers for which a branch is taken: from `first` to `last`. -/
structure Segment where
  first : Int
  last : Int
  style : Style

/-- The segments of the branches, where the integers from `bound` on are not below the limit. -/
def segments (first : Int) : List (Int × ℚ × Style) → Style → Int → List Segment
  | [], style, last => [⟨first, last, style⟩]
  | (bound, _, f) :: rest, style, last =>
    ⟨first, bound - 1, f⟩ :: segments bound rest style last

variable {f : Style} {s t first last : Int} {key m n : ℚ}

theorem double_pos (h : 0 < n) : 0 < double n := toPrecision_pos (by decide) h

theorem double_mono (hm : 0 < m) (h : m ≤ n) : double m ≤ double n :=
  toPrecision_mono (by decide) hm h

theorem digits_mono (hunit : 0 < f.unit) (hm : 0 < m) (h : m ≤ n) : f.digits m ≤ f.digits n := by
  have hdiv : 0 < m / f.unit := div_pos hm hunit
  have hle : m / f.unit ≤ n / f.unit := div_le_div_of_nonneg_right h hunit.le
  apply Int.toNat_le_toNat
  apply nearestEven_mono
  apply mul_le_mul_of_nonneg_right _ (by positivity)
  rw [abs_of_pos (double_pos hdiv), abs_of_pos (double_pos (hdiv.trans_le hle))]
  exact double_mono hdiv hle

theorem print_eq (hunit : 0 < f.unit) (hn : 0 < n) :
    f.print n = pointed f.decimals (f.digits n) ++ f.suffix := by
  have hpos : 0 < double (n / f.unit) := double_pos (div_pos hn hunit)
  rw [Style.print, fixedPoint, if_neg (not_lt.mpr hpos.le), List.nil_append]
  rfl

theorem convert_length_le_iff {k : Nat} (hk : 0 < k) (n : Nat) :
    (convert n).length ≤ k ↔ n < 10 ^ k := by
  constructor
  · intro hlength
    have hdigits := decimal.written_canonical (by decide) n
    have hlt := Glyphs.value_lt (g := decimal) (by decide) hdigits.digits
    rw [Glyphs.value_written (by decide), ← convert_natCast] at hlt
    exact hlt.trans_le (Nat.pow_le_pow_right (by decide) hlength)
  · intro hlt
    rw [convert_natCast]
    exact decimal.length_written_le (by decide) hk hlt

theorem pointed_length_le_iff {decimals k : Nat} (hk : decimals < k) (digits : Nat) :
    (pointed decimals digits).length ≤ k + (if decimals = 0 then 0 else 1) ↔ digits < 10 ^ k := by
  rw [pointed]
  split_ifs with hnone
  · rw [hnone, List.append_nil, Nat.pow_zero, Nat.div_one, Nat.add_zero]
    exact convert_length_le_iff (Nat.zero_lt_of_lt hk) digits
  · have hfraction : (padded 48 decimals (convert (digits % 10 ^ decimals : Nat))).length =
        decimals := by
      rw [padded_eq_fixed]
      exact Glyphs.length_fixed (by decide) (Nat.pos_of_ne_zero hnone)
        (Nat.mod_lt _ (by positivity))
    have hpoint : (bytes ".").length = 1 := rfl
    have hsplit : 10 ^ k = 10 ^ (k - decimals) * 10 ^ decimals := by
      rw [← Nat.pow_add, Nat.sub_add_cancel hk.le]
    rw [hsplit, ← Nat.div_lt_iff_lt_mul (by positivity), ← convert_length_le_iff (by omega),
      List.length_append, List.length_append, hfraction, hpoint]
    omega

theorem exists_segment (style : Style) {rows : List (Int × ℚ × Style)} (hfirst : first ≤ s)
    (hlast : s ≤ last) (hrows : ∀ row ∈ rows, key < row.2.1 ↔ s < row.1) :
    ∃ g ∈ segments first rows style last, g.first ≤ s ∧ s ≤ g.last ∧
      choose key (rows.map Prod.snd) style = g.style := by
  induction rows generalizing first with
  | nil => exact ⟨_, List.mem_singleton.mpr rfl, hfirst, hlast, rfl⟩
  | cons row rest ih =>
    obtain ⟨bound, limit, f⟩ := row
    have hrow := hrows _ List.mem_cons_self
    by_cases hlt : s < bound
    · exact ⟨_, List.mem_cons_self, hfirst, Int.le_sub_one_of_lt hlt, if_pos (hrow.mpr hlt)⟩
    · obtain ⟨g, hg, hbounds⟩ := ih (Int.not_lt.mp hlt) fun row hmem =>
        hrows row (List.mem_cons_of_mem _ hmem)
      refine ⟨g, List.mem_cons_of_mem _ hg, ?_⟩
      rw [List.map_cons, choose, if_neg fun hkey => hlt (hrow.mp hkey)]
      exact hbounds

def boundsSI : List Int := [9995, 99950, 999500, 9995000, 99950000, 999500000, 9995000000,
  99950000000, 999500000000, 9995000000000, 99950000000000, 999500000000000, 9995000000000000,
  99950000000000000, 999500000000000000]

def boundsIEC : List Int := [10235, 102349, 1048064, 10480518, 104805172, 1073217536, 10732049531,
  107320495309, 1098974756864, 10989618719622, 109896187196212, 1125350151028736,
  11253369568892026, 112533695688920265, 1152358554653425600, 11523450438545433601]

def segmentsSI : List Segment :=
  segments 1000 (boundsSI.zip branchesSI) lastSI 9223372036854775807

def segmentsIEC : List Segment :=
  segments 1024 (boundsIEC.zip branchesIEC) lastIEC 9223372036854775807

theorem toInt_le (s : Int64) : s.toInt ≤ 9223372036854775807 := Int64.toInt_le s

theorem formatSI_branch {s : Int64} (h : 1000 ≤ s.toInt) : ∃ g ∈ segmentsSI,
    g.first ≤ s.toInt ∧ s.toInt ≤ g.last ∧ formatSI s = g.style.print (double s.toInt) := by
  have hlimits : ∀ row ∈ boundsSI.zip branchesSI, row.2.1 = (row.1 : ℚ) := by decide +kernel
  have hrows : ∀ row ∈ boundsSI.zip branchesSI, (s.toInt : ℚ) < row.2.1 ↔ s.toInt < row.1 := by
    intro row hrow
    rw [hlimits row hrow, Int.cast_lt]
  obtain ⟨g, hg, hfirst, hlast, hchoose⟩ := exists_segment lastSI h (toInt_le s) hrows
  refine ⟨g, hg, hfirst, hlast, ?_⟩
  rw [formatSI, if_neg (Int.not_lt.mpr h), ← hchoose]
  rfl

theorem double_nonpos (h : n ≤ 0) : double n ≤ 0 := by
  have hdiv : n / ulp 53 n ≤ ((0 : Int) : ℚ) := by
    rw [Int.cast_zero]
    exact div_nonpos_of_nonpos_of_nonneg h (ulp_pos 53 n).le
  have hround : nearestEven (n / ulp 53 n) ≤ 0 := by
    simpa only [nearestEven_intCast] using nearestEven_mono hdiv
  exact mul_nonpos_of_nonpos_of_nonneg (by exact_mod_cast hround) (ulp_pos 53 n).le

theorem double_lt_iff {bound : Int} {limit : ℚ} (hbound : 1 < bound) (hlimit : 0 < limit)
    (hbelow : double (bound - 1 : Int) < limit) (habove : limit ≤ double bound) (s : Int) :
    double s < limit ↔ s < bound := by
  constructor
  · intro hlt
    by_contra hle
    rw [Int.not_lt] at hle
    have hpos : (0 : ℚ) < bound := by exact_mod_cast (by omega : 0 < bound)
    exact absurd hlt (not_lt.mpr (habove.trans (double_mono hpos (by exact_mod_cast hle))))
  · intro hlt
    by_cases hpos : 0 < s
    · have hle : (s : ℚ) ≤ (bound - 1 : Int) := by exact_mod_cast Int.le_sub_one_of_lt hlt
      exact (double_mono (by exact_mod_cast hpos) hle).trans_lt hbelow
    · exact (double_nonpos (by exact_mod_cast Int.not_lt.mp hpos)).trans_lt hlimit

theorem double_lt_Ki (s : Int) : double s < Ki ↔ s < 1024 :=
  double_lt_iff (by decide) (by decide +kernel) (by decide +kernel) (by decide +kernel) s

theorem formatIEC_branch {s : Int64} (h : 1024 ≤ s.toInt) : ∃ g ∈ segmentsIEC,
    g.first ≤ s.toInt ∧ s.toInt ≤ g.last ∧ formatIEC s = g.style.print (double s.toInt) := by
  have hlimits : ∀ row ∈ boundsIEC.zip branchesIEC, 1 < row.1 ∧ 0 < row.2.1 ∧
      double (row.1 - 1 : Int) < row.2.1 ∧ row.2.1 ≤ double row.1 := by decide +kernel
  have hrows : ∀ row ∈ boundsIEC.zip branchesIEC, double s.toInt < row.2.1 ↔ s.toInt < row.1 := by
    intro row hrow
    obtain ⟨hbound, hlimit, hbelow, habove⟩ := hlimits row hrow
    exact double_lt_iff hbound hlimit hbelow habove s.toInt
  obtain ⟨g, hg, hfirst, hlast, hchoose⟩ := exists_segment lastIEC h (toInt_le s) hrows
  refine ⟨g, hg, hfirst, hlast, ?_⟩
  have hKi : ¬ double s.toInt < Ki := fun hlt => absurd h (Int.not_le.mpr ((double_lt_Ki _).mp hlt))
  rw [formatIEC, if_neg hKi, ← hchoose]
  rfl

def Style.room (f : Style) : Nat := if f.decimals = 0 then 4 else 3

theorem print_length_le_iff (hunit : 0 < f.unit) (hdecimals : f.decimals < 3) (hn : 0 < n) :
    (f.print n).length ≤ 4 + f.suffix.length ↔ f.digits n < 10 ^ f.room := by
  have hroom : f.decimals < f.room := by
    rw [Style.room]
    split_ifs <;> omega
  rw [print_eq hunit hn, List.length_append, ← pointed_length_le_iff hroom, Style.room]
  split_ifs <;> omega

theorem convert_length_le_of_neg {k : Nat} (hk : 0 < k) (hs : s < 0) :
    (convert s).length ≤ k + 1 ↔ -s < 10 ^ k := by
  have hminus : convert s = minus :: convert s.natAbs := by
    rw [convert_eq_signed, Glyphs.signed, if_pos hs, convert_natCast]
    rfl
  rw [hminus, List.length_cons, Nat.add_le_add_iff_right, convert_length_le_iff hk]
  zify
  rw [abs_of_neg hs]

structure Segment.Usable (g : Segment) (suffixLength : Nat) : Prop where
  unit : 0 < g.style.unit
  decimals : g.style.decimals < 3
  suffix : g.style.suffix.length = suffixLength
  first : 0 < g.first

instance (g : Segment) (suffixLength : Nat) : Decidable (g.Usable suffixLength) :=
  decidable_of_iff (0 < g.style.unit ∧ g.style.decimals < 3 ∧
      g.style.suffix.length = suffixLength ∧ 0 < g.first)
    ⟨fun h => ⟨h.1, h.2.1, h.2.2.1, h.2.2.2⟩, fun h => ⟨h.1, h.2, h.3, h.4⟩⟩

theorem usable_SI : ∀ g ∈ segmentsSI, g.Usable 1 := by decide +kernel

theorem usable_IEC : ∀ g ∈ segmentsIEC, g.Usable 2 := by decide +kernel

theorem Segment.Usable.digits_mono {g : Segment} {k : Nat} (hg : g.Usable k)
    (hfirst : g.first ≤ s) (h : s ≤ t) :
    g.style.digits (double s) ≤ g.style.digits (double t) := by
  have hpos : (0 : ℚ) < s := by exact_mod_cast hg.first.trans_le hfirst
  apply LogStream.digits_mono hg.unit (double_pos hpos)
  exact double_mono hpos (by exact_mod_cast h)

theorem Segment.Usable.length_le_iff {g : Segment} {k : Nat} (hg : g.Usable k)
    (hfirst : g.first ≤ s) :
    (g.style.print (double s)).length ≤ 4 + k ↔ g.style.digits (double s) < 10 ^ g.style.room := by
  have hpos : (0 : ℚ) < s := by exact_mod_cast hg.first.trans_le hfirst
  rw [← hg.suffix]
  exact print_length_le_iff hg.unit hg.decimals (double_pos hpos)

theorem room_SI : ∀ g ∈ segmentsSI,
    (g.last < 99949999999999992 ∨ 99950000000000000 ≤ g.first) ∧
      g.style.digits (double g.last) < 10 ^ g.style.room ∨
    g.first < 99949999999999992 ∧ g.last = 99949999999999999 ∧
      g.style.digits (double (99949999999999991 : Int)) < 10 ^ g.style.room ∧
      10 ^ g.style.room ≤ g.style.digits (double (99949999999999992 : Int)) := by
  decide +kernel

theorem room_IEC : ∀ g ∈ segmentsIEC, g.style.digits (double g.last) < 10 ^ g.style.room := by
  decide +kernel

/-- A number takes the five characters of the comment exactly if it is not one of the eight that
are below the limit of a branch as integers, and have a `double` that rounds to more digits. The
negative numbers are printed in full. -/
theorem formatSI_length_iff (s : Int64) : (formatSI s).length ≤ 5 ↔
    -9999 ≤ s.toInt ∧ (s.toInt < 99949999999999992 ∨ 99950000000000000 ≤ s.toInt) := by
  by_cases hsmall : s.toInt < 1000
  · rw [formatSI, if_pos hsmall]
    by_cases hneg : s.toInt < 0
    · rw [convert_length_le_of_neg (k := 4) (by decide) hneg]
      omega
    · obtain ⟨n, hn⟩ := Int.eq_ofNat_of_zero_le (Int.not_lt.mp hneg)
      rw [hn] at hsmall ⊢
      rw [convert_length_le_iff (by decide)]
      omega
  · obtain ⟨g, hg, hfirst, hlast, hprint⟩ := formatSI_branch (Int.not_lt.mp hsmall)
    have husable := usable_SI g hg
    rw [hprint, husable.length_le_iff hfirst]
    obtain ⟨hrange, hroom⟩ | ⟨hstart, hend, hroom, hmore⟩ := room_SI g hg
    · have hdigits := husable.digits_mono hfirst hlast
      exact ⟨fun _ => by omega, fun _ => hdigits.trans_lt hroom⟩
    · by_cases hbad : s.toInt < 99949999999999992
      · have hdigits := husable.digits_mono hfirst (Int.le_sub_one_of_lt hbad)
        exact ⟨fun _ => by omega, fun _ => hdigits.trans_lt hroom⟩
      · have hdigits := husable.digits_mono hstart.le (Int.not_lt.mp hbad)
        exact ⟨fun hlt => absurd hlt (not_lt.mpr (hmore.trans hdigits)), fun _ => by omega⟩

/-- With the limits rounded as the numbers are, there are no exceptions. -/
theorem formatIEC_length_iff (s : Int64) : (formatIEC s).length ≤ 6 ↔ -99999 ≤ s.toInt := by
  by_cases hsmall : s.toInt < 1024
  · rw [formatIEC, if_pos ((double_lt_Ki _).mpr hsmall)]
    by_cases hneg : s.toInt < 0
    · rw [convert_length_le_of_neg (k := 5) (by decide) hneg]
      omega
    · obtain ⟨n, hn⟩ := Int.eq_ofNat_of_zero_le (Int.not_lt.mp hneg)
      rw [hn] at hsmall ⊢
      rw [convert_length_le_iff (by decide)]
      omega
  · obtain ⟨g, hg, hfirst, hlast, hprint⟩ := formatIEC_branch (Int.not_lt.mp hsmall)
    have husable := usable_IEC g hg
    rw [hprint, husable.length_le_iff hfirst]
    have hdigits := husable.digits_mono hfirst hlast
    exact ⟨fun _ => by omega, fun _ => hdigits.trans_lt (room_IEC g hg)⟩

end AcMuduo.LogStream
