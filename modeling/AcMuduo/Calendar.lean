import Mathlib.Data.Int.Init
import Mathlib.Tactic.IntervalCases

namespace AcMuduo

namespace Calendar

structure Date where
  year : Int
  month : Int
  day : Int
  deriving DecidableEq, Repr

def isLeap (year : Int) : Bool := year % 4 = 0 && (year % 100 ≠ 0 || year % 400 = 0)

def yearLength (year : Int) : Int := if isLeap year then 366 else 365

def monthLength (year month : Int) : Int :=
  if month = 2 then if isLeap year then 29 else 28
  else if month = 4 ∨ month = 6 ∨ month = 9 ∨ month = 11 then 30
  else 31

structure Date.Valid (d : Date) : Prop where
  month_pos : 1 ≤ d.month
  month_le : d.month ≤ 12
  day_pos : 1 ≤ d.day
  day_le : d.day ≤ monthLength d.year d.month

instance (d : Date) : Decidable d.Valid :=
  decidable_of_iff (1 ≤ d.month ∧ d.month ≤ 12 ∧ 1 ≤ d.day ∧ d.day ≤ monthLength d.year d.month)
    ⟨fun h => ⟨h.1, h.2.1, h.2.2.1, h.2.2.2⟩, fun h => ⟨h.1, h.2, h.3, h.4⟩⟩

def Date.next (d : Date) : Date :=
  if d.day < monthLength d.year d.month then { d with day := d.day + 1 }
  else if d.month < 12 then ⟨d.year, d.month + 1, 1⟩
  else ⟨d.year + 1, 1, 1⟩

def daysBeforeYear (year : Int) : Int :=
  365 * (year - 1) + (year - 1) / 4 - (year - 1) / 100 + (year - 1) / 400

def daysBeforeMonth (year month : Int) : Int :=
  ((List.range (month - 1).toNat).map fun (i : Nat) => monthLength year (i + 1)).sum

/-- The julian day number: days are counted on from that of the first of January of year 1. -/
def julianDay (d : Date) : Int :=
  1721426 + daysBeforeYear d.year + daysBeforeMonth d.year d.month + (d.day - 1)

example : julianDay ⟨2000, 1, 1⟩ = 2451545 := by decide

def dayOfYear (d : Date) : Int := daysBeforeMonth d.year d.month + (d.day - 1)

/-- The day of the week from Sunday on. The first of January 1970 was a Thursday. -/
def weekday (d : Date) : Int := (julianDay d - julianDay ⟨1970, 1, 1⟩ + 4) % 7

theorem isLeap_iff {year : Int} :
    isLeap year = true ↔ year % 4 = 0 ∧ (year % 100 ≠ 0 ∨ year % 400 = 0) := by
  simp [isLeap]

theorem daysBeforeYear_succ (year : Int) :
    daysBeforeYear (year + 1) = daysBeforeYear year + yearLength year := by
  simp only [daysBeforeYear, yearLength]
  split
  · rename_i h
    rw [isLeap_iff] at h
    omega
  · rename_i h
    rw [isLeap_iff] at h
    omega

theorem daysBeforeMonth_succ {year month : Int} (h : 1 ≤ month) :
    daysBeforeMonth year (month + 1) = daysBeforeMonth year month + monthLength year month := by
  have hsucc : (month + 1 - 1).toNat = (month - 1).toNat + 1 := by omega
  have hmonth : (((month - 1).toNat : Nat) : Int) + 1 = month := by omega
  rw [daysBeforeMonth, daysBeforeMonth, hsucc, List.range_succ, List.map_append, List.sum_append]
  simp only [List.map_cons, List.map_nil, List.sum_singleton, hmonth]

theorem daysBeforeMonth_end (year : Int) :
    daysBeforeMonth year 12 + monthLength year 12 = yearLength year := by
  cases h : isLeap year with
  | true => simp [daysBeforeMonth, yearLength, monthLength, List.range_succ, h]
  | false => simp [daysBeforeMonth, yearLength, monthLength, List.range_succ, h]

theorem monthLength_pos (year month : Int) : 1 ≤ monthLength year month := by
  rw [monthLength]
  split
  · split <;> omega
  · split <;> omega

theorem monthLength_le (year month : Int) : monthLength year month ≤ 31 := by
  rw [monthLength]
  split
  · split <;> omega
  · split <;> omega

theorem next_valid {d : Date} (h : d.Valid) : d.next.Valid := by
  rw [Date.next]
  split
  · rename_i hday
    exact ⟨h.month_pos, h.month_le, h.day_pos.trans (Int.le_add_one le_rfl), hday⟩
  · split
    · rename_i hmonth
      exact ⟨h.month_pos.trans (Int.le_add_one le_rfl), hmonth, le_rfl, monthLength_pos _ _⟩
    · exact ⟨le_rfl, by simp, le_rfl, monthLength_pos _ _⟩

theorem julianDay_next {d : Date} (h : d.Valid) : julianDay d.next = julianDay d + 1 := by
  simp only [Date.next, julianDay]
  split
  · simp only
    omega
  · rename_i hday
    have hlast : d.day = monthLength d.year d.month := le_antisymm h.day_le (not_lt.mp hday)
    split
    · simp only [daysBeforeMonth_succ h.month_pos]
      omega
    · rename_i hmonth
      have hdec : d.month = 12 := le_antisymm h.month_le (not_lt.mp hmonth)
      have hend := daysBeforeMonth_end d.year
      rw [hdec] at hlast
      have hfirst : daysBeforeMonth (d.year + 1) 1 = 0 := rfl
      simp only [hdec, daysBeforeYear_succ, hfirst]
      omega

theorem iterate_next_valid {d : Date} (h : d.Valid) (n : Nat) : (Date.next^[n] d).Valid := by
  induction n with
  | zero => exact h
  | succ n ih =>
    rw [Function.iterate_succ_apply']
    exact next_valid ih

theorem julianDay_iterate_next {d : Date} (h : d.Valid) (n : Nat) :
    julianDay (Date.next^[n] d) = julianDay d + n := by
  induction n with
  | zero => exact (Int.add_zero _).symm
  | succ n ih =>
    rw [Function.iterate_succ_apply', julianDay_next (iterate_next_valid h n), ih]
    exact (Int.add_assoc _ _ _)

def Date.Before (d d' : Date) : Prop :=
  d.year < d'.year ∨ d.year = d'.year ∧ (d.month < d'.month ∨ d.month = d'.month ∧ d.day < d'.day)

theorem daysBeforeYear_le {year year' : Int} (h : year < year') :
    daysBeforeYear year + yearLength year ≤ daysBeforeYear year' := by
  rw [← daysBeforeYear_succ]
  simp only [daysBeforeYear]
  omega

theorem daysBeforeMonth_le (year : Int) {month month' : Int} (hpos : 1 ≤ month) (h : month + 1 ≤ month') :
    daysBeforeMonth year month + monthLength year month ≤ daysBeforeMonth year month' := by
  induction month', h using Int.leInduction with
  | base => exact (daysBeforeMonth_succ hpos).ge
  | succ month' hle ih =>
    have hlen := monthLength_pos year month'
    rw [daysBeforeMonth_succ (by omega)]
    omega

theorem daysBeforeMonth_add_day_le {d : Date} (h : d.Valid) :
    daysBeforeMonth d.year d.month + d.day ≤ yearLength d.year := by
  have hday := h.day_le
  have hend := daysBeforeMonth_end d.year
  cases h.month_le.lt_or_eq with
  | inl hlt =>
    have hle := daysBeforeMonth_le d.year h.month_pos hlt
    have hlen := monthLength_pos d.year 12
    omega
  | inr heq =>
    rw [heq] at hday ⊢
    omega

theorem daysBeforeMonth_nonneg (year : Int) {month : Int} (h : 1 ≤ month) :
    0 ≤ daysBeforeMonth year month := by
  cases h.lt_or_eq with
  | inl hlt =>
    have hlen := monthLength_pos year 1
    have hle := daysBeforeMonth_le year le_rfl hlt
    have hfirst : daysBeforeMonth year 1 = 0 := rfl
    omega
  | inr heq => exact heq ▸ le_rfl

theorem julianDay_sub_first (d : Date) :
    julianDay d - julianDay ⟨d.year, 1, 1⟩ = dayOfYear d := by
  have hfirst : daysBeforeMonth d.year 1 = 0 := rfl
  simp only [julianDay, dayOfYear, hfirst]
  omega

theorem dayOfYear_nonneg {d : Date} (h : d.Valid) : 0 ≤ dayOfYear d := by
  have hmonth := daysBeforeMonth_nonneg d.year h.month_pos
  have hday := h.day_pos
  rw [dayOfYear]
  omega

theorem dayOfYear_le {d : Date} (h : d.Valid) : dayOfYear d ≤ 365 := by
  have hle := daysBeforeMonth_add_day_le h
  have hlen : yearLength d.year ≤ 366 := by
    rw [yearLength]
    split <;> omega
  rw [dayOfYear]
  omega

theorem julianDay_lt {d d' : Date} (h : d.Valid) (h' : d'.Valid) (hlt : d.Before d') :
    julianDay d < julianDay d' := by
  simp only [julianDay]
  have hpos := h'.day_pos
  cases hlt with
  | inl hyear =>
    have hle := daysBeforeYear_le hyear
    have hin := daysBeforeMonth_add_day_le h
    have hnonneg := daysBeforeMonth_nonneg d'.year h'.month_pos
    omega
  | inr hlt =>
    obtain ⟨hyear, hlt⟩ := hlt
    rw [hyear]
    cases hlt with
    | inl hmonth =>
      have hle := daysBeforeMonth_le d.year h.month_pos hmonth
      have hday := h.day_le
      rw [hyear] at hle hday
      omega
    | inr hday =>
      rw [hday.1]
      omega

theorem before_or_eq_or_before (d d' : Date) : d.Before d' ∨ d = d' ∨ d'.Before d := by
  obtain ⟨year, month, day⟩ := d
  obtain ⟨year', month', day'⟩ := d'
  simp only [Date.Before, Date.mk.injEq]
  omega

theorem julianDay_inj {d d' : Date} (h : d.Valid) (h' : d'.Valid)
    (heq : julianDay d = julianDay d') : d = d' := by
  obtain hlt | heq' | hgt := before_or_eq_or_before d d'
  · exact absurd heq (julianDay_lt h h' hlt).ne
  · exact heq'
  · exact absurd heq (julianDay_lt h' h hgt).ne'

theorem julianDay_lt_iff {d d' : Date} (h : d.Valid) (h' : d'.Valid) :
    julianDay d < julianDay d' ↔ d.Before d' := by
  refine ⟨fun hlt => ?_, julianDay_lt h h'⟩
  obtain hbefore | rfl | hafter := before_or_eq_or_before d d'
  · exact hbefore
  · exact absurd hlt (lt_irrefl _)
  · exact absurd (julianDay_lt h' h hafter) hlt.asymm

theorem eq_iterate_next_iff {d d' : Date} (h : d.Valid) (h' : d'.Valid) (n : Nat) :
    d' = Date.next^[n] d ↔ julianDay d' = julianDay d + n := by
  rw [← julianDay_iterate_next h n]
  exact ⟨congrArg julianDay, julianDay_inj h' (iterate_next_valid h n)⟩

/-- From March on the lengths of the months are those of `(153 * m + 2) / 5`. -/
theorem daysBeforeMonth_of_three_le (year : Int) {month : Int} (h : 3 ≤ month) (h' : month ≤ 12) :
    daysBeforeMonth year month =
      yearLength year - 306 + (153 * (month - 3) + 2) / 5 := by
  rw [yearLength]
  cases hleap : isLeap year with
  | true => interval_cases month <;> simp [daysBeforeMonth, List.range_succ, monthLength, hleap]
  | false => interval_cases month <;> simp [daysBeforeMonth, List.range_succ, monthLength, hleap]

/-- The julian day number by years that start in March. -/
theorem julianDay_eq {d : Date} (h : d.Valid) {a y m : Int} (ha : a = (14 - d.month) / 12)
    (hy : y = d.year + 4800 - a) (hm : m = d.month + 12 * a - 3) :
    julianDay d = d.day + (153 * m + 2) / 5 + y * 365 + y / 4 - y / 100 + y / 400 - 32045 := by
  have hpos := h.month_pos
  have hle := h.month_le
  rw [julianDay]
  by_cases hmarch : 3 ≤ d.month
  · have ha : a = 0 := by omega
    have hm : m = d.month - 3 := by omega
    have hnext := daysBeforeYear_succ d.year
    rw [daysBeforeMonth_of_three_le d.year hmarch hle, hm]
    simp only [daysBeforeYear] at hnext ⊢
    omega
  · have ha : a = 1 := by omega
    have hfirst : daysBeforeMonth d.year d.month = 31 * (d.month - 1) := by
      obtain hone | htwo : d.month = 1 ∨ d.month = 2 := by omega
      · rw [hone]
        rfl
      · rw [htwo]
        simp [daysBeforeMonth, monthLength]
    rw [hfirst]
    rw [daysBeforeYear]
    omega

theorem century_split {n b c : Int} (hb : b = (4 * n + 3) / 146097)
    (hc : c = n - b * 146097 / 4) : 0 ≤ c ∧ c ≤ 36524 ∧ (c = 36524 → b % 4 = 3) := by
  have hrem : 4 * c + 3 - b % 4 = 4 * n + 3 - 146097 * b := by
    clear hb
    omega
  have hlow : 0 ≤ 4 * n + 3 - 146097 * b := by omega
  have hhigh : 4 * n + 3 - 146097 * b < 146097 := by omega
  rw [← hrem] at hlow hhigh
  clear hb hc hrem
  omega

/-- The days of a century split into years and days. A year has 366 days only as every fourth, and
the last of the century only as the last of 400 years. -/
theorem year_split {c d e : Int} (hc : 0 ≤ c) (hc' : c ≤ 36524) (hd : d = (4 * c + 3) / 1461)
    (he : e = c - 1461 * d / 4) :
    0 ≤ d ∧ d ≤ 99 ∧ 0 ≤ e ∧ e ≤ 365 ∧ (e = 365 → d % 4 = 3 ∧ (d = 99 → c = 36524)) := by
  have hrem : 4 * e + 3 - d % 4 = 4 * c + 3 - 1461 * d := by
    clear hd hc hc'
    omega
  have hlow : 0 ≤ 4 * c + 3 - 1461 * d := by omega
  have hhigh : 4 * c + 3 - 1461 * d < 1461 := by omega
  clear hd he
  omega

theorem monthLength_of_le_ten (year : Int) {m : Int} (h : 0 ≤ m) (h' : m ≤ 10) :
    monthLength year (m + 3 - 12 * (m / 10)) = (153 * (m + 1) + 2) / 5 - (153 * m + 2) / 5 := by
  interval_cases m <;> simp [monthLength]

theorem month_split {e m y : Int} (he : 0 ≤ e) (he' : e ≤ 365) (hm : m = (5 * e + 2) / 153)
    (hleap : e = 365 → isLeap (y - 4800 + 1) = true) :
    Date.Valid ⟨y - 4800 + m / 10, m + 3 - 12 * (m / 10), e - (153 * m + 2) / 5 + 1⟩ := by
  have hm0 : 0 ≤ m := by omega
  have hm1 : m ≤ 11 := by omega
  have hten : m / 10 = 0 ∧ m ≤ 9 ∨ m / 10 = 1 ∧ 10 ≤ m := by omega
  refine ⟨by simp only; omega, by simp only; omega, by simp only; omega, ?_⟩
  simp only
  by_cases hle : m ≤ 10
  · rw [monthLength_of_le_ten _ hm0 hle]
    omega
  · have hfeb : m = 11 := by omega
    have hten : (11 : Int) / 10 = 1 := rfl
    rw [hfeb, hten]
    cases h : isLeap (y - 4800 + 1) with
    | true =>
      simp [monthLength, h]
      omega
    | false =>
      have hne : e ≠ 365 := fun heq => by simp [hleap heq] at h
      simp [monthLength, h]
      omega

def ofJulianDay (j : Int) : Date :=
  let b := (4 * (j + 32044) + 3) / 146097
  let c := j + 32044 - b * 146097 / 4
  let d := (4 * c + 3) / 1461
  let e := c - 1461 * d / 4
  let m := (5 * e + 2) / 153
  ⟨b * 100 + d - 4800 + m / 10, m + 3 - 12 * (m / 10), e - (153 * m + 2) / 5 + 1⟩

theorem ofJulianDay_parts (j : Int) : ∃ b c d e m : Int,
    b = (4 * (j + 32044) + 3) / 146097 ∧ c = j + 32044 - b * 146097 / 4 ∧
    d = (4 * c + 3) / 1461 ∧ e = c - 1461 * d / 4 ∧ m = (5 * e + 2) / 153 ∧
    ofJulianDay j =
      ⟨b * 100 + d - 4800 + m / 10, m + 3 - 12 * (m / 10), e - (153 * m + 2) / 5 + 1⟩ :=
  ⟨_, _, _, _, _, rfl, rfl, rfl, rfl, rfl, rfl⟩

theorem ofJulianDay_spec (j : Int) : (ofJulianDay j).Valid ∧ julianDay (ofJulianDay j) = j := by
  obtain ⟨b, c, d, e, m, hb, hc, hd, he, hm, heq⟩ := ofJulianDay_parts j
  obtain ⟨hc0, hc1, hcentury⟩ := century_split hb hc
  obtain ⟨hd0, hd1, he0, he1, hyear⟩ := year_split hc0 hc1 hd he
  clear hb hd
  have hleap : e = 365 → isLeap (b * 100 + d - 4800 + 1) = true := by
    intro hlast
    obtain ⟨hfour, hhundred⟩ := hyear hlast
    rw [isLeap_iff]
    clear hc he hm heq
    omega
  have hvalid := month_split he0 he1 hm hleap
  rw [heq]
  refine ⟨hvalid, ?_⟩
  have hten : m / 10 = 0 ∧ m ≤ 9 ∧ 0 ≤ m ∨ m / 10 = 1 ∧ 10 ≤ m ∧ m ≤ 11 := by omega
  rw [julianDay_eq hvalid (a := m / 10) (y := b * 100 + d) (m := m)
    (by simp only; omega) (by simp only; omega) (by simp only; omega)]
  have hcenturies : b * 146097 / 4 = 36524 * b + b / 4 := by omega
  have hyears : 1461 * d / 4 = 365 * d + d / 4 := by omega
  have hfour : (b * 100 + d) / 4 = 25 * b + d / 4 := by omega
  have hhundred : (b * 100 + d) / 100 = b := by omega
  have hfourhundred : (b * 100 + d) / 400 = b / 4 := by omega
  rw [hfour, hhundred, hfourhundred]
  rw [hcenturies] at hc
  rw [hyears] at he
  simp only
  omega

theorem ofJulianDay_julianDay {d : Date} (h : d.Valid) : ofJulianDay (julianDay d) = d :=
  julianDay_inj (ofJulianDay_spec _).1 h (ofJulianDay_spec _).2

end Calendar

end AcMuduo
