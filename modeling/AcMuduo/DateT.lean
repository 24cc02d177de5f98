import AcMuduo.Calendar
import AcMuduo.CInt

namespace AcMuduo.DateT

open Calendar CInt

def getJulianDayNumber (year month day : Int) : Option Int := do
  let a ← div (← sub 14 month) 12
  let y ← sub (← add year 4800) a
  let m ← sub (← add month (← mul 12 a)) 3
  let days ← add day (← div (← add (← mul 153 m) 2) 5)
  let days ← add days (← mul y 365)
  let days ← add days (← div y 4)
  let days ← sub days (← div y 100)
  let days ← add days (← div y 400)
  sub days 32045

def getYearMonthDay (julianDayNumber : Int) : Option Date := do
  let a ← add julianDayNumber 32044
  let b ← div (← add (← mul 4 a) 3) 146097
  let c ← sub a (← div (← mul b 146097) 4)
  let d ← div (← add (← mul 4 c) 3) 1461
  let e ← sub c (← div (← mul 1461 d) 4)
  let m ← div (← add (← mul 5 e) 2) 153
  let day ← add (← sub e (← div (← add (← mul 153 m) 2) 5)) 1
  let month ← sub (← add m 3) (← mul 12 (← div m 10))
  let year ← add (← sub (← add (← mul b 100) d) 4800) (← div m 10)
  return ⟨year, month, day⟩

def weekDay (julianDayNumber : Int) : Option Int := do
  rem (← add julianDayNumber 1) 7

def less (x y : Int) : Bool := x < y

def equal (x y : Int) : Bool := x = y

/-- The largest sum in `get_julian_day_number`, that before the leap days of the centuries are
taken away. -/
def largestSum (d : Date) : Int :=
  let a := (14 - d.month) / 12
  let y := d.year + 4800 - a
  let m := d.month + 12 * a - 3
  d.day + (153 * m + 2) / 5 + y * 365 + y / 4

theorem getJulianDayNumber_val {year month day a y m : Int} (hmonth : 1 ≤ month ∧ month ≤ 12)
    (hday : 1 ≤ day ∧ day ≤ 31) (ha : a = (14 - month) / 12) (hy : y = year + 4800 - a)
    (hm : m = month + 12 * a - 3) (hlow : 0 ≤ y)
    (hsum : day + (153 * m + 2) / 5 + y * 365 + y / 4 ≤ 2147483647) :
    getJulianDayNumber year month day =
      some (day + (153 * m + 2) / 5 + y * 365 + y / 4 - y / 100 + y / 400 - 32045) := by
  have hm' : 0 ≤ m ∧ m ≤ 11 := by omega
  have hA : div (14 - month) 12 = some a := ha ▸ div_eq (by omega) (by omega) (by omega)
  have hY : sub (year + 4800) a = some y := hy ▸ sub_eq (by omega) (by omega)
  have hM : sub (month + 12 * a) 3 = some m := hm ▸ sub_eq (by omega) (by omega)
  have hD : div (153 * m + 2) 5 = some ((153 * m + 2) / 5) :=
    div_eq (by omega) (by omega) (by omega)
  have h4 : div y 4 = some (y / 4) := div_eq (by omega) (by omega) (by omega)
  have h100 : div y 100 = some (y / 100) := div_eq (by omega) (by omega) (by omega)
  have h400 : div y 400 = some (y / 400) := div_eq (by omega) (by omega) (by omega)
  have h14 : sub 14 month = some (14 - month) := sub_eq (by omega) (by omega)
  have h4800 : add year 4800 = some (year + 4800) := add_eq (by omega) (by omega)
  have h12 : mul 12 a = some (12 * a) := mul_eq (by omega) (by omega)
  have hadd : add month (12 * a) = some (month + 12 * a) := add_eq (by omega) (by omega)
  have h153 : mul 153 m = some (153 * m) := mul_eq (by omega) (by omega)
  have h2 : add (153 * m) 2 = some (153 * m + 2) := add_eq (by omega) (by omega)
  have h365 : mul y 365 = some (y * 365) := mul_eq (by omega) (by omega)
  have hs1 : add day ((153 * m + 2) / 5) = some (day + (153 * m + 2) / 5) :=
    add_eq (by omega) (by omega)
  have hs2 : add (day + (153 * m + 2) / 5) (y * 365) =
      some (day + (153 * m + 2) / 5 + y * 365) := add_eq (by omega) (by omega)
  have hs3 : add (day + (153 * m + 2) / 5 + y * 365) (y / 4) =
      some (day + (153 * m + 2) / 5 + y * 365 + y / 4) := add_eq (by omega) (by omega)
  have hs4 : sub (day + (153 * m + 2) / 5 + y * 365 + y / 4) (y / 100) =
      some (day + (153 * m + 2) / 5 + y * 365 + y / 4 - y / 100) := sub_eq (by omega) (by omega)
  have hs5 : add (day + (153 * m + 2) / 5 + y * 365 + y / 4 - y / 100) (y / 400) =
      some (day + (153 * m + 2) / 5 + y * 365 + y / 4 - y / 100 + y / 400) :=
    add_eq (by omega) (by omega)
  have hs6 : sub (day + (153 * m + 2) / 5 + y * 365 + y / 4 - y / 100 + y / 400) 32045 =
      some (day + (153 * m + 2) / 5 + y * 365 + y / 4 - y / 100 + y / 400 - 32045) :=
    sub_eq (by omega) (by omega)
  rw [getJulianDayNumber, bind_eq h14, bind_eq hA, bind_eq h4800, bind_eq hY, bind_eq h12,
    bind_eq hadd, bind_eq hM, bind_eq h153, bind_eq h2, bind_eq hD, bind_eq hs1, bind_eq h365,
    bind_eq hs2, bind_eq h4, bind_eq hs3, bind_eq h100, bind_eq hs4, bind_eq h400, bind_eq hs5, hs6]

theorem getJulianDayNumber_some {year month day j : Int}
    (h : getJulianDayNumber year month day = some j) :
    let a := (14 - month).tdiv 12
    let y := year + 4800 - a
    let m := month + 12 * a - 3
    j = day + (153 * m + 2).tdiv 5 + y * 365 + y.tdiv 4 - y.tdiv 100 + y.tdiv 400 - 32045 := by
  simp only [getJulianDayNumber, add, sub, mul, div, bind_val, OfNat.ofNat_ne_zero, if_false] at h
  obtain ⟨-, -, -, -, -, -, -, -, -, -, -, -, -, -, -, -, -, -, -, h⟩ := h
  exact eq_of_val h

theorem getJulianDayNumber_lt {year year' month day j j' : Int}
    (h : getJulianDayNumber year month day = some j)
    (h' : getJulianDayNumber year' month day = some j') (hlt : year < year') : j < j' := by
  have hj := getJulianDayNumber_some h
  have hj' := getJulianDayNumber_some h'
  simp only at hj hj'
  generalize (14 - month).tdiv 12 = a at hj hj'
  have hle : year + 4800 - a ≤ year' + 4800 - a := by omega
  have h4 := Int.tdiv_le_tdiv (show (0 : Int) < 4 by decide) hle
  have h400 := Int.tdiv_le_tdiv (show (0 : Int) < 400 by decide) hle
  have hsum := Int.tmod_add_mul_tdiv (year + 4800 - a) 100
  have hsum' := Int.tmod_add_mul_tdiv (year' + 4800 - a) 100
  have hlow := Int.lt_tmod_of_pos (year' + 4800 - a) (show (0 : Int) < 100 by decide)
  have hhigh := Int.tmod_lt_of_pos (year + 4800 - a) (show (0 : Int) < 100 by decide)
  omega

theorem march_year_nonneg {d : Date} (h : d.Valid) (hfirst : ¬ d.Before ⟨-4800, 3, 1⟩) :
    0 ≤ d.year + 4800 - (14 - d.month) / 12 := by
  have hpos := h.month_pos
  have hle := h.month_le
  simp only [Date.Before, not_or, not_and] at hfirst
  omega

theorem julianDay_le_largestSum {d : Date} (h : d.Valid) (hfirst : ¬ d.Before ⟨-4800, 3, 1⟩) :
    julianDay d + 32045 ≤ largestSum d := by
  have hlow := march_year_nonneg h hfirst
  rw [julianDay_eq h rfl rfl rfl, largestSum]
  omega

theorem getJulianDayNumber_of_largestSum {d : Date} (h : d.Valid)
    (hfirst : ¬ d.Before ⟨-4800, 3, 1⟩) (hsum : largestSum d ≤ 2147483647) :
    getJulianDayNumber d.year d.month d.day = some (julianDay d) := by
  have hlen : d.day ≤ 31 := h.day_le.trans (monthLength_le d.year d.month)
  rw [getJulianDayNumber_val ⟨h.month_pos, h.month_le⟩ ⟨h.day_pos, hlen⟩ rfl rfl rfl
    (march_year_nonneg h hfirst) hsum, julianDay_eq h rfl rfl rfl]

/-- The number is computed exactly if the largest sum does not overflow. -/
theorem getJulianDayNumber_eq_some_iff {d : Date} (h : d.Valid)
    (hfirst : ¬ d.Before ⟨-4800, 3, 1⟩) {j : Int} :
    getJulianDayNumber d.year d.month d.day = some j ↔
      largestSum d ≤ 2147483647 ∧ julianDay d = j := by
  have hle : ∀ j, getJulianDayNumber d.year d.month d.day = some j →
      largestSum d ≤ 2147483647 := by
    intro j hj
    have hlow := march_year_nonneg h hfirst
    have hmonth := h.month_le
    simp only [getJulianDayNumber, add, sub, mul, div, bind_val, OfNat.ofNat_ne_zero,
      if_false] at hj
    obtain ⟨-, -, -, -, -, -, -, -, -, -, -, -, -, -, ⟨-, hsum⟩, -⟩ := hj
    have ha : (14 - d.month).tdiv 12 = (14 - d.month) / 12 :=
      Int.tdiv_eq_ediv_of_nonneg (by omega)
    rwa [ha, Int.tdiv_eq_ediv_of_nonneg (by omega), Int.tdiv_eq_ediv_of_nonneg (by omega)] at hsum
  constructor
  · intro hj
    have hsum := hle j hj
    rw [getJulianDayNumber_of_largestSum h hfirst hsum] at hj
    exact ⟨hsum, Option.some.inj hj⟩
  · rintro ⟨hsum, rfl⟩
    exact getJulianDayNumber_of_largestSum h hfirst hsum

theorem not_before_march {d : Date} (h : d.Valid) (hlow : -32044 ≤ julianDay d) :
    ¬ d.Before ⟨-4800, 3, 1⟩ := by
  intro hbefore
  have hlt := julianDay_lt h (by decide) hbefore
  rw [show julianDay ⟨-4800, 3, 1⟩ = -32044 by decide] at hlt
  omega

theorem year_bounds {d : Date} (h : d.Valid) (hlow : -32044 ≤ julianDay d)
    (hhigh : julianDay d ≤ 536838867) : -4800 ≤ d.year ∧ d.year ≤ 1500000 := by
  have hday := h.day_pos
  have hmonth := h.month_pos
  have hmonth' := h.month_le
  have hnonneg := march_year_nonneg h (not_before_march h hlow)
  have heq := julianDay_eq h rfl rfl rfl
  omega

/-- `get_julian_day_number` counts the days, from March of the year -4800 on. -/
theorem getJulianDayNumber_eq {d : Date} (h : d.Valid) (hlow : -32044 ≤ julianDay d)
    (hhigh : julianDay d ≤ 536838867) :
    getJulianDayNumber d.year d.month d.day = some (julianDay d) := by
  have hday := h.day_pos
  have hmonth := h.month_pos
  have heq := julianDay_eq h rfl rfl rfl
  refine getJulianDayNumber_of_largestSum h (not_before_march h hlow) ?_
  simp only [largestSum]
  omega

theorem getYearMonthDay_eq {j : Int} (hlow : -32044 ≤ j) (hhigh : j ≤ 536838867) :
    getYearMonthDay j = some (ofJulianDay j) := by
  obtain ⟨b, c, d, e, m, hb, hc, hd, he, hm, heq⟩ := ofJulianDay_parts j
  obtain ⟨hc0, hc1, _⟩ := century_split hb hc
  obtain ⟨hd0, hd1, he0, he1, _⟩ := year_split hc0 hc1 hd he
  have hb1 : 0 ≤ b ∧ b ≤ 14699 := by omega
  have hm0 : 0 ≤ m ∧ m ≤ 11 := by omega
  have hsum : add j 32044 = some (j + 32044) := add_eq (by omega) (by omega)
  have hb4 : mul 4 (j + 32044) = some (4 * (j + 32044)) := mul_eq (by omega) (by omega)
  have hb3 : add (4 * (j + 32044)) 3 = some (4 * (j + 32044) + 3) := add_eq (by omega) (by omega)
  have hB : div (4 * (j + 32044) + 3) 146097 = some b :=
    hb ▸ div_eq (by omega) (by omega) (by omega)
  have hc1461 : mul b 146097 = some (b * 146097) := mul_eq (by omega) (by omega)
  have hc4 : div (b * 146097) 4 = some (b * 146097 / 4) := div_eq (by omega) (by omega) (by omega)
  have hC : sub (j + 32044) (b * 146097 / 4) = some c := hc ▸ sub_eq (by omega) (by omega)
  clear hb hc
  have hd4 : mul 4 c = some (4 * c) := mul_eq (by omega) (by omega)
  have hd3 : add (4 * c) 3 = some (4 * c + 3) := add_eq (by omega) (by omega)
  have hD : div (4 * c + 3) 1461 = some d := hd ▸ div_eq (by omega) (by omega) (by omega)
  have he1461 : mul 1461 d = some (1461 * d) := mul_eq (by omega) (by omega)
  have he4 : div (1461 * d) 4 = some (1461 * d / 4) := div_eq (by omega) (by omega) (by omega)
  have hE : sub c (1461 * d / 4) = some e := he ▸ sub_eq (by omega) (by omega)
  clear hd he
  have hm5 : mul 5 e = some (5 * e) := mul_eq (by omega) (by omega)
  have hm2 : add (5 * e) 2 = some (5 * e + 2) := add_eq (by omega) (by omega)
  have hM : div (5 * e + 2) 153 = some m := hm ▸ div_eq (by omega) (by omega) (by omega)
  have h153 : mul 153 m = some (153 * m) := mul_eq (by omega) (by omega)
  have h2 : add (153 * m) 2 = some (153 * m + 2) := add_eq (by omega) (by omega)
  have h5 : div (153 * m + 2) 5 = some ((153 * m + 2) / 5) :=
    div_eq (by omega) (by omega) (by omega)
  have hday : sub e ((153 * m + 2) / 5) = some (e - (153 * m + 2) / 5) :=
    sub_eq (by omega) (by omega)
  have hday1 : add (e - (153 * m + 2) / 5) 1 = some (e - (153 * m + 2) / 5 + 1) :=
    add_eq (by omega) (by omega)
  have hm3 : add m 3 = some (m + 3) := add_eq (by omega) (by omega)
  have hm10 : div m 10 = some (m / 10) := div_eq (by omega) (by omega) (by omega)
  have hm12 : mul 12 (m / 10) = some (12 * (m / 10)) := mul_eq (by omega) (by omega)
  have hmonth : sub (m + 3) (12 * (m / 10)) = some (m + 3 - 12 * (m / 10)) :=
    sub_eq (by omega) (by omega)
  have hb100 : mul b 100 = some (b * 100) := mul_eq (by omega) (by omega)
  have hbd : add (b * 100) d = some (b * 100 + d) := add_eq (by omega) (by omega)
  have h4800 : sub (b * 100 + d) 4800 = some (b * 100 + d - 4800) := sub_eq (by omega) (by omega)
  have hyear : add (b * 100 + d - 4800) (m / 10) = some (b * 100 + d - 4800 + m / 10) :=
    add_eq (by omega) (by omega)
  rw [getYearMonthDay, bind_eq hsum, bind_eq hb4, bind_eq hb3, bind_eq hB, bind_eq hc1461,
    bind_eq hc4, bind_eq hC, bind_eq hd4, bind_eq hd3, bind_eq hD, bind_eq he1461, bind_eq he4,
    bind_eq hE, bind_eq hm5, bind_eq hm2, bind_eq hM, bind_eq h153, bind_eq h2, bind_eq h5,
    bind_eq hday, bind_eq hday1, bind_eq hm3, bind_eq hm10, bind_eq hm12, bind_eq hmonth,
    bind_eq hb100, bind_eq hbd, bind_eq h4800, bind_eq hm10, bind_eq hyear, heq]
  rfl

/-- The conversions are inverse to each other and do not overflow: on all numbers in the range, and
on all valid dates with numbers in the range. -/
theorem conversions_inverse {j : Int} (hlow : -32044 ≤ j) (hhigh : j ≤ 536838867) :
    (∃ d : Date, getYearMonthDay j = some d ∧ d.Valid ∧
      getJulianDayNumber d.year d.month d.day = some j) ∧
    ∀ d : Date, d.Valid → julianDay d = j →
      getJulianDayNumber d.year d.month d.day = some j ∧ getYearMonthDay j = some d := by
  have hnumber : ∀ d : Date, d.Valid → julianDay d = j →
      getJulianDayNumber d.year d.month d.day = some j := by
    rintro d hvalid rfl
    exact getJulianDayNumber_eq hvalid hlow hhigh
  obtain ⟨hvalid, hj⟩ := ofJulianDay_spec j
  refine ⟨⟨ofJulianDay j, getYearMonthDay_eq hlow hhigh, hvalid, hnumber _ hvalid hj⟩,
    fun d hd heq => ⟨hnumber d hd heq, ?_⟩⟩
  rw [getYearMonthDay_eq hlow hhigh, ← heq, ofJulianDay_julianDay hd]

theorem conversions_inverse_leapDay :
    (∃ d : Date, getYearMonthDay 2451604 = some d ∧ d.Valid ∧
      getJulianDayNumber d.year d.month d.day = some 2451604) ∧
    ∀ d : Date, d.Valid → julianDay d = 2451604 →
      getJulianDayNumber d.year d.month d.day = some 2451604 ∧ getYearMonthDay 2451604 = some d :=
  conversions_inverse (by decide) (by decide)

example : getYearMonthDay 2451604 = some ⟨2000, 2, 29⟩ := by decide

theorem weekDay_eq {j : Int} (hlow : 0 ≤ j) (hhigh : j ≤ 2147483646) :
    weekDay j = some ((j + 1) % 7) := by
  have hsum : add j 1 = some (j + 1) := add_eq (by omega) (by omega)
  rw [weekDay, bind_eq hsum, rem_eq (by omega) (by omega) (by omega)]

/-- The days are counted on from a date to any later one, as long as no sum overflows. -/
theorem get_julian_day_number_counts {d d' : Date} (h : d.Valid) (h' : d'.Valid)
    (hfirst : ¬ d.Before ⟨-4800, 3, 1⟩) (hfirst' : ¬ d'.Before ⟨-4800, 3, 1⟩)
    (hsum : largestSum d ≤ 2147483647) (hsum' : largestSum d' ≤ 2147483647) :
    ∃ j j', getJulianDayNumber d.year d.month d.day = some j ∧
      getJulianDayNumber d'.year d'.month d'.day = some j' ∧
      (d' = d.next → j' = j + 1) ∧
      (∀ n : Nat, d' = Date.next^[n] d ↔ j' = j + n) ∧
      (less j j' = true ↔ d.Before d') ∧ (equal j j' = true ↔ d = d') ∧
      (0 ≤ j → d' = d.next → ∃ w, weekDay j = some w ∧ weekDay j' = some ((w + 1) % 7)) := by
  have hnext : d' = d.next → julianDay d' = julianDay d + 1 := by
    rintro rfl
    exact julianDay_next h
  refine ⟨julianDay d, julianDay d', getJulianDayNumber_of_largestSum h hfirst hsum,
    getJulianDayNumber_of_largestSum h' hfirst' hsum', hnext, eq_iterate_next_iff h h', ?_, ?_, ?_⟩
  · rw [less, decide_eq_true_iff, julianDay_lt_iff h h']
  · rw [equal, decide_eq_true_iff]
    exact ⟨julianDay_inj h h', congrArg julianDay⟩
  · intro hpos heq
    have hle := julianDay_le_largestSum h' hfirst'
    rw [hnext heq] at hle ⊢
    refine ⟨_, weekDay_eq hpos (by omega), ?_⟩
    rw [weekDay_eq (by omega) (by omega)]
    exact congrArg some (by omega)

theorem get_julian_day_number_counts_leapDay :
    ∃ j j', getJulianDayNumber 2000 2 28 = some j ∧ getJulianDayNumber 2000 2 29 = some j' ∧
      ((⟨2000, 2, 29⟩ : Date) = Date.next ⟨2000, 2, 28⟩ → j' = j + 1) ∧
      (∀ n : Nat, (⟨2000, 2, 29⟩ : Date) = Date.next^[n] ⟨2000, 2, 28⟩ ↔ j' = j + n) ∧
      (less j j' = true ↔ Date.Before ⟨2000, 2, 28⟩ ⟨2000, 2, 29⟩) ∧
      (equal j j' = true ↔ (⟨2000, 2, 28⟩ : Date) = ⟨2000, 2, 29⟩) ∧
      (0 ≤ j → (⟨2000, 2, 29⟩ : Date) = Date.next ⟨2000, 2, 28⟩ →
        ∃ w, weekDay j = some w ∧ weekDay j' = some ((w + 1) % 7)) :=
  have h : Date.Valid ⟨2000, 2, 28⟩ := by decide
  have h' : Date.Valid ⟨2000, 2, 29⟩ := by decide
  get_julian_day_number_counts h h' (by simp [Date.Before]) (by simp [Date.Before]) (by decide)
    (by decide)

/-- Numbers that fit are not all found: a sum on the way to the last of them overflows. -/
theorem largestSum_overflows :
    ¬ ∀ d : Date, d.Valid → ¬ d.Before ⟨-4800, 3, 1⟩ → julianDay d.next ≤ 2147483647 →
      ∃ j, getJulianDayNumber d.year d.month d.day = some j ∧
        getJulianDayNumber d.next.year d.next.month d.next.day = some (j + 1) := by
  intro h
  obtain ⟨j, hj, -⟩ := h ⟨5874898, 6, 2⟩ (by decide) (by simp [Date.Before]) (by decide)
  rw [show getJulianDayNumber 5874898 6 2 = none by decide] at hj
  cases hj

end AcMuduo.DateT
