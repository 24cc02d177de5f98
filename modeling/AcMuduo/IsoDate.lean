import AcMuduo.DateT
import AcMuduo.TimestampText

namespace AcMuduo.DateT

open Calendar CInt LogStream Timestamp

def toIsoString (julianDayNumber : Int) : Option (List Byte) := do
  let ymd ← getYearMonthDay julianDayNumber
  some ((padded 32 4 (convert ymd.year) ++ bytes "-" ++ zeroFilled 2 ymd.month ++ bytes "-" ++
    zeroFilled 2 ymd.day).take 31)

example : toIsoString (julianDay ⟨837, 3, 28⟩) = some (bytes " 837-03-28") := by decide

def isoText (ymd : Date) : List Byte :=
  padded 32 4 (convert ymd.year) ++ [minus] ++ zeroFilled 2 ymd.month ++ [minus] ++
    zeroFilled 2 ymd.day

structure Field (k : Nat) (x : Int) (text : List Byte) : Prop where
  length : text.length = k
  digits : ∀ c ∈ text, ∃ d < 10, c = decimal.glyph d
  value : (decimal.value text : Int) = x

def IsIso (d : Date) (text : List Byte) : Prop :=
  ∃ year month day, text = year ++ [minus] ++ month ++ [minus] ++ day ∧
    Field 4 d.year year ∧ Field 2 d.month month ∧ Field 2 d.day day

variable {d d' : Date}

theorem fixed_field {k n : Nat} (hk : 0 < k) (hn : n < 10 ^ k) :
    Field k n (decimal.fixed k n) where
  length := Glyphs.length_fixed (by decide) hk hn
  digits _ hc := Glyphs.fixed_digits (by decide) hc
  value := by rw [Glyphs.value_fixed (by decide)]

theorem Field.bounds {k : Nat} {x : Int} {text : List Byte} (h : Field k x text) :
    0 ≤ x ∧ x < (10 ^ k : Nat) := by
  have hlt := Glyphs.value_lt (by decide) h.digits
  have hvalue := h.value
  rw [h.length] at hlt
  omega

theorem zeroFilled_field {k : Nat} {x : Int} (hk : 0 < k) (hx : 0 ≤ x) (hlt : x < (10 ^ k : Nat)) :
    Field k x (zeroFilled k x) := by
  lift x to Nat using hx
  rw [zeroFilled_natCast]
  exact fixed_field hk (by exact_mod_cast hlt)

theorem tdiv_bounds (x : Int) {n : Int} (hn : 0 < n) :
    n * x.tdiv n - n < x ∧ x < n * x.tdiv n + n := by
  have hsum := Int.tmod_add_mul_tdiv x n
  have hlow := Int.lt_tmod_of_pos x hn
  have hhigh := Int.tmod_lt_of_pos x hn
  omega

theorem getYearMonthDay_bounds {j : Int} {ymd : Date} (h : getYearMonthDay j = some ymd) :
    (-10000000000 < ymd.year ∧ ymd.year < 10000000000) ∧
      (-100 < ymd.month ∧ ymd.month < 100) ∧ -100 < ymd.day ∧ ymd.day < 100 := by
  simp only [getYearMonthDay, add, sub, mul, div, bind_val, OfNat.ofNat_ne_zero, if_false] at h
  obtain ⟨-, -, -, -, -, -, -, -, -, -, -, -, -, -, -, -, -, -, -, -, -, -, -, -, -, -, -, -, -,
    hyear, h⟩ := h
  cases h
  dsimp only
  have hb := tdiv_bounds (4 * (j + 32044) + 3) (n := 146097) (by decide)
  generalize (4 * (j + 32044) + 3).tdiv 146097 = b at *
  have hc := tdiv_bounds (b * 146097) (n := 4) (by decide)
  generalize (b * 146097).tdiv 4 = leapDays at *
  have hd := tdiv_bounds (4 * (j + 32044 - leapDays) + 3) (n := 1461) (by decide)
  generalize (4 * (j + 32044 - leapDays) + 3).tdiv 1461 = d at *
  have he := tdiv_bounds (1461 * d) (n := 4) (by decide)
  generalize (1461 * d).tdiv 4 = yearDays at *
  have hm := tdiv_bounds (5 * (j + 32044 - leapDays - yearDays) + 2) (n := 153) (by decide)
  generalize (5 * (j + 32044 - leapDays - yearDays) + 2).tdiv 153 = m at *
  have hday := tdiv_bounds (153 * m + 2) (n := 5) (by decide)
  have hmonth := tdiv_bounds m (n := 10) (by decide)
  omega

theorem toIsoString_eq {j : Int} {ymd : Date} (h : getYearMonthDay j = some ymd) :
    toIsoString j = some (isoText ymd) := by
  obtain ⟨⟨hylow, hyhigh⟩, ⟨hmlow, hmhigh⟩, hdlow, hdhigh⟩ := getYearMonthDay_bounds h
  have hyear := length_convert_le (k := 10) (by decide) hylow hyhigh
  have hmonth := length_zeroFilled (k := 2) (by decide) hmlow hmhigh
  have hday := length_zeroFilled (k := 2) (by decide) hdlow hdhigh
  have hdash : bytes "-" = [minus] := rfl
  rw [toIsoString, h]
  simp only [Option.bind_eq_bind, Option.bind_some, hdash]
  rw [List.take_of_length_le, isoText]
  simp only [List.length_append, Logger.length_padded, List.length_singleton]
  omega

theorem getYearMonthDay_of_year (h : d.Valid) (hlow : 0 ≤ d.year) (hhigh : d.year ≤ 9999) :
    getYearMonthDay (julianDay d) = some d := by
  have hfirst : ¬ d.Before ⟨-4800, 3, 1⟩ := by
    simp only [Date.Before]
    omega
  rw [← julianDay_lt_iff h (by decide), show julianDay ⟨-4800, 3, 1⟩ = -32044 by decide] at hfirst
  have hlast : d.Before ⟨10000, 1, 1⟩ := .inl (by dsimp only; omega)
  rw [← julianDay_lt_iff h (by decide), show julianDay ⟨10000, 1, 1⟩ = 5373485 by decide] at hlast
  rw [getYearMonthDay_eq (by omega) (by omega), ofJulianDay_julianDay h]

theorem year_field {y : Int} (hlow : 1000 ≤ y) (hhigh : y ≤ 9999) :
    Field 4 y (padded 32 4 (convert y)) := by
  lift y to Nat using by omega
  have hcanonical := Glyphs.written_canonical (g := decimal) (by decide) y
  have hle := decimal.length_written_le (n := y) (k := 4) (by decide) (by decide) (by omega)
  have hlt := Glyphs.value_lt (by decide) hcanonical.digits
  rw [Glyphs.value_written (by decide)] at hlt
  have hlength : (decimal.written y).length = 4 := by
    by_contra hne
    have hpow := Nat.pow_le_pow_right (n := 10) (by decide)
      (show (decimal.written y).length ≤ 3 by omega)
    omega
  rw [padded_eq_filled, Glyphs.filled, hlength, Nat.sub_self, List.replicate_zero, List.nil_append]
  exact ⟨hlength, hcanonical.digits, by rw [Glyphs.value_written (by decide)]⟩

/-- Of every date whose number is converted without overflow, the text is not cut off, and has the
format exactly in the years of four digits. Those before it have spaces in front. -/
theorem toIsoString_isIso_iff (h : d.Valid) {ymd : Date}
    (hymd : getYearMonthDay (julianDay d) = some ymd) :
    toIsoString (julianDay d) = some (isoText ymd) ∧
      (IsIso d (isoText ymd) ↔ 1000 ≤ d.year ∧ d.year ≤ 9999) := by
  have hsame : 0 ≤ d.year → d.year ≤ 9999 → ymd = d := by
    intro hlow hhigh
    rw [getYearMonthDay_of_year h hlow hhigh] at hymd
    exact (Option.some.inj hymd).symm
  refine ⟨toIsoString_eq hymd, ?_, ?_⟩
  · rintro ⟨year, month, day, heq, hyear, -, -⟩
    obtain ⟨hpos, hlt⟩ := hyear.bounds
    refine ⟨?_, by omega⟩
    by_contra hsmall
    obtain ⟨n, hn⟩ : ∃ n : Nat, d.year = n := ⟨d.year.toNat, by omega⟩
    have hlength := decimal.length_written_le (n := n) (k := 3) (by decide) (by decide) (by omega)
    obtain ⟨k, hk⟩ : ∃ k, 4 - (decimal.written n).length = k + 1 :=
      ⟨3 - (decimal.written n).length, by omega⟩
    obtain ⟨c, rest, hcons⟩ := List.exists_cons_of_length_pos (hyear.length ▸ (by decide : 0 < 4))
    rw [hsame hpos (by omega), isoText, hn, padded_eq_filled, Glyphs.filled, hk,
      List.replicate_succ, hcons] at heq
    have hspace : 32 = c := (List.cons.inj heq).1
    obtain ⟨e, he, hglyph⟩ := hyear.digits c (hcons ▸ List.mem_cons_self)
    exact absurd (hspace.trans hglyph) ((by decide : ∀ e < 10, (32 : Byte) ≠ decimal.glyph e) e he)
  · rintro ⟨hthousand, hlast⟩
    have hmpos := h.month_pos
    have hmle := h.month_le
    have hdpos := h.day_pos
    have hdle := h.day_le.trans (monthLength_le _ _)
    rw [hsame (by omega) hlast]
    exact ⟨_, _, _, rfl, year_field hthousand hlast,
      zeroFilled_field (by decide) (by omega) (by omega),
      zeroFilled_field (by decide) (by omega) (by omega)⟩

theorem toIsoString_isIso_leapDay :
    toIsoString (julianDay ⟨2000, 2, 29⟩) = some (isoText ⟨2000, 2, 29⟩) ∧
      (IsIso ⟨2000, 2, 29⟩ (isoText ⟨2000, 2, 29⟩) ↔ (1000 : Int) ≤ 2000 ∧ (2000 : Int) ≤ 9999) :=
  toIsoString_isIso_iff (d := ⟨2000, 2, 29⟩) (by decide) (by decide)

def InYears (j : Int) : Prop := 1721060 ≤ j ∧ j < 5373485

example : julianDay ⟨0, 1, 1⟩ = 1721060 ∧ julianDay ⟨10000, 1, 1⟩ = 5373485 := by decide

theorem InYears.year {j : Int} (h : InYears j) :
    0 ≤ (ofJulianDay j).year ∧ (ofJulianDay j).year < 10000 := by
  obtain ⟨hvalid, hday⟩ := ofJulianDay_spec j
  obtain ⟨hlow, hhigh⟩ := h
  have hpos := hvalid.month_pos
  have hday_pos := hvalid.day_pos
  have hfirst : ¬ (ofJulianDay j).Before ⟨0, 1, 1⟩ := by
    rw [← julianDay_lt_iff hvalid (by decide), hday, show julianDay ⟨0, 1, 1⟩ = 1721060 by decide]
    omega
  have hlast : (ofJulianDay j).Before ⟨10000, 1, 1⟩ := by
    rw [← julianDay_lt_iff hvalid (by decide), hday,
      show julianDay ⟨10000, 1, 1⟩ = 5373485 by decide]
    exact hhigh
  simp only [Date.Before] at hfirst hlast
  omega

theorem InYears.shown {j : Int} (h : InYears j) : ∃ d : Date, d.Valid ∧ julianDay d = j ∧
    (0 ≤ d.year ∧ d.year < 10000) ∧ toIsoString j =
      some (padded 32 4 (convert d.year) ++ [minus] ++ padded 48 2 (convert d.month) ++ [minus] ++
        padded 48 2 (convert d.day)) := by
  obtain ⟨hvalid, hday⟩ := ofJulianDay_spec j
  obtain ⟨hlow, hhigh⟩ := h
  have htext := toIsoString_eq (getYearMonthDay_eq (j := j) (by omega) (by omega))
  have hmpos := hvalid.month_pos
  have hdpos := hvalid.day_pos
  rw [isoText, zeroFilled, if_neg (by omega), zeroFilled, if_neg (by omega)] at htext
  exact ⟨_, hvalid, hday, InYears.year ⟨hlow, hhigh⟩, htext⟩

theorem isoText_lt (h : d.Valid) (h' : d'.Valid) (hyear : 0 ≤ d.year ∧ d.year < 10000)
    (hyear' : 0 ≤ d'.year ∧ d'.year < 10000) (hbefore : d.Before d') :
    padded 32 4 (convert d.year) ++ [minus] ++ padded 48 2 (convert d.month) ++ [minus] ++
        padded 48 2 (convert d.day) <
      padded 32 4 (convert d'.year) ++ [minus] ++ padded 48 2 (convert d'.month) ++ [minus] ++
        padded 48 2 (convert d'.day) := by
  have hfields : ∀ d : Date, d.Valid → (0 ≤ d.month ∧ d.month < (10 ^ 2 : Nat)) ∧
      0 ≤ d.day ∧ d.day < (10 ^ 2 : Nat) := by
    intro d h
    have hmpos := h.month_pos
    have hmle := h.month_le
    have hdpos := h.day_pos
    have hdle := h.day_le.trans (monthLength_le _ _)
    omega
  obtain ⟨hmonth, hday⟩ := hfields d h
  obtain ⟨hmonth', hday'⟩ := hfields d' h'
  simp only [List.append_assoc]
  apply spaced_append_lt (by decide) hyear hyear'
  obtain hlt | ⟨heq, hlt⟩ := hbefore
  · exact .inl hlt
  refine .inr ⟨heq, List.append_left_lt ?_⟩
  apply padded_append_lt (by decide) hmonth hmonth'
  obtain hlt | ⟨heq, hlt⟩ := hlt
  · exact .inl hlt
  refine .inr ⟨heq, List.append_left_lt ?_⟩
  have hlast := padded_append_lt (s := []) (t := []) (by decide) hday hday' (.inl hlt)
  rwa [List.append_nil, List.append_nil] at hlast

/-- The texts are in the order of the dates, and those of two days are different. -/
theorem toIsoString_lt_iff {j j' : Int} (h : InYears j) (h' : InYears j') :
    ∃ text text', toIsoString j = some text ∧ toIsoString j' = some text' ∧
      (text < text' ↔ less j j' = true) ∧ (text = text' ↔ equal j j' = true) := by
  obtain ⟨d, hvalid, rfl, hyear, htext⟩ := h.shown
  obtain ⟨d', hvalid', rfl, hyear', htext'⟩ := h'.shown
  refine ⟨_, _, htext, htext', ?_⟩
  rw [less, decide_eq_true_iff, equal, decide_eq_true_iff]
  obtain hlt | heq | hgt := lt_trichotomy (julianDay d) (julianDay d')
  · have hbefore := isoText_lt hvalid hvalid' hyear hyear'
      ((julianDay_lt_iff hvalid hvalid').mp hlt)
    refine ⟨iff_of_true hbefore hlt, iff_of_false (fun htext => ?_) hlt.ne⟩
    rw [htext] at hbefore
    exact List.lt_irrefl _ hbefore
  · cases julianDay_inj hvalid hvalid' heq
    exact ⟨iff_of_false (List.lt_irrefl _) (lt_irrefl _), iff_of_true rfl rfl⟩
  · have hafter := isoText_lt hvalid' hvalid hyear' hyear
      ((julianDay_lt_iff hvalid' hvalid).mp hgt)
    refine ⟨iff_of_false (List.lt_asymm hafter) hgt.asymm, iff_of_false (fun htext => ?_) hgt.ne'⟩
    rw [htext] at hafter
    exact List.lt_irrefl _ hafter

theorem toIsoString_lt_thousand :
    ∃ text text', toIsoString 2086302 = some text ∧ toIsoString 2086303 = some text' ∧
      (text < text' ↔ less 2086302 2086303 = true) ∧
      (text = text' ↔ equal 2086302 2086303 = true) :=
  toIsoString_lt_iff ⟨by decide, by decide⟩ ⟨by decide, by decide⟩

end AcMuduo.DateT
