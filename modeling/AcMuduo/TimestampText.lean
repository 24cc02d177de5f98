import AcMuduo.LogFileNames
import AcMuduo.LogTime

namespace AcMuduo.Timestamp

open LogStream LogTime LogFile Calendar TimeZone

def kMicroSecondsPerSecond : Int64 := 1000 * 1000

/-- A number in a field that is filled up with zeros, which come after the sign. -/
def zeroFilled (width : Nat) (z : Int) : List Byte :=
  if z < 0 then minus :: padded 48 (width - 1) (convert z.natAbs) else padded 48 width (convert z)

def toString (t : Int64) : List Byte :=
  let seconds := t / kMicroSecondsPerSecond
  let microseconds := t % kMicroSecondsPerSecond
  (convert seconds.toInt ++ bytes "." ++ zeroFilled 6 microseconds.toInt).take 31

example : toString (-5) = bytes "0.-00005" := by decide

def toFormattedString (showMicroseconds : Bool) (t : Int64) : List Byte :=
  let seconds := t / kMicroSecondsPerSecond
  let tmTime := gmtime seconds.toInt
  if showMicroseconds then
    let microseconds := (t % kMicroSecondsPerSecond).toInt32
    (timeText tmTime ++ bytes "." ++ zeroFilled 6 microseconds.toInt).take 63
  else (timeText tmTime).take 63

def point : Byte := 46

def readBack (text : List Byte) : Int :=
  decimal.signedValue minus (text.takeWhile (· != point)) * 1000000 +
    decimal.signedValue minus (text.dropWhile (· != point)).tail

def afterPoint (text : List Byte) : List Byte := (text.dropWhile (· != point)).tail

def IsDecimal (text : List Byte) : Prop :=
  ∃ sign whole fraction, text = sign ++ whole ++ [point] ++ fraction ∧
    (sign = [] ∨ sign = [minus]) ∧ decimal.Canonical whole ∧ fraction.length = 6 ∧
    ∀ x ∈ fraction, ∃ d < 10, x = decimal.glyph d

variable {t t' : Int64}

theorem toInt_seconds (t : Int64) : (t / kMicroSecondsPerSecond).toInt = t.toInt.tdiv 1000000 :=
  Int64.toInt_div_of_ne_right t kMicroSecondsPerSecond (by decide)

theorem toInt_micros (t : Int64) : (t % kMicroSecondsPerSecond).toInt = t.toInt.tmod 1000000 :=
  Int64.toInt_mod t kMicroSecondsPerSecond

theorem toInt_eq (t : Int64) : (t / kMicroSecondsPerSecond).toInt * 1000000 +
    (t % kMicroSecondsPerSecond).toInt = t.toInt := by
  rw [toInt_seconds, toInt_micros, mul_comm]
  exact Int.mul_tdiv_add_tmod t.toInt 1000000

theorem micros_bounds (t : Int64) : -1000000 < (t % kMicroSecondsPerSecond).toInt ∧
    (t % kMicroSecondsPerSecond).toInt < 1000000 := by
  rw [toInt_micros]
  exact ⟨Int.lt_tmod_of_pos _ (by decide), Int.tmod_lt_of_pos _ (by decide)⟩

theorem seconds_bounds (t : Int64) : -10 ^ 13 < (t / kMicroSecondsPerSecond).toInt ∧
    (t / kMicroSecondsPerSecond).toInt < 10 ^ 13 := by
  have hsum := toInt_eq t
  have hmicros := micros_bounds t
  have hlow := t.le_toInt
  have hhigh := t.toInt_lt
  omega

theorem notMem_convert {x : Byte} (hminus : x ≠ minus) (hdigit : ∀ d < 10, x ≠ decimal.glyph d)
    (z : Int) : x ∉ convert z := by
  rw [convert_eq_signed, Glyphs.signed, List.mem_append, not_or]
  constructor
  · split
    · rwa [List.mem_singleton]
    · exact List.not_mem_nil
  · intro hx
    obtain ⟨d, hd, heq⟩ := (Glyphs.written_canonical (by decide) z.natAbs).digits x hx
    exact hdigit d hd heq

theorem notMem_padded {x pad : Byte} (hpad : x ≠ pad) (k : Nat) {text : List Byte}
    (h : x ∉ text) : x ∉ padded pad k text := by
  rw [padded, List.mem_append, not_or]
  exact ⟨fun hx => hpad (List.eq_of_mem_replicate hx), h⟩

theorem point_notMem_convert (z : Int) : point ∉ convert z :=
  notMem_convert (by decide) (by decide) z

theorem split_point {s r : List Byte} (h : point ∉ s) :
    (s ++ [point] ++ r).takeWhile (· != point) = s ∧
      ((s ++ [point] ++ r).dropWhile (· != point)).tail = r := by
  have hs : ∀ x ∈ s, (x != point) = true := by
    intro x hx
    rw [bne_iff_ne]
    rintro rfl
    exact h hx
  rw [List.append_assoc, List.takeWhile_append_of_pos hs, List.dropWhile_append_of_pos hs]
  simp

theorem signedValue_convert (z : Int) : decimal.signedValue minus (convert z) = z := by
  rw [convert_eq_signed, Glyphs.signedValue_signed (by decide) decimal_glyph_ne_minus]

theorem zeroFilled_natCast (k n : Nat) : zeroFilled k n = decimal.fixed k n := by
  rw [zeroFilled, if_neg (by omega), padded_eq_fixed]

theorem zeroFilled_neg {k : Nat} {z : Int} (h : z < 0) :
    zeroFilled k z = minus :: decimal.fixed (k - 1) z.natAbs := by
  rw [zeroFilled, if_pos h, padded_eq_fixed]

theorem fixed_ne_minus {x : Byte} {k n : Nat} (hx : x ∈ decimal.fixed k n) : x ≠ minus := by
  obtain ⟨d, hd, rfl⟩ := Glyphs.fixed_digits (by decide) hx
  exact decimal_glyph_ne_minus d hd

theorem head?_zeroFilled (k : Nat) (z : Int) : (zeroFilled k z).head? = some minus ↔ z < 0 := by
  by_cases hneg : z < 0
  · rw [zeroFilled_neg hneg, List.head?_cons]
    exact iff_of_true rfl hneg
  · lift z to Nat using by omega
    rw [zeroFilled_natCast]
    exact iff_of_false (fun hhead => fixed_ne_minus (List.mem_of_head? hhead) rfl) hneg

theorem signedValue_zeroFilled (k : Nat) (z : Int) :
    decimal.signedValue minus (zeroFilled k z) = z := by
  rw [Glyphs.signedValue]
  by_cases hneg : z < 0
  · rw [if_pos ((head?_zeroFilled k z).mpr hneg), zeroFilled_neg hneg, List.tail_cons,
      Glyphs.value_fixed (by decide)]
    omega
  · rw [if_neg (mt (head?_zeroFilled k z).mp hneg)]
    lift z to Nat using by omega
    rw [zeroFilled_natCast, Glyphs.value_fixed (by decide)]

theorem length_zeroFilled {k : Nat} (hk : 1 < k) {z : Int} (hlow : -(10 ^ k : Nat) < z)
    (hhigh : z < (10 ^ k : Nat)) : (zeroFilled k z).length ≤ k + 1 := by
  by_cases hneg : z < 0
  · have hlen := decimal.length_written_le (n := z.natAbs) (k := k) (by decide) (by omega)
      (by omega)
    rw [zeroFilled_neg hneg, List.length_cons, Glyphs.fixed, List.length_append,
      List.length_replicate]
    omega
  · lift z to Nat using by omega
    rw [zeroFilled_natCast, Glyphs.length_fixed (by decide) (by omega) (by omega)]
    omega

theorem length_convert_le {k : Nat} (hk : 0 < k) {z : Int} (hlow : -(10 ^ k : Nat) < z)
    (hhigh : z < (10 ^ k : Nat)) : (convert z).length ≤ k + 1 := by
  have hlen := decimal.length_written_le (n := z.natAbs) (by decide) hk (by omega)
  have hsign : (if z < 0 then [minus] else ([] : List Byte)).length ≤ 1 := by
    split <;> decide
  rw [convert_eq_signed, Glyphs.signed, List.length_append]
  omega

theorem toString_eq (t : Int64) : toString t = convert (t / kMicroSecondsPerSecond).toInt ++
    [point] ++ zeroFilled 6 (t % kMicroSecondsPerSecond).toInt := by
  obtain ⟨hlow, hhigh⟩ := seconds_bounds t
  obtain ⟨hmlow, hmhigh⟩ := micros_bounds t
  have hseconds := length_convert_le (k := 13) (by decide) hlow hhigh
  have hmicros := length_zeroFilled (k := 6) (by decide) hmlow hmhigh
  rw [toString]
  apply List.take_of_length_le
  rw [List.length_append, List.length_append]
  have hpoint : (bytes ".").length = 1 := rfl
  omega

theorem isDecimal_iff (s u : Int) (hu : -1000000 < u ∧ u < 1000000) :
    IsDecimal (convert s ++ [point] ++ zeroFilled 6 u) ↔ 0 ≤ u := by
  constructor
  · rintro ⟨sign, whole, fraction, heq, hsign, hwhole, -, hfraction⟩
    by_contra hneg
    have hpoint : point ∉ sign ++ whole := by
      rw [List.mem_append, not_or]
      refine ⟨by rcases hsign with rfl | rfl <;> decide, fun hx => ?_⟩
      obtain ⟨d, hd, hglyph⟩ := hwhole.digits _ hx
      exact absurd hglyph ((by decide : ∀ d < 10, point ≠ decimal.glyph d) d hd)
    have hsame := (split_point (point_notMem_convert s)).2.symm.trans
      ((congrArg (fun text => (text.dropWhile (· != point)).tail) heq).trans (split_point hpoint).2)
    rw [zeroFilled_neg (by omega)] at hsame
    obtain ⟨d, hd, hglyph⟩ := hfraction minus (hsame ▸ List.mem_cons_self)
    exact decimal_glyph_ne_minus d hd hglyph.symm
  · intro hpos
    lift u to Nat using hpos
    refine ⟨if s < 0 then [minus] else [], decimal.written s.natAbs, decimal.fixed 6 u, ?_, ?_,
      Glyphs.written_canonical (by decide) _, Glyphs.length_fixed (by decide) (by decide)
        (by omega), fun x hx => Glyphs.fixed_digits (by decide) hx⟩
    · rw [convert_eq_signed, zeroFilled_natCast]
      rfl
    · split
      · exact .inr rfl
      · exact .inl rfl

theorem tmod_nonneg_iff (x n : Int) : 0 ≤ x.tmod n ↔ 0 ≤ x ∨ x % n = 0 := by
  have hpos : 0 ≤ x → 0 ≤ x.tmod n := Int.tmod_nonneg n
  have hneg : x ≤ 0 → x.tmod n ≤ 0 := fun h => by
    have hflip := Int.tmod_nonneg n (show 0 ≤ -x by omega)
    rw [Int.neg_tmod] at hflip
    omega
  have hzero : x.tmod n = 0 ↔ x % n = 0 := by
    rw [← Int.dvd_iff_tmod_eq_zero, Int.dvd_iff_emod_eq_zero]
  omega

/-- The text of a moment is not cut off, and the moment is read back from it. It is a numeral unless
the moment is before the epoch and not at a whole second; then the number after the point has a sign
of its own. -/
theorem toString_readBack (t : Int64) :
    toString t = convert (t / kMicroSecondsPerSecond).toInt ++ [point] ++
      zeroFilled 6 (t % kMicroSecondsPerSecond).toInt ∧
    readBack (toString t) = t.toInt ∧
    (IsDecimal (toString t) ↔ 0 ≤ t.toInt ∨ t.toInt % 1000000 = 0) ∧
    ((afterPoint (toString t)).head? = some minus ↔
      ¬ (0 ≤ t.toInt ∨ t.toInt % 1000000 = 0)) := by
  obtain ⟨hseconds, hmicros⟩ := split_point
    (r := zeroFilled 6 (t % kMicroSecondsPerSecond).toInt)
    (point_notMem_convert (t / kMicroSecondsPerSecond).toInt)
  have hsign := tmod_nonneg_iff t.toInt 1000000
  refine ⟨toString_eq t, ?_, ?_, ?_⟩
  · rw [toString_eq, readBack, hseconds, hmicros, signedValue_convert, signedValue_zeroFilled,
      toInt_eq]
  · rw [toString_eq, isDecimal_iff _ _ (micros_bounds t), toInt_micros, hsign]
  · rw [toString_eq, afterPoint, hmicros, head?_zeroFilled, toInt_micros, ← hsign, not_le]

def shown (showMicroseconds : Bool) (t : Int64) : Int :=
  if showMicroseconds then t.toInt else (t / kMicroSecondsPerSecond).toInt

def InRange (t : Int64) : Prop := 0 ≤ t.toInt ∧ t.toInt < 253402300800000000

structure TwoDigits (tm : Tm) : Prop where
  mon : 0 ≤ tm.mon + 1 ∧ tm.mon + 1 < 100
  mday : 0 ≤ tm.mday ∧ tm.mday < 100
  hour : 0 ≤ tm.hour ∧ tm.hour < 100
  min : 0 ≤ tm.min ∧ tm.min < 100
  sec : 0 ≤ tm.sec ∧ tm.sec < 100

variable {tm tm' : Tm}

theorem TwoDigits.fits (h : TwoDigits tm) (hyear : 0 ≤ tm.year + 1900 ∧ tm.year + 1900 < 10000) :
    Fits tm := ⟨hyear, h.mon, h.mday, h.hour, h.min, h.sec⟩

theorem gmtime_twoDigits (s : Int) : TwoDigits (gmtime s) := by
  obtain ⟨hvalid, -⟩ := ofJulianDay_spec (s / 86400 + epochDay)
  rw [← date_gmtime] at hvalid
  have hclock := gmtime_onClock s
  have hmonth := hvalid.month_pos
  have hmonth' := hvalid.month_le
  have hday := hvalid.day_pos
  have hday' := hvalid.day_le.trans (monthLength_le _ _)
  simp only [OnClock] at hclock
  simp only [date] at hmonth hmonth' hday hday'
  constructor <;> omega

theorem gmtime_year_mono {s s' : Int} (h : s ≤ s') : (gmtime s).year ≤ (gmtime s').year := by
  obtain hlt | rfl := Int.lt_or_eq_of_le h
  · obtain hyear | ⟨hyear, -⟩ := gmtime_before hlt
    · exact hyear.le
    · exact hyear.le
  · exact le_rfl

theorem TwoDigits.length_timeText (h : TwoDigits tm) :
    (timeText tm).length = max 4 (convert (tm.year + 1900)).length + 13 := by
  rw [timeText]
  simp only [List.length_append]
  rw [Logger.length_padded, padded_length (by decide) h.mon.1 h.mon.2,
    padded_length (by decide) h.mday.1 h.mday.2, padded_length (by decide) h.hour.1 h.hour.2,
    padded_length (by decide) h.min.1 h.min.2, padded_length (by decide) h.sec.1 h.sec.2]
  rfl

theorem length_timeText_le (t : Int64) :
    (timeText (gmtime (t / kMicroSecondsPerSecond).toInt)).length ≤ 20 := by
  obtain ⟨hlow, hhigh⟩ := seconds_bounds t
  have hfirst : -900000 ≤ (gmtime (-10 ^ 13)).year := by decide
  have hlast : (gmtime (10 ^ 13)).year ≤ 900000 := by decide
  have hmin := gmtime_year_mono hlow.le
  have hmax := gmtime_year_mono hhigh.le
  have hyear := length_convert_le (k := 6)
    (z := (gmtime (t / kMicroSecondsPerSecond).toInt).year + 1900) (by decide)
    (by omega) (by omega)
  rw [(gmtime_twoDigits _).length_timeText]
  omega

theorem toInt32_micros (t : Int64) : (t % kMicroSecondsPerSecond).toInt32.toInt =
    (t % kMicroSecondsPerSecond).toInt := by
  obtain ⟨hlow, hhigh⟩ := micros_bounds t
  rw [Int64.toInt_toInt32]
  exact Int.bmod_eq_of_le (by omega) (by omega)

theorem toFormattedString_true (t : Int64) : toFormattedString true t =
    timeText (gmtime (t / kMicroSecondsPerSecond).toInt) ++ [point] ++
      zeroFilled 6 (t % kMicroSecondsPerSecond).toInt := by
  obtain ⟨hlow, hhigh⟩ := micros_bounds t
  have htime := length_timeText_le t
  have hmicros := length_zeroFilled (k := 6) (by decide) hlow hhigh
  simp only [toFormattedString, if_pos, toInt32_micros]
  apply List.take_of_length_le
  rw [List.length_append, List.length_append]
  have hpoint : (bytes ".").length = 1 := rfl
  omega

theorem toFormattedString_false (t : Int64) : toFormattedString false t =
    timeText (gmtime (t / kMicroSecondsPerSecond).toInt) := by
  have htime := length_timeText_le t
  rw [toFormattedString, if_neg Bool.false_ne_true]
  exact List.take_of_length_le (by omega)

theorem padded_convert_inj {pad : Byte} (hminus : pad ≠ minus)
    (hdigit : ∀ d < 10, pad ≠ decimal.glyph d) {k : Nat} {x y : Int}
    (h : padded pad k (convert x) = padded pad k (convert y)) : x = y := by
  have hstrip : ∀ z, (padded pad k (convert z)).dropWhile (· == pad) = convert z := by
    intro z
    have hpads : ∀ c ∈ List.replicate (k - (convert z).length) pad, (c == pad) = true := by
      intro c hc
      rw [List.eq_of_mem_replicate hc, beq_self_eq_true]
    have hnone := notMem_convert hminus hdigit z
    rw [padded, List.dropWhile_append_of_pos hpads]
    cases hz : convert z with
    | nil => rfl
    | cons c text =>
      rw [hz] at hnone
      exact List.dropWhile_cons_of_neg (by simpa using (List.ne_of_not_mem_cons hnone).symm)
  rw [← signedValue_convert x, ← hstrip x, h, hstrip, signedValue_convert]

theorem timeText_inj (h : TwoDigits tm) (h' : TwoDigits tm') (heq : timeText tm = timeText tm') :
    timegm tm = timegm tm' := by
  obtain ⟨hcolon, hsec⟩ := field_inj h.sec h'.sec heq
  obtain ⟨hcolon, hmin⟩ := field_inj h.min h'.min (List.append_cancel_right hcolon)
  obtain ⟨hspace, hhour⟩ := field_inj h.hour h'.hour (List.append_cancel_right hcolon)
  obtain ⟨hdate, hmday⟩ := field_inj h.mday h'.mday (List.append_cancel_right hspace)
  obtain ⟨hyear, hmon⟩ := field_inj h.mon h'.mon hdate
  have hyear := padded_convert_inj (by decide) (by decide) hyear
  have hyear : tm.year = tm'.year := by omega
  have hmon : tm.mon = tm'.mon := by omega
  simp only [timegm, hyear, hmon, hmday, hhour, hmin, hsec]

theorem gmtime_timeText_inj {s s' : Int} (h : timeText (gmtime s) = timeText (gmtime s')) :
    s = s' := by
  have hback : ∀ s, timegm (gmtime s) = s := fun s => timegm_gmtime s 0 0 [71, 77, 84]
  rw [← hback s, timeText_inj (gmtime_twoDigits s) (gmtime_twoDigits s') h, hback]

theorem point_notMem_timeText (tm : Tm) : point ∉ timeText tm := by
  have hfield : ∀ (pad : Byte) (k : Nat) (z : Int), point ≠ pad →
      point ∉ padded pad k (convert z) := fun pad k z hpad =>
    notMem_padded hpad k (point_notMem_convert z)
  simp only [timeText, List.mem_append, not_or]
  refine ⟨⟨⟨⟨⟨⟨⟨⟨hfield _ _ _ ?_, hfield _ _ _ ?_⟩, hfield _ _ _ ?_⟩, ?_⟩, hfield _ _ _ ?_⟩, ?_⟩,
    hfield _ _ _ ?_⟩, ?_⟩, hfield _ _ _ ?_⟩ <;> decide

def formattedText (showMicroseconds : Bool) (t : Int64) : List Byte :=
  timeText (gmtime (t / kMicroSecondsPerSecond).toInt) ++
    if showMicroseconds then [point] ++ zeroFilled 6 (t % kMicroSecondsPerSecond).toInt else []

theorem toFormattedString_eq (showMicroseconds : Bool) (t : Int64) :
    toFormattedString showMicroseconds t = formattedText showMicroseconds t := by
  cases showMicroseconds with
  | true => rw [toFormattedString_true, formattedText, if_pos rfl, List.append_assoc]
  | false =>
    rw [toFormattedString_false, formattedText, if_neg Bool.false_ne_true, List.append_nil]

theorem toFormattedString_congr {showMicroseconds : Bool}
    (h : shown showMicroseconds t = shown showMicroseconds t') :
    toFormattedString showMicroseconds t = toFormattedString showMicroseconds t' := by
  cases showMicroseconds with
  | true =>
    rw [shown, shown, if_pos rfl, if_pos rfl, Int64.toInt_inj] at h
    rw [h]
  | false =>
    rw [toFormattedString_false, toFormattedString_false]
    exact congrArg (fun s => timeText (gmtime s)) h

/-- The text of a moment is not cut off, and two moments have the same text exactly if what is shown
of them is the same. -/
theorem toFormattedString_eq_iff (showMicroseconds : Bool) (t t' : Int64) :
    toFormattedString showMicroseconds t = formattedText showMicroseconds t ∧
      (toFormattedString showMicroseconds t = toFormattedString showMicroseconds t' ↔
        shown showMicroseconds t = shown showMicroseconds t') := by
  refine ⟨toFormattedString_eq showMicroseconds t, fun h => ?_, toFormattedString_congr⟩
  cases showMicroseconds with
  | true =>
    rw [shown, shown, if_pos rfl, if_pos rfl, Int64.toInt_inj]
    rw [toFormattedString_true, toFormattedString_true] at h
    obtain ⟨htime, hmicros⟩ := split_point
      (r := zeroFilled 6 (t % kMicroSecondsPerSecond).toInt) (point_notMem_timeText _)
    obtain ⟨htime', hmicros'⟩ := split_point
      (r := zeroFilled 6 (t' % kMicroSecondsPerSecond).toInt) (point_notMem_timeText _)
    rw [h, htime'] at htime
    rw [h, hmicros'] at hmicros
    have hseconds := gmtime_timeText_inj htime
    have hrest := congrArg (decimal.signedValue minus) hmicros
    rw [signedValue_zeroFilled, signedValue_zeroFilled] at hrest
    rw [← Int64.toInt_inj, ← toInt_eq t, ← toInt_eq t', hseconds, hrest]
  | false =>
    rw [toFormattedString_false, toFormattedString_false] at h
    exact gmtime_timeText_inj h

theorem timeText_lt (h : Fits tm) (h' : Fits tm') (hbefore : tm.Before tm') (s r : List Byte) :
    timeText tm ++ s < timeText tm' ++ r := by
  simp only [timeText, List.append_assoc]
  apply spaced_append_lt (by decide) h.year h'.year
  obtain hyear | ⟨hyear, hmon | ⟨hmon, hday⟩⟩ := hbefore
  · exact .inl (by omega)
  · refine .inr ⟨by omega, ?_⟩
    exact padded_append_lt (by decide) h.mon h'.mon (.inl (by omega))
  refine .inr ⟨by omega, ?_⟩
  apply padded_append_lt (by decide) h.mon h'.mon
  refine .inr ⟨by omega, ?_⟩
  apply padded_append_lt (by decide) h.mday h'.mday
  obtain hday | ⟨hday, hclock⟩ := hday
  · exact .inl hday
  refine .inr ⟨hday, List.append_left_lt ?_⟩
  apply padded_append_lt (by decide) h.hour h'.hour
  obtain hhour | ⟨hhour, hmin⟩ := hclock
  · exact .inl hhour
  refine .inr ⟨hhour, List.append_left_lt ?_⟩
  apply padded_append_lt (by decide) h.min h'.min
  obtain hmin | ⟨hmin, hsec⟩ := hmin
  · exact .inl hmin
  refine .inr ⟨hmin, List.append_left_lt ?_⟩
  exact padded_append_lt (by decide) h.sec h'.sec (.inl hsec)

theorem InRange.seconds (h : InRange t) : 0 ≤ (t / kMicroSecondsPerSecond).toInt ∧
    (t / kMicroSecondsPerSecond).toInt < 253402300800 ∧
    0 ≤ (t % kMicroSecondsPerSecond).toInt := by
  obtain ⟨hlow, hhigh⟩ := h
  rw [toInt_seconds, toInt_micros, Int.tdiv_eq_ediv_of_nonneg hlow, Int.tmod_eq_emod_of_nonneg hlow]
  omega

theorem InRange.fits (h : InRange t) : Fits (gmtime (t / kMicroSecondsPerSecond).toInt) := by
  obtain ⟨hlow, hhigh, -⟩ := h.seconds
  have hfirst : (gmtime 0).year = 70 := by decide
  have hlast : (gmtime 253402300799).year = 8099 := by decide
  have hmin := gmtime_year_mono hlow
  have hmax := gmtime_year_mono (show _ ≤ (253402300799 : Int) from Int.le_of_lt_add_one hhigh)
  exact (gmtime_twoDigits _).fits (by omega)

theorem toFormattedString_lt (h : InRange t) (h' : InRange t') {showMicroseconds : Bool}
    (hlt : shown showMicroseconds t < shown showMicroseconds t') :
    toFormattedString showMicroseconds t < toFormattedString showMicroseconds t' := by
  have hseconds : (t / kMicroSecondsPerSecond).toInt < (t' / kMicroSecondsPerSecond).toInt →
      ∀ s r, timeText (gmtime (t / kMicroSecondsPerSecond).toInt) ++ s <
        timeText (gmtime (t' / kMicroSecondsPerSecond).toInt) ++ r := fun hseconds s r =>
    timeText_lt h.fits h'.fits (gmtime_before hseconds) s r
  cases showMicroseconds with
  | true =>
    obtain ⟨-, -, hmicros⟩ := h.seconds
    obtain ⟨-, -, hmicros'⟩ := h'.seconds
    have hsum := toInt_eq t
    have hsum' := toInt_eq t'
    have hbounds := micros_bounds t
    have hbounds' := micros_bounds t'
    rw [shown, shown, if_pos rfl, if_pos rfl] at hlt
    rw [toFormattedString_true, toFormattedString_true, List.append_assoc, List.append_assoc]
    obtain hbefore | hsame := lt_or_ge (t / kMicroSecondsPerSecond).toInt
      (t' / kMicroSecondsPerSecond).toInt
    · exact hseconds hbefore _ _
    · -- in one second the microseconds decide
      have heq : (t / kMicroSecondsPerSecond).toInt = (t' / kMicroSecondsPerSecond).toInt := by
        omega
      rw [heq]
      refine List.append_left_lt (List.append_left_lt ?_)
      lift (t % kMicroSecondsPerSecond).toInt to Nat using hmicros with u hu
      lift (t' % kMicroSecondsPerSecond).toInt to Nat using hmicros' with u' hu'
      rw [zeroFilled_natCast, zeroFilled_natCast]
      have hdecide := Glyphs.fixed_append_lt (k := 6) (s := []) (t := []) decimal_ordered
        (by decide) (by decide) (m := u) (n := u') (by omega) (by omega) (.inl (by omega))
      rwa [List.append_nil, List.append_nil] at hdecide
  | false =>
    rw [toFormattedString_false, toFormattedString_false]
    have htime := hseconds hlt [] []
    rwa [List.append_nil, List.append_nil] at htime

/-- The texts are in the order of the moments. -/
theorem toFormattedString_lt_iff (h : InRange t) (h' : InRange t') (showMicroseconds : Bool) :
    toFormattedString showMicroseconds t < toFormattedString showMicroseconds t' ↔
      shown showMicroseconds t < shown showMicroseconds t' := by
  refine ⟨fun htext => ?_, toFormattedString_lt h h'⟩
  obtain hlt | heq | hgt := lt_trichotomy (shown showMicroseconds t) (shown showMicroseconds t')
  · exact hlt
  · rw [toFormattedString_congr heq] at htext
    exact absurd htext (List.lt_irrefl _)
  · exact absurd htext (List.lt_asymm (toFormattedString_lt h' h hgt))

theorem toFormattedString_newYear :
    toFormattedString true 1704067199999999 < toFormattedString true 1704067200000000 ↔
      shown true 1704067199999999 < shown true 1704067200000000 :=
  toFormattedString_lt_iff ⟨by decide, by decide⟩ ⟨by decide, by decide⟩ true

end AcMuduo.Timestamp
