import AcMuduo.FormatSizeWidth

namespace AcMuduo.LogStream

open Rounding

def isDigit (b : Byte) : Bool := 48 ≤ b && b ≤ 57

/-- The number that a reader takes a text for, with the units that it knows. -/
def readBack (units : List (List Byte × ℚ)) (text : List Byte) : ℚ :=
  let digits := text.filter isDigit
  let fraction := (text.dropWhile (· != 46)).filter isDigit
  let suffix := text.filter fun b => !isDigit b && b != 46
  decimal.value digits / 10 ^ fraction.length * (units.lookup suffix).getD 1

def unitsSI : List (List Byte × ℚ) := [(bytes "k", 10 ^ 3), (bytes "M", 10 ^ 6),
  (bytes "G", 10 ^ 9), (bytes "T", 10 ^ 12), (bytes "P", 10 ^ 15), (bytes "E", 10 ^ 18)]

def unitsIEC : List (List Byte × ℚ) := [(bytes "Ki", 2 ^ 10), (bytes "Mi", 2 ^ 20),
  (bytes "Gi", 2 ^ 30), (bytes "Ti", 2 ^ 40), (bytes "Pi", 2 ^ 50), (bytes "Ei", 2 ^ 60)]

example : readBack unitsSI (formatSI 1500000) = 1500000 := by decide +kernel

variable {units : List (List Byte × ℚ)} {f : Style} {s t : Int} {n : ℚ} {text : List Byte}

def AllDigits (text : List Byte) : Prop := ∀ b ∈ text, isDigit b = true

def Letters (text : List Byte) : Prop := ∀ b ∈ text, (!isDigit b && b != 46) = true

instance (text : List Byte) : Decidable (Letters text) :=
  inferInstanceAs (Decidable (∀ b ∈ text, (!isDigit b && b != 46) = true))

theorem isDigit_glyph : ∀ d < 10, isDigit (decimal.glyph d) = true := by decide

theorem allDigits_of_glyphs (h : ∀ b ∈ text, ∃ d < 10, b = decimal.glyph d) : AllDigits text := by
  intro b hb
  obtain ⟨d, hd, rfl⟩ := h b hb
  exact isDigit_glyph d hd

theorem allDigits_convert (n : Nat) : AllDigits (convert n) := by
  rw [convert_natCast]
  exact allDigits_of_glyphs (decimal.written_canonical (by decide) n).digits

theorem allDigits_padded (k n : Nat) : AllDigits (padded 48 k (convert n)) := by
  rw [padded_eq_fixed]
  exact allDigits_of_glyphs fun b hb => Glyphs.fixed_digits (by decide) hb

theorem AllDigits.filter_eq (h : AllDigits text) : text.filter isDigit = text :=
  List.filter_eq_self.mpr h

theorem AllDigits.filter_letters (h : AllDigits text) :
    text.filter (fun b => !isDigit b && b != 46) = [] := by
  apply List.filter_eq_nil_iff.mpr
  intro b hb
  simp [h b hb]

theorem AllDigits.ne_point (h : AllDigits text) {b : Byte} (hb : b ∈ text) : (b != 46) = true := by
  have hdigit := h b hb
  rw [bne_iff_ne]
  rintro rfl
  exact absurd hdigit (by decide)

theorem Letters.filter_eq (h : Letters text) :
    text.filter (fun b => !isDigit b && b != 46) = text :=
  List.filter_eq_self.mpr h

theorem Letters.filter_digits (h : Letters text) : text.filter isDigit = [] := by
  apply List.filter_eq_nil_iff.mpr
  intro b hb hdigit
  have hletter := h b hb
  rw [hdigit] at hletter
  cases hletter

theorem Letters.ne_point (h : Letters text) {b : Byte} (hb : b ∈ text) : (b != 46) = true :=
  (Bool.and_eq_true_iff.mp (h b hb)).2

theorem dropWhile_point {rest : List Byte} (h : ∀ b ∈ text, (b != 46) = true) :
    (text ++ rest).dropWhile (· != 46) = rest.dropWhile (· != 46) := by
  induction text with
  | nil => rfl
  | cons b text ih =>
    rw [List.cons_append, List.dropWhile_cons, if_pos (h b List.mem_cons_self)]
    exact ih fun c hc => h c (List.mem_cons_of_mem b hc)

theorem value_append (text text' : List Byte) : decimal.value (text ++ text') =
    decimal.value text * 10 ^ text'.length + decimal.value text' := by
  induction text with
  | nil => simp [Glyphs.value]
  | cons b text ih =>
    rw [List.cons_append, Glyphs.value_cons, Glyphs.value_cons, ih, List.length_append]
    ring

theorem value_convert (n : Nat) : decimal.value (convert n) = n := by
  rw [convert_natCast, Glyphs.value_written (by decide)]

theorem readBack_pointed (hsuffix : Letters text) (decimals digits : Nat) :
    readBack units (pointed decimals digits ++ text) =
      digits / 10 ^ decimals * (units.lookup text).getD 1 := by
  have hwhole := allDigits_convert (digits / 10 ^ decimals)
  by_cases hnone : decimals = 0
  · subst hnone
    have htext : pointed 0 digits = convert digits := by
      rw [pointed, if_pos rfl, List.append_nil, Nat.pow_zero, Nat.div_one]
    have hdigits := allDigits_convert digits
    have hdrop : (convert digits ++ text).dropWhile (· != 46) = [] := by
      rw [dropWhile_point fun b hb => hdigits.ne_point hb, ← List.append_nil text,
        dropWhile_point fun b hb => hsuffix.ne_point hb]
      rfl
    simp only [readBack, htext, hdrop, List.filter_append, hdigits.filter_eq,
      hdigits.filter_letters, hsuffix.filter_eq, hsuffix.filter_digits, List.append_nil,
      List.nil_append, List.filter_nil, List.length_nil, value_convert]
  · have hfraction := allDigits_padded decimals (digits % 10 ^ decimals)
    have hlength : (padded 48 decimals (convert (digits % 10 ^ decimals : Nat))).length =
        decimals := by
      rw [padded_eq_fixed]
      exact Glyphs.length_fixed (by decide) (Nat.pos_of_ne_zero hnone)
        (Nat.mod_lt _ (by positivity))
    have htext : pointed decimals digits ++ text = convert (digits / 10 ^ decimals : Nat) ++
        (46 :: (padded 48 decimals (convert (digits % 10 ^ decimals : Nat)) ++ text)) := by
      rw [pointed, if_neg hnone, List.append_assoc, List.append_assoc]
      rfl
    have hpoint : isDigit 46 = false := rfl
    have hvalue : decimal.value (convert (digits / 10 ^ decimals : Nat) ++
        padded 48 decimals (convert (digits % 10 ^ decimals : Nat))) = digits := by
      rw [value_append, hlength, value_convert, padded_eq_fixed, Glyphs.value_fixed (by decide),
        Nat.div_add_mod']
    simp only [readBack, htext, dropWhile_point fun b hb => hwhole.ne_point hb,
      List.filter_append, List.filter_cons, List.dropWhile_cons, hpoint, hwhole.filter_eq,
      hwhole.filter_letters, hfraction.filter_eq, hfraction.filter_letters, hsuffix.filter_eq,
      hsuffix.filter_digits, bne_self_eq_false, Bool.false_eq_true, Bool.and_false, if_false,
      List.append_nil, List.nil_append, hvalue, hlength]

theorem readBack_convert (hnone : units.lookup [] = none) (n : Nat) :
    readBack units (convert n) = n := by
  have hread : readBack units (pointed 0 n ++ []) = n / 10 ^ 0 * (units.lookup []).getD 1 :=
    readBack_pointed (by simp [Letters]) 0 n
  simpa [pointed, hnone] using hread

def Style.shown (f : Style) (s : Int) : ℚ :=
  f.digits (double s) / 10 ^ f.decimals * f.unit

/-- The unit of a segment is known, and there are at least about a hundred of its last digits. -/
structure Segment.Readable (g : Segment) (units : List (List Byte × ℚ)) : Prop where
  letters : Letters g.style.suffix
  known : units.lookup g.style.suffix = some g.style.unit
  fine : 9990 * g.style.unit ≤ 100 * 10 ^ g.style.decimals * g.first

instance (g : Segment) (units : List (List Byte × ℚ)) : Decidable (g.Readable units) :=
  decidable_of_iff (Letters g.style.suffix ∧ units.lookup g.style.suffix = some g.style.unit ∧
      9990 * g.style.unit ≤ 100 * 10 ^ g.style.decimals * g.first)
    ⟨fun h => ⟨h.1, h.2.1, h.2.2⟩, fun h => ⟨h.1, h.2, h.3⟩⟩

def Segment.Before (g g' : Segment) : Prop :=
  g.last < g'.first ∧ g.style.shown g.last ≤ g'.style.shown g'.first

instance (g g' : Segment) : Decidable (g.Before g') :=
  inferInstanceAs (Decidable (g.last < g'.first ∧ g.style.shown g.last ≤ g'.style.shown g'.first))

theorem readable_SI : ∀ g ∈ segmentsSI, g.Readable unitsSI := by decide +kernel

theorem readable_IEC : ∀ g ∈ segmentsIEC, g.Readable unitsIEC := by decide +kernel

theorem before_SI : segmentsSI.Pairwise Segment.Before := by decide +kernel

theorem before_IEC : segmentsIEC.Pairwise Segment.Before := by decide +kernel

variable {g g' : Segment} {k : Nat}

theorem readBack_print (hg : g.Usable k) (hread : g.Readable units) (hfirst : g.first ≤ s) :
    readBack units (g.style.print (double s)) = g.style.shown s := by
  have hpos : (0 : ℚ) < s := by exact_mod_cast hg.first.trans_le hfirst
  rw [print_eq hg.unit (double_pos hpos), readBack_pointed hread.letters, hread.known]
  rfl

theorem shown_mono (hg : g.Usable k) (hfirst : g.first ≤ s) (h : s ≤ t) :
    g.style.shown s ≤ g.style.shown t := by
  have hdigits : (g.style.digits (double s) : ℚ) ≤ g.style.digits (double t) := by
    exact_mod_cast hg.digits_mono hfirst h
  apply mul_le_mul_of_nonneg_right _ hg.unit.le
  exact div_le_div_of_nonneg_right hdigits (by positivity)

theorem shown_le {gs : List Segment} (husable : ∀ g ∈ gs, g.Usable k)
    (hbefore : gs.Pairwise Segment.Before) (hg : g ∈ gs) (hg' : g' ∈ gs) (hs : g.first ≤ s)
    (hs' : s ≤ g.last) (ht : g'.first ≤ t) (ht' : t ≤ g'.last) (h : s ≤ t) :
    g.style.shown s ≤ g'.style.shown t := by
  obtain ⟨i, hi, rfl⟩ := List.mem_iff_getElem.mp hg
  obtain ⟨j, hj, rfl⟩ := List.mem_iff_getElem.mp hg'
  have hij : ∀ i j (hi : i < gs.length) (hj : j < gs.length), i < j → gs[i].Before gs[j] :=
    List.pairwise_iff_getElem.mp hbefore
  obtain hlt | rfl | hgt := Nat.lt_trichotomy i j
  · calc gs[i].style.shown s ≤ gs[i].style.shown gs[i].last := shown_mono (husable _ hg) hs hs'
      _ ≤ gs[j].style.shown gs[j].first := (hij i j hi hj hlt).2
      _ ≤ gs[j].style.shown t := shown_mono (husable _ hg') le_rfl ht
  · exact shown_mono (husable _ hg) hs h
  · have hafter := (hij j i hj hi hgt).1
    omega

theorem abs_double_sub_le (h : 0 < n) : |double n - n| ≤ n / 2 ^ 53 := abs_toPrecision_sub_le h

/-- What is shown is off by half of the last digit, and a little for the two quotients. -/
theorem shown_close (hg : g.Usable k) (hread : g.Readable units) (hfirst : g.first ≤ s) :
    199 * |g.style.shown s - s| ≤ s := by
  have hpos : (0 : ℚ) < s := by exact_mod_cast hg.first.trans_le hfirst
  have hunit := hg.unit
  have hscale : (0 : ℚ) < 10 ^ g.style.decimals := by positivity
  have hD := double_pos hpos
  have hx : 0 < double (double s / g.style.unit) := double_pos (div_pos hD hunit)
  have hfine : 9990 * g.style.unit ≤ 100 * 10 ^ g.style.decimals * s := by
    refine hread.fine.trans (mul_le_mul_of_nonneg_left ?_ (by positivity))
    exact_mod_cast hfirst
  have hround := abs_nearestEven_sub_le (double (double s / g.style.unit) * 10 ^ g.style.decimals)
  have hdigits : (g.style.digits (double s) : ℚ) =
      nearestEven (double (double s / g.style.unit) * 10 ^ g.style.decimals) := by
    rw [Style.digits, abs_of_pos hx]
    exact_mod_cast Int.toNat_of_nonneg (nearestEven_nonneg (mul_pos hx hscale).le)
  have hsplit : g.style.shown s - s =
      (g.style.digits (double s) - double (double s / g.style.unit) * 10 ^ g.style.decimals) *
          (g.style.unit / 10 ^ g.style.decimals) +
        (double (double s / g.style.unit) - double s / g.style.unit) * g.style.unit +
        (double s - s) := by
    rw [Style.shown]
    field_simp
    ring
  have hlast : |(g.style.digits (double s) -
      double (double s / g.style.unit) * 10 ^ g.style.decimals) *
        (g.style.unit / 10 ^ g.style.decimals)| ≤ 1 / 2 * (100 * s / 9990) := by
    rw [abs_mul, hdigits, abs_of_pos (div_pos hunit hscale)]
    refine mul_le_mul hround ?_ (div_pos hunit hscale).le (by norm_num)
    rw [div_le_div_iff₀ hscale (by norm_num)]
    linarith
  have hquotient : |(double (double s / g.style.unit) - double s / g.style.unit) *
      g.style.unit| ≤ double s / 2 ^ 53 := by
    rw [abs_mul, abs_of_pos hunit]
    refine (mul_le_mul_of_nonneg_right (abs_double_sub_le (div_pos hD hunit)) hunit.le).trans_eq ?_
    field_simp
  have hexact := abs_double_sub_le hpos
  have hdouble := (abs_le.mp hexact).2
  have hsum : |g.style.shown s - s| ≤
      1 / 2 * (100 * s / 9990) + double s / 2 ^ 53 + s / 2 ^ 53 := by
    rw [hsplit]
    exact (abs_add_three _ _ _).trans (add_le_add (add_le_add hlast hquotient) hexact)
  linarith

structure Printer (format : Int64 → List Byte) (units : List (List Byte × ℚ)) (gs : List Segment)
    (small : Int) (suffixLength : Nat) : Prop where
  full : ∀ s, s.toInt < small → format s = convert s.toInt
  branch : ∀ s, small ≤ s.toInt → ∃ g ∈ gs, g.first ≤ s.toInt ∧ s.toInt ≤ g.last ∧
    format s = g.style.print (double s.toInt)
  none : units.lookup [] = none
  usable : ∀ g ∈ gs, g.Usable suffixLength
  readable : ∀ g ∈ gs, g.Readable units
  before : gs.Pairwise Segment.Before
  start : ∀ g ∈ gs, (small : ℚ) ≤ g.style.shown g.first

theorem printer_SI : Printer formatSI unitsSI segmentsSI 1000 1 where
  full _ h := if_pos h
  branch _ := formatSI_branch
  none := rfl
  usable := usable_SI
  readable := readable_SI
  before := before_SI
  start := by decide +kernel

theorem printer_IEC : Printer formatIEC unitsIEC segmentsIEC 1024 2 where
  full _ h := if_pos ((double_lt_Ki _).mpr h)
  branch _ := formatIEC_branch
  none := rfl
  usable := usable_IEC
  readable := readable_IEC
  before := before_IEC
  start := by decide +kernel

variable {format : Int64 → List Byte} {gs : List Segment} {small : Int}

theorem Printer.readBack_full (h : Printer format units gs small k) {s : Int64}
    (hs : 0 ≤ s.toInt) (hsmall : s.toInt < small) : readBack units (format s) = s.toInt := by
  obtain ⟨n, hn⟩ := Int.eq_ofNat_of_zero_le hs
  rw [h.full s hsmall, hn]
  exact readBack_convert h.none n

theorem Printer.close (h : Printer format units gs small k) {s : Int64} (hs : 0 ≤ s.toInt) :
    199 * |readBack units (format s) - s.toInt| ≤ s.toInt := by
  by_cases hsmall : s.toInt < small
  · rw [h.readBack_full hs hsmall, sub_self, abs_zero, mul_zero]
    exact_mod_cast hs
  · obtain ⟨g, hg, hfirst, -, hprint⟩ := h.branch s (Int.not_lt.mp hsmall)
    rw [hprint, readBack_print (h.usable g hg) (h.readable g hg) hfirst]
    exact shown_close (h.usable g hg) (h.readable g hg) hfirst

theorem Printer.le (h : Printer format units gs small k) {s t : Int64} (hs : 0 ≤ s.toInt)
    (hst : s.toInt ≤ t.toInt) : readBack units (format s) ≤ readBack units (format t) := by
  by_cases hsmall : t.toInt < small
  · rw [h.readBack_full hs (hst.trans_lt hsmall), h.readBack_full (hs.trans hst) hsmall]
    exact_mod_cast hst
  obtain ⟨g', hg', hfirst', hlast', hprint'⟩ := h.branch t (Int.not_lt.mp hsmall)
  rw [hprint', readBack_print (h.usable g' hg') (h.readable g' hg') hfirst']
  by_cases hfull : s.toInt < small
  · rw [h.readBack_full hs hfull]
    calc (s.toInt : ℚ) ≤ small := by exact_mod_cast hfull.le
      _ ≤ g'.style.shown g'.first := h.start g' hg'
      _ ≤ g'.style.shown t.toInt := shown_mono (h.usable g' hg') le_rfl hfirst'
  · obtain ⟨g, hg, hfirst, hlast, hprint⟩ := h.branch s (Int.not_lt.mp hfull)
    rw [hprint, readBack_print (h.usable g hg) (h.readable g hg) hfirst]
    exact shown_le h.usable h.before hg hg' hfirst hlast hfirst' hlast' hst

/-- What `format_SI` prints of a number that is not negative is within about half a percent of it,
and is not more than what it prints of a larger one. -/
theorem formatSI_reading {s t : Int64} (hs : 0 ≤ s.toInt) (h : s.toInt ≤ t.toInt) :
    199 * |readBack unitsSI (formatSI s) - s.toInt| ≤ s.toInt ∧
      readBack unitsSI (formatSI s) ≤ readBack unitsSI (formatSI t) :=
  ⟨printer_SI.close hs, printer_SI.le hs h⟩

theorem formatSI_reading_limit : formatSI 99949999999999999 = bytes "100.0P" ∧
    formatSI 99950000000000000 = bytes "100P" ∧
    readBack unitsSI (formatSI 99949999999999999) ≤ readBack unitsSI (formatSI 99950000000000000) :=
  ⟨by decide +kernel, by decide +kernel, (formatSI_reading (by decide) (by decide)).2⟩

theorem formatIEC_reading {s t : Int64} (hs : 0 ≤ s.toInt) (h : s.toInt ≤ t.toInt) :
    199 * |readBack unitsIEC (formatIEC s) - s.toInt| ≤ s.toInt ∧
      readBack unitsIEC (formatIEC s) ≤ readBack unitsIEC (formatIEC t) :=
  ⟨printer_IEC.close hs, printer_IEC.le hs h⟩

theorem formatIEC_reading_limit : formatIEC 1048063 = bytes "1023Ki" ∧
    formatIEC 1048064 = bytes "1.00Mi" ∧
    readBack unitsIEC (formatIEC 1048063) ≤ readBack unitsIEC (formatIEC 1048064) :=
  ⟨by decide +kernel, by decide +kernel, (formatIEC_reading (by decide) (by decide)).2⟩

end AcMuduo.LogStream
