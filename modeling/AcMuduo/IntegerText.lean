import AcMuduo.Glyphs
import AcMuduo.LogStreamMemory

namespace AcMuduo

open Machine LogStream

/-- What `convert` uses of its type, and what that is for the values. A division rounds to zero. -/
class Integral (T : Type) extends Zero T, OfNat T 10, Div T, Mod T, LT T where
  toInt : T → Int
  toInt_injective : Function.Injective toInt
  toInt_zero : toInt 0 = 0
  toInt_div_ten (i : T) : toInt (i / 10) = (toInt i).tdiv 10
  toInt_mod_ten (i : T) : toInt (i % 10) = (toInt i).tmod 10
  lt_zero_iff (i : T) : i < 0 ↔ toInt i < 0
  le_toInt (i : T) : -2 ^ 63 ≤ toInt i
  toInt_lt (i : T) : toInt i < 2 ^ 64

instance : Integral Int32 where
  zero := 0
  ofNat := 10
  toInt := Int32.toInt
  toInt_injective _ _ := Int32.toInt_inj.mp
  toInt_zero := rfl
  toInt_div_ten i := Int32.toInt_div_of_ne_right i 10 (by decide)
  toInt_mod_ten i := Int32.toInt_mod i 10
  lt_zero_iff _ := Int32.lt_iff_toInt_lt
  le_toInt i := le_trans (by decide) i.le_toInt
  toInt_lt i := lt_trans i.toInt_lt (by decide)

instance : Integral Int64 where
  zero := 0
  ofNat := 10
  toInt := Int64.toInt
  toInt_injective _ _ := Int64.toInt_inj.mp
  toInt_zero := rfl
  toInt_div_ten i := Int64.toInt_div_of_ne_right i 10 (by decide)
  toInt_mod_ten i := Int64.toInt_mod i 10
  lt_zero_iff _ := Int64.lt_iff_toInt_lt
  le_toInt := Int64.le_toInt
  toInt_lt i := lt_trans i.toInt_lt (by decide)

instance : Integral UInt32 where
  zero := 0
  ofNat := 10
  toInt i := i.toNat
  toInt_injective _ _ h := UInt32.toNat_inj.mp (Int.ofNat_inj.mp h)
  toInt_zero := rfl
  toInt_div_ten i := congrArg Int.ofNat (UInt32.toNat_div i 10)
  toInt_mod_ten i := congrArg Int.ofNat (UInt32.toNat_mod i 10)
  lt_zero_iff i := iff_of_false UInt32.not_lt_zero (by omega)
  le_toInt i := by omega
  toInt_lt i := lt_trans (Int.ofNat_lt.mpr i.toNat_lt) (by decide)

instance : Integral UInt64 where
  zero := 0
  ofNat := 10
  toInt i := i.toNat
  toInt_injective _ _ h := UInt64.toNat_inj.mp (Int.ofNat_inj.mp h)
  toInt_zero := rfl
  toInt_div_ten i := congrArg Int.ofNat (UInt64.toNat_div i 10)
  toInt_mod_ten i := congrArg Int.ofNat (UInt64.toNat_mod i 10)
  lt_zero_iff i := iff_of_false UInt64.not_lt_zero (by omega)
  le_toInt i := by omega
  toInt_lt i := Int.ofNat_lt.mpr i.toNat_lt

/-- A value of a type that `convert` is instantiated with. A `long` has 64 bits, and the shorter
types are cast to `int` and `unsigned int`. -/
inductive IntegerValue where
  | int (v : Int32)
  | unsignedInt (v : UInt32)
  | long (v : Int64)
  | unsignedLong (v : UInt64)
  | longLong (v : Int64)
  | unsignedLongLong (v : UInt64)

def IntegerValue.toInt : IntegerValue → Int
  | .int v => Integral.toInt v
  | .unsignedInt v => Integral.toInt v
  | .long v => Integral.toInt v
  | .unsignedLong v => Integral.toInt v
  | .longLong v => Integral.toInt v
  | .unsignedLongLong v => Integral.toInt v

theorem IntegerValue.bounds (x : IntegerValue) : -2 ^ 63 ≤ x.toInt ∧ x.toInt < 2 ^ 64 := by
  cases x <;> exact ⟨Integral.le_toInt _, Integral.toInt_lt _⟩

theorem Integral.eq_zero_iff {T : Type} [Integral T] (i : T) : i = 0 ↔ toInt i = 0 := by
  constructor
  · rintro rfl
    exact toInt_zero
  · intro h
    exact toInt_injective (h.trans toInt_zero.symm)

namespace RawBuffer

variable {size : Nat}

section

variable {T : Type} [DecidableEq T] [Integral T]

/-- `convert`, where all the arithmetic is that of its type. -/
def convertAs [DecidableLT T] (data : Vector Byte size) (buf : Nat) (value : T) :
    Except (Stop Fault) (Vector Byte size × Nat) := do
  let (data, p) ← storeDigits (fun i : T => zero (Integral.toInt (i % 10))) (fun i => i / 10)
    ((Integral.toInt value).natAbs + 1) value data buf
  if value < 0 then
    let data ← inBounds (Memory.store data p 45)
    terminate data buf (p + 1)
  else terminate data buf p

theorem storeDigits_integral (fuel : Nat) (i : T) (data : Vector Byte size) (p : Nat) :
    storeDigits (fun i : T => zero (Integral.toInt (i % 10))) (fun i => i / 10) fuel i data p =
      storeDigits (fun i : Int => zero (i.tmod 10)) (fun i => i.tdiv 10) fuel (Integral.toInt i)
        data p := by
  induction fuel generalizing i data p with
  | zero => rfl
  | succ fuel ih =>
    rw [storeDigits, storeDigits, Integral.toInt_mod_ten, ← Integral.toInt_div_ten]
    simp only [ih, Integral.eq_zero_iff]

theorem convertAs_eq [DecidableLT T] (data : Vector Byte size) (buf : Nat) (value : T) :
    convertAs data buf value = convert data buf (Integral.toInt value) := by
  rw [convertAs, convert, storeDigits_integral]
  simp only [Integral.lt_zero_iff]

end

def convertValue (data : Vector Byte size) (buf : Nat) :
    IntegerValue → Except (Stop Fault) (Vector Byte size × Nat)
  | .int v => convertAs data buf v
  | .unsignedInt v => convertAs data buf v
  | .long v => convertAs data buf v
  | .unsignedLong v => convertAs data buf v
  | .longLong v => convertAs data buf v
  | .unsignedLongLong v => convertAs data buf v

theorem convertValue_eq (data : Vector Byte size) (buf : Nat) (x : IntegerValue) :
    convertValue data buf x = convert data buf x.toInt := by
  cases x <;> exact convertAs_eq data buf _

end RawBuffer

namespace LogStream

def decimal : Glyphs Byte 10 where
  glyph d := .ofNat (48 + d)
  digit c := c.toNat - 48
  digit_glyph := by decide

def upperHex : Glyphs Byte 16 where
  glyph d := .ofNat (if d < 10 then 48 + d else 55 + d)
  digit c := if c.toNat < 58 then c.toNat - 48 else c.toNat - 55
  digit_glyph := by decide

def minus : Byte := 45

theorem decimal_glyph_ne_minus : ∀ d < 10, decimal.glyph d ≠ minus := by decide

theorem zero_eq_glyph : ∀ d < 10, zero (d : Nat) = decimal.glyph d := by decide

theorem digitsHex_eq_glyph : ∀ d < 16, digitsHex.getD d 0 = upperHex.glyph d := by decide

theorem convert_eq_signed (value : Int) : convert value = decimal.signed minus value := by
  have hdigits : (convert.loop (value.natAbs + 1) value).reverse =
      decimal.written value.natAbs := by
    rw [convert.loop_eq (Nat.lt_succ_self _), List.reverse_eq_iff, Glyphs.written_reverse]
    exact List.map_congr_left fun d hd => zero_eq_glyph d (numeral_lt (by decide) hd)
  rw [convert, Glyphs.signed, ← hdigits]
  by_cases hneg : value < 0
  · rw [if_pos hneg, if_pos hneg, List.reverse_append]
    rfl
  · rw [if_neg hneg, if_neg hneg, List.nil_append]

theorem convert_natCast (n : Nat) : convert n = decimal.written n := by
  rw [convert_eq_signed, Glyphs.signed, if_neg (by omega), List.nil_append, Int.natAbs_natCast]

theorem convertHex_eq_written (value : UInt64) :
    convertHex value = upperHex.written value.toNat := by
  rw [convertHex, convertHex.loop_eq (Nat.lt_succ_self _), List.reverse_eq_iff,
    Glyphs.written_reverse]
  exact List.map_congr_left fun d hd => digitsHex_eq_glyph d (numeral_lt (by decide) hd)

end LogStream

namespace RawBuffer

variable {size : Nat}

/-- A value has one numeral, of at most `k` bytes. It is written with a zero after it, its length is
returned, and the other bytes are left. -/
def WritesNumeral (write : Except (Stop Fault) (Vector Byte size × Nat)) (data : Vector Byte size)
    (buf k : Nat) (Numeral : List Byte → Prop) : Prop :=
  ∃ text, (∀ t, Numeral t ↔ t = text) ∧ text.length ≤ k ∧ (buf + text.length < size →
    ∃ w, write = .ok (w, text.length) ∧ Memory.Writes data w buf (text ++ [0]))

theorem convertValue_writes (data : Vector Byte size) (buf : Nat) (x : IntegerValue) :
    WritesNumeral (convertValue data buf x) data buf 20
      (decimal.IsSignedNumeral minus x.toInt) := by
  refine ⟨LogStream.convert x.toInt, fun t => ?_, ?_, fun hfits => ?_⟩
  · rw [Glyphs.isSignedNumeral_iff (by decide), convert_eq_signed]
  · exact convert_length_le x.bounds.1 x.bounds.2
  · rw [convertValue_eq]
    exact convert_writes data hfits

theorem convertHex_writes_numeral (data : Vector Byte size) (buf : Nat) (v : UInt64) :
    WritesNumeral (convertHex data buf v) data buf 16
      (upperHex.IsNumeral v.toNat) := by
  refine ⟨LogStream.convertHex v, fun t => ?_, convertHex_length_le v, convertHex_writes data⟩
  rw [Glyphs.isNumeral_iff (by decide), convertHex_eq_written]

/-- Every value is written as its numeral, from which it is read again. -/
theorem integers_written_exactly (data : Vector Byte size) (buf : Nat) :
    (∀ x : IntegerValue, WritesNumeral (convertValue data buf x) data buf 20
      (decimal.IsSignedNumeral minus x.toInt)) ∧
    (∀ v : UInt64, WritesNumeral (convertHex data buf v) data buf 16
      (upperHex.IsNumeral v.toNat)) ∧
    (∀ (x : IntegerValue) t, decimal.IsSignedNumeral minus x.toInt t →
      decimal.signedValue minus t = x.toInt) ∧
    (∀ (x y : IntegerValue) t, decimal.IsSignedNumeral minus x.toInt t →
      decimal.IsSignedNumeral minus y.toInt t → x.toInt = y.toInt) ∧
    ∀ (v w : UInt64) t, upperHex.IsNumeral v.toNat t → upperHex.IsNumeral w.toNat t → v = w := by
  have hread : ∀ (x : IntegerValue) t, decimal.IsSignedNumeral minus x.toInt t →
      decimal.signedValue minus t = x.toInt := by
    intro x t ht
    rw [(Glyphs.isSignedNumeral_iff (by decide)).mp ht]
    exact Glyphs.signedValue_signed (by decide) decimal_glyph_ne_minus x.toInt
  refine ⟨convertValue_writes data buf, convertHex_writes_numeral data buf, hread, ?_, ?_⟩
  · intro x y t hx hy
    exact (hread x t hx).symm.trans (hread y t hy)
  · intro v w t hv hw
    exact UInt64.toNat_inj.mp (hv.2.symm.trans hw.2)

theorem integers_written_exactly_long_min :
    ∃ w, convertValue (.replicate 24 7) 2 (.long Int64.minValue) = .ok (w, 20) ∧
      Memory.Writes (.replicate 24 7) w 2 (bytes "-9223372036854775808" ++ [0]) := by
  obtain ⟨text, honly, -, hwrite⟩ :=
    (integers_written_exactly (.replicate 24 7) 2).1 (.long Int64.minValue)
  have htext : bytes "-9223372036854775808" = text :=
    (honly _).mp ((Glyphs.isSignedNumeral_iff (by decide)).mpr
      (convert_eq_signed Int64.minValue.toInt ▸ by decide))
  subst text
  exact hwrite (by decide)

end RawBuffer

end AcMuduo
