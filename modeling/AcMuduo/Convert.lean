import AcMuduo.FixedBuffer
import AcMuduo.Numeral

namespace AcMuduo.LogStream

def bytes (s : String) : List Byte := s.toByteArray.data.toList

def digits : List Byte := bytes "9876543210123456789"

/-- The pointer `zero` is to the middle of the digits. -/
def zero (lsd : Int) : Byte := digits.getD (9 + lsd).toNat 0

/-- The loop of `convert`. The quotient is rounded to zero, so each round leaves fewer digits. -/
def convert.loop : Nat → Int → List Byte
  | 0, _ => []
  | fuel + 1, i =>
    zero (i.tmod 10) :: if i.tdiv 10 = 0 then [] else convert.loop fuel (i.tdiv 10)

def convert (value : Int) : List Byte :=
  let p := convert.loop (value.natAbs + 1) value
  let p := if value < 0 then p ++ bytes "-" else p
  p.reverse

example : convert (-120) = bytes "-120" := by decide

def digitsHex : List Byte := bytes "0123456789ABCDEF"

def convertHex.loop : Nat → Nat → List Byte
  | 0, _ => []
  | fuel + 1, i =>
    digitsHex.getD (i % 16) 0 :: if i / 16 = 0 then [] else convertHex.loop fuel (i / 16)

def convertHex (value : UInt64) : List Byte :=
  (convertHex.loop (value.toNat + 1) value.toNat).reverse

example : convertHex 43981 = bytes "ABCD" := by decide

theorem zero_natAbs {lsd : Int} (h : lsd.natAbs < 10) : zero lsd = zero lsd.natAbs := by
  have hmirror : ∀ d < 10, zero (-(d : Nat)) = zero d := by decide
  cases lsd.natAbs_eq with
  | inl heq => rw [← heq]
  | inr heq => rw [heq, hmirror _ h, Int.natAbs_neg, Int.natAbs_natCast]

theorem convert.loop_eq {fuel : Nat} {i : Int} (h : i.natAbs < fuel) :
    convert.loop fuel i = (numeral 10 i.natAbs).map fun d : Nat => zero d := by
  induction fuel generalizing i with
  | zero => omega
  | succ fuel ih =>
    have hlsd : (i.tmod 10).natAbs = i.natAbs % 10 := Int.natAbs_tmod i 10
    have hrest : (i.tdiv 10).natAbs = i.natAbs / 10 := Int.natAbs_tdiv i 10
    have hlt : (i.tmod 10).natAbs < 10 := hlsd ▸ Nat.mod_lt _ (by decide)
    rw [convert.loop, numeral_step (by decide), List.map_cons, zero_natAbs hlt, hlsd, ← hrest]
    by_cases hzero : i.tdiv 10 = 0
    · simp [hzero]
    · rw [if_neg hzero, if_neg (Int.natAbs_ne_zero.mpr hzero), ih]
      omega

theorem convertHex.loop_eq {fuel i : Nat} (h : i < fuel) :
    convertHex.loop fuel i = (numeral 16 i).map fun d => digitsHex.getD d 0 := by
  induction fuel generalizing i with
  | zero => omega
  | succ fuel ih =>
    rw [convertHex.loop, numeral_step (by decide), List.map_cons]
    by_cases hzero : i / 16 = 0
    · simp [hzero]
    · rw [if_neg hzero, if_neg hzero, ih]
      omega

theorem convert_length_le {value : Int} (hlower : -2 ^ 63 ≤ value) (hupper : value < 2 ^ 64) :
    (convert value).length ≤ 20 := by
  rw [convert, List.length_reverse, convert.loop_eq (Nat.lt_succ_self _)]
  by_cases hneg : value < 0
  · have hlt : value.natAbs < 10 ^ 19 := by omega
    have hlength := numeral_length_le (by decide) (by decide) hlt
    rw [if_pos hneg, List.length_append, List.length_map]
    exact Nat.add_le_add_right hlength 1
  · have hlt : value.natAbs < 10 ^ 20 := by omega
    rw [if_neg hneg, List.length_map]
    exact numeral_length_le (by decide) (by decide) hlt

theorem convert_natCast_length_le {n k : Nat} (hk : 0 < k) (hn : n < 10 ^ k) :
    (convert n).length ≤ k := by
  rw [convert, List.length_reverse, convert.loop_eq (Nat.lt_succ_self _), if_neg (by omega),
    List.length_map, Int.natAbs_natCast]
  exact numeral_length_le (by decide) hk hn

theorem convertHex_length_le (value : UInt64) : (convertHex value).length ≤ 16 := by
  rw [convertHex, List.length_reverse, convertHex.loop_eq (Nat.lt_succ_self _), List.length_map]
  exact numeral_length_le (by decide) (by decide) value.toNat_lt

def newline : Byte := 10

theorem newline_notMem_convert (value : Int) : newline ∉ convert value := by
  have hdigit : ∀ d < 10, zero (d : Nat) ≠ newline := by decide
  have hdigits : newline ∉ (numeral 10 value.natAbs).map fun d : Nat => zero d := by
    intro hmem
    obtain ⟨d, hd, heq⟩ := List.mem_map.mp hmem
    exact hdigit d (numeral_lt (by decide) hd) heq
  rw [convert, List.mem_reverse, convert.loop_eq (Nat.lt_succ_self _)]
  by_cases hneg : value < 0
  · rw [if_pos hneg, List.mem_append, not_or]
    exact ⟨hdigits, by decide⟩
  · rwa [if_neg hneg]

end AcMuduo.LogStream
