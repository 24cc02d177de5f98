import AcMuduo.FixedWidth

namespace AcMuduo

/-- A `string_piece`: the bytes from `ptr_` on, of which it is the first `length_`. -/
structure StringPiece where
  ptr : List UInt8
  length : Int

/-- One whose bytes are there. -/
structure StringPiece.Whole extends StringPiece where
  nonneg : 0 ≤ length
  le_length : length ≤ ptr.length

/-- The bytes are compared as numbers from 0 to 255, up to the first difference. -/
def memcmp : List UInt8 → List UInt8 → Nat → Int
  | b :: s, c :: t, n + 1 => if b = c then memcmp s t n else (b.toNat : Int) - c.toNat
  | _, _, _ => 0

namespace StringPiece

def empty : StringPiece := ⟨[], 0⟩

/-- The bytes of it, unless the length is negative. -/
def bytes (x : StringPiece) : Option (List UInt8) :=
  if 0 ≤ x.length then some (x.ptr.take x.length.toNat) else none

namespace Whole

def asString (x : Whole) : List UInt8 := x.ptr.take x.length.toNat

def removePrefix (x : Whole) (n : Int) (h : 0 ≤ n ∧ n ≤ x.length) : Whole where
  ptr := x.ptr.drop n.toNat
  length := x.length - n
  nonneg := by omega
  le_length := by
    have hle := x.le_length
    rw [List.length_drop]
    omega

def removeSuffix (x : Whole) (n : Int) (h : 0 ≤ n ∧ n ≤ x.length) : Whole where
  ptr := x.ptr
  length := x.length - n
  nonneg := by omega
  le_length := by
    have hle := x.le_length
    omega

def equal (x y : Whole) : Bool :=
  x.length = y.length && memcmp x.ptr y.ptr x.length.toNat = 0

def notEqual (x y : Whole) : Bool := !x.equal y

/-- The macro `STRINGPIECE_BINARY_PREDICATE`. -/
def binaryPredicate (cmp auxcmp : Int → Int → Bool) (x y : Whole) : Bool :=
  let r := memcmp x.ptr y.ptr (if x.length < y.length then x.length else y.length).toNat
  auxcmp r 0 || (r = 0 && cmp x.length y.length)

def less : Whole → Whole → Bool := binaryPredicate (· < ·) (· < ·)

def lessEqual : Whole → Whole → Bool := binaryPredicate (· ≤ ·) (· < ·)

def greaterEqual : Whole → Whole → Bool := binaryPredicate (· ≥ ·) (· > ·)

def greater : Whole → Whole → Bool := binaryPredicate (· > ·) (· > ·)

def compare (x y : Whole) : Int :=
  let r := memcmp x.ptr y.ptr (if x.length < y.length then x.length else y.length).toNat
  if r = 0 then
    if x.length < y.length then -1
    else if x.length > y.length then 1
    else r
  else r

def startWith (x y : Whole) : Bool :=
  x.length ≥ y.length && memcmp x.ptr y.ptr y.length.toNat = 0

end Whole

end StringPiece

variable {s t : List UInt8} {n : Nat} {x y : StringPiece.Whole}

theorem memcmp_eq_zero_iff (hs : n ≤ s.length) (ht : n ≤ t.length) :
    memcmp s t n = 0 ↔ s.take n = t.take n := by
  induction n generalizing s t with
  | zero => simp [memcmp]
  | succ n ih =>
    obtain ⟨b, s, rfl⟩ := List.exists_cons_of_length_pos (Nat.zero_lt_of_lt hs)
    obtain ⟨c, t, rfl⟩ := List.exists_cons_of_length_pos (Nat.zero_lt_of_lt ht)
    rw [memcmp, List.take_succ_cons, List.take_succ_cons, List.cons_eq_cons]
    by_cases hbc : b = c
    · rw [if_pos hbc, ih (Nat.le_of_succ_le_succ hs) (Nat.le_of_succ_le_succ ht)]
      exact (and_iff_right hbc).symm
    · rw [if_neg hbc]
      have hne : b.toNat ≠ c.toNat := fun h => hbc (UInt8.toNat_inj.mp h)
      exact iff_of_false (by omega) fun h => hbc h.1

theorem memcmp_neg_iff (hs : n ≤ s.length) (ht : n ≤ t.length) :
    memcmp s t n < 0 ↔ s.take n < t.take n := by
  induction n generalizing s t with
  | zero => simp [memcmp]
  | succ n ih =>
    obtain ⟨b, s, rfl⟩ := List.exists_cons_of_length_pos (Nat.zero_lt_of_lt hs)
    obtain ⟨c, t, rfl⟩ := List.exists_cons_of_length_pos (Nat.zero_lt_of_lt ht)
    rw [memcmp, List.take_succ_cons, List.take_succ_cons, List.cons_lt_cons_iff]
    by_cases hbc : b = c
    · rw [if_pos hbc, ih (Nat.le_of_succ_le_succ hs) (Nat.le_of_succ_le_succ ht)]
      subst hbc
      simp
    · rw [if_neg hbc, UInt8.lt_iff_toNat_lt]
      have hne : ¬ (b = c ∧ s.take n < t.take n) := fun h => hbc h.1
      rw [or_iff_left hne]
      omega

theorem memcmp_swap (s t : List UInt8) (n : Nat) : memcmp t s n = -memcmp s t n := by
  induction n generalizing s t with
  | zero => cases s <;> cases t <;> rfl
  | succ n ih =>
    cases s with
    | nil => cases t <;> rfl
    | cons b s =>
      cases t with
      | nil => rfl
      | cons c t =>
        rw [memcmp, memcmp, ih s t]
        by_cases hbc : b = c
        · rw [if_pos hbc, if_pos hbc.symm]
        · rw [if_neg hbc, if_neg (Ne.symm hbc)]
          omega

namespace StringPiece

namespace Whole

theorem bytes_eq (x : Whole) : x.bytes = some x.asString := if_pos x.nonneg

theorem length_asString (x : Whole) : (x.asString.length : Int) = x.length := by
  have hpos := x.nonneg
  have hle := x.le_length
  rw [asString, List.length_take]
  omega

def common (x y : Whole) : Nat := (if x.length < y.length then x.length else y.length).toNat

theorem common_comm (x y : Whole) : common x y = common y x := by
  rw [common, common]
  split <;> split <;> omega

theorem common_le (x y : Whole) : common x y ≤ x.ptr.length := by
  have hpos := x.nonneg
  have hle := x.le_length
  rw [common]
  split <;> omega

theorem take_common (x y : Whole) :
    x.ptr.take (common x y) = x.asString.take (common x y) := by
  have hpos := x.nonneg
  rw [asString, List.take_take]
  congr 1
  rw [common]
  split <;> omega

theorem lt_of_memcmp_neg (h : memcmp x.ptr y.ptr (common x y) < 0) : x.asString < y.asString := by
  rw [memcmp_neg_iff (common_le x y) (common_comm x y ▸ common_le y x), take_common,
    common_comm, take_common y x, common_comm] at h
  have hlength : (x.asString.take (common x y)).length = (y.asString.take (common x y)).length := by
    have hx := length_asString x
    have hy := length_asString y
    have hpos := x.nonneg
    have hpos' := y.nonneg
    rw [List.length_take, List.length_take, common]
    split <;> omega
  have happend := append_lt_append hlength h (x.asString.drop (common x y))
    (y.asString.drop (common x y))
  rwa [List.take_append_drop, List.take_append_drop] at happend

theorem prefix_of_memcmp_zero (h : memcmp x.ptr y.ptr (common x y) = 0)
    (hle : x.length ≤ y.length) : x.asString <+: y.asString := by
  have hcommon : common x y = x.length.toNat := by
    rw [common]
    split <;> omega
  rw [memcmp_eq_zero_iff (common_le x y) (common_comm x y ▸ common_le y x), take_common,
    common_comm, take_common y x, common_comm, hcommon] at h
  have hwhole : x.asString.take x.length.toNat = x.asString := by
    apply List.take_of_length_le
    have hx := length_asString x
    omega
  rw [hwhole] at h
  rw [h]
  exact List.take_prefix _ _

theorem eq_of_memcmp_zero (h : memcmp x.ptr y.ptr (common x y) = 0)
    (heq : x.length = y.length) : x.asString = y.asString := by
  refine (prefix_of_memcmp_zero h heq.le).eq_of_length ?_
  have hx := length_asString x
  have hy := length_asString y
  omega

theorem lt_of_memcmp_zero (h : memcmp x.ptr y.ptr (common x y) = 0) (hlt : x.length < y.length) :
    x.asString < y.asString := by
  obtain ⟨rest, hrest⟩ := prefix_of_memcmp_zero h hlt.le
  have hx := length_asString x
  have hy := length_asString y
  rw [← hrest, List.length_append] at hy
  obtain ⟨b, rest, rfl⟩ := List.exists_cons_of_length_pos (show 0 < rest.length by omega)
  have hlast : x.asString ++ [] < x.asString ++ (b :: rest) :=
    List.append_left_lt (List.nil_lt_cons b rest)
  rwa [List.append_nil, hrest] at hlast

inductive Compared (x y : Whole) (r : Int) : Prop
  | before (h : x.asString < y.asString) (hr : r < 0 ∨ r = 0 ∧ x.length < y.length)
  | same (h : x.asString = y.asString) (hr : r = 0) (hlength : x.length = y.length)
  | after (h : y.asString < x.asString) (hr : 0 < r ∨ r = 0 ∧ y.length < x.length)

theorem compared (x y : Whole) : Compared x y (memcmp x.ptr y.ptr (common x y)) := by
  have hswap := memcmp_swap x.ptr y.ptr (common x y)
  rw [common_comm] at hswap
  obtain hneg | hzero | hpos := lt_trichotomy (memcmp x.ptr y.ptr (common x y)) 0
  · exact .before (lt_of_memcmp_neg hneg) (.inl hneg)
  · have hzero' : memcmp y.ptr x.ptr (common y x) = 0 := by
      rw [hswap, common_comm, hzero]
      rfl
    obtain hlt | heq | hgt := lt_trichotomy x.length y.length
    · exact .before (lt_of_memcmp_zero hzero hlt) (.inr ⟨hzero, hlt⟩)
    · exact .same (eq_of_memcmp_zero hzero heq) hzero heq
    · exact .after (lt_of_memcmp_zero hzero' hgt) (.inr ⟨hzero, hgt⟩)
  · have hneg' : memcmp y.ptr x.ptr (common y x) < 0 := by
      rw [hswap, common_comm y x]
      omega
    exact .after (lt_of_memcmp_neg hneg') (.inl hpos)

theorem binaryPredicate_eq (cmp auxcmp : Int → Int → Bool) (x y : Whole) :
    binaryPredicate cmp auxcmp x y = (auxcmp (memcmp x.ptr y.ptr (common x y)) 0 ||
      (memcmp x.ptr y.ptr (common x y) = 0 && cmp x.length y.length)) := rfl

theorem compare_eq (x y : Whole) : x.compare y =
    if memcmp x.ptr y.ptr (common x y) = 0 then
      if x.length < y.length then -1 else if x.length > y.length then 1 else 0
    else memcmp x.ptr y.ptr (common x y) := by
  rw [compare, ← common]
  split
  · rename_i hzero
    rw [hzero]
  · rfl

theorem equal_iff (x y : Whole) :
    x.equal y = true ↔ x.length = y.length ∧ memcmp x.ptr y.ptr (common x y) = 0 := by
  rw [equal, Bool.and_eq_true, decide_eq_true_iff, decide_eq_true_iff]
  refine and_congr_right fun hlength => ?_
  have hcommon : common x y = x.length.toNat := by
    rw [common]
    split <;> omega
  rw [hcommon]

theorem asString_removePrefix (x : Whole) (n : Int) (h : 0 ≤ n ∧ n ≤ x.length) :
    (x.removePrefix n h).asString = x.asString.drop n.toNat := by
  have hlength : (x.length - n).toNat = x.length.toNat - n.toNat := by omega
  simp only [asString, removePrefix, List.drop_take, hlength]

theorem asString_removeSuffix (x : Whole) (n : Int) (h : 0 ≤ n ∧ n ≤ x.length) :
    (x.removeSuffix n h).asString = x.asString.take (x.length - n).toNat := by
  have hlength : min (x.length - n).toNat x.length.toNat = (x.length - n).toNat := by omega
  simp only [asString, removeSuffix, List.take_take, hlength]

theorem startWith_iff (x y : Whole) : x.startWith y = true ↔
    ∃ h, x.asString = y.asString ++ (x.removePrefix y.length h).asString := by
  have hx := length_asString x
  have hy := length_asString y
  have hle := x.le_length
  have hle' := y.le_length
  have hpos := y.nonneg
  rw [startWith, Bool.and_eq_true, decide_eq_true_iff, decide_eq_true_iff]
  have htake : y.length ≤ x.length → (memcmp x.ptr y.ptr y.length.toNat = 0 ↔
      x.asString.take y.length.toNat = y.asString) := by
    intro hlength
    rw [memcmp_eq_zero_iff (by omega) (by omega), asString, List.take_take, asString]
    congr! 2
    omega
  constructor
  · rintro ⟨hlength, hzero⟩
    refine ⟨⟨hpos, hlength⟩, ?_⟩
    rw [asString_removePrefix, ← (htake hlength).mp hzero, List.take_append_drop]
  · rintro ⟨⟨_, hlength⟩, heq⟩
    refine ⟨hlength, (htake hlength).mpr ?_⟩
    rw [heq]
    exact List.take_left' (by omega)

end Whole

/-- The operators and `compare` all follow the lexicographic order of the bytes. -/
theorem operators_lexicographic (x y : Whole) :
    (x.less y = true ↔ x.asString < y.asString) ∧
    (x.lessEqual y = true ↔ x.asString ≤ y.asString) ∧
    (x.greaterEqual y = true ↔ y.asString ≤ x.asString) ∧
    (x.greater y = true ↔ y.asString < x.asString) ∧
    (x.equal y = true ↔ x.asString = y.asString) ∧
    (x.notEqual y = true ↔ x.asString ≠ y.asString) ∧
    (x.compare y < 0 ↔ x.asString < y.asString) ∧
    (x.compare y = 0 ↔ x.asString = y.asString) ∧
    (0 < x.compare y ↔ y.asString < x.asString) := by
  have hcompared := Whole.compared x y
  rw [Whole.notEqual, Bool.not_eq_true', ← Bool.not_eq_true, Whole.equal_iff, Whole.compare_eq,
    Whole.less, Whole.lessEqual, Whole.greaterEqual, Whole.greater]
  simp only [Whole.binaryPredicate_eq, Bool.or_eq_true, Bool.and_eq_true, decide_eq_true_iff]
  generalize memcmp x.ptr y.ptr (Whole.common x y) = r at *
  cases hcompared with
  | before h hr =>
    have hasymm := List.lt_asymm h
    have hne : x.asString ≠ y.asString := fun heq => List.lt_irrefl _ (heq ▸ h)
    refine ⟨iff_of_true ?_ h, iff_of_true ?_ hasymm, iff_of_false ?_ (not_not.mpr h),
      iff_of_false ?_ hasymm, iff_of_false ?_ hne, iff_of_true ?_ hne, iff_of_true ?_ h,
      iff_of_false ?_ hne, iff_of_false ?_ hasymm⟩ <;> omega
  | same h hr hlength =>
    have hirrefl : ¬ x.asString < y.asString := h ▸ List.lt_irrefl _
    have hirrefl' : ¬ y.asString < x.asString := h ▸ List.lt_irrefl _
    refine ⟨iff_of_false ?_ hirrefl, iff_of_true ?_ hirrefl', iff_of_true ?_ hirrefl,
      iff_of_false ?_ hirrefl', iff_of_true ?_ h, iff_of_false ?_ (not_not.mpr h),
      iff_of_false ?_ hirrefl, iff_of_true ?_ h, iff_of_false ?_ hirrefl'⟩ <;> omega
  | after h hr =>
    have hasymm := List.lt_asymm h
    have hne : x.asString ≠ y.asString := fun heq => List.lt_irrefl _ (heq ▸ h)
    refine ⟨iff_of_false ?_ hasymm, iff_of_false ?_ (not_not.mpr h), iff_of_true ?_ hasymm,
      iff_of_true ?_ h, iff_of_false ?_ hne, iff_of_true ?_ hne, iff_of_false ?_ hasymm,
      iff_of_false ?_ hne, iff_of_true ?_ h⟩ <;> omega

end StringPiece

end AcMuduo
