import Mathlib.Data.Int.Init

namespace AcMuduo.CInt

/-- A value of an expression, if it is one of a 32-bit `int`. -/
def val (x : Int) : Option Int := if -2147483648 ≤ x ∧ x ≤ 2147483647 then some x else none

def add (x y : Int) : Option Int := val (x + y)

def sub (x y : Int) : Option Int := val (x - y)

def mul (x y : Int) : Option Int := val (x * y)

/-- Division truncates. -/
def div (x y : Int) : Option Int := if y = 0 then none else val (x.tdiv y)

/-- The remainder has the sign of the dividend. -/
def rem (x y : Int) : Option Int := if y = 0 then none else val (x.tmod y)

/-- Conversion to `int` from a wider type keeps the low 32 bits. -/
def narrow (x : Int) : Int := x.bmod 4294967296

/-- Conversion to `unsigned`. -/
def unsigned (x : Int) : Nat := (x % 4294967296).toNat

def sizeT (x : Int) : Nat := (x % 18446744073709551616).toNat

theorem bind_eq {α β : Type} {x : Option α} {a : α} {f : α → Option β} (h : x = some a) :
    x >>= f = f a := by
  rw [h]
  rfl

theorem val_eq {x : Int} (h : -2147483648 ≤ x) (h' : x ≤ 2147483647) : val x = some x :=
  if_pos ⟨h, h'⟩

theorem eq_of_val {x y : Int} (h : val x = some y) : y = x := by
  rw [val] at h
  split at h
  · exact (Option.some.inj h).symm
  · cases h

theorem bind_val {x : Int} {β : Type} {b : β} {f : Int → Option β} : val x >>= f = some b ↔
    (-2147483648 ≤ x ∧ x ≤ 2147483647) ∧ f x = some b := by
  rw [val]
  split <;> simp [*]

theorem add_eq {x y : Int} (h : -2147483648 ≤ x + y) (h' : x + y ≤ 2147483647) :
    add x y = some (x + y) := val_eq h h'

theorem sub_eq {x y : Int} (h : -2147483648 ≤ x - y) (h' : x - y ≤ 2147483647) :
    sub x y = some (x - y) := val_eq h h'

theorem mul_eq {x y : Int} (h : -2147483648 ≤ x * y) (h' : x * y ≤ 2147483647) :
    mul x y = some (x * y) := val_eq h h'

theorem div_eq {x y : Int} (h : 0 ≤ x) (h' : x ≤ 2147483647) (hy : 0 < y) :
    div x y = some (x / y) := by
  have hle : x / y ≤ x := Int.ediv_le_self y h
  have hpos : 0 ≤ x / y := Int.ediv_nonneg h (Int.le_of_lt hy)
  rw [div, if_neg (Int.ne_of_gt hy), Int.tdiv_eq_ediv_of_nonneg h]
  exact val_eq (by omega) (by omega)

theorem rem_eq {x y : Int} (h : 0 ≤ x) (h' : x ≤ 2147483647) (hy : 0 < y) :
    rem x y = some (x % y) := by
  have hpos : 0 ≤ x % y := Int.emod_nonneg x (Int.ne_of_gt hy)
  have hquot : 0 ≤ y * (x / y) := Int.mul_nonneg (Int.le_of_lt hy)
    (Int.ediv_nonneg h (Int.le_of_lt hy))
  have hsum := Int.emod_add_mul_ediv x y
  rw [rem, if_neg (Int.ne_of_gt hy), Int.tmod_eq_emod_of_nonneg h]
  exact val_eq (by omega) (by omega)

theorem narrow_eq {x : Int} (h : -2147483648 ≤ x) (h' : x ≤ 2147483647) : narrow x = x :=
  Int.bmod_eq_of_le (by omega) (by omega)

theorem narrow_le (x : Int) : narrow x ≤ 2147483647 := Int.bmod_le (by decide)

theorem narrow_le_self {x : Int} (h : 0 ≤ x) : narrow x ≤ x := by
  rw [narrow, Int.bmod]
  split
  · omega
  · omega

theorem unsigned_eq {x : Int} (h : 0 ≤ x) (h' : x < 4294967296) : (unsigned x : Int) = x := by
  rw [unsigned, Int.emod_eq_of_lt h h', Int.toNat_of_nonneg h]

theorem sizeT_eq {x : Int} (h : 0 ≤ x) (h' : x < 18446744073709551616) : sizeT x = x.toNat := by
  rw [sizeT, Int.emod_eq_of_lt h h']

theorem sizeT_of_neg {x : Int} (h : -2147483648 ≤ x) (h' : x < 0) :
    9223372036854775808 ≤ sizeT x := by
  rw [sizeT]
  omega

theorem tdiv_of_tmod_nonneg {x y : Int} (hy : 0 < y) (h : 0 ≤ x.tmod y) :
    x.tdiv y = x / y ∧ x.tmod y = x % y := by
  have hlt := Int.tmod_lt_of_pos x hy
  have hsum := Int.tmod_add_mul_tdiv x y
  exact (Int.ediv_emod_unique hy).mpr ⟨hsum, h, hlt⟩ |>.imp Eq.symm Eq.symm

theorem tdiv_of_tmod_neg {x y : Int} (hy : 0 < y) (h : x.tmod y < 0) :
    x.tdiv y - 1 = x / y ∧ x.tmod y + y = x % y := by
  have hlt := Int.lt_tmod_of_pos x hy
  have hsum := Int.tmod_add_mul_tdiv x y
  refine (Int.ediv_emod_unique hy).mpr ⟨?_, by omega, by omega⟩ |>.imp Eq.symm Eq.symm
  rw [Int.mul_sub]
  omega

end AcMuduo.CInt
