import Mathlib.Algebra.Order.Archimedean.Basic
import Mathlib.Data.Int.Log
import Mathlib.Tactic.FieldSimp
import Mathlib.Tactic.Linarith
import Mathlib.Tactic.Positivity
import Mathlib.Tactic.Ring

namespace AcMuduo.Rounding

variable {K : Type} [Field K] [LinearOrder K] [IsStrictOrderedRing K] [FloorRing K]

/-- The nearest integer; the even one of two. -/
def nearestEven (x : K) : ℤ :=
  if 2 * (x - ⌊x⌋) < 1 then ⌊x⌋ else if 1 < 2 * (x - ⌊x⌋) then ⌊x⌋ + 1 else ⌊x⌋ + ⌊x⌋ % 2

variable {x y : K} {p : ℕ}

omit [IsStrictOrderedRing K] in
theorem floor_le_nearestEven (x : K) : ⌊x⌋ ≤ nearestEven x ∧ nearestEven x ≤ ⌊x⌋ + 1 := by
  have hparity := Int.emod_nonneg ⌊x⌋ (b := 2) (by decide)
  have hparity' := Int.emod_lt_of_pos ⌊x⌋ (b := 2) (by decide)
  rw [nearestEven]
  split
  · omega
  · split <;> omega

@[simp] theorem nearestEven_intCast (n : ℤ) : nearestEven (n : K) = n := by
  simp [nearestEven]

@[simp] theorem nearestEven_natCast (n : ℕ) : nearestEven (n : K) = n := by
  exact_mod_cast nearestEven_intCast (K := K) n

@[simp] theorem nearestEven_zero : nearestEven (0 : K) = 0 := by
  exact_mod_cast nearestEven_intCast (K := K) 0

theorem nearestEven_mono (h : x ≤ y) : nearestEven x ≤ nearestEven y := by
  obtain ⟨-, hx⟩ := floor_le_nearestEven x
  obtain ⟨hy, -⟩ := floor_le_nearestEven y
  have hfloor : ⌊x⌋ ≤ ⌊y⌋ := Int.floor_le_floor h
  obtain hlt | heq := hfloor.lt_or_eq
  · omega
  have hparity := Int.emod_nonneg ⌊y⌋ (b := 2) (by decide)
  have hparity' := Int.emod_lt_of_pos ⌊y⌋ (b := 2) (by decide)
  -- with the same floor the fractional parts decide
  rw [nearestEven, nearestEven, heq]
  split_ifs with h₁ h₂ h₃ h₄ h₅
  all_goals first
    | omega
    | exact absurd h (by linarith)

theorem nearestEven_nonneg (h : 0 ≤ x) : 0 ≤ nearestEven x := by
  simpa only [nearestEven_zero] using nearestEven_mono h

theorem abs_nearestEven_sub_le (x : K) : |(nearestEven x : K) - x| ≤ 1 / 2 := by
  have hlow := Int.floor_le x
  have hhigh := Int.lt_floor_add_one x
  have hparity : (0 : K) ≤ (⌊x⌋ % 2 : ℤ) := by
    exact_mod_cast Int.emod_nonneg ⌊x⌋ (b := 2) (by decide)
  have hparity' : ((⌊x⌋ % 2 : ℤ) : K) ≤ 1 := by
    have hlt := Int.emod_lt_of_pos ⌊x⌋ (b := 2) (by decide)
    exact_mod_cast (by omega : ⌊x⌋ % 2 ≤ 1)
  rw [nearestEven, abs_le]
  split_ifs with h₁ h₂
  all_goals
    push_cast
    constructor <;> linarith

def ulp (p : ℕ) (x : K) : K := 2 ^ (Int.log 2 |x| - p + 1)

def toPrecision (p : ℕ) (x : K) : K := nearestEven (x / ulp p x) * ulp p x

theorem ulp_pos (p : ℕ) (x : K) : 0 < ulp p x := zpow_pos two_pos _

theorem toPrecision_le_of_lt (hx : 0 < x) : toPrecision p x ≤ 2 ^ (Int.log 2 x + 1) := by
  have hlt : x < 2 ^ (Int.log 2 x + 1) := by
    exact_mod_cast Int.lt_zpow_succ_log_self (b := 2) (by decide) x
  have hulp : ulp p x = 2 ^ (Int.log 2 x - p + 1) := by rw [ulp, abs_of_pos hx]
  have hsplit : (2 : K) ^ (Int.log 2 x + 1) = 2 ^ p * ulp p x := by
    rw [hulp, ← zpow_natCast, ← zpow_add₀ two_ne_zero]
    congr 1
    omega
  have hdiv : x / ulp p x ≤ ((2 ^ p : ℕ) : K) := by
    rw [div_le_iff₀ (ulp_pos p x)]
    push_cast
    exact (hlt.trans_eq hsplit).le
  have hround : nearestEven (x / ulp p x) ≤ (2 ^ p : ℕ) := by
    simpa only [nearestEven_natCast] using nearestEven_mono hdiv
  have hcast : ((nearestEven (x / ulp p x) : ℤ) : K) ≤ 2 ^ p := by
    exact_mod_cast hround
  rw [toPrecision, hsplit]
  exact mul_le_mul_of_nonneg_right hcast (ulp_pos p x).le

theorem le_toPrecision (hp : 1 ≤ p) (hx : 0 < x) : 2 ^ Int.log 2 x ≤ toPrecision p x := by
  have hle : 2 ^ Int.log 2 x ≤ x := by
    exact_mod_cast Int.zpow_log_le_self (b := 2) (by decide) hx
  have hulp : ulp p x = 2 ^ (Int.log 2 x - p + 1) := by rw [ulp, abs_of_pos hx]
  have hsplit : (2 : K) ^ Int.log 2 x = 2 ^ (p - 1) * ulp p x := by
    rw [hulp, ← zpow_natCast, ← zpow_add₀ two_ne_zero]
    congr 1
    omega
  have hdiv : ((2 ^ (p - 1) : ℕ) : K) ≤ x / ulp p x := by
    rw [le_div_iff₀ (ulp_pos p x)]
    push_cast
    exact hsplit.symm.trans_le hle
  have hround : (2 ^ (p - 1) : ℕ) ≤ nearestEven (x / ulp p x) := by
    simpa only [nearestEven_natCast] using nearestEven_mono hdiv
  have hcast : (2 : K) ^ (p - 1) ≤ (nearestEven (x / ulp p x) : ℤ) := by
    exact_mod_cast hround
  rw [toPrecision, hsplit]
  exact mul_le_mul_of_nonneg_right hcast (ulp_pos p x).le

theorem toPrecision_mono (hp : 1 ≤ p) (hx : 0 < x) (h : x ≤ y) :
    toPrecision p x ≤ toPrecision p y := by
  have hy : 0 < y := hx.trans_le h
  have hlog : Int.log 2 x ≤ Int.log 2 y := Int.log_mono_right hx h
  obtain hlt | heq := hlog.lt_or_eq
  · calc toPrecision p x ≤ 2 ^ (Int.log 2 x + 1) := toPrecision_le_of_lt hx
      _ ≤ 2 ^ Int.log 2 y := zpow_le_zpow_right₀ one_le_two hlt
      _ ≤ toPrecision p y := le_toPrecision hp hy
  · have hulp : ulp p x = ulp p y := by rw [ulp, ulp, abs_of_pos hx, abs_of_pos hy, heq]
    rw [toPrecision, toPrecision, hulp]
    apply mul_le_mul_of_nonneg_right _ (ulp_pos p y).le
    exact_mod_cast nearestEven_mono (div_le_div_of_nonneg_right h (ulp_pos p y).le)

theorem toPrecision_pos (hp : 1 ≤ p) (hx : 0 < x) : 0 < toPrecision p x :=
  (zpow_pos two_pos _).trans_le (le_toPrecision hp hx)

theorem abs_toPrecision_sub_le (hx : 0 < x) : |toPrecision p x - x| ≤ x / 2 ^ p := by
  have hle : 2 ^ Int.log 2 x ≤ x := by
    exact_mod_cast Int.zpow_log_le_self (b := 2) (by decide) hx
  have hpos := ulp_pos p x
  have hscale : (0 : K) < 2 * 2 ^ Int.log 2 x := mul_pos two_pos (zpow_pos two_pos _)
  have hulp : ulp p x * 2 ^ p = 2 * 2 ^ Int.log 2 x := by
    rw [ulp, abs_of_pos hx, ← zpow_natCast, ← zpow_add₀ two_ne_zero, ← zpow_one_add₀ two_ne_zero]
    congr 1
    omega
  have herror := abs_nearestEven_sub_le (x / ulp p x)
  have hscaled : toPrecision p x - x = (nearestEven (x / ulp p x) - x / ulp p x) * ulp p x := by
    rw [toPrecision, sub_mul, div_mul_cancel₀ _ hpos.ne']
  rw [hscaled, abs_mul, abs_of_pos hpos, le_div_iff₀ (by positivity), mul_assoc, hulp]
  calc |(nearestEven (x / ulp p x) : K) - x / ulp p x| * (2 * 2 ^ Int.log 2 x)
      ≤ 1 / 2 * (2 * 2 ^ Int.log 2 x) := mul_le_mul_of_nonneg_right herror hscale.le
    _ = 2 ^ Int.log 2 x := by ring
    _ ≤ x := hle

end AcMuduo.Rounding
