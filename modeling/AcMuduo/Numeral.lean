import Mathlib.Data.Nat.Digits.Lemmas

namespace AcMuduo

/-- The digits of a number from the last one on. Zero has one digit as well. -/
def numeral (b n : Nat) : List Nat := if n = 0 then [0] else Nat.digits b n

variable {b n : Nat}

theorem numeral_step (hb : 1 < b) :
    numeral b n = n % b :: if n / b = 0 then [] else numeral b (n / b) := by
  by_cases hn : n = 0
  · simp [numeral, hn]
  · rw [numeral, if_neg hn, Nat.digits_def' hb (Nat.pos_of_ne_zero hn)]
    by_cases hrest : n / b = 0
    · simp [hrest]
    · simp [numeral, hrest]

theorem numeral_lt (hb : 1 < b) {d : Nat} (hd : d ∈ numeral b n) : d < b := by
  by_cases hn : n = 0
  · rw [numeral, if_pos hn, List.mem_singleton] at hd
    omega
  · rw [numeral, if_neg hn] at hd
    exact Nat.digits_lt_base hb hd

theorem numeral_length_le (hb : 1 < b) {k : Nat} (hk : 0 < k) (hn : n < b ^ k) :
    (numeral b n).length ≤ k := by
  by_cases hzero : n = 0
  · simpa [numeral, hzero] using Nat.succ_le_of_lt hk
  · rw [numeral, if_neg hzero]
    exact (Nat.digits_length_le_iff hb n).mpr hn

theorem ofDigits_numeral (b n : Nat) : Nat.ofDigits b (numeral b n) = n := by
  by_cases hn : n = 0
  · simp [numeral, hn]
  · rw [numeral, if_neg hn, Nat.ofDigits_digits]

theorem numeral_getLast? (h : (numeral b n).getLast? = some 0) : n = 0 := by
  by_contra hn
  rw [numeral, if_neg hn, List.getLast?_eq_some_getLast (Nat.digits_ne_nil_iff_ne_zero.mpr hn)] at h
  exact Nat.getLast_digit_ne_zero b hn (Option.some.inj h)

theorem numeral_ofDigits (hb : 1 < b) {ds : List Nat} (hlt : ∀ d ∈ ds, d < b) (hne : ds ≠ [])
    (hleading : ds.getLast? = some 0 → ds = [0]) : numeral b (Nat.ofDigits b ds) = ds := by
  by_cases hzero : ds.getLast? = some 0
  · rw [hleading hzero]
    simp [numeral]
  · have hdigits : Nat.digits b (Nat.ofDigits b ds) = ds := by
      refine Nat.digits_ofDigits b hb ds hlt fun hne' hlast => hzero ?_
      rw [List.getLast?_eq_some_getLast hne', hlast]
    have hn : Nat.ofDigits b ds ≠ 0 := by
      intro hn
      rw [hn, Nat.digits_zero] at hdigits
      exact hne hdigits.symm
    rw [numeral, if_neg hn, hdigits]

end AcMuduo
