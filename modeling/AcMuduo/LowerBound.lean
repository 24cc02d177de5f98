import Mathlib.Data.Nat.Init

namespace AcMuduo

/-- The loop of `std::lower_bound` on the indices from `first` on, `len` of them. Each round leaves
fewer of them. -/
def lowerBound.loop (less : Nat → Bool) : Nat → Nat → Nat → Nat
  | 0, first, _ => first
  | fuel + 1, first, len =>
    if len = 0 then first
    else if less (first + len / 2) then
      lowerBound.loop less fuel (first + len / 2 + 1) (len - len / 2 - 1)
    else lowerBound.loop less fuel first (len / 2)

def lowerBound (less : Nat → Bool) (n : Nat) : Nat := lowerBound.loop less n 0 n

theorem lowerBound.loop_eq {less : Nat → Bool} {k fuel first len : Nat} (hfuel : len ≤ fuel)
    (hfirst : first ≤ k) (hlast : k ≤ first + len) (hbelow : ∀ i, i < k → less i = true)
    (habove : ∀ i, k ≤ i → i < first + len → less i = false) :
    lowerBound.loop less fuel first len = k := by
  induction fuel generalizing first len with
  | zero =>
    rw [lowerBound.loop]
    omega
  | succ fuel ih =>
    rw [lowerBound.loop]
    by_cases hlen : len = 0
    · rw [if_pos hlen]
      omega
    · rw [if_neg hlen]
      by_cases hmid : first + len / 2 < k
      · rw [if_pos (hbelow _ hmid)]
        exact ih (by omega) (by omega) (by omega) fun i hk hi => habove i hk (by omega)
      · rw [habove _ (by omega) (by omega), if_neg (by decide)]
        exact ih (by omega) hfirst (by omega) fun i hk hi => habove i hk (by omega)

theorem lowerBound_eq {less : Nat → Bool} {k n : Nat} (hk : k ≤ n)
    (hbelow : ∀ i, i < k → less i = true) (habove : ∀ i, k ≤ i → i < n → less i = false) :
    lowerBound less n = k :=
  lowerBound.loop_eq (Nat.le_refl n) (Nat.zero_le k) (by omega) hbelow fun i hi hn =>
    habove i hi (by omega)

theorem lowerBound.loop_not_less {less : Nat → Bool} {n fuel first len : Nat} (hfuel : len ≤ fuel)
    (hlast : first + len = n ∨ less (first + len) = false) :
    lowerBound.loop less fuel first len = n ∨
      less (lowerBound.loop less fuel first len) = false := by
  induction fuel generalizing first len with
  | zero =>
    have hlen : len = 0 := by omega
    rw [lowerBound.loop]
    simpa [hlen] using hlast
  | succ fuel ih =>
    rw [lowerBound.loop]
    by_cases hlen : len = 0
    · rw [if_pos hlen]
      simpa [hlen] using hlast
    · rw [if_neg hlen]
      cases hmid : less (first + len / 2) with
      | true =>
        have hrest : first + len / 2 + 1 + (len - len / 2 - 1) = first + len := by omega
        rw [if_pos rfl]
        exact ih (by omega) (by rwa [hrest])
      | false =>
        rw [if_neg (by decide)]
        exact ih (by omega) (.inr hmid)

theorem lowerBound_not_less (less : Nat → Bool) (n : Nat) :
    lowerBound less n = n ∨ less (lowerBound less n) = false :=
  lowerBound.loop_not_less (Nat.le_refl n) (.inl (by omega))

end AcMuduo
