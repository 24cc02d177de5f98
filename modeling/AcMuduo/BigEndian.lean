import Mathlib.Algebra.GroupWithZero.Nat
import Mathlib.Data.List.Induction

namespace AcMuduo.BigEndian

variable {k n : Nat} {bs : List UInt8}

def value (bs : List UInt8) : Nat := bs.foldl (fun n b => n * 256 + b.toNat) 0

def bytes : Nat → Nat → List UInt8
  | 0, _ => []
  | k + 1, n => bytes k (n / 256) ++ [UInt8.ofNat n]

@[simp] theorem value_append (bs : List UInt8) (b : UInt8) :
    value (bs ++ [b]) = value bs * 256 + b.toNat := by
  simp [value]

@[simp] theorem length_bytes (k n : Nat) : (bytes k n).length = k := by
  induction k generalizing n with
  | zero => rfl
  | succ k ih => simp [bytes, ih]

theorem value_lt (bs : List UInt8) : value bs < 256 ^ bs.length := by
  induction bs using List.reverseRecOn with
  | nil => simp [value]
  | append_singleton bs b ih =>
    have hb : b.toNat < 256 := b.toNat_lt
    simp only [value_append, List.length_append, List.length_singleton, Nat.pow_succ]
    omega

theorem value_bytes (h : n < 256 ^ k) : value (bytes k n) = n := by
  induction k generalizing n with
  | zero =>
    have hn : n = 0 := by simpa using h
    rw [hn]
    rfl
  | succ k ih =>
    have hdiv : n / 256 < 256 ^ k := by
      rw [Nat.pow_succ] at h
      omega
    have hlast : (UInt8.ofNat n).toNat = n % 256 := rfl
    rw [bytes, value_append, ih hdiv, hlast]
    omega

theorem bytes_value (bs : List UInt8) : bytes bs.length (value bs) = bs := by
  induction bs using List.reverseRecOn with
  | nil => rfl
  | append_singleton bs b ih =>
    have hb : b.toNat < 256 := b.toNat_lt
    have hdiv : (value bs * 256 + b.toNat) / 256 = value bs := by omega
    have hlast : UInt8.ofNat (value bs * 256 + b.toNat) = b := by
      apply UInt8.toNat_inj.mp
      have hmod : (UInt8.ofNat (value bs * 256 + b.toNat)).toNat =
          (value bs * 256 + b.toNat) % 256 := rfl
      omega
    rw [value_append, List.length_append, List.length_singleton, bytes, hdiv, ih, hlast]

end AcMuduo.BigEndian
