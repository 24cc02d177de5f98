import Mathlib.Data.Int.CardIntervalMod
import Mathlib.Data.List.Nodup

namespace AcMuduo.RoundRobin

variable {α : Type} {l : List α} {a b : α} {i j k m n : Nat}

/-- The elements whose turn it is in `m` rounds, of which the first one is that at `k`. -/
def turns (l : List α) (k m : Nat) : List α :=
  (List.range m).filterMap fun i => l[(k + i) % l.length]?

theorem turns_zero (l : List α) (k : Nat) : turns l k 0 = [] := rfl

theorem turns_succ (l : List α) (k m : Nat) :
    turns l k (m + 1) = turns l k m ++ l[(k + m) % l.length]?.toList := by
  rw [turns, List.range_succ, List.filterMap_append, turns]
  rfl

theorem turns_cons (l : List α) (k m : Nat) :
    turns l k (m + 1) = l[k % l.length]?.toList ++ turns l (k + 1) m := by
  induction m with
  | zero => rw [turns_succ, turns_zero, turns_zero, List.append_nil]; rfl
  | succ m ih =>
    rw [turns_succ, ih, turns_succ l (k + 1) m, List.append_assoc]
    have hsum : k + (m + 1) = k + 1 + m := by omega
    rw [hsum]

theorem turns_mod (l : List α) (k m : Nat) : turns l (k % l.length) m = turns l k m := by
  rw [turns, turns]
  congr 1
  funext i
  rw [Nat.mod_add_mod]

theorem mem_of_mem_turns (h : a ∈ turns l k m) : a ∈ l := by
  obtain ⟨i, -, hi⟩ := List.mem_filterMap.mp h
  exact List.mem_of_getElem? hi

theorem add_mod_eq_iff (hj : j < n) : (k + i) % n = j ↔ i ≡ j + n - k % n [MOD n] := by
  have hk := Nat.mod_lt k (Nat.zero_lt_of_lt hj)
  have hshift : k % n + (j + n - k % n) = j + n := by omega
  have hsame : (j + n) % n = j := by rw [Nat.add_mod_right, Nat.mod_eq_of_lt hj]
  have hleft : (k + i) % n = (k % n + i) % n := (Nat.mod_add_mod k n i).symm
  rw [hleft]
  constructor
  · intro h
    apply Nat.ModEq.add_left_cancel' (k % n)
    rw [hshift, Nat.ModEq, h, hsame]
  · intro h
    have hadd := h.add_left (k % n)
    rw [hshift, Nat.ModEq, hsame] at hadd
    exact hadd

variable [DecidableEq α]

theorem count_turns (hl : l.Nodup) (hj : j < l.length) :
    (turns l k m).count l[j] = m.count fun i => i ≡ j + l.length - k % l.length [MOD l.length] := by
  induction m with
  | zero => rfl
  | succ m ih =>
    have hpos : 0 < l.length := Nat.zero_lt_of_lt hj
    have hlt : (k + m) % l.length < l.length := Nat.mod_lt _ hpos
    rw [turns_succ, List.count_append, ih, Nat.count_succ, List.getElem?_eq_getElem hlt]
    congr 1
    rw [Option.toList_some, List.count_singleton]
    have hiff : (l[(k + m) % l.length] == l[j]) = true ↔
        m ≡ j + l.length - k % l.length [MOD l.length] := by
      rw [beq_iff_eq, hl.getElem_inj_iff, add_mod_eq_iff hj]
    exact if_congr hiff rfl rfl

theorem fair (hl : l.Nodup) (ha : a ∈ l) (k m : Nat) :
    m / l.length ≤ (turns l k m).count a ∧ (turns l k m).count a ≤ m / l.length + 1 := by
  obtain ⟨j, hj, rfl⟩ := List.mem_iff_getElem.mp ha
  rw [count_turns hl hj, Nat.count_modEq_card m (Nat.zero_lt_of_lt hj)]
  split <;> omega

end AcMuduo.RoundRobin
