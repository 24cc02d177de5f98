import Mathlib.Data.List.Basic

namespace AcMuduo.Memory

variable {α : Type} {n : Nat}

def store (v : Vector α n) (i : Nat) (x : α) : Option (Vector α n) :=
  if h : i < n then some (v.set i x h) else none

def storeAll : Vector α n → Nat → List α → Option (Vector α n)
  | v, _, [] => some v
  | v, i, x :: xs => store v i x >>= fun w => storeAll w (i + 1) xs

def reverse (v : Vector α n) (i j : Nat) : Option (Vector α n) :=
  storeAll v i ((v.toList.take j).drop i).reverse

/-- Elements are stored from an index on, and those around them are left. -/
def Writes (v w : Vector α n) (i : Nat) (xs : List α) : Prop :=
  w.toList = v.toList.take i ++ xs ++ v.toList.drop (i + xs.length)

variable {v : Vector α n} {i : Nat}

theorem store_toList (x : α) (h : i < n) : ∃ w, store v i x = some w ∧
    w.toList = v.toList.take i ++ x :: v.toList.drop (i + 1) := by
  refine ⟨v.set i x h, dif_pos h, ?_⟩
  rw [Vector.toList_set, List.set_eq_take_append_cons_drop, if_pos (by simpa using h)]

theorem storeAll_writes (v : Vector α n) (xs : List α) (h : i + xs.length ≤ n) :
    ∃ w, storeAll v i xs = some w ∧ Writes v w i xs := by
  induction xs generalizing v i with
  | nil => exact ⟨v, rfl, by simp [Writes]⟩
  | cons x xs ih =>
    rw [List.length_cons] at h
    obtain ⟨u, hu, hlist⟩ := store_toList (v := v) x (show i < n by omega)
    obtain ⟨w, hw, hlist'⟩ := ih u (i := i + 1) (by omega)
    refine ⟨w, by rw [storeAll, hu]; exact hw, ?_⟩
    have htake : (v.toList.take i).length = i := by
      rw [List.length_take, Vector.length_toList]
      omega
    have hbegins : u.toList.take (i + 1) = v.toList.take i ++ [x] := by
      rw [hlist, List.take_append, htake, Nat.add_sub_cancel_left, List.take_take,
        Nat.min_eq_right (Nat.le_succ i)]
      rfl
    have hsuffix : u.toList.drop (i + 1 + xs.length) = v.toList.drop (i + (xs.length + 1)) := by
      rw [hlist, List.drop_append, htake, List.drop_eq_nil_of_le (by omega), List.nil_append,
        show i + 1 + xs.length - i = xs.length + 1 by omega, List.drop_succ_cons, List.drop_drop]
      congr 1
      omega
    rw [Writes] at hlist' ⊢
    rw [hlist', hbegins, hsuffix, List.length_cons, List.append_assoc _ [x], List.singleton_append]

theorem storeAll_append {xs ys : List α} : storeAll v i (xs ++ ys) =
    storeAll v i xs >>= fun w => storeAll w (i + xs.length) ys := by
  induction xs generalizing v i with
  | nil => rfl
  | cons x xs ih =>
    rw [List.cons_append, storeAll, storeAll]
    cases store v i x with
    | none => rfl
    | some w =>
      have hlength : i + 1 + xs.length = i + (xs.length + 1) := by omega
      exact (ih (v := w)).trans (by rw [hlength]; rfl)

theorem reverse_toList {pre xs post : List α} (h : v.toList = pre ++ xs ++ post) :
    ∃ w, reverse v pre.length (pre.length + xs.length) = some w ∧
      w.toList = pre ++ xs.reverse ++ post := by
  have hn : pre.length + xs.length + post.length = n := by
    rw [← v.length_toList, h, List.length_append, List.length_append]
  have hxs : (v.toList.take (pre.length + xs.length)).drop pre.length = xs := by
    rw [h, ← List.length_append, List.take_left, List.drop_left]
  obtain ⟨w, hw, hwrites⟩ := storeAll_writes v xs.reverse (i := pre.length)
    (by rw [List.length_reverse]; omega)
  rw [Writes] at hwrites
  refine ⟨w, by rw [reverse, hxs, hw], ?_⟩
  rw [hwrites, h, List.length_reverse, ← List.length_append, List.drop_left, List.append_assoc pre,
    List.take_left]

def Extends (v w : Vector α n) (i : Nat) (xs : List α) : Prop :=
  w.toList.take (i + xs.length) = v.toList.take i ++ xs

theorem Extends.trans {u w : Vector α n} {xs ys : List α} (h : Extends v u i xs)
    (h' : Extends u w (i + xs.length) ys) : Extends v w i (xs ++ ys) := by
  rw [Extends, List.length_append, ← Nat.add_assoc, h', h, List.append_assoc]

theorem Writes.extends {w : Vector α n} {xs ys : List α} (hi : i ≤ n)
    (h : Writes v w i (xs ++ ys)) : Extends v w i xs := by
  have hlength : (v.toList.take i ++ xs).length = i + xs.length := by
    rw [List.length_append, List.length_take, Vector.length_toList, Nat.min_eq_left hi]
  rw [Writes, ← List.append_assoc, List.append_assoc _ ys] at h
  rw [Extends, h]
  exact List.take_left' hlength

theorem storeAll_extends (v : Vector α n) (xs : List α) (h : i + xs.length ≤ n) :
    ∃ w, storeAll v i xs = some w ∧ Extends v w i xs := by
  obtain ⟨w, hw, hwrites⟩ := storeAll_writes v xs h
  rw [← List.append_nil xs] at hwrites
  exact ⟨w, hw, hwrites.extends (by omega)⟩

theorem reverse_writes {u : Vector α n} {xs : List α} {x : α} (h : i + xs.length < n)
    (hu : storeAll v i xs = some u) : ∃ w w', store u (i + xs.length) x = some w ∧
      reverse w i (i + xs.length) = some w' ∧ Writes v w' i (xs.reverse ++ [x]) := by
  have htake : (v.toList.take i).length = i := by
    rw [List.length_take, Vector.length_toList]
    omega
  have hlength : i + (xs ++ [x]).length ≤ n := by
    rw [List.length_append]
    exact h
  -- the last element is stored by a store of its own
  obtain ⟨w, hw, hwrites⟩ := storeAll_writes v (xs ++ [x]) hlength
  rw [storeAll_append, hu] at hw
  rw [Writes, ← List.append_assoc, List.append_assoc _ [x]] at hwrites
  obtain ⟨w', hw', hlist'⟩ := reverse_toList hwrites
  rw [htake] at hw'
  refine ⟨w, w', (Option.bind_fun_some _).symm.trans hw, hw', ?_⟩
  rw [Writes, hlist', List.length_append, List.length_append, List.length_reverse,
    List.append_assoc, List.append_assoc, List.append_assoc]

section Terminated

variable [DecidableEq α] {stop : α} {xs post : List α}

def terminated (stop : α) (v : Vector α n) : Option (List α) :=
  if stop ∈ v.toList then some (v.toList.takeWhile (· ≠ stop)) else none

theorem terminated_of_toList (h : v.toList = xs ++ stop :: post) (hxs : stop ∉ xs) :
    terminated stop v = some xs := by
  have hbefore : ∀ x ∈ xs, decide (x ≠ stop) = true := by
    intro x hx
    rw [decide_eq_true_iff]
    rintro rfl
    exact hxs hx
  rw [terminated, h, if_pos (by simp), List.takeWhile_append_of_pos hbefore,
    List.takeWhile_cons_of_neg (by simp), List.append_nil]

theorem toList_of_terminated (h : terminated stop v = some xs) :
    stop ∉ xs ∧ ∃ post, v.toList = xs ++ stop :: post := by
  have hmem : stop ∈ v.toList := by
    by_contra hmem
    rw [terminated, if_neg hmem] at h
    cases h
  obtain ⟨ys, post, hlist, hys⟩ := List.eq_append_cons_of_mem hmem
  cases h.symm.trans (terminated_of_toList hlist hys)
  exact ⟨hys, post, hlist⟩

theorem length_lt_of_terminated (h : terminated stop v = some xs) : xs.length < n := by
  obtain ⟨-, post, hlist⟩ := toList_of_terminated h
  have hlength := congrArg List.length hlist
  rw [Vector.length_toList, List.length_append, List.length_cons] at hlength
  omega

theorem Writes.terminated {w : Vector α n} (h : Writes v w i (xs ++ [stop]))
    (hxs : stop ∉ v.toList.take i ++ xs) :
    Memory.terminated stop w = some (v.toList.take i ++ xs) := by
  rw [Writes, ← List.append_assoc, List.append_assoc _ [stop]] at h
  exact terminated_of_toList h hxs

end Terminated

end AcMuduo.Memory
