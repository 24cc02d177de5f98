import Mathlib.Data.List.Nodup

namespace AcMuduo.ReadyQueue

variable {α : Type} {q r : List α} {a b : α} {k : Nat}

/-- From `q` the first `k` are served, and are behind the others in `r`, in any order. -/
def Served (k : Nat) (q r : List α) : Prop :=
  ∃ served, served.Perm (q.take k) ∧ r = q.drop k ++ served

def serve (k : Nat) (q : List α) : List α := q.drop k ++ q.take k

theorem served_serve (k : Nat) (q : List α) : Served k q (serve k q) := ⟨_, .refl _, rfl⟩

theorem Served.perm (h : Served k q r) : r.Perm q := by
  obtain ⟨served, hserved, rfl⟩ := h
  have hsplit : (q.drop k ++ served).Perm (q.take k ++ q.drop k) :=
    List.perm_append_comm.trans (hserved.append_right _)
  rwa [List.take_append_drop] at hsplit

variable [DecidableEq α]

def join (q : List α) (a : α) : List α := if a ∈ q then q else q ++ [a]

theorem mem_join : b ∈ join q a ↔ b ∈ q ∨ b = a := by
  rw [join]
  split
  · rename_i ha
    exact ⟨.inl, fun h => h.elim id fun heq => heq ▸ ha⟩
  · rw [List.mem_append, List.mem_singleton]

theorem nodup_join (h : q.Nodup) (a : α) : (join q a).Nodup := by
  rw [join]
  split
  · exact h
  · rename_i ha
    rw [List.nodup_append]
    refine ⟨h, List.nodup_singleton a, fun b hb c hc => ?_⟩
    rw [List.mem_singleton.mp hc]
    rintro rfl
    exact ha hb

theorem idxOf_join (hb : b ∈ q) (a : α) : (join q a).idxOf b = q.idxOf b := by
  rw [join]
  split
  · rfl
  · exact List.idxOf_append_of_mem hb

theorem idxOf_erase_le (hne : b ≠ a) (q : List α) : (q.erase a).idxOf b ≤ q.idxOf b := by
  induction q with
  | nil => exact Nat.le_refl _
  | cons c q ih =>
    by_cases hca : c = a
    · subst hca
      rw [List.erase_cons_head, List.idxOf_cons_ne _ hne.symm]
      exact Nat.le_succ _
    · rw [List.erase_cons_tail (by simpa using hca)]
      by_cases hcb : c = b
      · rw [List.idxOf_cons_eq _ hcb]
        exact Nat.zero_le _
      · rw [List.idxOf_cons_ne _ hcb, List.idxOf_cons_ne _ hcb]
        exact Nat.succ_le_succ ih

theorem Served.mem_take_or_idxOf (h : Served k q r) (ha : a ∈ q) :
    a ∈ q.take k ∨ k ≤ q.idxOf a ∧ r.idxOf a + k = q.idxOf a := by
  by_cases htake : a ∈ q.take k
  · exact .inl htake
  · obtain ⟨served, -, rfl⟩ := h
    have hle : k ≤ q.idxOf a := by
      rw [List.mem_take_iff_idxOf_lt ha] at htake
      omega
    have hlt := List.idxOf_lt_length_of_mem ha
    have hdrop : a ∈ q.drop k := by
      rw [← List.take_append_drop k q, List.mem_append] at ha
      exact ha.resolve_left htake
    have hidx : q.idxOf a = k + (q.drop k).idxOf a := by
      conv_lhs => rw [← List.take_append_drop k q]
      rw [List.idxOf_append_of_notMem htake, List.length_take]
      omega
    rw [List.idxOf_append_of_mem hdrop]
    exact .inr ⟨hle, by omega⟩

end AcMuduo.ReadyQueue
