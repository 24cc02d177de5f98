import Mathlib.Data.List.Sort
import Mathlib.Data.List.TakeWhile

namespace AcMuduo

/-- An ordered set without repetitions, kept as its elements in increasing order. -/
structure SortedSet (α : Type) [LinearOrder α] where
  elems : List α
  sorted : elems.Pairwise (· < ·)

namespace SortedSet

variable {α : Type} [LinearOrder α]

instance : Membership α (SortedSet α) := ⟨fun s a => a ∈ s.elems⟩

theorem mem_def {s : SortedSet α} {a : α} : a ∈ s ↔ a ∈ s.elems := Iff.rfl

instance (a : α) (s : SortedSet α) : Decidable (a ∈ s) := inferInstanceAs (Decidable (a ∈ s.elems))

def empty : SortedSet α := ⟨[], .nil⟩

def size (s : SortedSet α) : Nat := s.elems.length

def first? (s : SortedSet α) : Option α := s.elems.head?

theorem pairwise_orderedInsert {a : α} {l : List α} (hl : l.Pairwise (· < ·)) (ha : a ∉ l) :
    (l.orderedInsert (· ≤ ·) a).Pairwise (· < ·) := by
  have hle := (hl.imp le_of_lt).orderedInsert a l
  have hnodup : (l.orderedInsert (· ≤ ·) a).Nodup :=
    (List.perm_orderedInsert (· ≤ ·) a l).nodup_iff.mpr
      (List.nodup_cons.mpr ⟨ha, hl.imp ne_of_lt⟩)
  exact hle.imp₂ (fun _ _ h hne => lt_of_le_of_ne h hne) hnodup

def insert (s : SortedSet α) (a : α) : SortedSet α :=
  if h : a ∈ s then s else ⟨s.elems.orderedInsert (· ≤ ·) a, pairwise_orderedInsert s.sorted h⟩

def erase (s : SortedSet α) (a : α) : SortedSet α :=
  ⟨s.elems.erase a, s.sorted.sublist List.erase_sublist⟩

def below (s : SortedSet α) (a : α) : List α := s.elems.takeWhile (· < a)

def dropBelow (s : SortedSet α) (a : α) : SortedSet α :=
  ⟨s.elems.dropWhile (· < a), s.sorted.sublist (List.dropWhile_sublist _)⟩

@[simp] theorem notMem_empty (a : α) : a ∉ (empty : SortedSet α) := by simp [mem_def, empty]

@[simp] theorem size_empty : (empty : SortedSet α).size = 0 := rfl

@[simp] theorem mem_insert {s : SortedSet α} {a b : α} : b ∈ s.insert a ↔ b = a ∨ b ∈ s := by
  rw [insert]
  split
  · rename_i h
    exact ⟨.inr, fun hb => hb.elim (fun he => he ▸ h) id⟩
  · simp [mem_def]

theorem size_insert {s : SortedSet α} {a : α} (h : a ∉ s) : (s.insert a).size = s.size + 1 := by
  simp [insert, size, h, List.orderedInsert_length]

@[simp] theorem mem_erase {s : SortedSet α} {a b : α} : b ∈ s.erase a ↔ b ≠ a ∧ b ∈ s :=
  List.Nodup.mem_erase_iff (s.sorted.imp ne_of_lt)

theorem size_erase {s : SortedSet α} {a : α} (h : a ∈ s) : (s.erase a).size + 1 = s.size := by
  have hpos := List.length_pos_of_mem (mem_def.mp h)
  simp only [erase, size, List.length_erase_of_mem (mem_def.mp h)]
  omega

theorem mem_takeWhile_lt {l : List α} {a b : α} (hl : l.Pairwise (· < ·)) :
    b ∈ l.takeWhile (· < a) ↔ b ∈ l ∧ b < a := by
  induction l with
  | nil => simp
  | cons c l ih =>
    rw [List.pairwise_cons] at hl
    by_cases hc : c < a
    · rw [List.takeWhile_cons_of_pos (by simpa using hc), List.mem_cons, ih hl.2, List.mem_cons]
      constructor
      · rintro (rfl | ⟨hb, hlt⟩)
        · exact ⟨.inl rfl, hc⟩
        · exact ⟨.inr hb, hlt⟩
      · rintro ⟨rfl | hb, hlt⟩
        · exact .inl rfl
        · exact .inr ⟨hb, hlt⟩
    · rw [List.takeWhile_cons_of_neg (by simpa using hc), List.mem_cons]
      refine ⟨fun h => absurd h List.not_mem_nil, ?_⟩
      rintro ⟨rfl | hb, hlt⟩
      · exact absurd hlt hc
      · exact absurd ((hl.1 b hb).trans hlt) hc

theorem mem_below {s : SortedSet α} {a b : α} : b ∈ s.below a ↔ b ∈ s ∧ b < a :=
  mem_takeWhile_lt s.sorted

theorem below_pairwise (s : SortedSet α) (a : α) : (s.below a).Pairwise (· < ·) :=
  s.sorted.sublist (List.takeWhile_sublist _)

theorem below_append_dropBelow (s : SortedSet α) (a : α) :
    s.below a ++ (s.dropBelow a).elems = s.elems := List.takeWhile_append_dropWhile

theorem size_dropBelow (s : SortedSet α) (a : α) :
    (s.below a).length + (s.dropBelow a).size = s.size := by
  rw [size, size, ← List.length_append, below_append_dropBelow]

theorem mem_dropBelow {s : SortedSet α} {a b : α} : b ∈ s.dropBelow a ↔ b ∈ s ∧ a ≤ b := by
  have hmem : b ∈ s ↔ b ∈ s.below a ∨ b ∈ s.dropBelow a := by
    rw [mem_def, ← below_append_dropBelow s a, List.mem_append, mem_def]
  have hdisj : b ∈ s.below a → b ∉ s.dropBelow a := by
    have hnodup : s.elems.Nodup := s.sorted.imp ne_of_lt
    rw [← below_append_dropBelow s a] at hnodup
    exact fun h h' => (List.disjoint_of_nodup_append hnodup) h h'
  have hb := mem_below (s := s) (a := a) (b := b)
  constructor
  · intro h
    have hs := hmem.mpr (.inr h)
    refine ⟨hs, not_lt.mp fun hlt => hdisj (hb.mpr ⟨hs, hlt⟩) h⟩
  · rintro ⟨hs, hle⟩
    exact (hmem.mp hs).resolve_left fun h => absurd (hb.mp h).2 (not_lt.mpr hle)

theorem first?_eq_none {s : SortedSet α} : s.first? = none ↔ ∀ a, a ∉ s := by
  simp [first?, mem_def, List.head?_eq_none_iff, List.eq_nil_iff_forall_not_mem]

theorem first?_eq_some {s : SortedSet α} {a : α} (h : s.first? = some a) :
    a ∈ s ∧ ∀ b ∈ s, a ≤ b := by
  obtain ⟨l, hl⟩ := List.head?_eq_some_iff.mp h
  have hs := s.sorted
  rw [hl, List.pairwise_cons] at hs
  refine ⟨by simp [mem_def, hl], fun b hb => ?_⟩
  rw [mem_def, hl, List.mem_cons] at hb
  cases hb with
  | inl heq => exact heq.ge
  | inr hb => exact (hs.1 b hb).le

end SortedSet

end AcMuduo
