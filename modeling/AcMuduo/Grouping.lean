import Mathlib.Data.List.Basic

namespace AcMuduo

variable {α : Type}

/-- A sequence of records, each of them whole in one of a sequence of blocks. The first blocks
have been taken, in batches, and the others are held. -/
structure Grouped (records : List (List α)) (batches : List (List (List α)))
    (held : List (List α)) (batchParts : List (List (List (List α))))
    (heldParts : List (List (List α))) : Prop where
  records : (batchParts.flatten ++ heldParts).flatten = records
  batches : batchParts.map (List.map List.flatten) = batches
  held : heldParts.map List.flatten = held

namespace Grouped

variable {records : List (List α)} {batches : List (List (List α))} {held : List (List α)}
  {batchParts : List (List (List (List α)))} {heldParts : List (List (List α))} {block : List α}

theorem nil : Grouped [] [] [([] : List α)] [] [[]] := ⟨rfl, rfl, rfl⟩

theorem extend (h : Grouped records batches (held ++ [block]) batchParts heldParts)
    (record : List α) : ∃ heldParts', Grouped (records ++ [record]) batches
      (held ++ [block ++ record]) batchParts heldParts' := by
  obtain ⟨init, last, rfl, hinit, hlast⟩ := List.map_eq_append_iff.mp h.held
  obtain ⟨part, rfl, hpart⟩ := List.map_eq_singleton_iff.mp hlast
  refine ⟨init ++ [part ++ [record]], ?_, h.batches, ?_⟩
  · rw [← h.records]
    simp
  · simp [hinit, hpart]

theorem push (h : Grouped records batches held batchParts heldParts) (record : List α) :
    Grouped (records ++ [record]) batches (held ++ [record]) batchParts
      (heldParts ++ [[record]]) := by
  refine ⟨?_, h.batches, ?_⟩
  · rw [← h.records]
    simp
  · rw [← h.held]
    simp

theorem take (h : Grouped records batches held batchParts heldParts) :
    Grouped records (batches ++ [held]) [[]] (batchParts ++ [heldParts]) [[]] := by
  refine ⟨?_, ?_, rfl⟩
  · rw [← h.records]
    simp
  · rw [← h.batches, ← h.held]
    simp

theorem flatten_eq (h : Grouped records batches held batchParts heldParts) :
    records.flatten = batches.flatten.flatten ++ held.flatten := by
  rw [← h.records, ← h.batches, ← h.held, List.flatten_append, List.flatten_append,
    List.flatten_flatten, List.flatten_flatten, ← List.map_flatten]

end Grouped

end AcMuduo
