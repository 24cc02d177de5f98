import Mathlib.Data.List.Basic
import Mathlib.Data.List.Nodup

namespace AcMuduo

/-- A condition variable by the threads in its `wait`: those that have not been notified, those
that have been, and those woken without, where the last two have yet to get the mutex back. -/
structure CondVar (W : Type) where
  waiting : List W
  notified : List W
  woken : List W

namespace CondVar

variable {W : Type} {c d : CondVar W} {w x : W}

def empty : CondVar W := ⟨[], [], []⟩

def sleepers (c : CondVar W) : List W := c.waiting ++ c.notified ++ c.woken

@[simp] theorem sleepers_empty : (empty : CondVar W).sleepers = [] := rfl

def wait (c : CondVar W) (w : W) : CondVar W := { c with waiting := w :: c.waiting }

def notifyAll (c : CondVar W) : CondVar W :=
  { c with waiting := [], notified := c.waiting ++ c.notified }

@[simp] theorem sleepers_wait : (c.wait w).sleepers = w :: c.sleepers := rfl

@[simp] theorem sleepers_notifyAll : c.notifyAll.sleepers = c.sleepers := by
  simp [sleepers, notifyAll]

variable [DecidableEq W]

/-- `notify_one` with the thread that it wakes, which is any that waits; none, if none does. -/
def notifyOne (c : CondVar W) : Option W → Option (CondVar W)
  | none => if c.waiting = [] then some c else none
  | some w =>
    if w ∈ c.waiting then
      some { c with waiting := c.waiting.erase w, notified := w :: c.notified }
    else none

def wake (c : CondVar W) (w : W) : Option (CondVar W) :=
  if w ∈ c.waiting then some { c with waiting := c.waiting.erase w, woken := w :: c.woken }
  else none

def leave (c : CondVar W) (w : W) : Option (CondVar W) :=
  if w ∈ c.notified then some { c with notified := c.notified.erase w }
  else if w ∈ c.woken then some { c with woken := c.woken.erase w }
  else none

theorem sleepers_notifyOne {who : Option W} (h : c.notifyOne who = some d) :
    d.sleepers.Perm c.sleepers := by
  cases who with
  | none =>
    simp only [notifyOne, Option.ite_none_right_eq_some, Option.some.injEq] at h
    rw [h.2]
  | some w =>
    simp only [notifyOne, Option.ite_none_right_eq_some, Option.some.injEq] at h
    obtain ⟨hw, rfl⟩ := h
    have hmove := List.perm_middle.trans ((List.perm_cons_erase hw).symm.append_right c.notified)
    exact hmove.append_right c.woken

theorem sleepers_wake (h : c.wake w = some d) : d.sleepers.Perm c.sleepers := by
  simp only [wake, Option.ite_none_right_eq_some, Option.some.injEq] at h
  obtain ⟨hw, rfl⟩ := h
  have hback := (List.perm_cons_erase hw).symm.append_right (c.notified ++ c.woken)
  rw [List.cons_append, ← List.append_assoc, ← List.append_assoc] at hback
  exact List.perm_middle.trans hback

theorem sleepers_leave (h : c.leave w = some d) : c.sleepers.Perm (w :: d.sleepers) := by
  rw [leave] at h
  split at h
  · rename_i hw
    cases h
    have hfront := ((List.perm_cons_erase hw).append_left c.waiting).trans List.perm_middle
    exact hfront.append_right c.woken
  · split at h
    · rename_i hw
      cases h
      exact ((List.perm_cons_erase hw).append_left _).trans List.perm_middle
    · cases h

theorem notifyOne_length {who : Option W} (h : c.notifyOne who = some d) :
    d.waiting.length = c.waiting.length - 1 ∧
      (c.waiting ≠ [] → d.notified.length = c.notified.length + 1) := by
  cases who with
  | none =>
    simp only [notifyOne, Option.ite_none_right_eq_some, Option.some.injEq] at h
    obtain ⟨hnil, rfl⟩ := h
    simp [hnil]
  | some w =>
    simp only [notifyOne, Option.ite_none_right_eq_some, Option.some.injEq] at h
    obtain ⟨hw, rfl⟩ := h
    exact ⟨List.length_erase_of_mem hw, fun _ => rfl⟩

theorem notifyOne_waiting {who : Option W} (h : c.notifyOne who = some d) (hc : c.waiting = []) :
    d.waiting = [] := by
  have hlen := (notifyOne_length h).1
  rw [hc] at hlen
  exact List.length_eq_zero_iff.mp hlen

theorem wake_waiting (h : c.wake w = some d) : c.waiting ≠ [] := by
  rintro hnil
  simp [wake, hnil] at h

theorem wake_length (h : c.wake w = some d) :
    d.waiting.length + 1 = c.waiting.length ∧ d.notified = c.notified := by
  simp only [wake, Option.ite_none_right_eq_some, Option.some.injEq] at h
  obtain ⟨hw, rfl⟩ := h
  exact ⟨List.length_erase_add_one hw, rfl⟩

theorem leave_length (h : c.leave w = some d) :
    d.waiting = c.waiting ∧ c.notified.length ≤ d.notified.length + 1 := by
  rw [leave] at h
  split at h
  · rename_i hw
    cases h
    exact ⟨rfl, Nat.le_of_eq (List.length_erase_add_one hw).symm⟩
  · split at h
    · cases h
      exact ⟨rfl, Nat.le_succ _⟩
    · cases h

def awake (c : CondVar W) : List W := c.notified ++ c.woken

theorem exists_leave (h : w ∈ c.awake) :
    ∃ d, c.leave w = some d ∧ d.waiting = c.waiting ∧ (w :: d.awake).Perm c.awake := by
  by_cases hnotified : w ∈ c.notified
  · refine ⟨_, if_pos hnotified, rfl, ?_⟩
    exact ((List.perm_cons_erase hnotified).symm.append_right c.woken)
  · have hwoken : w ∈ c.woken := (List.mem_append.mp h).resolve_left hnotified
    refine ⟨{ c with woken := c.woken.erase w }, ?_, rfl, ?_⟩
    · rw [leave, if_neg hnotified, if_pos hwoken]
    · exact List.perm_middle.symm.trans ((List.perm_cons_erase hwoken).symm.append_left c.notified)

end CondVar

end AcMuduo
