import AcMuduo.Channel

namespace AcMuduo

open Machine

variable {C : Type} [DecidableEq C]

inductive Status where
  | fresh
  | registered
  | removed
  deriving DecidableEq, Repr

/-- What a poller is for: it knows the channels registered with it and their events. -/
structure Registry (C : Type) where
  events : C → BitVec 32
  status : C → Status

namespace Registry

def init : Registry C := ⟨fun _ => kNoneEvent, fun _ => .fresh⟩

def update (r : Registry C) (u : Update) (c : C) : Registry C :=
  ⟨Function.update r.events c (u.events (r.events c)), Function.update r.status c .registered⟩

def remove (r : Registry C) (c : C) : Registry C :=
  { r with status := Function.update r.status c .removed }

def step (r : Registry C) : Op C → Except (Stop Fault) (Registry C)
  | .update u c => .ok (r.update u c)
  | .remove c => do
    assert (r.events c = kNoneEvent)
    assert (r.status c = .registered)
    .ok (r.remove c)

variable {r : Registry C} {u : Update} {o : Op C} {c d : C}

@[simp] theorem update_events_self : (r.update u c).events c = u.events (r.events c) := by
  simp [update]

@[simp] theorem update_status_self : (r.update u c).status c = .registered := by simp [update]

@[simp] theorem update_events_of_ne (h : d ≠ c) : (r.update u c).events d = r.events d := by
  simp [update, h]

@[simp] theorem update_status_of_ne (h : d ≠ c) : (r.update u c).status d = r.status d := by
  simp [update, h]

theorem update_status_eq_fresh :
    (r.update u c).status d = .fresh ↔ d ≠ c ∧ r.status d = .fresh := by
  by_cases h : d = c <;> simp [h]

theorem update_status_eq_registered :
    (r.update u c).status d = .registered ↔ d = c ∨ r.status d = .registered := by
  by_cases h : d = c <;> simp [h]

theorem update_pollable (h : ∀ d, Pollable (r.events d)) (d : C) :
    Pollable ((r.update u c).events d) := by
  by_cases hd : d = c
  · subst hd
    simpa using u.pollable (h d)
  · simpa [hd] using h d

@[simp] theorem remove_events : (r.remove c).events = r.events := rfl

@[simp] theorem remove_status_self : (r.remove c).status c = .removed := by simp [remove]

@[simp] theorem remove_status_of_ne (h : d ≠ c) : (r.remove c).status d = r.status d := by
  simp [remove, h]

def watched (fd : C → Int) (r : Registry C) : Set (Int × BitVec 32) :=
  {x | ∃ c, r.status c = .registered ∧ r.events c ≠ kNoneEvent ∧ x = (fd c, r.events c)}

def FirstEnables (r : Registry C) : Op C → Prop
  | .update u c => r.status c = .fresh → u.events (r.events c) ≠ kNoneEvent
  | .remove _ => True

def RemovesIdle (r : Registry C) : Op C → Prop
  | .update _ _ => True
  | .remove c => r.status c = .registered ∧ r.events c = kNoneEvent

def NotAfterRemoval (r : Registry C) : Op C → Prop
  | .update _ c | .remove c => r.status c ≠ .removed

def NoIdleUpdate (r : Registry C) : Op C → Prop
  | .update u c => r.status c = .registered → r.events c = kNoneEvent →
    u.events (r.events c) ≠ kNoneEvent
  | .remove _ => True

theorem remove_status_eq_fresh :
    (r.remove c).status d = .fresh ↔ d ≠ c ∧ r.status d = .fresh := by
  by_cases h : d = c <;> simp [h]

theorem remove_status_eq_registered :
    (r.remove c).status d = .registered ↔ d ≠ c ∧ r.status d = .registered := by
  by_cases h : d = c <;> simp [h]

instance (r : Registry C) : ∀ o, Decidable (r.FirstEnables o)
  | .update u c => inferInstanceAs (Decidable (_ → u.events (r.events c) ≠ kNoneEvent))
  | .remove _ => inferInstanceAs (Decidable True)

instance (r : Registry C) : ∀ o, Decidable (r.RemovesIdle o)
  | .update _ _ => inferInstanceAs (Decidable True)
  | .remove c => inferInstanceAs (Decidable (_ ∧ r.events c = kNoneEvent))

instance (r : Registry C) : ∀ o, Decidable (r.NotAfterRemoval o)
  | .update _ c | .remove c => inferInstanceAs (Decidable (r.status c ≠ .removed))

instance (r : Registry C) : ∀ o, Decidable (r.NoIdleUpdate o)
  | .update u c => inferInstanceAs (Decidable (_ → _ → u.events (r.events c) ≠ kNoneEvent))
  | .remove _ => inferInstanceAs (Decidable True)

theorem step_remove (hc : r.status c = .registered) (he : r.events c = kNoneEvent) :
    r.step (.remove c) = .ok (r.remove c) := by
  simp [step, hc, he, bind, Except.bind]

theorem step_remove_error (h : ¬ (r.status c = .registered ∧ r.events c = kNoneEvent)) :
    ∃ d, r.step (.remove c) = .error d := by
  refine ⟨.fault .assertFailed, ?_⟩
  by_cases he : r.events c = kNoneEvent
  · have hc : r.status c ≠ .registered := fun hc => h ⟨hc, he⟩
    simp [step, he, hc, assert, bind, Except.bind]
  · simp [step, he, assert, bind, Except.bind]

theorem step_total (h : RemovesIdle r o) : ∃ r', r.step o = .ok r' := by
  cases o with
  | update u c => exact ⟨_, rfl⟩
  | remove c => exact ⟨_, step_remove h.1 h.2⟩

end Registry

end AcMuduo
