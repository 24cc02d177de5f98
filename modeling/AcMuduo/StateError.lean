import Mathlib.Data.List.Basic

namespace AcMuduo.StateError

variable {ε σ α β : Type} {s t u : σ} {e : ε} {a : α} {b : β}

theorem bind_eq_ok {x : EStateM ε σ α} {f : α → EStateM ε σ β} :
    (x >>= f) s = .ok b u ↔ ∃ a t, x s = .ok a t ∧ f a t = .ok b u := by
  cases h : x s <;> simp [bind, EStateM.bind, h]

theorem bind_eq_error {x : EStateM ε σ α} {f : α → EStateM ε σ β} :
    (x >>= f) s = .error e u ↔ x s = .error e u ∨ ∃ a t, x s = .ok a t ∧ f a t = .error e u := by
  cases h : x s <;> simp [bind, EStateM.bind, h]

theorem bind_of_ok {x : EStateM ε σ α} {f : α → EStateM ε σ β} (h : x s = .ok a t) :
    (x >>= f) s = f a t := by
  simp [bind, EStateM.bind, h]

theorem bind_of_error {x : EStateM ε σ α} {f : α → EStateM ε σ β} (h : x s = .error e t) :
    (x >>= f) s = .error e t := by
  simp [bind, EStateM.bind, h]

theorem pure_eq_ok {a' : α} : (pure a : EStateM ε σ α) s = .ok a' t ↔ a = a' ∧ s = t := by
  simp [pure, EStateM.pure]

def check (p : Bool) (e : ε) : EStateM ε σ Unit := if p then pure () else throw e

theorem throw_eq : (throw e : EStateM ε σ α) s = .error e s := rfl

theorem check_eq_ok {p : Bool} {v : Unit} :
    check p e s = .ok v t ↔ p = true ∧ s = t := by
  cases p <;> simp [check, pure_eq_ok, throw_eq]

def repeatM : Nat → EStateM ε σ α → EStateM ε σ (List α)
  | 0, _ => pure []
  | n + 1, m => do
    let a ← m
    let l ← repeatM n m
    pure (a :: l)

/-- The steps from a state to another one, with the result of each. -/
def Steps (R : α → σ → σ → Prop) : List α → σ → σ → Prop
  | [], s, t => s = t
  | a :: l, s, u => ∃ t, R a s t ∧ Steps R l t u

theorem repeatM_eq_ok {R : α → σ → σ → Prop} {m : EStateM ε σ α} {n : Nat} {l : List α}
    (hm : ∀ a s t, m s = .ok a t ↔ R a s t) :
    repeatM n m s = .ok l t ↔ l.length = n ∧ Steps R l s t := by
  induction n generalizing l s t with
  | zero =>
    rw [repeatM, pure_eq_ok, List.length_eq_zero_iff, eq_comm]
    exact and_congr_right fun h => by simp [h, Steps]
  | succ n ih =>
    simp only [repeatM, bind_eq_ok, pure_eq_ok, hm, ih]
    constructor
    · rintro ⟨a, v, hv, l, w, ⟨hl, hw⟩, rfl, rfl⟩
      exact ⟨congrArg Nat.succ hl, v, hv, hw⟩
    · rintro ⟨hlen, h⟩
      cases l with
      | nil => cases hlen
      | cons a l =>
        obtain ⟨v, hv, hw⟩ := h
        exact ⟨a, v, hv, l, t, ⟨Nat.succ.inj hlen, hw⟩, rfl, rfl⟩

def endState : EStateM.Result ε σ α → σ
  | .ok _ s | .error _ s => s

def Keeps (I : σ → Prop) (m : EStateM ε σ α) : Prop := ∀ s, I s → I (endState (m s))

variable {I : σ → Prop}

theorem Keeps.ok {m : EStateM ε σ α} (h : Keeps I m) (hs : I s) (hm : m s = .ok a t) : I t := by
  have := h s hs
  rwa [hm] at this

theorem Keeps.error {m : EStateM ε σ α} (h : Keeps I m) (hs : I s) (hm : m s = .error e t) :
    I t := by
  have := h s hs
  rwa [hm] at this

theorem keeps_pure : Keeps I (pure a : EStateM ε σ α) := fun _ hs => hs

theorem keeps_check {p : Bool} : Keeps I (check p e : EStateM ε σ Unit) := by
  cases p with
  | true => exact fun _ hs => hs
  | false => exact fun _ hs => hs

theorem Keeps.bind {x : EStateM ε σ α} {f : α → EStateM ε σ β} (hx : Keeps I x)
    (hf : ∀ a, Keeps I (f a)) : Keeps I (x >>= f) := by
  intro s hs
  cases h : x s with
  | ok a t =>
    rw [bind_of_ok h]
    exact hf a t (hx.ok hs h)
  | error e t =>
    rw [bind_of_error h]
    exact hx.error hs h

theorem Keeps.repeatM {m : EStateM ε σ α} (hm : Keeps I m) (n : Nat) :
    Keeps I (repeatM n m) := by
  induction n with
  | zero => exact keeps_pure
  | succ n ih => exact hm.bind fun a => ih.bind fun l => keeps_pure

theorem Keeps.forM {γ : Type} {body : γ → EStateM ε σ Unit} (h : ∀ c, Keeps I (body c))
    (l : List γ) : Keeps I (forM l body) := by
  induction l with
  | nil => exact keeps_pure
  | cons c l ih => exact (h c).bind fun _ => ih

def KeepsOnError (I : σ → Prop) (m : EStateM ε σ α) : Prop :=
  ∀ s e t, I s → m s = .error e t → I t

theorem Keeps.bind_onError {x : EStateM ε σ α} {f : α → EStateM ε σ β} (hx : Keeps I x)
    (hf : ∀ a, KeepsOnError I (f a)) : KeepsOnError I (x >>= f) := by
  intro s e u hs h
  cases bind_eq_error.mp h with
  | inl herror => exact hx.error hs herror
  | inr h =>
    obtain ⟨a, t, hok, herror⟩ := h
    exact hf a t e u (hx.ok hs hok) herror

end AcMuduo.StateError
