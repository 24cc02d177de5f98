import Mathlib.Data.List.Induction

namespace AcMuduo.Machine

variable {ε α β S A E O : Type}

/-- Why a machine takes no step: the statement is not the one its thread is at,
or it is, and executing it is an error of the program. -/
inductive Stop (φ : Type) where
  | disabled
  | fault (f : φ)
  deriving DecidableEq, Repr

/-- What the scheduler has chosen, if it can be done now. -/
def ofOption {φ : Type} : Option α → Except (Stop φ) α
  | some a => .ok a
  | none => .error .disabled

theorem bind_eq_ok {x : Except ε α} {f : α → Except ε β} {b : β} :
    x >>= f = .ok b ↔ ∃ a, x = .ok a ∧ f a = .ok b := by
  cases x with
  | error e => simp [bind, Except.bind]
  | ok a => simp [bind, Except.bind]

theorem bind_ok_eq_ok {x : Except ε α} {f : α → β} {b : β} :
    (x >>= fun a => .ok (f a)) = .ok b ↔ ∃ a, x = .ok a ∧ f a = b := by
  simp only [bind_eq_ok, Except.ok.injEq]

theorem bind_eq_error {x : Except ε α} {f : α → Except ε β} {d : ε} :
    x >>= f = .error d ↔ x = .error d ∨ ∃ a, x = .ok a ∧ f a = .error d := by
  cases x with
  | error e => simp [bind, Except.bind]
  | ok a => simp [bind, Except.bind]

theorem exists_bind_ok {x : Except ε α} {f : α → Except ε β} {a : α} (hx : x = .ok a)
    (hf : ∃ b, f a = .ok b) : ∃ b, x >>= f = .ok b := by
  obtain ⟨b, hb⟩ := hf
  exact ⟨b, bind_eq_ok.mpr ⟨a, hx, hb⟩⟩

theorem bind_move {φ : Type} {x : Except (Stop φ) α} {f : α → Except (Stop φ) β} {M : β → Prop}
    (hx : x = .error .disabled ∨ ∃ a, x = .ok a ∧
      (f a = .error .disabled ∨ ∃ t, f a = .ok t ∧ M t)) :
    x >>= f = .error .disabled ∨ ∃ t, x >>= f = .ok t ∧ M t := by
  obtain rfl | ⟨a, rfl, hf⟩ := hx
  · exact .inl rfl
  · exact hf

theorem ofOption_cases {φ : Type} (x : Option α) :
    (ofOption x : Except (Stop φ) α) = .error .disabled ∨
      ∃ a, x = some a ∧ (ofOption x : Except (Stop φ) α) = .ok a := by
  cases x with
  | none => exact .inl rfl
  | some a => exact .inr ⟨a, rfl, rfl⟩

theorem ofOption_bind_move {φ : Type} {x : Option α} {f : α → Except (Stop φ) β} {M : β → Prop}
    (h : ∀ a, x = some a → f a = .error .disabled ∨ ∃ t, f a = .ok t ∧ M t) :
    ofOption x >>= f = .error .disabled ∨ ∃ t, ofOption x >>= f = .ok t ∧ M t := by
  apply bind_move
  obtain hnone | ⟨a, ha, hok⟩ := ofOption_cases x
  · exact .inl hnone
  · exact .inr ⟨a, hok, h a ha⟩

theorem map_bind {γ : Type} {x : Except ε α} {f : α → Except ε β} {g : β → γ} :
    (x >>= f).map g = x >>= fun a => (f a).map g := by
  cases x <;> rfl

theorem bind_map {γ : Type} {x : Except ε α} {g : α → β} {f : β → Except ε γ} :
    x.map g >>= f = x >>= fun a => f (g a) := by
  cases x <;> rfl

/-- Run a list of events from a state; the first one that fails ends the run. -/
def run (step : S → E → Except ε S) (s : S) (es : List E) : Except ε S := es.foldlM step s

variable {step : S → E → Except ε S} {s t u : S} {e : E} {es fs : List E}

theorem run_cons : run step s (e :: es) = step s e >>= fun t => run step t es := rfl

theorem run_cons_ok :
    run step s (e :: es) = .ok u ↔ ∃ t, step s e = .ok t ∧ run step t es = .ok u :=
  bind_eq_ok

theorem run_singleton : run step s [e] = step s e := by
  rw [run_cons]
  cases step s e <;> rfl

theorem run_append : run step s (es ++ fs) = run step s es >>= fun t => run step t fs := by
  induction es generalizing s with
  | nil => rfl
  | cons e es ih =>
    rw [List.cons_append, run_cons, run_cons]
    cases step s e with
    | error d => rfl
    | ok t => exact ih

theorem run_append_ok :
    run step s (es ++ fs) = .ok u ↔ ∃ t, run step s es = .ok t ∧ run step t fs = .ok u := by
  rw [run_append, bind_eq_ok]

/-- The property holds of every step of the run, at the state the step is taken in. -/
def Throughout (step : S → E → Except ε S) (P : S → E → Prop) : S → List E → Prop
  | _, [] => True
  | s, e :: es => P s e ∧ ∀ t, step s e = .ok t → Throughout step P t es

instance Throughout.decidable {P : S → E → Prop} [∀ s e, Decidable (P s e)] :
    ∀ s es, Decidable (Throughout step P s es)
  | _, [] => inferInstanceAs (Decidable True)
  | s, e :: es =>
    match h : step s e with
    | .error _ => decidable_of_iff (P s e) (by simp [Throughout, h])
    | .ok t =>
      have := Throughout.decidable (P := P) t es
      decidable_of_iff (P s e ∧ Throughout step P t es) (by simp [Throughout, h])

theorem Throughout.cons {P : S → E → Prop} (hP : P s e) (he : step s e = .ok t)
    (ht : Throughout step P t es) : Throughout step P s (e :: es) := by
  refine ⟨hP, fun u hu => ?_⟩
  rw [he, Except.ok.injEq] at hu
  exact hu ▸ ht

theorem throughout_append {P : S → E → Prop} : Throughout step P s (es ++ fs) ↔
    Throughout step P s es ∧ ∀ t, run step s es = .ok t → Throughout step P t fs := by
  induction es generalizing s with
  | nil =>
    refine ⟨fun h => ⟨trivial, fun t ht => ?_⟩, fun h => h.2 s rfl⟩
    cases ht
    exact h
  | cons e es ih =>
    constructor
    · rintro ⟨he, h⟩
      refine ⟨⟨he, fun t ht => (ih.mp (h t ht)).1⟩, fun u hu => ?_⟩
      obtain ⟨t, ht, hu⟩ := run_cons_ok.mp hu
      exact (ih.mp (h t ht)).2 u hu
    · rintro ⟨⟨he, h⟩, hrun⟩
      exact ⟨he, fun t ht => ih.mpr ⟨h t ht, fun u hu => hrun u (run_cons_ok.mpr ⟨t, ht, hu⟩)⟩⟩

theorem Throughout.at_append {P : S → E → Prop} (h : Throughout step P s (es ++ e :: fs))
    (hrun : run step s es = .ok t) : P t e :=
  ((throughout_append.mp h).2 t hrun).1

theorem throughout_of_first {P : S → E → Prop}
    (h : ∀ pre e post t, es = pre ++ e :: post → Throughout step P s pre →
      run step s pre = .ok t → P t e) : Throughout step P s es := by
  induction es using List.reverseRecOn with
  | nil => trivial
  | append_singleton es e ih =>
    have hpre : Throughout step P s es := by
      refine ih fun pre d post t heq => ?_
      exact h pre d (post ++ [e]) t (by simp [heq])
    refine throughout_append.mpr ⟨hpre, fun t ht => ?_⟩
    exact ⟨h es e [] t rfl hpre ht, fun _ _ => trivial⟩

theorem Throughout.and {P Q : S → E → Prop} (hP : Throughout step P s es)
    (hQ : Throughout step Q s es) : Throughout step (fun s e => P s e ∧ Q s e) s es := by
  induction es generalizing s with
  | nil => trivial
  | cons e es ih => exact ⟨⟨hP.1, hQ.1⟩, fun t ht => ih (hP.2 t ht) (hQ.2 t ht)⟩

theorem Throughout.imp {P Q : S → E → Prop} (h : Throughout step P s es)
    (hPQ : ∀ s e, P s e → Q s e) : Throughout step Q s es := by
  induction es generalizing s with
  | nil => trivial
  | cons e es ih => exact ⟨hPQ s e h.1, fun t ht => ih (h.2 t ht)⟩

theorem throughout_true : Throughout step (fun _ _ => True) s es := by
  induction es generalizing s with
  | nil => trivial
  | cons e es ih => exact ⟨trivial, fun _ _ => ih⟩

/-- What a run makes visible: the observations of its steps, in order. -/
def observe (step : S → E → Except ε S) (obs : S → E → S → List O) : S → List E → List O
  | _, [] => []
  | s, e :: es =>
    match step s e with
    | .ok t => obs s e t ++ observe step obs t es
    | .error _ => []

theorem observe_cons {obs : S → E → S → List O} (h : step s e = .ok t) :
    observe step obs s (e :: es) = obs s e t ++ observe step obs t es := by
  rw [observe, h]

theorem observe_append {obs : S → E → S → List O} (h : run step s es = .ok t) :
    observe step obs s (es ++ fs) = observe step obs s es ++ observe step obs t fs := by
  induction es generalizing s with
  | nil =>
    cases h
    rfl
  | cons e es ih =>
    obtain ⟨u, he, hu⟩ := run_cons_ok.mp h
    rw [List.cons_append, observe_cons he, observe_cons he, ih hu, List.append_assoc]

theorem run_invariant_of {P : S → E → Prop} {I : S → Prop}
    (hstep : ∀ s e t, I s → P s e → step s e = .ok t → I t) (hs : I s)
    (hP : Throughout step P s es) (hrun : run step s es = .ok t) : I t := by
  induction es generalizing s with
  | nil =>
    cases hrun
    exact hs
  | cons e es ih =>
    obtain ⟨u, he, hu⟩ := run_cons_ok.mp hrun
    exact ih (hstep s e u hs hP.1 he) (hP.2 u he) hu

theorem run_invariant {I : S → Prop} (hstep : ∀ s e t, I s → step s e = .ok t → I t)
    (hs : I s) (hrun : run step s es = .ok t) : I t :=
  run_invariant_of (P := fun _ _ => True) (fun s e t h _ => hstep s e t h) hs throughout_true hrun

theorem run_induction {I : List E → S → Prop}
    (hstep : ∀ pre s e t, I pre s → step s e = .ok t → I (pre ++ [e]) t) (hs : I [] s)
    (hrun : run step s es = .ok t) : I es t := by
  induction es using List.reverseRecOn generalizing t with
  | nil =>
    cases hrun
    exact hs
  | append_singleton es e ih =>
    obtain ⟨u, hu, he⟩ := run_append_ok.mp hrun
    rw [run_singleton] at he
    exact hstep es u e t (ih hu) he

theorem run_safe_of {P : S → E → Prop} {I : S → Prop} {d : ε}
    (hstep : ∀ s e, I s → P s e → step s e = .error d ∨ ∃ t, step s e = .ok t ∧ I t) (hs : I s)
    (hP : Throughout step P s es) :
    run step s es = .error d ∨ ∃ t, run step s es = .ok t ∧ I t := by
  induction es generalizing s with
  | nil => exact .inr ⟨s, rfl, hs⟩
  | cons e es ih =>
    rw [run_cons]
    cases hstep s e hs hP.1 with
    | inl he =>
      rw [he]
      exact .inl rfl
    | inr h =>
      obtain ⟨t, he, ht⟩ := h
      rw [he]
      exact ih ht (hP.2 t he)

theorem run_safe {I : S → Prop} {d : ε}
    (hstep : ∀ s e, I s → step s e = .error d ∨ ∃ t, step s e = .ok t ∧ I t) (hs : I s)
    (es : List E) : run step s es = .error d ∨ ∃ t, run step s es = .ok t ∧ I t :=
  run_safe_of (P := fun _ _ => True) (fun s e h _ => hstep s e h) hs throughout_true

theorem run_avoids {P : S → E → Prop} {I : S → Prop} {d : ε}
    (hkeep : ∀ s e t, I s → P s e → step s e = .ok t → I t)
    (hstep : ∀ s e, I s → P s e → step s e ≠ .error d) (hs : I s)
    (hP : Throughout step P s es) : run step s es ≠ .error d := by
  induction es generalizing s with
  | nil => exact nofun
  | cons e es ih =>
    intro h
    obtain he | ⟨t, he, ht⟩ := bind_eq_error.mp h
    · exact hstep s e hs hP.1 he
    · exact ih (hkeep s e t hs hP.1 he) (hP.2 t he) ht

theorem run_fails_as {P : S → E → Prop} {I : S → Prop} {Q : ε → Prop} {d : ε}
    (hkeep : ∀ s e t, I s → P s e → step s e = .ok t → I t)
    (hstep : ∀ s e d, I s → P s e → step s e = .error d → Q d) (hs : I s)
    (hP : Throughout step P s es) (hrun : run step s es = .error d) : Q d := by
  induction es generalizing s with
  | nil => cases hrun
  | cons e es ih =>
    obtain he | ⟨t, he, ht⟩ := bind_eq_error.mp hrun
    · exact hstep s e d hs hP.1 he
    · exact ih (hkeep s e t hs hP.1 he) (hP.2 t he) ht

/-- If `Q` says of each step from an invariant state whether it fails with `d`, then it says so
of the runs. -/
theorem run_ne_error_iff {P Q : S → E → Prop} {I : S → Prop} {d : ε}
    (hkeep : ∀ s e t, I s → P s e → step s e = .ok t → I t)
    (hstep : ∀ s e, I s → P s e → (step s e ≠ .error d ↔ Q s e)) (hs : I s)
    (hP : Throughout step P s es) : run step s es ≠ .error d ↔ Throughout step Q s es := by
  induction es generalizing s with
  | nil => exact ⟨fun _ => trivial, fun _ => nofun⟩
  | cons e es ih =>
    have hhead := hstep s e hs hP.1
    rw [run_cons, Throughout, ← hhead]
    cases he : step s e with
    | error d' => simp [bind, Except.bind]
    | ok t =>
      have htail := ih (hkeep s e t hs hP.1 he) (hP.2 t he)
      simp [bind, Except.bind, htail]

theorem of_eq_ok {x : Except ε α} {a : α} {d : ε} {P : α → Prop}
    (h : x = .error d ∨ ∃ b, x = .ok b ∧ P b) (hx : x = .ok a) : P a := by
  cases h with
  | inl hd =>
    rw [hd] at hx
    cases hx
  | inr h =>
    obtain ⟨b, hb, hP⟩ := h
    rw [hb, Except.ok.injEq] at hx
    exact hx ▸ hP

theorem throughout_of_forall {P : E → Prop} (h : ∀ e ∈ es, P e) :
    Throughout step (fun _ e => P e) s es := by
  induction es generalizing s with
  | nil => trivial
  | cons e es ih =>
    rw [List.forall_mem_cons] at h
    exact ⟨h.1, fun _ _ => ih h.2⟩

theorem observe_eq_nil {I : S → Prop} {obs : S → E → S → List O}
    (hstep : ∀ s e t, I s → step s e = .ok t → I t ∧ obs s e t = []) (hs : I s) :
    observe step obs s es = [] := by
  induction es generalizing s with
  | nil => rfl
  | cons e es ih =>
    cases he : step s e with
    | error d => rw [observe, he]
    | ok t =>
      obtain ⟨ht, hobs⟩ := hstep s e t hs he
      rw [observe_cons he, hobs, ih ht, List.append_nil]

@[simp] theorem observe_nothing : observe step (fun _ _ _ => ([] : List O)) s es = [] :=
  observe_eq_nil (I := fun _ => True) (fun _ _ _ _ _ => ⟨trivial, rfl⟩) trivial

/-- First in, first out. If every step moves what it takes in to the back of the held list and
what it puts out from its front, then so does the whole run. -/
theorem run_conserves {P : S → E → Prop} {I : S → Prop} {held : S → List O}
    {inp out : S → E → S → List O}
    (hstep : ∀ s e t, I s → P s e → step s e = .ok t →
      I t ∧ out s e t ++ held t = held s ++ inp s e t)
    (hs : I s) (hP : Throughout step P s es) (hrun : run step s es = .ok t) :
    observe step out s es ++ held t = held s ++ observe step inp s es := by
  induction es generalizing s with
  | nil =>
    cases hrun
    simp [observe]
  | cons e es ih =>
    obtain ⟨u, he, hu⟩ := run_cons_ok.mp hrun
    obtain ⟨hI, heq⟩ := hstep s e u hs hP.1 he
    rw [observe_cons he, observe_cons he, List.append_assoc, ih hI (hP.2 u he) hu,
      ← List.append_assoc, heq, List.append_assoc]

/-- An invariant of the state and of what the run has made visible so far, in two ways. -/
theorem run_history {O' : Type} {P : S → E → Prop} {I : List O → List O' → S → Prop}
    {obs : S → E → S → List O} {obs' : S → E → S → List O'} {h : List O} {h' : List O'}
    (hstep : ∀ h h' s e t, I h h' s → P s e → step s e = .ok t →
      I (h ++ obs s e t) (h' ++ obs' s e t) t)
    (hs : I h h' s) (hP : Throughout step P s es) (hrun : run step s es = .ok t) :
    I (h ++ observe step obs s es) (h' ++ observe step obs' s es) t := by
  induction es generalizing s h h' with
  | nil =>
    cases hrun
    simpa [observe] using hs
  | cons e es ih =>
    obtain ⟨u, he, hu⟩ := run_cons_ok.mp hrun
    have := ih (hstep h h' s e u hs hP.1 he) (hP.2 u he) hu
    rwa [List.append_assoc, List.append_assoc, ← observe_cons he, ← observe_cons he] at this

theorem run_observed {P : S → E → Prop} {I : List O → S → Prop} {obs : S → E → S → List O}
    (hstep : ∀ h s e t, I h s → P s e → step s e = .ok t → I (h ++ obs s e t) t)
    (hs : I [] s) (hP : Throughout step P s es) (hrun : run step s es = .ok t) :
    I (observe step obs s es) t := by
  have hboth : ∀ h (h' : List Unit) s e t, I h s → P s e → step s e = .ok t →
      I (h ++ obs s e t) t := fun h _ => hstep h
  exact @run_history ε S E O step s t es Unit P (fun h _ => I h) obs (fun _ _ _ => []) [] []
    hboth hs hP hrun

theorem run_projected {D : Type} {small : A → D → Except ε A} {view : S → A}
    {proj : S → E → S → List D}
    (hstep : ∀ s e t, step s e = .ok t → run small (view s) (proj s e t) = .ok (view t))
    (hrun : run step s es = .ok t) :
    run small (view s) (observe step proj s es) = .ok (view t) := by
  induction es generalizing s with
  | nil =>
    cases hrun
    rfl
  | cons e es ih =>
    obtain ⟨u, he, hu⟩ := run_cons_ok.mp hrun
    rw [observe_cons he]
    exact run_append_ok.mpr ⟨_, hstep s e u he, ih hu⟩

theorem observe_projected {D : Type} {small : A → D → Except ε A} {view : S → A}
    {proj : S → E → S → List D} {obs : A → D → A → List O}
    (hstep : ∀ s e t, step s e = .ok t → run small (view s) (proj s e t) = .ok (view t))
    (hrun : run step s es = .ok t) :
    observe step (fun s e t => observe small obs (view s) (proj s e t)) s es =
      observe small obs (view s) (observe step proj s es) := by
  induction es generalizing s with
  | nil => rfl
  | cons e es ih =>
    obtain ⟨u, he, hu⟩ := run_cons_ok.mp hrun
    rw [observe_cons he, observe_cons he, observe_append (hstep s e u he), ih hu]

theorem run_total {P : S → E → Prop} (hstep : ∀ s e, P s e → ∃ t, step s e = .ok t)
    (hP : Throughout step P s es) : ∃ t, run step s es = .ok t := by
  induction es generalizing s with
  | nil => exact ⟨s, rfl⟩
  | cons e es ih =>
    obtain ⟨t, he⟩ := hstep s e hP.1
    obtain ⟨u, hu⟩ := ih (hP.2 t he)
    exact ⟨u, run_cons_ok.mpr ⟨t, he, hu⟩⟩

instance decidableExistsOk {P : S → Prop} [∀ s, Decidable (P s)] :
    (x : Except ε S) → Decidable (∃ s, x = .ok s ∧ P s)
  | .ok s => decidable_of_iff (P s) (by simp)
  | .error _ => isFalse (by simp)

/-- Two outcomes agree: they are states related by `R`, or the same error. -/
def Related (R : A → S → Prop) : Except ε A → Except ε S → Prop
  | .ok a, .ok s => R a s
  | .error d, .error d' => d = d'
  | _, _ => False

theorem Related.of_ok {R : A → S → Prop} {a : A} {y : Except ε S}
    (h : Related R (.ok a) y) : ∃ s, y = .ok s ∧ R a s := by
  cases y with
  | error d => exact h.elim
  | ok s => exact ⟨s, rfl, h⟩

theorem Related.of_error {R Q : A → S → Prop} {d : ε} {y : Except ε S}
    (h : Related R (.error d) y) : Related Q (.error d) y := by
  cases y with
  | ok s => exact h.elim
  | error d' => exact h

theorem Related.comp {T : Type} {R : A → S → Prop} {Q : A → T → Prop} {U : S → T → Prop}
    {x : Except ε A} {y : Except ε S} {z : Except ε T} (h : Related R x y) (h' : Related Q x z)
    (hU : ∀ a s t, R a s → Q a t → U s t) : Related U y z := by
  cases x with
  | ok a =>
    obtain ⟨s, rfl, hs⟩ := h.of_ok
    obtain ⟨t, rfl, ht⟩ := h'.of_ok
    exact hU a s t hs ht
  | error d =>
    cases y with
    | ok s => exact h.elim
    | error d' =>
      cases z with
      | ok t => exact h'.elim
      | error d'' => exact Eq.trans (Eq.symm h) h'

theorem Related.imp {R Q : A → S → Prop} {x : Except ε A} {y : Except ε S} (h : Related R x y)
    (hRQ : ∀ a s, R a s → Q a s) : Related Q x y := by
  cases x with
  | error d => exact h.of_error
  | ok a =>
    obtain ⟨s, rfl, hs⟩ := h.of_ok
    exact hRQ a s hs

theorem Related.and_ok {R : A → S → Prop} {I : A → Prop} {x : Except ε A} {y : Except ε S}
    (h : Related R x y) (hx : ∀ a, x = .ok a → I a) : Related (fun a s => I a ∧ R a s) x y := by
  cases x with
  | error d => exact h.of_error
  | ok a =>
    obtain ⟨s, rfl, hs⟩ := h.of_ok
    exact ⟨hx a rfl, hs⟩

theorem Related.bind {B T : Type} {R : A → S → Prop} {Q : B → T → Prop} {x : Except ε A}
    {y : Except ε S} {f : A → Except ε B} {g : S → Except ε T} (h : Related R x y)
    (hfg : ∀ a s, x = .ok a → R a s → Related Q (f a) (g s)) :
    Related Q (x >>= f) (y >>= g) := by
  cases x with
  | ok a =>
    obtain ⟨s, rfl, hs⟩ := h.of_ok
    exact hfg a s rfl hs
  | error d =>
    cases y with
    | ok s => exact h.elim
    | error d' => exact h

/-- Simulation. If each step of `stepA` is matched by a step of `step`, error for error, then so
is each run, where the condition on the steps is about the states of `stepA` only. -/
theorem run_related {stepA : A → E → Except ε A} {R : A → S → Prop} {P : A → E → Prop} {a : A}
    (hstep : ∀ a s e, R a s → P a e → Related R (stepA a e) (step s e)) (hR : R a s)
    (hP : Throughout stepA P a es) : Related R (run stepA a es) (run step s es) := by
  induction es generalizing a s with
  | nil => exact hR
  | cons e es ih =>
    rw [run_cons, run_cons]
    exact (hstep a s e hR hP.1).bind fun b t ha ht => ih ht (hP.2 b ha)

theorem Related.refl {R : A → A → Prop} (h : ∀ a, R a a) (x : Except ε A) : Related R x x := by
  cases x with
  | error d => rfl
  | ok a => exact h a

theorem related_map {R : A → S → Prop} {f : A → S} {x : Except ε A}
    (h : ∀ a, x = .ok a → R a (f a)) : Related R x (x.map f) := by
  cases x with
  | error d => rfl
  | ok a => exact h a rfl

theorem run_map {stepA : A → E → Except ε A} {f : S → A}
    (h : ∀ s e, stepA (f s) e = (step s e).map f) :
    run stepA (f s) es = (run step s es).map f := by
  induction es generalizing s with
  | nil => rfl
  | cons e es ih =>
    rw [run_cons, run_cons, h, map_bind]
    cases step s e with
    | error d => rfl
    | ok t => exact ih

theorem observe_related {stepA : A → E → Except ε A} {R : A → S → Prop} {a : A}
    {obsA : A → E → A → List O} {obs : S → E → S → List O}
    (hstep : ∀ a s e, R a s → Related R (stepA a e) (step s e))
    (hobs : ∀ a s e b t, R a s → stepA a e = .ok b → step s e = .ok t → obsA a e b = obs s e t)
    (hR : R a s) : observe stepA obsA a es = observe step obs s es := by
  induction es generalizing a s with
  | nil => rfl
  | cons e es ih =>
    have he := hstep a s e hR
    cases ha : stepA a e with
    | error d =>
      rw [ha] at he
      cases hs : step s e with
      | error d' => rw [observe, observe, ha, hs]
      | ok t =>
        rw [hs] at he
        exact he.elim
    | ok b =>
      rw [ha] at he
      obtain ⟨t, hs, ht⟩ := he.of_ok
      rw [observe_cons ha, observe_cons hs, hobs a s e b t hR ha hs, ih ht]

end AcMuduo.Machine
