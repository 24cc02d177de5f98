import AcMuduo.ReactorSafety

namespace AcMuduo.Reactor

open Machine Poller

variable {C O Addr : Type} {p : Selector C} {fd : C → Int} {addr : C → Addr} {I : p.State → Prop}
  {s t : State p O Addr} {c : C} {o : O}

def Pc.upcoming : Pc C → Option C
  | .next (c :: _) => some c
  | _ => none

def TiesOwner (c : C) (s : State p O Addr) : Event C O p.Answer → Prop
  | .loop .next => s.pc.upcoming = some c → s.owner c ≠ none → s.tie c = s.owner c
  | _ => True

instance [DecidableEq C] [DecidableEq O] (c : C) (s : State p O Addr) :
    ∀ e, Decidable (TiesOwner c s e)
  | .loop .next => inferInstanceAs (Decidable (_ → _ → s.tie c = s.owner c))
  | .user _ | .loop (.poll _) | .loop .test | .loop .ret => inferInstanceAs (Decidable True)

/-- While the events of the channel are handled, the loop holds the owner. -/
def Guarded (c : C) (s : State p O Addr) : Prop :=
  s.pc.handled = some c → s.owner c ≠ none → s.guard = s.owner c

theorem Guarded.congr (h : Guarded c s) (hhandled : t.pc.handled = s.pc.handled)
    (howner : t.pc.handled = some c → t.owner c = s.owner c) (hguard : t.guard = s.guard) :
    Guarded c t := by
  intro hc ho
  rw [howner hc] at ho ⊢
  rw [hguard]
  exact h (hhandled ▸ hc) ho

variable [DecidableEq C] [DecidableEq O] [DecidableEq Addr]

theorem Guarded.of_userStep (h : Guarded c s) (hinv : Inv fd addr I s) {e : UserEvent C O}
    (ht : userStep fd addr s e = .ok t) : Guarded c t := by
  cases e with
  | create d owner =>
    simp only [userStep] at ht
    split at ht
    · rename_i hd
      cases ht
      refine h.congr rfl (fun hc => ?_) rfl
      have hdc : c ≠ d := by
        rintro rfl
        rw [(hinv.handled c hc).1] at hd
        cases hd.1
      exact Function.update_of_ne hdc _ _
    · cases ht
  | destroy d =>
    simp only [userStep] at ht
    split at ht
    · simp only [destruct, bind_eq_ok, Except.ok.injEq] at ht
      obtain ⟨-, -, -, -, -, -, rfl⟩ := ht
      exact h.congr rfl (fun _ => rfl) rfl
    · cases ht
  | use op =>
    cases op with
    | update u d =>
      simp only [userStep] at ht
      split at ht
      · obtain ⟨poller, -, ht⟩ := bind_eq_ok.mp ht
        cases ht
        exact h.congr rfl (fun _ => rfl) rfl
      · cases ht
    | remove d =>
      simp only [userStep] at ht
      split at ht
      · obtain ⟨-, poller, -, rfl⟩ := remove_eq_ok.mp ht
        exact h.congr rfl (fun _ => rfl) rfl
      · cases ht
  | tie | setCallback | make | share | drop =>
    simp only [userStep] at ht
    split at ht <;> cases ht
    exact h.congr rfl (fun _ => rfl) rfl

omit [DecidableEq C] [DecidableEq O] [DecidableEq Addr] in
theorem guarded_of_handled (h : t.pc.handled = none) : Guarded c t := by
  intro hc
  rw [h] at hc
  cases hc

omit [DecidableEq Addr] in
theorem guarded_handleEvent {d : C} {rest : List C}
    (h : c = d → s.owner c ≠ none → s.tie c = s.owner c) : Guarded c (handleEvent s d rest) := by
  obtain ⟨guard, hguard, heq⟩ | ⟨o, -, -, heq⟩ := handleEvent_cases s d rest
  · rw [heq]
    intro hc ho
    cases hc
    have htie := h rfl ho
    cases hguard with
    | inl hnone => exact absurd (htie.symm.trans hnone) ho
    | inr hguard => exact hguard.symm.trans htie
  · rw [heq]
    exact guarded_of_handled rfl

omit [DecidableEq Addr] in
theorem Guarded.of_loopStep (h : Guarded c s) {e : LoopEvent p.Answer}
    (hties : TiesOwner c s (.loop e)) (ht : loopStep fd s e = .ok t) : Guarded c t := by
  cases hpc : s.pc with
  | idle =>
    cases e with
    | poll answer =>
      simp only [loopStep, hpc, bind_eq_ok, Except.ok.injEq] at ht
      obtain ⟨_, -, -, -, rfl⟩ := ht
      exact guarded_of_handled rfl
    | next | test | ret => simp [loopStep, hpc] at ht
  | next rest =>
    cases e with
    | next =>
      cases rest with
      | nil =>
        simp only [loopStep, hpc, Except.ok.injEq] at ht
        subst ht
        exact guarded_of_handled rfl
      | cons d rest =>
        simp only [loopStep, hpc, bind_eq_ok, Except.ok.injEq] at ht
        obtain ⟨-, -, rfl⟩ := ht
        refine guarded_handleEvent fun hcd ho => hties ?_ ho
        rw [hpc, hcd]
        rfl
    | poll | test | ret => simp [loopStep, hpc] at ht
  | test d callbacks rest =>
    cases e with
    | test =>
      cases callbacks with
      | nil =>
        simp only [loopStep, hpc, bind_eq_ok, Except.ok.injEq] at ht
        obtain ⟨-, -, rfl⟩ := ht
        rw [leaveEvent]
        dsimp only
        split <;> exact guarded_of_handled rfl
      | cons callback callbacks =>
        simp only [loopStep, hpc, bind_eq_ok] at ht
        obtain ⟨-, -, ht⟩ := ht
        split at ht <;> cases ht <;> exact h.congr (by rw [hpc]; rfl) (fun _ => rfl) rfl
    | poll | next | ret => simp [loopStep, hpc] at ht
  | call d callbacks rest =>
    cases e with
    | ret =>
      simp only [loopStep, hpc, Except.ok.injEq] at ht
      subst ht
      exact h.congr (by rw [hpc]; rfl) (fun _ => rfl) rfl
    | poll | next | test => simp [loopStep, hpc] at ht
  | release rest =>
    cases e with
    | ret =>
      simp only [loopStep, hpc, Except.ok.injEq] at ht
      subst ht
      exact guarded_of_handled rfl
    | poll | next | test => simp [loopStep, hpc] at ht

theorem Guarded.of_step (h : Guarded c s) (hinv : Inv fd addr I s) {e : Event C O p.Answer}
    (hties : TiesOwner c s e) (ht : step fd addr s e = .ok t) : Guarded c t := by
  cases e with
  | user e =>
    simp only [step] at ht
    split at ht
    · exact h.of_userStep hinv ht
    · cases ht
  | loop e => exact h.of_loopStep hties ht

theorem Inv.destroy_ok_iff (h : Inv fd addr I s) (huser : s.pc.inUserCode = true)
    (hlife : s.life c = .alive) (hexpired : s.expired c = true) :
    (∃ t, step fd addr s (.user (.destroy c)) = .ok t) ↔
      s.handling c = false ∧ hasChannel fd (p.channels s.poller) c = false := by
  have hstep : step fd addr s (.user (.destroy c)) = destruct fd addr s c := by
    simp only [step, userStep, huser, hlife, hexpired, if_true, and_self]
  rw [hstep]
  constructor
  · rintro ⟨t, ht⟩
    simp only [destruct, bind_eq_ok, assert_eq_ok, Bool.not_eq_true'] at ht
    obtain ⟨-, hhandling, -, -, -, hchannel, -⟩ := ht
    exact ⟨hhandling, hchannel⟩
  · rintro ⟨hhandling, hchannel⟩
    have hadded : s.addToLoop c = false := by
      rw [← Bool.not_eq_true, ← h.hasChannel_iff, hchannel]
      decide
    exact ⟨{ s with
      life := Function.update s.life c .destroyed
      memory := Function.update s.memory (addr c) none }, by
      simp only [destruct, hhandling, hadded, hchannel, Bool.not_false, assert_true, bind,
        Except.bind]⟩

/-- A channel that is tied to its owner whenever the loop comes to it: the owner lives as long as
its events are handled, and can destroy it at any time, once it has been removed. Without the tie,
the destructor fails while the events are handled. -/
theorem owner_destroys (b : BackEnd) {fd : C → Int} (hpos : ∀ c, 0 ≤ fd c)
    {addr : C → Addr} {c : C}
    {es : List (Event C O (b.selector C).Answer)} {s : State (b.selector C) O Addr}
    (hes : Throughout (step fd addr) (KernelAnswers fd) .init es)
    (hs : run (step fd addr) .init es = .ok s) (huser : s.pc.inUserCode = true)
    (hlife : s.life c = .alive) (hexpired : s.expired c = true) :
    ((∃ t, step fd addr s (.user (.destroy c)) = .ok t) ↔
      s.handling c = false ∧ hasChannel fd ((b.selector C).channels s.poller) c = false) ∧
    (Throughout (step fd addr) (TiesOwner c) .init es → s.owner c ≠ none →
      s.handling c = false) := by
  have hp := b.lawful (C := C) hpos
  have h := run_inv hp hes hs
  refine ⟨h.destroy_ok_iff huser hlife hexpired, fun hties howner => ?_⟩
  have hguarded := (run_invariant_of
    (I := fun s : State (b.selector C) O Addr => Inv fd addr (b.Inv fd) s ∧ Guarded c s)
    (fun s e t h hP ht => ⟨h.1.of_step hp hP.1 ht, h.2.of_step h.1 hP.2 ht⟩)
    ⟨inv_init hp, guarded_of_handled rfl⟩ (hes.and hties) hs).2
  rw [← Bool.not_eq_true]
  intro hhandling
  have hguard := hguarded ((h.handling c).mp hhandling) howner
  obtain ⟨o, ho⟩ := Option.ne_none_iff_exists'.mp howner
  rw [ho] at hguard
  simp [State.expired, ho, State.held, hguard] at hexpired

theorem owner_destroys_removesItself : ∃ s : State (BackEnd.poll.selector Bool) Unit Bool,
    run (step twoFds id) .init (removesItself.take 18) = .ok s ∧
    s.handling false = false ∧
    ∃ t, step twoFds id s (.user (.destroy false)) = .ok t := by
  obtain ⟨s, hs, huser, hlife, hexpired, howner, hchannel⟩ :
      ∃ s : State (BackEnd.poll.selector Bool) Unit Bool,
        run (step twoFds id) .init (removesItself.take 18) = .ok s ∧
        s.pc.inUserCode = true ∧ s.life false = .alive ∧ s.expired false = true ∧
        s.owner false ≠ none ∧
        hasChannel twoFds ((BackEnd.poll.selector Bool).channels s.poller) false = false := by
    decide +kernel
  have hes : Throughout (step twoFds id) (KernelAnswers twoFds)
      (.init : State (BackEnd.poll.selector Bool) Unit Bool) (removesItself.take 18) := by
    decide +kernel
  have hties : Throughout (step twoFds id) (TiesOwner false)
      (.init : State (BackEnd.poll.selector Bool) Unit Bool) (removesItself.take 18) := by
    decide +kernel
  obtain ⟨hiff, hhandling⟩ := owner_destroys .poll twoFds_nonneg hes hs huser hlife hexpired
  exact ⟨s, hs, hhandling hties howner, hiff.mpr ⟨hhandling hties howner, hchannel⟩⟩

end AcMuduo.Reactor
