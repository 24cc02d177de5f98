import AcMuduo.ThreadPoolSignals

namespace AcMuduo.ThreadPool

open Machine

variable {n : Nat} {P F : Type}

def enqueued (s : State n P F) (e : Event n P F) (t : State n P F) : List (Task P F) :=
  match e with
  | .run p function _ =>
    match t.producers p with
    | .accepted => [⟨p, function⟩]
    | _ => []
  | .resume p _ =>
    match s.producers p, t.producers p with
    | .waiting function, .accepted => [⟨p, function⟩]
    | _, _ => []
  | _ => []

def took (_ : State n P F) (e : Event n P F) (t : State n P F) : List (Fin n × Task P F) :=
  match e with
  | .take w _ | .retake w _ =>
    match t.workers w with
    | .got (some task) => [(w, task)]
    | _ => []
  | _ => []

def executed (s : State n P F) (e : Event n P F) (_ : State n P F) : List (Fin n × Task P F) :=
  match e with
  | .execute w =>
    match s.workers w with
    | .got (some ⟨p, some f⟩) => [(w, ⟨p, some f⟩)]
    | _ => []
  | _ => []

/-- The task that the worker has taken and not executed. An empty function is not executed. -/
def Worker.inHand (w : Fin n) : Worker P F → List (Fin n × Task P F)
  | .got (some ⟨p, some f⟩) => [(w, ⟨p, some f⟩)]
  | _ => []

def ofWorker (w : Fin n) (l : List (Fin n × Task P F)) : List (Fin n × Task P F) :=
  l.filter fun x => x.1 = w && x.2.function.isSome

theorem ofWorker_append (w : Fin n) (l l' : List (Fin n × Task P F)) :
    ofWorker w (l ++ l') = ofWorker w l ++ ofWorker w l' := List.filter_append ..

variable [DecidableEq P] {max : Nat} {s t : State n P F} {e : Event n P F} {p : P}
  {function : Option F} {w : Fin n}

theorem Move.conserves (h : Move max s e t) :
    (took s e t).map Prod.snd ++ t.queue = s.queue ++ enqueued s e t := by
  cases h with
  | ran hp hn => simp [took, enqueued, setProducer]
  | run hp h =>
    cases h with
    | waits _ _ | refused _ | pushes _ _ _ => simp [took, enqueued, setProducer]
  | resume hp hleave h =>
    cases h with
    | waits _ _ | refused _ | pushes _ _ _ => simp [took, enqueued, setProducer, hp]
  | take hw h =>
    cases h with
    | waits hqueue _ | nothing hqueue _ | takes hqueue _ _ =>
      simp [took, enqueued, setWorker, hqueue]
  | retake hw hleave h =>
    cases h with
    | waits hqueue _ | nothing hqueue _ | takes hqueue _ _ =>
      change s.queue = _ at hqueue
      simp [took, enqueued, setWorker, hqueue]
  | wakeProducer _ | test _ | wakeWorker _ | execute _ | skip _ _ | finish _ | stop _ | join _ _ =>
    simp [took, enqueued, setWorker]

theorem TakeMove.executes {v : Fin n} (h : TakeMove max s v t)
    (hv : (s.workers v).inHand v = []) (w : Fin n) :
    (t.workers w).inHand w = (s.workers w).inHand w ++
      ofWorker w (match t.workers v with
        | .got (some task) => [(v, task)]
        | _ => []) := by
  by_cases hw : w = v
  · subst hw
    rw [hv]
    cases h with
    | waits _ _ | nothing _ _ => simp [setWorker, Worker.inHand, ofWorker]
    | @takes task _ _ _ _ _ _ =>
      obtain ⟨p, function⟩ := task
      cases function with
      | none => simp [setWorker, Worker.inHand, ofWorker]
      | some f => simp [setWorker, Worker.inHand, ofWorker]
  · cases h with
    | waits _ _ | nothing _ _ | takes _ _ _ =>
      simp [setWorker, Function.update_of_ne hw, ofWorker, Ne.symm hw]

omit [DecidableEq P] in
theorem inHand_setWorker {v : Fin n} {c : Worker P F} (hs : (s.workers v).inHand v = [])
    (hc : c.inHand v = []) (w : Fin n) :
    ((setWorker s v c).workers w).inHand w = (s.workers w).inHand w := by
  by_cases hw : w = v
  · subst hw
    simp [setWorker, hs, hc]
  · simp [setWorker, Function.update_of_ne hw]

theorem RunMove.workers (h : RunMove max s p function t) : t.workers = s.workers := by
  cases h with
  | waits _ _ | refused _ | pushes _ _ _ => rfl

theorem Move.executes (h : Move max s e t) (w : Fin n) :
    ofWorker w (executed s e t) ++ (t.workers w).inHand w =
      (s.workers w).inHand w ++ ofWorker w (took s e t) := by
  cases h with
  | take hw h => exact h.executes (by rw [hw]; rfl) w
  | retake hw hleave h => exact h.executes (by show (s.workers _).inHand _ = []; rw [hw]; rfl) w
  | @execute v p f hv =>
    by_cases hw : w = v
    · subst hw
      simp [executed, took, setWorker, hv, Worker.inHand, ofWorker]
    · simp [executed, took, setWorker, hv, Function.update_of_ne hw, ofWorker, Ne.symm hw]
  | @skip v task hv htask =>
    have hnone : (s.workers v).inHand v = [] := by
      rw [hv]
      simp only [Worker.inHand]
      split
      · rename_i heq
        cases heq
        exact absurd rfl (htask _ _)
      · rfl
    have hexecuted : executed s (.execute v) (setWorker s v .atTest) = [] := by
      simp only [executed, hv]
      split
      · rename_i heq
        cases heq
        exact absurd rfl (htask _ _)
      · rfl
    rw [hexecuted, inHand_setWorker hnone rfl]
    simp [took, ofWorker]
  | @test v hv =>
    rw [inHand_setWorker (by rw [hv]; rfl) (by split <;> rfl)]
    simp [executed, took, ofWorker]
  | @finish v hv =>
    rw [inHand_setWorker (by rw [hv]; rfl) rfl]
    simp [executed, took, ofWorker]
  | run hp h | resume hp hleave h =>
    rw [h.workers]
    simp [executed, took, ofWorker]
  | ran hp hn => simp [executed, took, ofWorker, setProducer]
  | wakeProducer _ | wakeWorker _ | stop _ | join _ _ => simp [executed, took, ofWorker]

theorem RunMove.producers (h : RunMove max s p function t) {q : P} (hq : q ≠ p) :
    t.producers q = s.producers q := by
  cases h with
  | waits _ _ | refused _ | pushes _ _ _ => exact Function.update_of_ne hq _ _

theorem Move.accepted (h : Move max s e t) {q : P} (hq : s.producers q = .accepted) :
    t.producers q = .accepted := by
  have hne : ∀ p, s.producers p ≠ .accepted → q ≠ p := fun p hp heq => hp (heq ▸ hq)
  cases h with
  | ran hp _ => exact (Function.update_of_ne (hne _ (by simp [hp])) _ _).trans hq
  | run hp h => exact (h.producers (hne _ (by simp [hp]))).trans hq
  | resume hp _ h => exact (h.producers (hne _ (by simp [hp]))).trans hq
  | take _ h | retake _ _ h =>
    cases h with
    | waits _ _ | nothing _ _ | takes _ _ _ => exact hq
  | _ => exact hq

omit [DecidableEq P] in
theorem accepted_of_enqueued {task : Task P F} (h : task ∈ enqueued s e t) :
    t.producers task.caller = .accepted := by
  simp only [enqueued] at h
  split at h
  · split at h
    · rename_i hp
      rw [List.mem_singleton] at h
      exact h ▸ hp
    · cases h
  · split at h
    · rename_i hp
      rw [List.mem_singleton] at h
      exact h ▸ hp
    · cases h
  · cases h

theorem run_conserved {es : List (Event n P F)} (hrun : run (step max) .init es = .ok s) :
    (observe (step max) took .init es).map Prod.snd ++ s.queue =
        observe (step max) enqueued .init es ∧
      ∀ task ∈ observe (step max) enqueued .init es, s.producers task.caller = .accepted := by
  have hstep : ∀ (h : List (Fin n × Task P F)) (h' : List (Task P F)) a e b,
      (h.map Prod.snd ++ a.queue = h' ∧ ∀ task ∈ h', a.producers task.caller = .accepted) →
      True → step max a e = .ok b →
      (h ++ took a e b).map Prod.snd ++ b.queue = h' ++ enqueued a e b ∧
        ∀ task ∈ h' ++ enqueued a e b, b.producers task.caller = .accepted := by
    rintro h h' a e b ⟨heq, hold⟩ - hab
    have hmove := move_of_step hab
    refine ⟨?_, fun task htask => ?_⟩
    · rw [List.map_append, List.append_assoc, hmove.conserves, ← List.append_assoc, heq]
    · cases List.mem_append.mp htask with
      | inl htask => exact hmove.accepted (hold task htask)
      | inr htask => exact accepted_of_enqueued htask
  have hinit : ([] : List (Fin n × Task P F)).map Prod.snd ++
      (State.init : State n P F).queue = [] ∧ ∀ task ∈ ([] : List (Task P F)),
        (State.init : State n P F).producers task.caller = .accepted := ⟨rfl, by simp⟩
  exact run_history hstep hinit throughout_true hrun

theorem run_executes {es : List (Event n P F)} (hrun : run (step max) .init es = .ok s)
    (w : Fin n) :
    ofWorker w (observe (step max) executed .init es) ++ (s.workers w).inHand w =
      ofWorker w (observe (step max) took .init es) := by
  have hstep : ∀ (h h' : List (Fin n × Task P F)) a e b,
      ofWorker w h ++ (a.workers w).inHand w = ofWorker w h' → True → step max a e = .ok b →
      ofWorker w (h ++ executed a e b) ++ (b.workers w).inHand w =
        ofWorker w (h' ++ took a e b) := by
    intro h h' a e b heq _ hab
    rw [ofWorker_append, ofWorker_append, List.append_assoc, (move_of_step hab).executes w,
      ← List.append_assoc, heq]
  have hinit : ofWorker w [] ++ ((State.init : State n P F).workers w).inHand w =
      ofWorker w [] := rfl
  exact run_history hstep hinit throughout_true hrun

/-- In every run of a started pool the assertion of `run` holds, the tasks taken and then the
queue are the tasks appended, in order, each worker executes the tasks that it takes, each once,
and no others, the queue keeps its bound, and a call of `run` that has seen `running_` false has
appended no task. -/
theorem tasks_conserved (max : Nat) (es : List (Event n P F)) :
    (∀ f, run (step max) .init es ≠ .error (.fault f)) ∧
    ∀ s, run (step max) .init es = .ok s →
      (observe (step max) took .init es).map Prod.snd ++ s.queue =
        observe (step max) enqueued .init es ∧
      (∀ w, ofWorker w (observe (step max) executed .init es) ++ (s.workers w).inHand w =
        ofWorker w (observe (step max) took .init es)) ∧
      (0 < max → s.queue.length ≤ max) ∧
      ∀ p, s.producers p = .refused →
        ∀ task ∈ (observe (step max) took .init es).map Prod.snd ++ s.queue, task.caller ≠ p := by
  have hsafe : run (step max) (.init : State n P F) es = .error .disabled ∨
      ∃ s, run (step max) .init es = .ok s ∧ True :=
    run_safe (fun s e _ => (step_move max s e).imp id fun ⟨t, ht, _⟩ => ⟨t, ht, trivial⟩)
      trivial es
  refine ⟨fun f hf => ?_, fun s hrun => ?_⟩
  · rw [hf] at hsafe
    simp at hsafe
  · obtain ⟨hconserved, haccepted⟩ := run_conserved hrun
    refine ⟨hconserved, run_executes hrun, (run_inv hrun).bound, fun p hp task htask heq => ?_⟩
    rw [hconserved] at htask
    have hacc := haccepted task htask
    rw [heq, hp] at hacc
    cases hacc

end AcMuduo.ThreadPool
