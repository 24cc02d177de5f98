import AcMuduo.CondVar
import AcMuduo.Fault

namespace AcMuduo.BlockingQueue

open Machine

/-- The threads in `not_empty_` are those in `take`. -/
structure State (W T : Type) where
  queue : List T
  notEmpty : CondVar W

/-- What the threads do next. `put`, `take` and `drain` are the critical sections, `resume` is the
one of `take` from the return of `wait`, and `wake` is spurious. The `notify_one` of `put` wakes
`woken`. `size` locks a mutex that is not mutable in it, so it has no instances. -/
inductive Event (W T : Type) where
  | put (w : W) (x : T) (woken : Option W)
  | take (w : W)
  | resume (w : W)
  | wake (w : W)
  | drain (w : W)

variable {W T : Type}

def State.init : State W T := ⟨[], .empty⟩

def takeSection (s : State W T) (w : W) : Except (Stop Fault) (State W T) :=
  if s.queue.isEmpty then .ok { s with notEmpty := s.notEmpty.wait w }
  else do
    assert (!s.queue.isEmpty)
    match s.queue with
    | [] => .error (.fault .outOfBounds)
    | _ :: queue => .ok { s with queue := queue }

variable [DecidableEq W]

/-- The overloads of `put` differ only in that one moves `x`. The queue of which `drain` moves the
elements is left empty. -/
def step (s : State W T) : Event W T → Except (Stop Fault) (State W T)
  | .put w x woken =>
    if w ∈ s.notEmpty.sleepers then .error .disabled
    else do
      let notEmpty ← ofOption (s.notEmpty.notifyOne woken)
      .ok ⟨s.queue ++ [x], notEmpty⟩
  | .take w => if w ∈ s.notEmpty.sleepers then .error .disabled else takeSection s w
  | .resume w => do
    let notEmpty ← ofOption (s.notEmpty.leave w)
    takeSection { s with notEmpty := notEmpty } w
  | .wake w => do
    let notEmpty ← ofOption (s.notEmpty.wake w)
    .ok { s with notEmpty := notEmpty }
  | .drain w =>
    if w ∈ s.notEmpty.sleepers then .error .disabled
    else do
      let s := { s with queue := [] }
      assert s.queue.isEmpty
      .ok s

def added (_ : State W T) (e : Event W T) (_ : State W T) : List T :=
  match e with
  | .put _ x _ => [x]
  | _ => []

def removed (s : State W T) (e : Event W T) (_ : State W T) : List T :=
  match e with
  | .take _ | .resume _ => s.queue.head?.toList
  | .drain _ => s.queue
  | _ => []

inductive Move (s : State W T) : Event W T → List T → State W T → Prop where
  | put {w x woken c} (hnotify : s.notEmpty.notifyOne woken = some c) :
    Move s (.put w x woken) [] ⟨s.queue ++ [x], c⟩
  | waits {w} (hqueue : s.queue = []) :
    Move s (.take w) [] { s with notEmpty := s.notEmpty.wait w }
  | takes {w x queue} (hqueue : s.queue = x :: queue) :
    Move s (.take w) [x] { s with queue := queue }
  | waitsAgain {w c} (hleave : s.notEmpty.leave w = some c) (hqueue : s.queue = []) :
    Move s (.resume w) [] { s with notEmpty := c.wait w }
  | resumes {w x queue c} (hleave : s.notEmpty.leave w = some c) (hqueue : s.queue = x :: queue) :
    Move s (.resume w) [x] ⟨queue, c⟩
  | wake {w c} (hwake : s.notEmpty.wake w = some c) : Move s (.wake w) [] { s with notEmpty := c }
  | drain {w} : Move s (.drain w) s.queue { s with queue := [] }

variable {s t : State W T} {e : Event W T}

omit [DecidableEq W] in
theorem takeSection_nil (h : s.queue = []) (w : W) :
    takeSection s w = .ok { s with notEmpty := s.notEmpty.wait w } :=
  if_pos (by rw [h]; rfl)

omit [DecidableEq W] in
theorem takeSection_cons {x : T} {queue : List T} (h : s.queue = x :: queue) (w : W) :
    takeSection s w = .ok { s with queue := queue } := by
  simp [takeSection, h, bind, Except.bind]

theorem step_move (s : State W T) (e : Event W T) : step s e = .error .disabled ∨
    ∃ t, step s e = .ok t ∧ Move s e (removed s e t) t := by
  cases e with
  | put w x woken =>
    rw [step]
    split
    · exact .inl rfl
    · exact ofOption_bind_move fun c hc => .inr ⟨_, rfl, .put hc⟩
  | take w =>
    rw [step]
    split
    · exact .inl rfl
    · by_cases hqueue : s.queue = []
      · refine .inr ⟨_, takeSection_nil hqueue w, ?_⟩
        simpa [removed, hqueue] using Move.waits (w := w) hqueue
      · obtain ⟨x, queue, hqueue⟩ := List.exists_cons_of_ne_nil hqueue
        refine .inr ⟨_, takeSection_cons hqueue w, ?_⟩
        rw [removed, hqueue]
        exact .takes hqueue
  | resume w =>
    refine ofOption_bind_move fun c hc => .inr ?_
    by_cases hqueue : s.queue = []
    · refine ⟨_, takeSection_nil (s := { s with notEmpty := c }) hqueue w, ?_⟩
      simpa [removed, hqueue] using Move.waitsAgain hc hqueue
    · obtain ⟨x, queue, hqueue⟩ := List.exists_cons_of_ne_nil hqueue
      refine ⟨_, takeSection_cons (s := { s with notEmpty := c }) hqueue w, ?_⟩
      rw [removed, hqueue]
      exact .resumes hc hqueue
  | wake w => exact ofOption_bind_move fun c hc => .inr ⟨_, rfl, .wake hc⟩
  | drain w =>
    rw [step]
    split
    · exact .inl rfl
    · exact .inr ⟨_, rfl, .drain⟩

theorem move_of_step (h : step s e = .ok t) : Move s e (removed s e t) t :=
  of_eq_ok (P := fun t => Move s e (removed s e t) t) (step_move s e) h

theorem Move.conserves {out : List T} (h : Move s e out t) :
    out ++ t.queue = s.queue ++ added s e t := by
  cases h with
  | put _ => rfl
  | takes hqueue | resumes _ hqueue => simp [added, hqueue]
  | waits _ | waitsAgain _ _ | wake _ | drain => simp [added]

/-- While a thread waits un-notified, as many threads are notified and not back as there are
elements. -/
def Inv (s : State W T) : Prop :=
  s.notEmpty.waiting ≠ [] → s.queue.length ≤ s.notEmpty.notified.length

theorem Move.inv {out : List T} (h : Move s e out t) (hs : Inv s) : Inv t := by
  intro hwaiting
  cases h with
  | put hnotify =>
    have hbefore := mt (CondVar.notifyOne_waiting hnotify) hwaiting
    have hlength := (CondVar.notifyOne_length hnotify).2 hbefore
    have hqueue := hs hbefore
    simp only [List.length_append, List.length_singleton]
    omega
  | waits hqueue | waitsAgain _ hqueue => simp [hqueue]
  | takes hqueue =>
    have henough := hs hwaiting
    rw [hqueue] at henough
    exact Nat.le_of_succ_le henough
  | resumes hleave hqueue =>
    obtain ⟨hsame, hlength⟩ := CondVar.leave_length hleave
    have henough := hs (hsame ▸ hwaiting)
    rw [hqueue, List.length_cons] at henough
    dsimp only
    omega
  | wake hwake =>
    obtain ⟨-, hsame⟩ := CondVar.wake_length hwake
    have henough := hs (CondVar.wake_waiting hwake)
    rwa [← hsame] at henough
  | drain => exact Nat.zero_le _

theorem run_inv {es : List (Event W T)} (hrun : run step .init es = .ok s) : Inv s :=
  run_invariant (fun _ _ _ hs ht => (move_of_step ht).inv hs) (fun h => absurd rfl h) hrun

/-- No assertion fails, no run takes the front of an empty queue, and whatever the order of the
threads, what has been put has been returned or is held, in the order in which it was put. -/
theorem in_order (es : List (Event W T)) : run step (.init : State W T) es = .error .disabled ∨
    ∃ s, run step .init es = .ok s ∧
      observe step removed .init es ++ s.queue = observe step added .init es := by
  have hsafe : ∀ (s : State W T) e, True → step s e = .error .disabled ∨
      ∃ t, step s e = .ok t ∧ True := by
    intro s e _
    obtain hdisabled | ⟨t, ht, -⟩ := step_move s e
    · exact .inl hdisabled
    · exact .inr ⟨t, ht, trivial⟩
  obtain hdisabled | ⟨s, hrun, -⟩ := run_safe hsafe trivial es
  · exact .inl hdisabled
  refine .inr ⟨s, hrun, ?_⟩
  have hstep : ∀ (s : State W T) e t, True → True → step s e = .ok t →
      True ∧ removed s e t ++ t.queue = s.queue ++ added s e t :=
    fun s e t _ _ ht => ⟨trivial, (move_of_step ht).conserves⟩
  exact run_conserves hstep trivial throughout_true hrun

theorem run_resumes {ws : List W} (hws : ws.Perm s.notEmpty.awake) :
    ∃ t, run step s (ws.map .resume) = .ok t ∧ t.notEmpty.awake = [] ∧
      (t.queue = [] ∨ t.notEmpty.waiting = s.notEmpty.waiting ∧
        t.queue.length + ws.length = s.queue.length) := by
  induction ws generalizing s with
  | nil => exact ⟨s, rfl, hws.nil_eq.symm, .inr ⟨rfl, rfl⟩⟩
  | cons w ws ih =>
    obtain ⟨c, hleave, hsame, hperm⟩ := CondVar.exists_leave (hws.mem_iff.mp List.mem_cons_self)
    have hrest : ws.Perm c.awake := (hws.trans hperm.symm).cons_inv
    by_cases hqueue : s.queue = []
    · have hone : step s (.resume w) = .ok { s with notEmpty := c.wait w } := by
        simp only [step, hleave, ofOption, bind, Except.bind]
        exact takeSection_nil (s := { s with notEmpty := c }) hqueue w
      obtain ⟨t, hrun, hawake, hend⟩ := ih (s := { s with notEmpty := c.wait w }) hrest
      refine ⟨t, run_cons_ok.mpr ⟨_, hone, hrun⟩, hawake, .inl ?_⟩
      cases hend with
      | inl hnil => exact hnil
      | inr htaken =>
        have hlength := htaken.2
        simp only [hqueue, List.length_nil, Nat.add_eq_zero_iff, List.length_eq_zero_iff] at hlength
        exact hlength.1
    · obtain ⟨x, queue, hqueue⟩ := List.exists_cons_of_ne_nil hqueue
      have hone : step s (.resume w) = .ok ⟨queue, c⟩ := by
        simp only [step, hleave, ofOption, bind, Except.bind]
        exact takeSection_cons (s := { s with notEmpty := c }) hqueue w
      obtain ⟨t, hrun, hawake, hend⟩ := ih (s := ⟨queue, c⟩) hrest
      refine ⟨t, run_cons_ok.mpr ⟨_, hone, hrun⟩, hawake, ?_⟩
      cases hend with
      | inl hnil => exact .inl hnil
      | inr htaken =>
        refine .inr ⟨htaken.1.trans hsame, ?_⟩
        rw [hqueue, List.length_cons, List.length_cons, ← htaken.2]
        exact (Nat.add_assoc _ _ _).symm

/-- No signal is lost: in every reachable state in which threads wait un-notified there are not
more elements than threads notified and not back, and when all the threads that have been woken have
got the mutex, in any order, the queue is empty or no thread is in `take`. -/
theorem no_element_stranded {es : List (Event W T)} (hrun : run step .init es = .ok s) :
    (s.notEmpty.waiting ≠ [] → s.queue.length ≤ s.notEmpty.notified.length) ∧
    ∀ ws : List W, ws.Perm s.notEmpty.awake → ∃ t, run step s (ws.map .resume) = .ok t ∧
      (t.queue = [] ∨ t.notEmpty.sleepers = []) := by
  have hinv := run_inv hrun
  refine ⟨hinv, fun ws hws => ?_⟩
  obtain ⟨t, ht, hawake, hend⟩ := run_resumes hws
  refine ⟨t, ht, ?_⟩
  by_cases hnil : t.queue = []
  · exact .inl hnil
  · obtain ⟨hsame, hlength⟩ := hend.resolve_left hnil
    have hpos := List.length_pos_of_ne_nil hnil
    have hawakeLength : ws.length = s.notEmpty.notified.length + s.notEmpty.woken.length := by
      rw [hws.length_eq, CondVar.awake, List.length_append]
    have hwaiting : s.notEmpty.waiting = [] := by
      by_contra hwaiting
      have henough := hinv hwaiting
      omega
    refine .inr ?_
    rw [CondVar.sleepers, List.append_assoc, hsame, hwaiting]
    exact hawake

/-- Two threads wait, one of them is notified, and a third one takes the element first. -/
def barges : List (Event Nat Nat) :=
  [.take 0, .take 1, .put 2 7 (some 0), .take 3, .put 2 8 (some 1)]

theorem no_element_stranded_barges : ∃ s, run step .init barges = .ok s ∧
    s.queue = [8] ∧ ∃ t, run step s ([0, 1].map .resume) = .ok t ∧
      (t.queue = [] ∨ t.notEmpty.sleepers = []) := by
  have hrun : run step .init barges = .ok _ := rfl
  exact ⟨_, hrun, rfl, (no_element_stranded hrun).2 [0, 1] (by decide)⟩

end AcMuduo.BlockingQueue
