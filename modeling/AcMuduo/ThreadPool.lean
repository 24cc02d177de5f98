import AcMuduo.CondVar
import AcMuduo.Fault

namespace AcMuduo.ThreadPool

open Machine

/-- A function object handed to `run`, with the call of `run` that it was handed to. Without a
`function` it is an empty one. -/
structure Task (P F : Type) where
  caller : P
  function : Option F

inductive Producer (F : Type) where
  | idle
  | waiting (function : Option F)
  | accepted
  | refused
  | ran

/-- Where a worker is in `run_in_thread`. -/
inductive Worker (P F : Type) where
  | atTest
  | taking
  | waiting
  | got (task : Option (Task P F))
  | executing
  | exited

/-- Where `stop` is. `joining` carries the threads that are not joined yet. -/
inductive Stopper (n : Nat) where
  | idle
  | joining (threads : List (Fin n))

/-- A pool with `n` threads. Each element of `P` is one call of `run`, so that a producer calls
again as another element. -/
structure State (n : Nat) (P F : Type) where
  queue : List (Task P F)
  running : Bool
  notEmpty : CondVar (Fin n)
  notFull : CondVar P
  workers : Fin n → Worker P F
  producers : P → Producer F
  stopper : Stopper n

variable {n : Nat} {P F : Type}

def State.init : State n P F :=
  ⟨[], true, .empty, .empty, fun _ => .atTest, fun _ => .idle, .idle⟩

/-- A `max` of zero is no bound. -/
def isFull (max : Nat) (s : State n P F) : Bool := 0 < max && max ≤ s.queue.length

/-- What the threads do next. `run` and `take` are their critical sections from the first locking
of the mutex, `resume` and `retake` from the return of `wait`, and `woken` is the thread that the
`notify_one` in them wakes. `wakeProducer` and `wakeWorker` are spurious. -/
inductive Event (n : Nat) (P F : Type) where
  | run (p : P) (function : Option F) (woken : Option (Fin n))
  | resume (p : P) (woken : Option (Fin n))
  | wakeProducer (p : P)
  | test (w : Fin n)
  | take (w : Fin n) (woken : Option P)
  | retake (w : Fin n) (woken : Option P)
  | wakeWorker (w : Fin n)
  | execute (w : Fin n)
  | finish (w : Fin n)
  | stop
  | join

variable [DecidableEq P]

def setProducer (s : State n P F) (p : P) (c : Producer F) : State n P F :=
  { s with producers := Function.update s.producers p c }

omit [DecidableEq P] in
def setWorker (s : State n P F) (w : Fin n) (c : Worker P F) : State n P F :=
  { s with workers := Function.update s.workers w c }

def runSection (max : Nat) (s : State n P F) (p : P) (function : Option F)
    (woken : Option (Fin n)) : Except (Stop Fault) (State n P F) :=
  if isFull max s ∧ s.running then
    .ok (setProducer { s with notFull := s.notFull.wait p } p (.waiting function))
  else if !s.running then .ok (setProducer s p .refused)
  else do
    assert (!isFull max s)
    let notEmpty ← ofOption (s.notEmpty.notifyOne woken)
    .ok (setProducer { s with queue := s.queue ++ [⟨p, function⟩], notEmpty := notEmpty } p
      .accepted)

def takeSection (max : Nat) (s : State n P F) (w : Fin n) (woken : Option P) :
    Except (Stop Fault) (State n P F) :=
  match s.queue with
  | [] =>
    if s.running then .ok (setWorker { s with notEmpty := s.notEmpty.wait w } w .waiting)
    else .ok (setWorker s w (.got none))
  | task :: queue => do
    let notFull ← if 0 < max then ofOption (s.notFull.notifyOne woken) else .ok s.notFull
    .ok (setWorker { s with queue := queue, notFull := notFull } w (.got (some task)))

def step (max : Nat) (s : State n P F) : Event n P F → Except (Stop Fault) (State n P F)
  | .run p function woken =>
    match s.producers p with
    | .idle =>
      if n = 0 then .ok (setProducer s p .ran) else runSection max s p function woken
    | _ => .error .disabled
  | .resume p woken =>
    match s.producers p with
    | .waiting function => do
      let notFull ← ofOption (s.notFull.leave p)
      runSection max { s with notFull := notFull } p function woken
    | _ => .error .disabled
  | .wakeProducer p => do
    let notFull ← ofOption (s.notFull.wake p)
    .ok { s with notFull := notFull }
  | .test w =>
    match s.workers w with
    | .atTest => .ok (setWorker s w (if s.running then .taking else .exited))
    | _ => .error .disabled
  | .take w woken =>
    match s.workers w with
    | .taking => takeSection max s w woken
    | _ => .error .disabled
  | .retake w woken =>
    match s.workers w with
    | .waiting => do
      let notEmpty ← ofOption (s.notEmpty.leave w)
      takeSection max { s with notEmpty := notEmpty } w woken
    | _ => .error .disabled
  | .wakeWorker w => do
    let notEmpty ← ofOption (s.notEmpty.wake w)
    .ok { s with notEmpty := notEmpty }
  | .execute w =>
    match s.workers w with
    | .got (some ⟨_, some _⟩) => .ok (setWorker s w .executing)
    | .got _ => .ok (setWorker s w .atTest)
    | _ => .error .disabled
  | .finish w =>
    match s.workers w with
    | .executing => .ok (setWorker s w .atTest)
    | _ => .error .disabled
  | .stop =>
    match s.stopper with
    | .idle => .ok { s with
        running := false
        notEmpty := s.notEmpty.notifyAll
        notFull := s.notFull.notifyAll
        stopper := .joining (List.finRange n) }
    | .joining _ => .error .disabled
  | .join =>
    match s.stopper with
    | .joining (w :: threads) =>
      match s.workers w with
      | .exited => .ok { s with stopper := .joining threads }
      | _ => .error .disabled
    | _ => .error .disabled

inductive RunMove (max : Nat) (s : State n P F) (p : P) (function : Option F) :
    State n P F → Prop where
  | waits (hfull : isFull max s = true) (hrunning : s.running = true) :
    RunMove max s p function
      (setProducer { s with notFull := s.notFull.wait p } p (.waiting function))
  | refused (hrunning : s.running = false) : RunMove max s p function (setProducer s p .refused)
  | pushes {woken notEmpty} (hfull : isFull max s = false) (hrunning : s.running = true)
    (hnotify : s.notEmpty.notifyOne woken = some notEmpty) :
    RunMove max s p function
      (setProducer { s with queue := s.queue ++ [⟨p, function⟩], notEmpty := notEmpty } p .accepted)

inductive TakeMove (max : Nat) (s : State n P F) (w : Fin n) : State n P F → Prop where
  | waits (hqueue : s.queue = []) (hrunning : s.running = true) :
    TakeMove max s w (setWorker { s with notEmpty := s.notEmpty.wait w } w .waiting)
  | nothing (hqueue : s.queue = []) (hrunning : s.running = false) :
    TakeMove max s w (setWorker s w (.got none))
  | takes {task queue woken notFull} (hqueue : s.queue = task :: queue)
    (hnotify : 0 < max → s.notFull.notifyOne woken = some notFull)
    (hunbound : max = 0 → notFull = s.notFull) :
    TakeMove max s w
      (setWorker { s with queue := queue, notFull := notFull } w (.got (some task)))

inductive Move (max : Nat) (s : State n P F) : Event n P F → State n P F → Prop where
  | ran {p function woken} (hp : s.producers p = .idle) (hn : n = 0) :
    Move max s (.run p function woken) (setProducer s p .ran)
  | run {p function woken t} (hp : s.producers p = .idle) (h : RunMove max s p function t) :
    Move max s (.run p function woken) t
  | resume {p function woken notFull t} (hp : s.producers p = .waiting function)
    (hleave : s.notFull.leave p = some notFull)
    (h : RunMove max { s with notFull := notFull } p function t) : Move max s (.resume p woken) t
  | wakeProducer {p notFull} (hwake : s.notFull.wake p = some notFull) :
    Move max s (.wakeProducer p) { s with notFull := notFull }
  | test {w} (hw : s.workers w = .atTest) :
    Move max s (.test w) (setWorker s w (if s.running then .taking else .exited))
  | take {w woken t} (hw : s.workers w = .taking) (h : TakeMove max s w t) :
    Move max s (.take w woken) t
  | retake {w woken notEmpty t} (hw : s.workers w = .waiting)
    (hleave : s.notEmpty.leave w = some notEmpty)
    (h : TakeMove max { s with notEmpty := notEmpty } w t) : Move max s (.retake w woken) t
  | wakeWorker {w notEmpty} (hwake : s.notEmpty.wake w = some notEmpty) :
    Move max s (.wakeWorker w) { s with notEmpty := notEmpty }
  | execute {w p f} (hw : s.workers w = .got (some ⟨p, some f⟩)) :
    Move max s (.execute w) (setWorker s w .executing)
  | skip {w task} (hw : s.workers w = .got task) (htask : ∀ p f, task ≠ some ⟨p, some f⟩) :
    Move max s (.execute w) (setWorker s w .atTest)
  | finish {w} (hw : s.workers w = .executing) :
    Move max s (.finish w) (setWorker s w .atTest)
  | stop (hstop : s.stopper = .idle) : Move max s .stop { s with
      running := false
      notEmpty := s.notEmpty.notifyAll
      notFull := s.notFull.notifyAll
      stopper := .joining (List.finRange n) }
  | join {w threads} (hstop : s.stopper = .joining (w :: threads)) (hw : s.workers w = .exited) :
    Move max s .join { s with stopper := .joining threads }

variable {max : Nat} {s t : State n P F} {e : Event n P F}

theorem runSection_move (max : Nat) (s : State n P F) (p : P) (function : Option F)
    (woken : Option (Fin n)) :
    runSection max s p function woken = .error .disabled ∨
      ∃ t, runSection max s p function woken = .ok t ∧ RunMove max s p function t := by
  cases hr : s.running with
  | false => exact .inr ⟨_, by simp [runSection, hr], .refused hr⟩
  | true =>
    cases hfull : isFull max s with
    | true => exact .inr ⟨_, by simp [runSection, hr, hfull], .waits hfull hr⟩
    | false =>
      cases ofOption_cases (φ := Fault) (s.notEmpty.notifyOne woken) with
      | inl h => exact .inl (by simp [runSection, hr, hfull, h, bind, Except.bind])
      | inr h =>
        obtain ⟨c, hc, hok⟩ := h
        refine .inr ⟨_, ?_, .pushes hfull hr hc⟩
        simp [runSection, hr, hfull, hok, bind, Except.bind]

theorem takeSection_move (max : Nat) (s : State n P F) (w : Fin n) (woken : Option P) :
    takeSection max s w woken = .error .disabled ∨
      ∃ t, takeSection max s w woken = .ok t ∧ TakeMove max s w t := by
  cases hq : s.queue with
  | nil =>
    cases hr : s.running with
    | true => exact .inr ⟨_, by simp [takeSection, hq, hr], .waits hq hr⟩
    | false => exact .inr ⟨_, by simp [takeSection, hq, hr], .nothing hq hr⟩
  | cons task queue =>
    by_cases hmax : 0 < max
    · simp only [takeSection, hq, if_pos hmax]
      exact ofOption_bind_move fun c hc => .inr ⟨_, rfl, .takes hq (fun _ => hc) (by omega)⟩
    · refine .inr ⟨_, by simp only [takeSection, hq, if_neg hmax]; rfl, ?_⟩
      have hnotify : 0 < max → s.notFull.notifyOne woken = some s.notFull := fun h => absurd h hmax
      exact .takes hq hnotify fun _ => rfl

theorem step_move (max : Nat) (s : State n P F) (e : Event n P F) :
    step max s e = .error .disabled ∨ ∃ t, step max s e = .ok t ∧ Move max s e t := by
  cases e with
  | run p function woken =>
    cases hp : s.producers p with
    | idle =>
      by_cases hn : n = 0
      · exact .inr ⟨_, by simp only [step, hp, if_pos hn], .ran hp hn⟩
      · simp only [step, hp, if_neg hn]
        exact (runSection_move max s p function woken).imp id
          fun ⟨t, ht, h⟩ => ⟨t, ht, .run hp h⟩
    | _ => exact .inl (by simp only [step, hp])
  | resume p woken =>
    cases hp : s.producers p with
    | waiting function =>
      simp only [step, hp]
      refine ofOption_bind_move fun c hc => ?_
      exact (runSection_move max { s with notFull := c } p function woken).imp id
        fun ⟨t, ht, h⟩ => ⟨t, ht, .resume hp hc h⟩
    | _ => exact .inl (by simp only [step, hp])
  | wakeProducer p =>
    exact ofOption_bind_move fun c hc => .inr ⟨_, rfl, .wakeProducer hc⟩
  | test w =>
    cases hw : s.workers w with
    | atTest => exact .inr ⟨_, by simp only [step, hw], .test hw⟩
    | _ => exact .inl (by simp only [step, hw])
  | take w woken =>
    cases hw : s.workers w with
    | taking =>
      simp only [step, hw]
      exact (takeSection_move max s w woken).imp id fun ⟨t, ht, h⟩ => ⟨t, ht, .take hw h⟩
    | _ => exact .inl (by simp only [step, hw])
  | retake w woken =>
    cases hw : s.workers w with
    | waiting =>
      simp only [step, hw]
      refine ofOption_bind_move fun c hc => ?_
      exact (takeSection_move max { s with notEmpty := c } w woken).imp id
        fun ⟨t, ht, h⟩ => ⟨t, ht, .retake hw hc h⟩
    | _ => exact .inl (by simp only [step, hw])
  | wakeWorker w =>
    exact ofOption_bind_move fun c hc => .inr ⟨_, rfl, .wakeWorker hc⟩
  | execute w =>
    cases hw : s.workers w with
    | got task =>
      match task, hw with
      | some ⟨p, some f⟩, hw => exact .inr ⟨_, by simp only [step, hw], .execute hw⟩
      | some ⟨p, none⟩, hw => exact .inr ⟨_, by simp only [step, hw], .skip hw (by simp)⟩
      | none, hw => exact .inr ⟨_, by simp only [step, hw], .skip hw (by simp)⟩
    | _ => exact .inl (by simp only [step, hw])
  | finish w =>
    cases hw : s.workers w with
    | executing => exact .inr ⟨_, by simp only [step, hw], .finish hw⟩
    | _ => exact .inl (by simp only [step, hw])
  | stop =>
    cases hstop : s.stopper with
    | idle => exact .inr ⟨_, by simp only [step, hstop], .stop hstop⟩
    | joining threads => exact .inl (by simp only [step, hstop])
  | join =>
    cases hstop : s.stopper with
    | idle => exact .inl (by simp only [step, hstop])
    | joining threads =>
      cases threads with
      | nil => exact .inl (by simp only [step, hstop])
      | cons w threads =>
        cases hw : s.workers w with
        | exited => exact .inr ⟨_, by simp only [step, hstop, hw], .join hstop hw⟩
        | _ => exact .inl (by simp only [step, hstop, hw])

theorem move_of_step (h : step max s e = .ok t) : Move max s e t := of_eq_ok (step_move max s e) h

end AcMuduo.ThreadPool
