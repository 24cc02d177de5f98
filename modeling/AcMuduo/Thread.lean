import AcMuduo.Convert
import AcMuduo.Fault

namespace AcMuduo.Thread

open Machine LogStream

inductive Thrown where
  | exception (what stackTrace : List Byte)
  | stdException (what : List Byte)
  | unknown

inductive ThreadName where
  | ofObject
  | literal (s : List Byte)

inductive Owner where
  | outside
  | locking
  | waiting (notified : Bool)
  | joining
  | destroyed (detached : Bool)

/-- Where the new thread is. An exception that leaves it ends the program, as `abort` does. -/
inductive Body where
  | notStarted
  | created
  | counted
  | named
  | titled
  | calling
  | caught (ex : Thrown)
  | printed
  | finished
  | aborted

inductive OwnerEvent where
  | start
  | lockAndTest
  | wake
  | join
  | joined
  | destroy

inductive BodyEvent where
  | countDown
  | setName
  | prctl
  | call
  | finish
  | throw (ex : Thrown)
  | print
  | abort

inductive Event where
  | owner (e : OwnerEvent)
  | body (e : BodyEvent)

/-- A `thread` with the `count_` of its latch, and what has been written to `stderr`. -/
structure State where
  started : Bool
  joined : Bool
  name : List Byte
  count : Int
  owner : Owner
  body : Body
  threadName : ThreadName
  stderr : List Byte

/-- `num_created_` has been incremented before. -/
def setDefaultName (name : List Byte) (numCreated : Int32) : List Byte :=
  if name.isEmpty then bytes "thread" ++ convert numCreated.toInt else name

def init (name : List Byte) (numCreated : Int32) : State where
  started := false
  joined := false
  name := setDefaultName name numCreated
  count := 1
  owner := .outside
  body := .notStarted
  threadName := .literal (bytes "unknown")
  stderr := []

def Owner.notifyAll : Owner → Owner
  | .waiting _ => .waiting true
  | o => o

def Owner.gone : Owner → Bool
  | .destroyed _ => true
  | _ => false

def State.use (s t : State) : Except (Stop Fault) State :=
  if s.owner.gone then .error (.fault .useAfterFree) else .ok t

def message (name : List Byte) : Thrown → List Byte
  | .exception what stackTrace => bytes "exception caught in Thread " ++ name ++ bytes "\nreason: " ++
      what ++ bytes "\nstack trace: " ++ stackTrace ++ bytes "\n"
  | .stdException what => bytes "exception caught in Thread " ++ name ++ bytes "\nreason: " ++
      what ++ bytes "\n"
  | .unknown => bytes "unknown exception caught in Thread " ++ name ++ bytes "\n"

/-- The members of the owner. The critical section of the latch is one step up to the wait or the
return, and the destructor detaches a thread that has not been joined. -/
def ownerStep (s : State) (e : OwnerEvent) : Except (Stop Fault) State :=
  match s.owner, e with
  | .outside, .start => do
    assert (!s.started)
    .ok { s with started := true, owner := .locking, body := .created }
  | .locking, .lockAndTest =>
    .ok { s with owner := if s.count > 0 then .waiting false else .outside }
  | .waiting _, .wake => .ok { s with owner := .locking }
  | .outside, .join => do
    assert s.started
    assert (!s.joined)
    .ok { s with joined := true, owner := .joining }
  | .joining, .joined =>
    match s.body with
    | .finished => .ok { s with owner := .outside }
    | _ => .error .disabled
  | .outside, .destroy => .ok { s with owner := .destroyed (s.started && !s.joined) }
  | _, _ => .error .disabled

def bodyStep (s : State) (e : BodyEvent) : Except (Stop Fault) State :=
  match s.body, e with
  | .created, .countDown => s.use { s with
      body := .counted
      count := s.count - 1
      owner := if s.count - 1 = 0 then s.owner.notifyAll else s.owner }
  | .counted, .setName => s.use { s with
      body := .named
      threadName := if s.name.isEmpty then .literal (bytes "muduoThead") else .ofObject }
  | .named, .prctl =>
    match s.threadName with
    | .ofObject => s.use { s with body := .titled }
    | .literal _ => .ok { s with body := .titled }
  | .titled, .call => s.use { s with body := .calling }
  | .calling, .finish =>
    .ok { s with body := .finished, threadName := .literal (bytes "finished") }
  | .calling, .throw ex =>
    .ok { s with body := .caught ex, threadName := .literal (bytes "crashed") }
  | .caught ex, .print => s.use { s with
      body := .printed, stderr := s.stderr ++ message s.name ex }
  | .printed, .abort => .ok { s with body := .aborted }
  | _, _ => .error .disabled

def step (s : State) : Event → Except (Stop Fault) State
  | .owner e =>
    match s.body with
    | .aborted => .error .disabled
    | _ => ownerStep s e
  | .body e => bodyStep s e

inductive Move (s : State) : Event → State → Prop where
  | start (ho : s.owner = .outside) (hs : s.started = false) :
    Move s (.owner .start) { s with started := true, owner := .locking, body := .created }
  | lockAndTest (ho : s.owner = .locking) : Move s (.owner .lockAndTest)
      { s with owner := if s.count > 0 then .waiting false else .outside }
  | wake (b : Bool) (ho : s.owner = .waiting b) : Move s (.owner .wake) { s with owner := .locking }
  | join (ho : s.owner = .outside) (hs : s.started = true) (hj : s.joined = false) :
    Move s (.owner .join) { s with joined := true, owner := .joining }
  | joined (ho : s.owner = .joining) (hb : s.body = .finished) :
    Move s (.owner .joined) { s with owner := .outside }
  | destroy (ho : s.owner = .outside) : Move s (.owner .destroy)
      { s with owner := .destroyed (s.started && !s.joined) }
  | countDown (hb : s.body = .created) (ho : s.owner.gone = false) :
    Move s (.body .countDown) { s with
      body := .counted
      count := s.count - 1
      owner := if s.count - 1 = 0 then s.owner.notifyAll else s.owner }
  | setName (hb : s.body = .counted) (ho : s.owner.gone = false) :
    Move s (.body .setName) { s with
      body := .named
      threadName := if s.name.isEmpty then .literal (bytes "muduoThead") else .ofObject }
  | prctl (hb : s.body = .named) (ho : s.threadName = .ofObject → s.owner.gone = false) :
    Move s (.body .prctl) { s with body := .titled }
  | call (hb : s.body = .titled) (ho : s.owner.gone = false) :
    Move s (.body .call) { s with body := .calling }
  | finish (hb : s.body = .calling) : Move s (.body .finish)
      { s with body := .finished, threadName := .literal (bytes "finished") }
  | throw (ex : Thrown) (hb : s.body = .calling) : Move s (.body (.throw ex))
      { s with body := .caught ex, threadName := .literal (bytes "crashed") }
  | print (ex : Thrown) (hb : s.body = .caught ex) (ho : s.owner.gone = false) :
    Move s (.body .print) { s with body := .printed, stderr := s.stderr ++ message s.name ex }
  | abort (hb : s.body = .printed) : Move s (.body .abort) { s with body := .aborted }

theorem use_eq_ok {s t u : State} : s.use t = .ok u ↔ s.owner.gone = false ∧ t = u := by
  rw [State.use]
  split
  · simp [*]
  · simp [*]

theorem ownerStep_move {s t : State} {e : OwnerEvent} (h : ownerStep s e = .ok t) :
    Move s (.owner e) t := by
  simp only [ownerStep] at h
  split at h
  · rename_i ho
    obtain ⟨_, hs, hok⟩ := bind_eq_ok.mp h
    cases hok
    exact .start ho (by simpa using hs)
  · rename_i ho
    cases h
    exact .lockAndTest ho
  · rename_i b ho
    cases h
    exact .wake b ho
  · rename_i ho
    obtain ⟨_, hs, hok⟩ := bind_eq_ok.mp h
    obtain ⟨_, hj, hok⟩ := bind_eq_ok.mp hok
    cases hok
    exact .join ho (by simpa using hs) (by simpa using hj)
  · rename_i ho
    split at h
    · rename_i hb
      cases h
      exact .joined ho hb
    · cases h
  · rename_i ho
    cases h
    exact .destroy ho
  · cases h

theorem bodyStep_move {s t : State} {e : BodyEvent} (h : bodyStep s e = .ok t) :
    Move s (.body e) t := by
  simp only [bodyStep] at h
  split at h
  · rename_i hb
    obtain ⟨ho, rfl⟩ := use_eq_ok.mp h
    exact .countDown hb ho
  · rename_i hb
    obtain ⟨ho, rfl⟩ := use_eq_ok.mp h
    exact .setName hb ho
  · rename_i hb
    split at h
    · obtain ⟨ho, rfl⟩ := use_eq_ok.mp h
      exact .prctl hb fun _ => ho
    · rename_i hname
      cases h
      exact .prctl hb fun hobject => by simp [hname] at hobject
  · rename_i hb
    obtain ⟨ho, rfl⟩ := use_eq_ok.mp h
    exact .call hb ho
  · rename_i hb
    cases h
    exact .finish hb
  · rename_i ex hb
    cases h
    exact .throw ex hb
  · rename_i ex hb
    obtain ⟨ho, rfl⟩ := use_eq_ok.mp h
    exact .print ex hb ho
  · rename_i hb
    cases h
    exact .abort hb
  · cases h

theorem step_move {s t : State} {e : Event} (h : step s e = .ok t) : Move s e t := by
  cases e with
  | owner e =>
    simp only [step] at h
    split at h
    · cases h
    · exact ownerStep_move h
  | body e => exact bodyStep_move h

end AcMuduo.Thread
