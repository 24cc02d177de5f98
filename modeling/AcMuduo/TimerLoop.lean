import AcMuduo.EventLoop
import AcMuduo.TimerCancel

namespace AcMuduo.TimerLoop

open Machine TimerQueue

inductive Task where
  | addTimer (p : Addr)
  | cancel (id : TimerId)
  | user

inductive Chan where
  | timer
  | other

/-- Where a thread is in `add_timer`. -/
inductive Adding where
  | idle
  | allocated (p : Addr)
  | queued (p : Addr)
  | done (p : Addr)

/-- The thread `none` is the loop thread. `current` is the functor it is in, until the functor has
done its work, and `timerRead` tells that the handler of the timerfd has called `handle_read`. -/
structure State (T : Type) where
  loop : EventLoop.State T Task Chan
  timers : TimerQueue.State
  adders : Option T → Adding
  current : Option Task
  timerRead : Bool

/-- The first three are `add_timer`: its `new`, its `run_in_loop` and its return. `cancel` is the
loop thread's, the others queue theirs. `runTask` is a functor of `add_timer` or `cancel`, and
`timer` is a step of `handle_read` or of the clock. -/
inductive Event (T : Type) where
  | alloc (who : Option T) (p : Addr) (expiration : Int) (interval : Seconds)
  | runInLoop (who : Option T)
  | returnId (who : Option T)
  | cancel (id : TimerId)
  | caller (who : Option T) (c : EventLoop.Call Task)
  | loop (e : EventLoop.LoopEvent Chan)
  | runTask
  | timer (e : TimerQueue.Event)

variable {T : Type}

def State.init (clock : Int) : State T := ⟨.init, .init clock, fun _ => .idle, none, false⟩

/-- The loop thread runs code of its users: outside the loop, in the handler of another channel,
in the callback of a timer, or in a functor. -/
def State.inUserCode (s : State T) : Bool :=
  match s.loop.pc with
  | .outside | .handling (.other .other :: _) => true
  | .handling (.other .timer :: _) =>
    match s.timers.pc with
    | .calling _ _ _ => true
    | _ => false
  | .calling _ =>
    match s.current with
    | some .user => true
    | _ => false
  | _ => false

def Adding.isIdle : Adding → Bool
  | .idle => true
  | _ => false

def State.mayCall (s : State T) (who : Option T) : Bool :=
  s.loop.callers who = .idle && (s.adders who).isIdle && (who.isSome || s.inUserCode)

variable [DecidableEq T]

def setAdder (s : State T) (who : Option T) (a : Adding) : State T :=
  { s with adders := Function.update s.adders who a }

/-- `run_in_loop` of `add_timer`: on the loop thread the functor runs at once. -/
def runInLoop (s : State T) (who : Option T) : Except (Stop Fault) (State T) :=
  match s.adders who, who with
  | .allocated p, none => do
    let timers ← TimerQueue.step s.timers (.add p)
    .ok (setAdder { s with timers := timers } none (.done p))
  | .allocated p, some _ => do
    let loop ← EventLoop.callStep s.loop who (.push (.addTimer p))
    .ok (setAdder { s with loop := loop } who (.queued p))
  | _, _ => .error .disabled

def callerStep (s : State T) (who : Option T) (c : EventLoop.Call Task) :
    Except (Stop Fault) (State T) :=
  match c with
  | .wake => do
    let loop ← EventLoop.callStep s.loop who .wake
    match s.adders who with
    | .queued p => .ok (setAdder { s with loop := loop } who (.done p))
    | _ => .ok { s with loop := loop }
  | .push (.addTimer _) => .error .disabled
  | .push (.cancel id) =>
    if s.mayCall who ∧ who.isSome then do
      let loop ← EventLoop.callStep s.loop who (.push (.cancel id))
      .ok { s with loop := loop }
    else .error .disabled
  | .push .user | .quit =>
    if s.mayCall who then do
      let loop ← EventLoop.callStep s.loop who c
      .ok { s with loop := loop }
    else .error .disabled

omit [DecidableEq T] in
/-- The steps of the loop. A handler of the timerfd ends after its `handle_read`, and a functor
after its work. -/
def loopStep (s : State T) (e : EventLoop.LoopEvent Chan) : Except (Stop Fault) (State T) :=
  if (s.adders none).isIdle then
    match s.loop.pc, e, s.current with
    | .handling (.other .timer :: _), .handle, _ =>
      match s.timers.pc, s.timerRead with
      | .idle, true => do
        let loop ← EventLoop.loopStep s.loop .handle
        .ok { s with loop := loop, timerRead := false }
      | _, _ => .error .disabled
    | .running (task :: _), .call, _ => do
      let loop ← EventLoop.loopStep s.loop .call
      .ok { s with loop := loop, current := some task }
    | .calling _, .ret, some (.addTimer _) | .calling _, .ret, some (.cancel _) => .error .disabled
    | .calling _, .ret, _ => do
      let loop ← EventLoop.loopStep s.loop .ret
      .ok { s with loop := loop, current := none }
    | _, e, _ => do
      let loop ← EventLoop.loopStep s.loop e
      .ok { s with loop := loop }
  else .error .disabled

omit [DecidableEq T] in
def runTask (s : State T) : Except (Stop Fault) (State T) :=
  match s.loop.pc, s.current with
  | .calling _, some (.addTimer p) => do
    let timers ← TimerQueue.step s.timers (.add p)
    .ok { s with timers := timers, current := none }
  | .calling _, some (.cancel id) => do
    let timers ← TimerQueue.step s.timers (.cancel id)
    .ok { s with timers := timers, current := none }
  | _, _ => .error .disabled

omit [DecidableEq T] in
def timerStep (s : State T) (e : TimerQueue.Event) : Except (Stop Fault) (State T) :=
  match e with
  | .tick c => do
    let timers ← TimerQueue.step s.timers (.tick c)
    .ok { s with timers := timers }
  | .handleRead =>
    match s.loop.pc, s.timerRead with
    | .handling (.other .timer :: _), false => do
      let timers ← TimerQueue.step s.timers .handleRead
      .ok { s with timers := timers, timerRead := true }
    | _, _ => .error .disabled
  | .expire | .call | .ret | .finish =>
    if s.loop.callers none = .idle ∧ (s.adders none).isIdle then do
      let timers ← TimerQueue.step s.timers e
      .ok { s with timers := timers }
    else .error .disabled
  | .alloc _ _ _ | .add _ | .cancel _ => .error .disabled

def step (s : State T) : Event T → Except (Stop Fault) (State T)
  | .alloc who p expiration interval =>
    if s.mayCall who then do
      let timers ← TimerQueue.step s.timers (.alloc p expiration interval)
      .ok (setAdder { s with timers := timers } who (.allocated p))
    else .error .disabled
  | .runInLoop who => runInLoop s who
  | .returnId who =>
    match s.adders who with
    | .done p => do
      let _ ← deref s.timers p
      .ok (setAdder s who .idle)
    | _ => .error .disabled
  | .cancel id =>
    if s.mayCall none then do
      let timers ← TimerQueue.step s.timers (.cancel id)
      .ok { s with timers := timers }
    else .error .disabled
  | .caller who c => callerStep s who c
  | .loop e => loopStep s e
  | .runTask => runTask s
  | .timer e => timerStep s e

def returned (s : State T) (e : Event T) (_ : State T) : List TimerId :=
  match e with
  | .returnId who =>
    match s.adders who with
    | .done p => (idAt s.timers p).toList
    | _ => []
  | _ => []

def timerEvents (s : State T) (e : Event T) (_ : State T) : List TimerQueue.Event :=
  match e with
  | .alloc _ p expiration interval => [.alloc p expiration interval]
  | .runInLoop none =>
    match s.adders none with
    | .allocated p => [.add p]
    | _ => []
  | .cancel id => [.cancel id]
  | .runTask =>
    match s.current with
    | some (.addTimer p) => [.add p]
    | some (.cancel id) => [.cancel id]
    | _ => []
  | .timer e => [e]
  | _ => []

end AcMuduo.TimerLoop
