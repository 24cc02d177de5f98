import AcMuduo.Selector

namespace AcMuduo

def pollErr : BitVec 32 := 0x008

def pollHup : BitVec 32 := 0x010

def pollNval : BitVec 32 := 0x020

def pollRdHup : BitVec 32 := 0x2000

namespace Reactor

open Machine Poller

inductive Callback where
  | close
  | error
  | read
  | write
  deriving DecidableEq, Repr

def Callback.all : List Callback := [.close, .error, .read, .write]

def Callback.due (revents : BitVec 32) : Callback → Bool
  | .close => revents &&& pollHup ≠ 0 && revents &&& pollIn = 0
  | .error => revents &&& (pollErr ||| pollNval) ≠ 0
  | .read => revents &&& (pollIn ||| pollPri ||| pollRdHup) ≠ 0
  | .write => revents &&& pollOut ≠ 0

inductive Life where
  | unborn
  | alive
  | destroyed
  deriving DecidableEq, Repr

/-- Where the loop thread is: in code of its users outside of the handling of events, at the head of
the loop over the active channels, in `hand_event_with_guard` before the test for a callback, in a
callback, or in the destructors that run when `handle_event` has released its guard. -/
inductive Pc (C : Type) where
  | idle
  | next (rest : List C)
  | test (c : C) (callbacks : List Callback) (rest : List C)
  | call (c : C) (callbacks : List Callback) (rest : List C)
  | release (rest : List C)

/-- The loop and the channels. An object of `O` is held by `std::shared_ptr`s: `refs` counts those
of the users, and `guard` is that of `handle_event`. A channel can be part of such an object, its
owner. `memory` has the channel that is alive at an address. -/
structure State {C : Type} (p : Selector C) (O Addr : Type) where
  poller : p.State
  life : C → Life
  memory : Addr → Option C
  owner : C → Option O
  tie : C → Option O
  callback : C → Callback → Bool
  handling : C → Bool
  addToLoop : C → Bool
  made : O → Bool
  refs : O → Nat
  guard : Option O
  activeChannels : List C
  currentActiveChannel : Option C
  eventHandling : Bool
  pc : Pc C

inductive UserEvent (C O : Type) where
  | create (c : C) (owner : Option O)
  | destroy (c : C)
  | use (op : Op C)
  | tie (c : C) (o : O)
  | setCallback (c : C) (callback : Callback) (isSet : Bool)
  | make (o : O)
  | share (o : O)
  | drop (o : O)

inductive LoopEvent (Answer : Type) where
  | poll (answer : Answer)
  | next
  | test
  | ret

inductive Event (C O Answer : Type) where
  | user (e : UserEvent C O)
  | loop (e : LoopEvent Answer)

variable {C O Addr : Type} {p : Selector C}

def State.init : State p O Addr where
  poller := p.init
  life _ := .unborn
  memory _ := none
  owner _ := none
  tie _ := none
  callback _ _ := false
  handling _ := false
  addToLoop _ := false
  made _ := false
  refs _ := 0
  guard := none
  activeChannels := []
  currentActiveChannel := none
  eventHandling := false
  pc := .idle

def Pc.inUserCode : Pc C → Bool
  | .idle | .call _ _ _ | .release _ => true
  | .next _ | .test _ _ _ => false

def access (s : State p O Addr) (c : C) : Except (Stop Fault) Unit :=
  if s.life c = .alive then .ok () else .error (.fault .useAfterFree)

variable [DecidableEq O]

def State.held (s : State p O Addr) (o : O) : Bool := 0 < s.refs o || s.guard = some o

def State.expired (s : State p O Addr) (c : C) : Bool :=
  match s.owner c with
  | none => true
  | some o => !s.held o

variable [DecidableEq C] [DecidableEq Addr]

def destruct (fd : C → Int) (addr : C → Addr) (s : State p O Addr) (c : C) :
    Except (Stop Fault) (State p O Addr) := do
  assert (!s.handling c)
  assert (!s.addToLoop c)
  assert (!hasChannel fd (p.channels s.poller) c)
  .ok { s with
    life := Function.update s.life c .destroyed
    memory := Function.update s.memory (addr c) none }

def update (fd : C → Int) (s : State p O Addr) (u : Update) (c : C) :
    Except (Stop Fault) (State p O Addr) := do
  let poller ← p.step fd s.poller (.update u c)
  .ok { s with addToLoop := Function.update s.addToLoop c true, poller := poller }

/-- `channel_t::remove` and `event_loop_t::remove_channel`, which compares addresses. Some of those
in `active_channels_` can be of channels that have been destroyed. -/
def remove (fd : C → Int) (addr : C → Addr) (s : State p O Addr) (c : C) :
    Except (Stop Fault) (State p O Addr) := do
  if s.eventHandling then
    assert (s.currentActiveChannel.map addr = some (addr c) ||
      !decide (addr c ∈ s.activeChannels.map addr))
  let poller ← p.step fd s.poller (.remove c)
  .ok { s with addToLoop := Function.update s.addToLoop c false, poller := poller }

/-- The users use the channels that are alive, destroy one with its owner, and copy or tie a
`std::shared_ptr` that somebody holds. A new channel can be where a destroyed one has been. -/
def userStep (fd : C → Int) (addr : C → Addr) (s : State p O Addr) :
    UserEvent C O → Except (Stop Fault) (State p O Addr)
  | .create c owner =>
    if s.life c = .unborn ∧ s.memory (addr c) = none then .ok { s with
      life := Function.update s.life c .alive
      memory := Function.update s.memory (addr c) (some c)
      owner := Function.update s.owner c owner }
    else .error .disabled
  | .destroy c =>
    if s.life c = .alive ∧ s.expired c then destruct fd addr s c else .error .disabled
  | .use (.update u c) => if s.life c = .alive then update fd s u c else .error .disabled
  | .use (.remove c) => if s.life c = .alive then remove fd addr s c else .error .disabled
  | .tie c o =>
    if s.life c = .alive ∧ s.held o then
      .ok { s with tie := Function.update s.tie c (some o) }
    else .error .disabled
  | .setCallback c callback isSet =>
    if s.life c = .alive then .ok { s with
      callback := Function.update s.callback c (Function.update (s.callback c) callback isSet) }
    else .error .disabled
  | .make o =>
    if s.made o then .error .disabled else .ok { s with
      made := Function.update s.made o true
      refs := Function.update s.refs o 1 }
  | .share o =>
    if s.held o then .ok { s with refs := Function.update s.refs o (s.refs o + 1) }
    else .error .disabled
  | .drop o =>
    if 0 < s.refs o then .ok { s with refs := Function.update s.refs o (s.refs o - 1) }
    else .error .disabled

def handleEvent (s : State p O Addr) (c : C) (rest : List C) : State p O Addr :=
  let enter := { s with
    handling := Function.update s.handling c true
    pc := .test c Callback.all rest }
  match s.tie c with
  | none => enter
  | some o => if s.held o then { enter with guard := some o } else { s with pc := .next rest }

/-- The end of `handle_event`: the guard goes last. -/
def leaveEvent (s : State p O Addr) (c : C) (rest : List C) : State p O Addr :=
  let s := { s with handling := Function.update s.handling c false }
  match s.guard with
  | none => { s with pc := .next rest }
  | some _ => { s with guard := none, pc := .release rest }

def loopStep (fd : C → Int) (s : State p O Addr) (e : LoopEvent p.Answer) :
    Except (Stop Fault) (State p O Addr) :=
  match s.pc, e with
  | .idle, .poll answer => do
    let (poller, activeChannels) ← p.poll fd s.poller answer
    activeChannels.forM (access s)
    .ok { s with
      poller := poller
      activeChannels := activeChannels
      eventHandling := true
      pc := .next activeChannels }
  | .next [], .next => .ok { s with
      currentActiveChannel := none
      eventHandling := false
      pc := .idle }
  | .next (c :: rest), .next => do
    access s c
    .ok (handleEvent { s with currentActiveChannel := some c } c rest)
  | .test c [] rest, .test => do
    access s c
    .ok (leaveEvent s c rest)
  | .test c (callback :: callbacks) rest, .test => do
    access s c
    if callback.due ((p.chan s.poller).revents c) && s.callback c callback then
      .ok { s with pc := .call c callbacks rest }
    else .ok { s with pc := .test c callbacks rest }
  | .call c callbacks rest, .ret => .ok { s with pc := .test c callbacks rest }
  | .release rest, .ret => .ok { s with pc := .next rest }
  | _, _ => .error .disabled

def step (fd : C → Int) (addr : C → Addr) (s : State p O Addr) :
    Event C O p.Answer → Except (Stop Fault) (State p O Addr)
  | .user e => if s.pc.inUserCode then userStep fd addr s e else .error .disabled
  | .loop e => loopStep fd s e

end Reactor

end AcMuduo
