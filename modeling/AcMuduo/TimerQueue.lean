import AcMuduo.Fault
import AcMuduo.SortedSet
import Mathlib.Algebra.GroupWithZero.Nat
import Mathlib.Data.Finset.Basic
import Mathlib.Data.Prod.Lex
import Mathlib.Order.Fin.Basic

namespace AcMuduo.TimerQueue

open Machine

/-- Addresses of timers; the last one is `UINTPTR_MAX`. -/
abbrev Addr := Fin (2 ^ 64)

instance addr_neZero : NeZero (2 ^ 64) := ⟨Nat.ne_of_gt (Nat.two_pow_pos 64)⟩

def uintptrMax : Addr := Fin.last _

/-- A `double` number of seconds, as far as the code looks at it: whether it is greater than
zero, and the microseconds it truncates to, which are taken to fit into an `int64_t`. -/
structure Seconds where
  positive : Bool
  micros : Int
  micros_nonneg : positive = true → 0 ≤ micros

theorem Seconds.zero_nonneg : false = true → (0 : Int) ≤ 0 := fun _ => Int.le_refl 0

def Seconds.zero : Seconds := ⟨false, 0, Seconds.zero_nonneg⟩

def addTime (t : Int) (s : Seconds) : Int := t + s.micros

/-- A `timer_t` without its callback. The expiration is in microseconds since the epoch. -/
structure Timer where
  expiration : Int
  interval : Seconds
  sequence : Int

def Timer.repeats (t : Timer) : Bool := t.interval.positive

def Timer.restart (t : Timer) (now : Int) : Timer :=
  if t.repeats then { t with expiration := addTime now t.interval } else { t with expiration := 0 }

structure Entry where
  expiration : Int
  timer : Addr

structure TimerId where
  timer : Addr
  sequence : Int

instance : LinearOrder Entry :=
  LinearOrder.lift' (fun e => toLex (e.expiration, e.timer)) fun a b h => by
    cases a
    cases b
    simpa using h

instance : LinearOrder TimerId :=
  LinearOrder.lift' (fun e => toLex (e.timer, e.sequence)) fun a b h => by
    cases a
    cases b
    simpa using h

structure Timespec where
  sec : Int
  nsec : Int

/-- A running timerfd: the clock at its `timerfd_settime` and the time it fires. -/
structure Arming where
  setAt : Int
  deadline : Int

structure TimerFd where
  armed : Option Arming
  settimes : List Timespec

/-- Where `handle_read` is. `running` and `calling` carry its `now`, the expired batch and the
entries of the batch whose callbacks have not been called. -/
inductive Pc where
  | idle
  | reading (now : Int)
  | running (now : Int) (expired rest : List Entry)
  | calling (now : Int) (expired rest : List Entry)

/-- The timer queue, the heap it works on and the clock. `adding` holds the timers that
`add_timer` has allocated and `add_timer_in_loop` has not received yet. -/
structure State where
  heap : Addr → Option Timer
  numCreated : Int
  adding : Finset Addr
  timers : SortedSet Entry
  activeTimers : SortedSet TimerId
  callingExpiredTimers : Bool
  cancelingTimers : SortedSet TimerId
  timerFd : TimerFd
  clock : Int
  pc : Pc

def State.init (clock : Int) : State :=
  ⟨fun _ => none, 0, ∅, .empty, .empty, false, .empty, ⟨none, []⟩, clock, .idle⟩

def deref (s : State) (p : Addr) : Except (Stop Fault) Timer :=
  match s.heap p with
  | some t => .ok t
  | none => .error (.fault .useAfterFree)

def delete (s : State) (p : Addr) : Except (Stop Fault) State :=
  match s.heap p with
  | some _ => .ok { s with heap := Function.update s.heap p none }
  | none => .error (.fault .doubleFree)

def kMicroSecondsPerSecond : Int := 1000 * 1000

def howMuchTimeFromNow (expiration now : Int) : Timespec :=
  let micros := if expiration - now < 100 then 100 else expiration - now
  ⟨micros.tdiv kMicroSecondsPerSecond, micros.tmod kMicroSecondsPerSecond * 1000⟩

/-- `timerfd_settime` with a relative value: zero disarms, and a value out of range is refused. -/
def timerfdSettime (fd : TimerFd) (clock : Int) (v : Timespec) : TimerFd :=
  let settimes := fd.settimes ++ [v]
  if v.sec < 0 ∨ v.nsec < 0 ∨ 1000000000 ≤ v.nsec then ⟨fd.armed, settimes⟩
  else if v.sec = 0 ∧ v.nsec = 0 then ⟨none, settimes⟩
  else ⟨some ⟨clock, clock + v.sec * kMicroSecondsPerSecond + v.nsec.tdiv 1000⟩, settimes⟩

/-- The clock does not move between the reading of the time and the setting of the timerfd. -/
def resetTimerFd (s : State) (expiration : Int) : State :=
  { s with timerFd := timerfdSettime s.timerFd s.clock (howMuchTimeFromNow expiration s.clock) }

def TimerFd.hasExpired (fd : TimerFd) (clock : Int) : Bool :=
  match fd.armed with
  | some a => a.deadline ≤ clock
  | none => false

/-- Reading a timerfd that has not fired fails with `EAGAIN` and changes nothing. -/
def readTimerFd (s : State) : State :=
  if s.timerFd.hasExpired s.clock then { s with timerFd := { s.timerFd with armed := none } } else s

def earliestChanged (timers : SortedSet Entry) (expiration : Int) : Bool :=
  timers.first?.all fun e => expiration < e.expiration

def insert (s : State) (p : Addr) : Except (Stop Fault) (State × Bool) := do
  assert (s.timers.size = s.activeTimers.size)
  let timer ← deref s p
  assert (⟨timer.expiration, p⟩ ∉ s.timers)
  assert (⟨p, timer.sequence⟩ ∉ s.activeTimers)
  let s' := { s with
    timers := s.timers.insert ⟨timer.expiration, p⟩
    activeTimers := s.activeTimers.insert ⟨p, timer.sequence⟩ }
  assert (s'.timers.size = s'.activeTimers.size)
  .ok (s', earliestChanged s.timers timer.expiration)

def addTimerInLoop (s : State) (p : Addr) : Except (Stop Fault) State := do
  let (s, changed) ← insert s p
  if changed then
    let timer ← deref s p
    .ok (resetTimerFd s timer.expiration)
  else .ok s

def cancelInLoop (s : State) (id : TimerId) : Except (Stop Fault) State := do
  assert (s.timers.size = s.activeTimers.size)
  let s ←
    if id ∈ s.activeTimers then do
      let timer ← deref s id.timer
      assert (⟨timer.expiration, id.timer⟩ ∈ s.timers)
      let s := { s with timers := s.timers.erase ⟨timer.expiration, id.timer⟩ }
      let s ← delete s id.timer
      .ok { s with activeTimers := s.activeTimers.erase id }
    else if s.callingExpiredTimers then
      .ok { s with cancelingTimers := s.cancelingTimers.insert id }
    else .ok s
  assert (s.timers.size = s.activeTimers.size)
  .ok s

/-- One round of the loop of `get_expired` over the entries it took from `timers_`. -/
def eraseActive (s : State) (it : Entry) : Except (Stop Fault) State := do
  let timer ← deref s it.timer
  assert (⟨it.timer, timer.sequence⟩ ∈ s.activeTimers)
  .ok { s with activeTimers := s.activeTimers.erase ⟨it.timer, timer.sequence⟩ }

def getExpired (s : State) (now : Int) : Except (Stop Fault) (State × List Entry) := do
  assert (s.timers.size = s.activeTimers.size)
  let sentry : Entry := ⟨now, uintptrMax⟩
  let expired := s.timers.below sentry
  let left := s.timers.dropBelow sentry
  assert (left.first?.all fun e => now < e.expiration)
  let s ← expired.foldlM eraseActive { s with timers := left }
  assert (s.timers.size = s.activeTimers.size)
  .ok (s, expired)

/-- One round of the loop of `reset`. -/
def resetOne (now : Int) (s : State) (it : Entry) : Except (Stop Fault) State := do
  let timer ← deref s it.timer
  if timer.repeats ∧ ⟨it.timer, timer.sequence⟩ ∉ s.cancelingTimers then
    let s := { s with heap := Function.update s.heap it.timer (some (timer.restart now)) }
    let (s, _) ← insert s it.timer
    .ok s
  else delete s it.timer

/-- The end of `reset`: `next_expire` stays invalid when `timers_` is empty. -/
def rearm (s : State) : Except (Stop Fault) State := do
  let nextExpire ← match s.timers.first? with
    | none => .ok 0
    | some e => do
      let timer ← deref s e.timer
      .ok timer.expiration
  if 0 < nextExpire then .ok (resetTimerFd s nextExpire) else .ok s

def reset (s : State) (expired : List Entry) (now : Int) : Except (Stop Fault) State := do
  let s ← expired.foldlM (resetOne now) s
  rearm s

/-- `alloc` is the `new` in `add_timer`, on any thread, and `tick` sets the clock. The others are
the loop thread's: a call of `add_timer_in_loop` or `cancel_in_loop`, and the steps of
`handle_read`, where `call` and `ret` enter and leave a callback. -/
inductive Event where
  | alloc (p : Addr) (expiration : Int) (interval : Seconds)
  | tick (clock : Int)
  | add (p : Addr)
  | cancel (id : TimerId)
  | handleRead
  | expire
  | call
  | ret
  | finish

def Pc.inUserCode : Pc → Bool
  | .idle | .calling _ _ _ => true
  | _ => false

def step (s : State) : Event → Except (Stop Fault) State
  | .alloc p expiration interval =>
    if s.heap p = none ∧ p ≠ uintptrMax then .ok { s with
      heap := Function.update s.heap p (some ⟨expiration, interval, s.numCreated + 1⟩)
      numCreated := s.numCreated + 1
      adding := Insert.insert p s.adding }
    else .error .disabled
  | .tick clock => .ok { s with clock := clock }
  | .add p =>
    if s.pc.inUserCode ∧ p ∈ s.adding then
      addTimerInLoop { s with adding := s.adding.erase p } p
    else .error .disabled
  | .cancel id => if s.pc.inUserCode then cancelInLoop s id else .error .disabled
  | .handleRead =>
    match s.pc with
    | .idle => .ok { s with pc := .reading s.clock }
    | _ => .error .disabled
  | .expire =>
    match s.pc with
    | .reading now => do
      let (s, expired) ← getExpired (readTimerFd s) now
      .ok { s with
        callingExpiredTimers := true
        cancelingTimers := .empty
        pc := .running now expired expired }
    | _ => .error .disabled
  | .call =>
    match s.pc with
    | .running now expired (it :: rest) => do
      let _ ← deref s it.timer
      .ok { s with pc := .calling now expired rest }
    | _ => .error .disabled
  | .ret =>
    match s.pc with
    | .calling now expired rest => .ok { s with pc := .running now expired rest }
    | _ => .error .disabled
  | .finish =>
    match s.pc with
    | .running now expired [] =>
      reset { s with callingExpiredTimers := false, pc := .idle } expired now
    | _ => .error .disabled

end AcMuduo.TimerQueue
