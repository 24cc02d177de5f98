import AcMuduo.EventLoop

namespace AcMuduo.EventLoopThread

open Machine EventLoop

/-- The thread that calls `start_loop` and, after it returned, `~event_loop_thread_t`. -/
inductive Owner where
  | idle
  | locking
  | waiting (notified : Bool)
  | started
  | testing
  | fetching
  | quitting
  | waking
  | joining
  | joined
  | detached
  deriving DecidableEq

inductive Thread where
  | notStarted
  | created
  | initializing
  | published
  | looping
  | left
  | cleared
  | unlocked
  | done
  deriving DecidableEq

inductive OwnerEvent where
  | start
  | lockAndTest
  | wake
  | destroy
  | test
  | fetch
  | quit
  | wakeup
  | join

inductive ThreadEvent (F C : Type) where
  | construct
  | call (c : Call F)
  | publish
  | loop (e : LoopEvent C)
  | clear
  | unlock
  | destroyLoop

inductive Event (T F C : Type) where
  | owner (e : OwnerEvent)
  | thread (e : ThreadEvent F C)
  | other (t : T) (c : Call F)

/-- To the loop, the owner is the thread `some none`. `loopPtr` tells whether `loop_` is set. -/
structure State (T F C : Type) where
  loop : EventLoop.State (Option T) F C
  loopPtr : Bool
  owner : Owner
  thread : Thread

variable {T F C : Type}

def State.init : State T F C := ⟨EventLoop.State.init, false, .idle, .notStarted⟩

/-- The `event_loop_t` on the stack of `thread_func` has been constructed and not destroyed. -/
def Thread.loopAlive : Thread → Bool
  | .notStarted | .created | .done => false
  | _ => true

def Owner.afterPublish : Owner → Owner
  | .waiting _ => .waiting true
  | o => o

variable [DecidableEq T]

/-- `start_loop()` and the destructor. The critical section of `start_loop` is one step up to the
wait or the return, and the two reads of `loop_` in the destructor are two steps. -/
def ownerStep (s : State T F C) (e : OwnerEvent) : Except (Stop Fault) (State T F C) :=
  match s.owner, e with
  | .idle, .start => do
    assert (s.thread = .notStarted)
    .ok { s with owner := .locking, thread := .created }
  | .locking, .lockAndTest =>
    .ok { s with owner := if s.loopPtr then .started else .waiting false }
  | .waiting _, .wake => .ok { s with owner := .locking }
  | .started, .destroy => .ok { s with owner := .testing }
  | .testing, .test => .ok { s with owner := if s.loopPtr then .fetching else .detached }
  | .fetching, .fetch =>
    if s.loopPtr then .ok { s with owner := .quitting } else .error (.fault .nullDereference)
  | .quitting, .quit =>
    if s.thread.loopAlive then do
      let loop ← callStep s.loop (some none) .quit
      .ok { s with owner := .waking, loop := loop }
    else .error (.fault .useAfterFree)
  | .waking, .wakeup =>
    if s.thread.loopAlive then do
      let loop ← callStep s.loop (some none) .wake
      .ok { s with owner := .joining, loop := loop }
    else .error (.fault .useAfterFree)
  | .joining, .join =>
    if s.thread = .done then .ok { s with owner := .joined } else .error .disabled
  | _, _ => .error .disabled

/-- The callback of the constructor and the loop itself may run code that queues functors or
calls `quit`. The mutex lives in the owner's object. -/
def threadStep (s : State T F C) (e : ThreadEvent F C) : Except (Stop Fault) (State T F C) :=
  match s.thread, e with
  | .created, .construct => .ok { s with thread := .initializing }
  | .initializing, .call c => do
    let loop ← callStep s.loop none c
    .ok { s with loop := loop }
  | .initializing, .publish =>
    if s.loop.callers none = .idle then
      .ok { s with thread := .published, loopPtr := true, owner := s.owner.afterPublish }
    else .error .disabled
  | .published, .loop .enter => do
    let loop ← loopStep s.loop .enter
    .ok { s with thread := .looping, loop := loop }
  | .looping, .call c => do
    let loop ← callStep s.loop none c
    .ok { s with loop := loop }
  | .looping, .loop e => do
    let loop ← loopStep s.loop e
    .ok { s with loop := loop, thread := if loop.pc.isOutside then .left else .looping }
  | .left, .clear =>
    if s.owner = .detached then .error (.fault .useAfterFree)
    else .ok { s with thread := .cleared, loopPtr := false }
  | .cleared, .unlock =>
    if s.owner = .detached then .error (.fault .useAfterFree)
    else .ok { s with thread := .unlocked }
  | .unlocked, .destroyLoop => .ok { s with thread := .done }
  | _, _ => .error .disabled

def step (s : State T F C) : Event T F C → Except (Stop Fault) (State T F C)
  | .owner e => ownerStep s e
  | .thread e => threadStep s e
  | .other t c =>
    if s.thread.loopAlive then do
      let loop ← callStep s.loop (some (some t)) c
      .ok { s with loop := loop }
    else .error .disabled

inductive Move (s : State T F C) : Event T F C → State T F C → Prop where
  | start (ho : s.owner = .idle) (ht : s.thread = .notStarted) :
    Move s (.owner .start) { s with owner := .locking, thread := .created }
  | lockAndTest (ho : s.owner = .locking) :
    Move s (.owner .lockAndTest) { s with owner := if s.loopPtr then .started else .waiting false }
  | wake (b : Bool) (ho : s.owner = .waiting b) : Move s (.owner .wake) { s with owner := .locking }
  | destroy (ho : s.owner = .started) : Move s (.owner .destroy) { s with owner := .testing }
  | test (ho : s.owner = .testing) :
    Move s (.owner .test) { s with owner := if s.loopPtr then .fetching else .detached }
  | fetch (ho : s.owner = .fetching) (hp : s.loopPtr = true) :
    Move s (.owner .fetch) { s with owner := .quitting }
  | quit (l : EventLoop.State (Option T) F C) (ho : s.owner = .quitting)
      (ha : s.thread.loopAlive = true)
      (hl : EventLoop.step s.loop (.caller (some none) .quit) = .ok l) :
    Move s (.owner .quit) { s with owner := .waking, loop := l }
  | wakeup (l : EventLoop.State (Option T) F C) (ho : s.owner = .waking)
      (ha : s.thread.loopAlive = true)
      (hl : EventLoop.step s.loop (.caller (some none) .wake) = .ok l) :
    Move s (.owner .wakeup) { s with owner := .joining, loop := l }
  | join (ho : s.owner = .joining) (ht : s.thread = .done) :
    Move s (.owner .join) { s with owner := .joined }
  | construct (ht : s.thread = .created) :
    Move s (.thread .construct) { s with thread := .initializing }
  | call (c : Call F) (l : EventLoop.State (Option T) F C)
      (ht : s.thread = .initializing ∨ s.thread = .looping)
      (hl : EventLoop.step s.loop (.caller none c) = .ok l) :
    Move s (.thread (.call c)) { s with loop := l }
  | publish (ht : s.thread = .initializing) (hself : s.loop.callers none = .idle) :
    Move s (.thread .publish) { s with
      thread := .published, loopPtr := true, owner := s.owner.afterPublish }
  | enter (l : EventLoop.State (Option T) F C) (ht : s.thread = .published)
      (hl : EventLoop.step s.loop (.loop .enter) = .ok l) :
    Move s (.thread (.loop .enter)) { s with thread := .looping, loop := l }
  | loop (e : LoopEvent C) (l : EventLoop.State (Option T) F C) (ht : s.thread = .looping)
      (hl : EventLoop.step s.loop (.loop e) = .ok l) :
    Move s (.thread (.loop e)) { s with
      loop := l, thread := if l.pc.isOutside then .left else .looping }
  | clear (ht : s.thread = .left) (ho : s.owner ≠ .detached) :
    Move s (.thread .clear) { s with thread := .cleared, loopPtr := false }
  | unlock (ht : s.thread = .cleared) (ho : s.owner ≠ .detached) :
    Move s (.thread .unlock) { s with thread := .unlocked }
  | destroyLoop (ht : s.thread = .unlocked) :
    Move s (.thread .destroyLoop) { s with thread := .done }
  | other (t : T) (c : Call F) (l : EventLoop.State (Option T) F C)
      (ha : s.thread.loopAlive = true)
      (hl : EventLoop.step s.loop (.caller (some (some t)) c) = .ok l) :
    Move s (.other t c) { s with loop := l }

theorem ownerStep_move {s t : State T F C} {e : OwnerEvent} (h : ownerStep s e = .ok t) :
    Move s (.owner e) t := by
  simp only [ownerStep] at h
  split at h
  · rename_i ho
    obtain ⟨u, ht, hok⟩ := bind_eq_ok.mp h
    cases hok
    exact .start ho (by simpa using ht)
  · rename_i ho
    cases h
    exact .lockAndTest ho
  · rename_i b ho
    cases h
    exact .wake b ho
  · rename_i ho
    cases h
    exact .destroy ho
  · rename_i ho
    cases h
    exact .test ho
  · rename_i ho
    split at h
    · rename_i hp
      cases h
      exact .fetch ho hp
    · cases h
  · rename_i ho
    split at h
    · rename_i ha
      obtain ⟨l, hl, hok⟩ := bind_eq_ok.mp h
      cases hok
      exact .quit l ho ha hl
    · cases h
  · rename_i ho
    split at h
    · rename_i ha
      obtain ⟨l, hl, hok⟩ := bind_eq_ok.mp h
      cases hok
      exact .wakeup l ho ha hl
    · cases h
  · rename_i ho
    split at h
    · rename_i ht
      cases h
      exact .join ho ht
    · cases h
  · cases h

theorem threadStep_move {s t : State T F C} {e : ThreadEvent F C} (h : threadStep s e = .ok t) :
    Move s (.thread e) t := by
  simp only [threadStep] at h
  split at h
  · rename_i ht
    cases h
    exact .construct ht
  · rename_i c ht
    obtain ⟨l, hl, hok⟩ := bind_eq_ok.mp h
    cases hok
    exact .call c l (.inl ht) hl
  · rename_i ht
    split at h
    · rename_i hself
      cases h
      exact .publish ht hself
    · cases h
  · rename_i ht
    obtain ⟨l, hl, hok⟩ := bind_eq_ok.mp h
    cases hok
    exact .enter l ht hl
  · rename_i c ht
    obtain ⟨l, hl, hok⟩ := bind_eq_ok.mp h
    cases hok
    exact .call c l (.inr ht) hl
  · rename_i e ht
    obtain ⟨l, hl, hok⟩ := bind_eq_ok.mp h
    cases hok
    exact .loop e l ht hl
  · rename_i ht
    split at h
    · cases h
    · rename_i ho
      cases h
      exact .clear ht ho
  · rename_i ht
    split at h
    · cases h
    · rename_i ho
      cases h
      exact .unlock ht ho
  · rename_i ht
    cases h
    exact .destroyLoop ht
  · cases h

theorem step_move {s t : State T F C} {e : Event T F C} (h : step s e = .ok t) : Move s e t := by
  cases e with
  | owner e => exact ownerStep_move h
  | thread e => exact threadStep_move h
  | other x c =>
    simp only [step] at h
    split at h
    · rename_i ha
      obtain ⟨l, hl, hok⟩ := bind_eq_ok.mp h
      cases hok
      exact .other x c l ha hl
    · cases h

theorem Move.step_eq {s t : State T F C} {e : Event T F C} (h : Move s e t) : step s e = .ok t := by
  cases h with
  | start ho ht => simp [step, ownerStep, ho, ht, bind, Except.bind]
  | lockAndTest ho => simp [step, ownerStep, ho]
  | wake b ho => simp [step, ownerStep, ho]
  | destroy ho => simp [step, ownerStep, ho]
  | test ho => simp [step, ownerStep, ho]
  | fetch ho hp => simp [step, ownerStep, ho, hp]
  | quit l ho ha hl =>
    rw [EventLoop.step] at hl
    simp [step, ownerStep, ho, ha, hl, bind, Except.bind]
  | wakeup l ho ha hl =>
    rw [EventLoop.step] at hl
    simp [step, ownerStep, ho, ha, hl, bind, Except.bind]
  | join ho ht => simp [step, ownerStep, ho, ht]
  | construct ht => simp [step, threadStep, ht]
  | call c l ht hl =>
    rw [EventLoop.step] at hl
    rcases ht with ht | ht <;> simp [step, threadStep, ht, hl, bind, Except.bind]
  | publish ht hself => simp [step, threadStep, ht, hself]
  | enter l ht hl =>
    rw [EventLoop.step] at hl
    simp [step, threadStep, ht, hl, bind, Except.bind]
  | loop e l ht hl =>
    rw [EventLoop.step] at hl
    cases e <;> simp [step, threadStep, ht, hl, bind, Except.bind]
  | clear ht ho => simp [step, threadStep, ht, ho]
  | unlock ht ho => simp [step, threadStep, ht, ho]
  | destroyLoop ht => simp [step, threadStep, ht]
  | other x c l ha hl =>
    rw [EventLoop.step] at hl
    simp [step, ha, hl, bind, Except.bind]

end AcMuduo.EventLoopThread
