import AcMuduo.Fault
import Mathlib.Algebra.Group.Nat.Defs

namespace AcMuduo.EventLoop

open Machine

/-- The members of an `event_loop_t` that the modelled functions use. `wakeupFd` is the
counter of the eventfd. -/
structure Loop (F : Type) where
  looping : Bool
  quit : Bool
  eventHandling : Bool
  callingPendingFunctors : Bool
  iteration : Nat
  wakeupFd : Nat
  pendingFunctors : List F

def Loop.new {F : Type} : Loop F := ⟨false, false, false, false, 0, 0, []⟩

/-- The largest value of an eventfd counter: a non-blocking write past it fails with `EAGAIN`. -/
def eventfdMax : Nat := 2 ^ 64 - 2

inductive Channel (C : Type) where
  | wakeup
  | other (c : C)

/-- Where the loop thread is. `handling` carries the channels of `active_channels_` from the
current one on, `running` and `calling` the functors of the batch that have not been called. -/
inductive Pc (F C : Type) where
  | outside
  | entered
  | test
  | polling
  | handling (active : List (Channel C))
  | functors
  | running (batch : List F)
  | calling (batch : List F)

/-- What a thread has left to do in `queue_in_loop` or in `quit`: the wake-up. -/
inductive Caller where
  | idle
  | queueing
  | quitting
  deriving DecidableEq

inductive Call (F : Type) where
  | push (f : F)
  | quit
  | wake

inductive LoopEvent (C : Type) where
  | enter
  | resetQuit
  | test
  | poll (active : List (Channel C))
  | handle
  | doPendingFunctors
  | swap
  | call
  | ret
  | finish

/-- One step of one thread. The caller `none` is the loop thread itself. -/
inductive Event (T F C : Type) where
  | caller (who : Option T) (c : Call F)
  | loop (e : LoopEvent C)

structure State (T F C : Type) where
  loop : Loop F
  pc : Pc F C
  callers : Option T → Caller

variable {T F C : Type}

def State.init : State T F C := ⟨Loop.new, .outside, fun _ => .idle⟩

def wakeup (l : Loop F) : Loop F :=
  { l with wakeupFd := if l.wakeupFd < eventfdMax then l.wakeupFd + 1 else l.wakeupFd }

def handleRead (l : Loop F) : Loop F := { l with wakeupFd := 0 }

def queueInLoop (f : F) (l : Loop F) : Loop F :=
  { l with pendingFunctors := l.pendingFunctors ++ [f] }

def wakeAfterQueue (isInLoopThread : Bool) (l : Loop F) : Loop F :=
  if !isInLoopThread || l.callingPendingFunctors then wakeup l else l

def wakeAfterQuit (isInLoopThread : Bool) (l : Loop F) : Loop F :=
  if !isInLoopThread then wakeup l else l

/-- The loop thread runs code of its users: it is not in `loop()`, in the handler of a channel
other than the wake-up channel, or in a functor. -/
def Pc.inUserCode : Pc F C → Bool
  | .outside | .handling (.other _ :: _) | .calling _ => true
  | _ => false

def Pc.isOutside : Pc F C → Bool
  | .outside => true
  | _ => false

def mayCall (s : State T F C) (who : Option T) : Bool := who.isSome || s.pc.inUserCode

variable [DecidableEq T]

def callStep (s : State T F C) (who : Option T) :
    Call F → Except (Stop Fault) (State T F C)
  | .push f =>
    if s.callers who = .idle ∧ mayCall s who then
      .ok { s with
        loop := queueInLoop f s.loop
        callers := Function.update s.callers who .queueing }
    else .error .disabled
  | .quit =>
    if s.callers who = .idle ∧ mayCall s who then
      .ok { s with
        loop := { s.loop with quit := true }, callers := Function.update s.callers who .quitting }
    else .error .disabled
  | .wake =>
    match s.callers who with
    | .idle => .error .disabled
    | .queueing => .ok { s with
        loop := wakeAfterQueue who.isNone s.loop, callers := Function.update s.callers who .idle }
    | .quitting => .ok { s with
        loop := wakeAfterQuit who.isNone s.loop, callers := Function.update s.callers who .idle }

omit [DecidableEq T] in
/-- `loop()` and `do_pending_functors()`, statement by statement. `poll` may return any list
of active channels. -/
def loopStep (s : State T F C) (e : LoopEvent C) : Except (Stop Fault) (State T F C) :=
  if s.callers none = .idle then
    match s.pc, e with
    | .outside, .enter => do
      assert (!s.loop.looping)
      .ok { s with pc := .entered, loop := { s.loop with looping := true } }
    | .entered, .resetQuit => .ok { s with pc := .test, loop := { s.loop with quit := false } }
    | .test, .test =>
      if s.loop.quit then .ok { s with pc := .outside, loop := { s.loop with looping := false } }
      else .ok { s with pc := .polling }
    | .polling, .poll active => .ok { s with
        pc := .handling active
        loop := { s.loop with iteration := s.loop.iteration + 1, eventHandling := true } }
    | .handling (.wakeup :: active), .handle =>
      .ok { s with pc := .handling active, loop := handleRead s.loop }
    | .handling (.other _ :: active), .handle => .ok { s with pc := .handling active }
    | .handling [], .doPendingFunctors => .ok { s with
        pc := .functors
        loop := { s.loop with eventHandling := false, callingPendingFunctors := true } }
    | .functors, .swap => .ok { s with
        pc := .running s.loop.pendingFunctors, loop := { s.loop with pendingFunctors := [] } }
    | .running (_ :: batch), .call => .ok { s with pc := .calling batch }
    | .calling batch, .ret => .ok { s with pc := .running batch }
    | .running [], .finish =>
      .ok { s with pc := .test, loop := { s.loop with callingPendingFunctors := false } }
    | _, _ => .error .disabled
  else .error .disabled

def step (s : State T F C) : Event T F C → Except (Stop Fault) (State T F C)
  | .caller who c => callStep s who c
  | .loop e => loopStep s e

inductive Move (s : State T F C) : Event T F C → State T F C → Prop where
  | push (who : Option T) (f : F) (hwho : s.callers who = .idle) (hcall : mayCall s who = true) :
    Move s (.caller who (.push f)) { s with
      loop := queueInLoop f s.loop, callers := Function.update s.callers who .queueing }
  | quit (who : Option T) (hwho : s.callers who = .idle) (hcall : mayCall s who = true) :
    Move s (.caller who .quit) { s with
      loop := { s.loop with quit := true }, callers := Function.update s.callers who .quitting }
  | wakeQueue (who : Option T) (hwho : s.callers who = .queueing) :
    Move s (.caller who .wake) { s with
      loop := wakeAfterQueue who.isNone s.loop, callers := Function.update s.callers who .idle }
  | wakeQuit (who : Option T) (hwho : s.callers who = .quitting) :
    Move s (.caller who .wake) { s with
      loop := wakeAfterQuit who.isNone s.loop, callers := Function.update s.callers who .idle }
  | enter (hself : s.callers none = .idle) (hpc : s.pc = .outside) (hl : s.loop.looping = false) :
    Move s (.loop .enter) { s with pc := .entered, loop := { s.loop with looping := true } }
  | resetQuit (hself : s.callers none = .idle) (hpc : s.pc = .entered) :
    Move s (.loop .resetQuit) { s with pc := .test, loop := { s.loop with quit := false } }
  | leave (hself : s.callers none = .idle) (hpc : s.pc = .test) (hq : s.loop.quit = true) :
    Move s (.loop .test) { s with pc := .outside, loop := { s.loop with looping := false } }
  | iterate (hself : s.callers none = .idle) (hpc : s.pc = .test) (hq : s.loop.quit = false) :
    Move s (.loop .test) { s with pc := .polling }
  | poll (active : List (Channel C)) (hself : s.callers none = .idle) (hpc : s.pc = .polling) :
    Move s (.loop (.poll active)) { s with
      pc := .handling active
      loop := { s.loop with iteration := s.loop.iteration + 1, eventHandling := true } }
  | handleWakeup (active : List (Channel C)) (hself : s.callers none = .idle)
      (hpc : s.pc = .handling (.wakeup :: active)) :
    Move s (.loop .handle) { s with pc := .handling active, loop := handleRead s.loop }
  | handleOther (c : C) (active : List (Channel C)) (hself : s.callers none = .idle)
      (hpc : s.pc = .handling (.other c :: active)) :
    Move s (.loop .handle) { s with pc := .handling active }
  | doPendingFunctors (hself : s.callers none = .idle) (hpc : s.pc = .handling []) :
    Move s (.loop .doPendingFunctors) { s with
      pc := .functors
      loop := { s.loop with eventHandling := false, callingPendingFunctors := true } }
  | swap (hself : s.callers none = .idle) (hpc : s.pc = .functors) :
    Move s (.loop .swap) { s with
      pc := .running s.loop.pendingFunctors, loop := { s.loop with pendingFunctors := [] } }
  | call (f : F) (batch : List F) (hself : s.callers none = .idle)
      (hpc : s.pc = .running (f :: batch)) :
    Move s (.loop .call) { s with pc := .calling batch }
  | ret (batch : List F) (hself : s.callers none = .idle) (hpc : s.pc = .calling batch) :
    Move s (.loop .ret) { s with pc := .running batch }
  | finish (hself : s.callers none = .idle) (hpc : s.pc = .running []) :
    Move s (.loop .finish) { s with
      pc := .test, loop := { s.loop with callingPendingFunctors := false } }

theorem callStep_move {s t : State T F C} {who : Option T} {c : Call F}
    (h : callStep s who c = .ok t) : Move s (.caller who c) t := by
  cases c with
  | push f =>
    simp only [callStep] at h
    split at h
    · rename_i hc
      cases h
      exact .push who f hc.1 hc.2
    · cases h
  | quit =>
    simp only [callStep] at h
    split at h
    · rename_i hc
      cases h
      exact .quit who hc.1 hc.2
    · cases h
  | wake =>
    cases hw : s.callers who <;> simp only [callStep, hw] at h <;> cases h
    · exact .wakeQueue who hw
    · exact .wakeQuit who hw

theorem loopStep_move {s t : State T F C} {e : LoopEvent C}
    (h : loopStep s e = .ok t) : Move s (.loop e) t := by
  simp only [loopStep] at h
  split at h
  · rename_i hself
    split at h
    · rename_i hpc
      obtain ⟨u, hl, ht⟩ := bind_eq_ok.mp h
      cases ht
      exact .enter hself hpc (by simpa using hl)
    · rename_i hpc
      cases h
      exact .resetQuit hself hpc
    · rename_i hpc
      split at h
      · rename_i hq
        cases h
        exact .leave hself hpc hq
      · rename_i hq
        cases h
        exact .iterate hself hpc (by simpa using hq)
    · rename_i active hpc
      cases h
      exact .poll active hself hpc
    · rename_i active hpc
      cases h
      exact .handleWakeup active hself hpc
    · rename_i c active hpc
      cases h
      exact .handleOther c active hself hpc
    · rename_i hpc
      cases h
      exact .doPendingFunctors hself hpc
    · rename_i hpc
      cases h
      exact .swap hself hpc
    · rename_i f batch hpc
      cases h
      exact .call f batch hself hpc
    · rename_i batch hpc
      cases h
      exact .ret batch hself hpc
    · rename_i hpc
      cases h
      exact .finish hself hpc
    · cases h
  · cases h

theorem step_move {s t : State T F C} {e : Event T F C} (h : step s e = .ok t) : Move s e t := by
  cases e with
  | caller who c => exact callStep_move h
  | loop e => exact loopStep_move h

theorem Move.step_eq {s t : State T F C} {e : Event T F C} (h : Move s e t) : step s e = .ok t := by
  cases h with
  | push who f hwho hcall => simp [step, callStep, hwho, hcall]
  | quit who hwho hcall => simp [step, callStep, hwho, hcall]
  | wakeQueue who hwho => simp [step, callStep, hwho]
  | wakeQuit who hwho => simp [step, callStep, hwho]
  | enter hself hpc hl => simp [step, loopStep, hself, hpc, hl, bind, Except.bind]
  | resetQuit hself hpc => simp [step, loopStep, hself, hpc]
  | leave hself hpc hq => simp [step, loopStep, hself, hpc, hq]
  | iterate hself hpc hq => simp [step, loopStep, hself, hpc, hq]
  | poll active hself hpc => simp [step, loopStep, hself, hpc]
  | handleWakeup active hself hpc => simp [step, loopStep, hself, hpc]
  | handleOther c active hself hpc => simp [step, loopStep, hself, hpc]
  | doPendingFunctors hself hpc => simp [step, loopStep, hself, hpc]
  | swap hself hpc => simp [step, loopStep, hself, hpc]
  | call f batch hself hpc => simp [step, loopStep, hself, hpc]
  | ret batch hself hpc => simp [step, loopStep, hself, hpc]
  | finish hself hpc => simp [step, loopStep, hself, hpc]

theorem wakeup_ne_zero (l : Loop F) : (wakeup l).wakeupFd ≠ 0 := by
  by_cases h : l.wakeupFd < eventfdMax
  · simp [wakeup, h]
  · have hpos : 0 < l.wakeupFd := Nat.lt_of_lt_of_le (by decide) (Nat.not_lt.mp h)
    simpa [wakeup, h] using Nat.ne_of_gt hpos

theorem wakeAfterQueue_eq (b : Bool) (l : Loop F) :
    wakeAfterQueue b l = { l with wakeupFd := (wakeAfterQueue b l).wakeupFd } := by
  rw [wakeAfterQueue]
  split <;> rfl

@[simp] theorem wakeAfterQueue_pendingFunctors (b : Bool) (l : Loop F) :
    (wakeAfterQueue b l).pendingFunctors = l.pendingFunctors := by
  rw [wakeAfterQueue_eq]

@[simp] theorem wakeAfterQueue_calling (b : Bool) (l : Loop F) :
    (wakeAfterQueue b l).callingPendingFunctors = l.callingPendingFunctors := by
  rw [wakeAfterQueue_eq]

@[simp] theorem wakeAfterQueue_quit (b : Bool) (l : Loop F) :
    (wakeAfterQueue b l).quit = l.quit := by
  rw [wakeAfterQueue_eq]

@[simp] theorem wakeAfterQueue_iteration (b : Bool) (l : Loop F) :
    (wakeAfterQueue b l).iteration = l.iteration := by
  rw [wakeAfterQueue_eq]

theorem wakeAfterQueue_ne_zero {b : Bool} {l : Loop F} (h : l.wakeupFd ≠ 0) :
    (wakeAfterQueue b l).wakeupFd ≠ 0 := by
  rw [wakeAfterQueue]
  split
  · exact wakeup_ne_zero l
  · exact h

theorem wakeAfterQuit_eq (b : Bool) (l : Loop F) :
    wakeAfterQuit b l = { l with wakeupFd := (wakeAfterQuit b l).wakeupFd } := by
  rw [wakeAfterQuit]
  split <;> rfl

@[simp] theorem wakeAfterQuit_pendingFunctors (b : Bool) (l : Loop F) :
    (wakeAfterQuit b l).pendingFunctors = l.pendingFunctors := by
  rw [wakeAfterQuit_eq]

@[simp] theorem wakeAfterQuit_calling (b : Bool) (l : Loop F) :
    (wakeAfterQuit b l).callingPendingFunctors = l.callingPendingFunctors := by
  rw [wakeAfterQuit_eq]

@[simp] theorem wakeAfterQuit_quit (b : Bool) (l : Loop F) : (wakeAfterQuit b l).quit = l.quit := by
  rw [wakeAfterQuit_eq]

@[simp] theorem wakeAfterQuit_iteration (b : Bool) (l : Loop F) :
    (wakeAfterQuit b l).iteration = l.iteration := by
  rw [wakeAfterQuit_eq]

theorem wakeAfterQuit_ne_zero {b : Bool} {l : Loop F} (h : l.wakeupFd ≠ 0) :
    (wakeAfterQuit b l).wakeupFd ≠ 0 := by
  rw [wakeAfterQuit]
  split
  · exact wakeup_ne_zero l
  · exact h

theorem caller_pc {s t : State T F C} {who : Option T} {c : Call F}
    (h : step s (.caller who c) = .ok t) : t.pc = s.pc := by
  cases step_move h <;> rfl

theorem enter_pc {s t : State T F C} (h : step s (.loop .enter) = .ok t) :
    s.pc = .outside ∧ t.pc = .entered := by
  cases step_move h with
  | enter hself hpc hl => exact ⟨hpc, rfl⟩

theorem wake_ne_zero {s t : State T F C} {x : T} (h : step s (.caller (some x) .wake) = .ok t) :
    t.loop.wakeupFd ≠ 0 := by
  cases step_move h with
  | wakeQueue who hwho => simpa [wakeAfterQueue] using wakeup_ne_zero s.loop
  | wakeQuit who hwho => simpa [wakeAfterQuit] using wakeup_ne_zero s.loop

theorem quit_stored {s t : State T F C} {who : Option T} (h : step s (.caller who .quit) = .ok t) :
    t.loop.quit = true := by
  cases step_move h with
  | quit who hwho hcall => rfl

theorem swap_pc {s t : State T F C} (h : step s (.loop .swap) = .ok t) :
    s.pc = .functors ∧ t.pc = .running s.loop.pendingFunctors := by
  cases step_move h with
  | swap hself hpc => exact ⟨hpc, rfl⟩

theorem quit_step {s t : State T F C} {e : Event T F C} (hq : s.loop.quit = true)
    (hpc : s.pc ≠ .entered) (hstep : step s e = .ok t) : t.loop.quit = true := by
  cases step_move hstep with
  | resetQuit hself hpc' => exact absurd hpc' hpc
  | quit who hwho hcall => rfl
  | wakeQueue who hwho => simpa using hq
  | wakeQuit who hwho => simpa using hq
  | _ => exact hq

theorem entered_step {s t : State T F C} {e : Event T F C} (he : e ≠ .loop .enter)
    (hpc : s.pc ≠ .entered) (hstep : step s e = .ok t) : t.pc ≠ .entered := by
  cases step_move hstep with
  | enter hself hpc' hl => exact absurd rfl he
  | push who f hwho hcall => exact hpc
  | quit who hwho hcall => exact hpc
  | wakeQueue who hwho => exact hpc
  | wakeQuit who hwho => exact hpc
  | _ => simp

theorem polling_step {s t : State T F C} {e : Event T F C} (hq : s.loop.quit = true)
    (hpc : t.pc = .polling) (hstep : step s e = .ok t) :
    s.pc = .polling ∧ t.loop.iteration = s.loop.iteration ∧
      (s.loop.wakeupFd ≠ 0 → t.loop.wakeupFd ≠ 0) := by
  cases step_move hstep with
  | push who f hwho hcall => exact ⟨hpc, rfl, id⟩
  | quit who hwho hcall => exact ⟨hpc, rfl, id⟩
  | wakeQueue who hwho => exact ⟨hpc, by simp, wakeAfterQueue_ne_zero⟩
  | wakeQuit who hwho => exact ⟨hpc, by simp, wakeAfterQuit_ne_zero⟩
  | iterate hself hpc' hq' => simp [hq] at hq'
  | _ => simp at hpc

/-- The loop thread alone can bring `loop()` to its end. -/
inductive Leaves : State T F C → Prop where
  | outside {s : State T F C} (hpc : s.pc = .outside) : Leaves s
  | call {s t : State T F C} (c : Call F) (hpc : s.pc ≠ .outside)
      (hmove : Move s (.caller none c) t) (ht : Leaves t) : Leaves s
  | loop {s t : State T F C} (e : LoopEvent C) (hpc : s.pc ≠ .outside)
      (hmove : Move s (.loop e) t) (ht : Leaves t) : Leaves s

theorem leaves_test {s : State T F C} (hself : s.callers none = .idle)
    (hq : s.loop.quit = true) (hpc : s.pc = .test) : Leaves s :=
  .loop .test (by simp [hpc]) (.leave hself hpc hq) (.outside rfl)

theorem leaves_running {s : State T F C} {batch : List F} (hself : s.callers none = .idle)
    (hq : s.loop.quit = true) (hpc : s.pc = .running batch) : Leaves s := by
  induction batch generalizing s with
  | nil =>
    apply Leaves.loop .finish (by simp [hpc]) (.finish hself hpc)
    exact leaves_test hself hq rfl
  | cons f batch ih =>
    apply Leaves.loop .call (by simp [hpc]) (.call f batch hself hpc)
    refine .loop .ret (by simp) (.ret batch hself rfl) ?_
    exact ih hself hq rfl

theorem leaves_functors {s : State T F C} (hself : s.callers none = .idle)
    (hq : s.loop.quit = true) (hpc : s.pc = .functors) : Leaves s := by
  apply Leaves.loop .swap (by simp [hpc]) (.swap hself hpc)
  exact leaves_running hself hq rfl

theorem leaves_handling {s : State T F C} {active : List (Channel C)}
    (hself : s.callers none = .idle) (hq : s.loop.quit = true) (hpc : s.pc = .handling active) :
    Leaves s := by
  induction active generalizing s with
  | nil =>
    apply Leaves.loop .doPendingFunctors (by simp [hpc]) (.doPendingFunctors hself hpc)
    exact leaves_functors hself hq rfl
  | cons ch active ih =>
    cases ch with
    | wakeup =>
      apply Leaves.loop .handle (by simp [hpc]) (.handleWakeup active hself hpc)
      exact ih hself hq rfl
    | other c =>
      apply Leaves.loop .handle (by simp [hpc]) (.handleOther c active hself hpc)
      exact ih hself hq rfl

theorem leaves_of_idle {s : State T F C} (hself : s.callers none = .idle)
    (hq : s.loop.quit = true) (hpc : s.pc ≠ .entered) : Leaves s := by
  cases h : s.pc with
  | outside => exact .outside h
  | entered => exact absurd h hpc
  | test => exact leaves_test hself hq h
  | polling =>
    apply Leaves.loop (.poll [.wakeup]) (by simp [h]) (.poll [.wakeup] hself h)
    exact leaves_handling hself hq rfl
  | handling active => exact leaves_handling hself hq h
  | functors => exact leaves_functors hself hq h
  | running batch => exact leaves_running hself hq h
  | calling batch =>
    apply Leaves.loop .ret (by simp [h]) (.ret batch hself h)
    exact leaves_running hself hq rfl

/-- Once `quit_` is set for good, `loop()` can end. A loop thread inside `queue_in_loop` or
`quit` first finishes that call. -/
theorem leaves_of_quit {s : State T F C} (hq : s.loop.quit = true) (hpc : s.pc ≠ .entered) :
    Leaves s := by
  by_cases hout : s.pc = .outside
  · exact .outside hout
  · cases hself : s.callers none with
    | idle => exact leaves_of_idle hself hq hpc
    | queueing =>
      apply Leaves.call .wake hout (.wakeQueue none hself)
      exact leaves_of_idle (by simp) (by simpa using hq) hpc
    | quitting =>
      apply Leaves.call .wake hout (.wakeQuit none hself)
      exact leaves_of_idle (by simp) (by simpa using hq) hpc

end AcMuduo.EventLoop
