import AcMuduo.EventLoopThread

namespace AcMuduo.EventLoopThread

open Machine EventLoop

variable {T F C : Type}

def Owner.startReturned : Owner → Bool
  | .idle | .locking | .waiting _ => false
  | _ => true

def Thread.unpublished : Thread → Bool
  | .notStarted | .created | .initializing => true
  | _ => false

def Thread.holdsLoop : Thread → Bool
  | .published | .looping | .left => true
  | _ => false

structure Offered (s : State T F C) : Prop where
  loopPtr : s.loopPtr = s.thread.holdsLoop
  kept : s.owner.startReturned = false → s.thread.unpublished = true ∨ s.thread.holdsLoop = true

theorem offered_init : Offered (State.init : State T F C) := ⟨rfl, fun _ => .inl rfl⟩

/-- `loop_` is cleared only after `start_loop` has returned. -/
def ClearsAfterStart (s : State T F C) (e : Event T F C) : Prop :=
  e = .thread .clear → s.owner.startReturned = true

theorem Offered.of_owner {s : State T F C} (h : Offered s) {o : Owner}
    (ho : o.startReturned = false → s.owner.startReturned = false) :
    Offered { s with owner := o } :=
  ⟨h.loopPtr, fun hr => h.kept (ho hr)⟩

theorem Offered.of_loop {s : State T F C} (h : Offered s) (l : EventLoop.State (Option T) F C) :
    Offered { s with loop := l } := ⟨h.loopPtr, h.kept⟩

theorem Offered.of_holdsLoop {s : State T F C} (h : Offered s) {th : Thread}
    (l : EventLoop.State (Option T) F C) (ht : s.thread.holdsLoop = true)
    (hth : th.holdsLoop = true) : Offered { s with loop := l, thread := th } :=
  ⟨h.loopPtr.trans (ht.trans hth.symm), fun _ => .inr hth⟩

variable [DecidableEq T]

theorem offered_step (s : State T F C) (e : Event T F C) (t : State T F C) (h : Offered s)
    (hclear : ClearsAfterStart s e) (hstep : step s e = .ok t) : Offered t := by
  cases step_move hstep with
  | start ho ht => exact ⟨h.loopPtr.trans (by simp [ht, Thread.holdsLoop]), fun _ => .inl rfl⟩
  | lockAndTest ho => exact h.of_owner fun _ => by simp [ho, Owner.startReturned]
  | wake b ho => exact h.of_owner fun _ => by simp [ho, Owner.startReturned]
  | destroy ho => exact h.of_owner fun hr => by cases hr
  | test ho => exact h.of_owner fun hr => by split at hr <;> cases hr
  | fetch ho hp => exact h.of_owner fun hr => by cases hr
  | quit l ho ha hl => exact (h.of_loop l).of_owner fun hr => by cases hr
  | wakeup l ho ha hl => exact (h.of_loop l).of_owner fun hr => by cases hr
  | join ho ht => exact h.of_owner fun hr => by cases hr
  | construct ht => exact ⟨h.loopPtr.trans (by simp [ht, Thread.holdsLoop]), fun _ => .inl rfl⟩
  | call c l ht hl => exact h.of_loop l
  | publish ht hself => exact ⟨rfl, fun _ => .inr rfl⟩
  | enter l ht hl => exact h.of_holdsLoop l (by simp [ht, Thread.holdsLoop]) rfl
  | loop e l ht hl =>
    exact h.of_holdsLoop l (by simp [ht, Thread.holdsLoop]) (by split <;> rfl)
  | clear ht ho => exact ⟨rfl, fun hr => by simp [hclear rfl] at hr⟩
  | unlock ht ho =>
    refine ⟨h.loopPtr.trans (by simp [ht, Thread.holdsLoop]), fun hr => ?_⟩
    simpa [ht, Thread.unpublished, Thread.holdsLoop] using h.kept hr
  | destroyLoop ht =>
    refine ⟨h.loopPtr.trans (by simp [ht, Thread.holdsLoop]), fun hr => ?_⟩
    simpa [ht, Thread.unpublished, Thread.holdsLoop] using h.kept hr
  | other x c l ha hl => exact h.of_loop l

/-- `start_loop` waits only for a notification that is still to come, and the loop that it returns
is the one that `thread_func` offers. -/
def GetsLoop (s : State T F C) : Prop :=
  (∀ b, s.owner = .waiting b → s.loopPtr = false → s.thread.unpublished = true) ∧
  ∀ t, step s (.owner .lockAndTest) = .ok t → t.owner = .started →
    s.loopPtr = true ∧ s.thread.holdsLoop = true

theorem Offered.getsLoop {s : State T F C} (h : Offered s) : GetsLoop s := by
  refine ⟨fun b ho hp => ?_, fun t ht hstarted => ?_⟩
  · have hkept := h.kept (by simp [ho, Owner.startReturned])
    rw [← h.loopPtr, hp] at hkept
    exact hkept.resolve_right (by decide)
  · rw [← h.loopPtr, and_self]
    cases step_move ht with
    | lockAndTest ho =>
      cases hp : s.loopPtr with
      | true => rfl
      | false => simp [hp] at hstarted

/-- In the runs in which `loop_` is cleared only after `start_loop` has returned, `start_loop` gets
its loop. -/
theorem start_loop_gets_loop {es : List (Event T F C)} {s : State T F C}
    (hrun : run step State.init es = .ok s)
    (hclear : Throughout step ClearsAfterStart State.init es) : GetsLoop s :=
  (run_invariant_of offered_step offered_init hclear hrun).getsLoop

def quitsItself : List (Event Unit Unit Unit) :=
  [.owner .start, .thread .construct, .thread (.call (.push ())), .thread (.call .wake),
    .thread .publish, .thread (.loop .enter), .thread (.loop .resetQuit), .thread (.loop .test),
    .thread (.loop (.poll [])), .thread (.loop .doPendingFunctors), .thread (.loop .swap),
    .thread (.loop .call), .thread (.call .quit), .thread (.call .wake), .thread (.loop .ret),
    .thread (.loop .finish), .thread (.loop .test)]

theorem quitsItself_clears : Throughout step ClearsAfterStart State.init
    (quitsItself ++ [.owner .lockAndTest] ++ [.thread .clear]) := by
  refine throughout_append.mpr ⟨?_, fun t ht => ⟨fun _ => ?_, fun _ _ => trivial⟩⟩
  · have hother : ∀ e ∈ quitsItself ++ [.owner .lockAndTest], e ≠ .thread .clear := by
      simp [quitsItself]
    exact (throughout_of_forall hother).imp fun s e he heq => absurd heq he
  · cases ht
    rfl

theorem start_loop_gets_loop_quitsItself :
    ∃ s, run step State.init (quitsItself ++ [.owner .lockAndTest] ++ [.thread .clear]) = .ok s ∧
      GetsLoop s :=
  ⟨_, rfl, start_loop_gets_loop rfl quitsItself_clears⟩

/-- The owner takes the lock only after `loop_` has been cleared, and waits forever. -/
theorem start_loop_stuck :
    ¬ ∀ (es : List (Event Unit Unit Unit)) (s : State Unit Unit Unit),
      run step State.init es = .ok s → GetsLoop s := by
  intro h
  have hrun : run step State.init
      (quitsItself ++ [.thread .clear, .thread .unlock, .owner .lockAndTest]) = .ok _ := rfl
  have hwait := (h _ _ hrun).1 false rfl rfl
  cases hwait

end AcMuduo.EventLoopThread
