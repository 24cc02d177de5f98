import AcMuduo.PendingFunctors
import AcMuduo.StartLoop

namespace AcMuduo.EventLoop

variable {T F C : Type} {s t : State T F C} {who : Option T} {c : Call F} {e : LoopEvent C}
  {f : Fault}

theorem callStep_not_fault [DecidableEq T] : callStep s who c ≠ .error (.fault f) := by
  intro h
  cases c with
  | push g =>
    simp only [callStep] at h
    split at h <;> cases h
  | quit =>
    simp only [callStep] at h
    split at h <;> cases h
  | wake => cases hw : s.callers who <;> simp [callStep, hw] at h

theorem call_not_fault [DecidableEq T] {α : Type} {g : State T F C → α} :
    (callStep s who c >>= fun l => .ok (g l)) ≠ .error (.fault f) := by
  intro h
  obtain hf | ⟨l, -, hok⟩ := Machine.bind_eq_error.mp h
  · exact callStep_not_fault hf
  · cases hok

theorem loopStep_fault (h : loopStep s e = .error (.fault f)) :
    s.pc = .outside ∧ s.loop.looping = true := by
  simp only [loopStep] at h
  split at h
  · split at h
    · rename_i hpc
      cases hl : s.loop.looping with
      | true => exact ⟨hpc, rfl⟩
      | false => simp [hl, bind, Except.bind] at h
    all_goals first | cases h | (split at h <;> cases h)
  · cases h

theorem looping_step [DecidableEq T] {e : Event T F C}
    (h : s.pc = .outside → s.loop.looping = false) (hstep : step s e = .ok t) :
    t.pc = .outside → t.loop.looping = false := by
  intro hpc
  cases step_move hstep with
  | push who f hwho hcall => exact h hpc
  | quit who hwho hcall => exact h hpc
  | wakeQueue who hwho =>
    rw [wakeAfterQueue_eq]
    exact h hpc
  | wakeQuit who hwho =>
    rw [wakeAfterQuit_eq]
    exact h hpc
  | leave hself hpc' hq => rfl
  | _ => cases hpc

end AcMuduo.EventLoop

namespace AcMuduo.EventLoopThread

open Machine EventLoop

variable {T F C : Type}

def Owner.gone : Owner → Bool
  | .joined | .detached => true
  | _ => false

def Owner.inQuit : Owner → Bool
  | .quitting | .waking => true
  | _ => false

/-- The order of steps in which the destructor and `thread_func` do each other no harm. `loop_` is
not cleared between the two reads of it in the destructor, the loop is not destroyed during the
call of `quit`, and `loop_` is found null only when `thread_func` has returned. -/
def InOrder (s : State T F C) : Event T F C → Prop
  | .thread .clear => s.owner ≠ .fetching
  | .thread .destroyLoop => s.owner.inQuit = false
  | .owner .test => s.loopPtr = false → s.thread = .done
  | _ => True

variable {s t : State T F C} {f : Fault}

structure Apart (s : State T F C) : Prop where
  loopPtr : s.loopPtr = s.thread.holdsLoop
  idle : s.owner = .idle → s.thread = .notStarted
  fetching : s.owner = .fetching → s.loopPtr = true
  inQuit : s.owner.inQuit = true → s.thread.loopAlive = true
  gone : s.owner.gone = true → s.thread = .done
  looping : s.loop.pc = .outside → s.loop.loop.looping = false

theorem apart_init : Apart (State.init : State T F C) :=
  ⟨rfl, fun _ => rfl, fun h => (by cases h), fun h => (by cases h), fun h => (by cases h),
    fun _ => rfl⟩

variable [DecidableEq T]

theorem ownerStep_fault {e : OwnerEvent} (h : ownerStep s e = .error (.fault f)) :
    s.owner = .idle ∧ s.thread ≠ .notStarted ∨ s.owner = .fetching ∧ s.loopPtr = false ∨
      s.owner.inQuit = true ∧ s.thread.loopAlive = false := by
  simp only [ownerStep] at h
  split at h
  · rename_i ho
    refine .inl ⟨ho, fun ht => ?_⟩
    simp [ht, bind, Except.bind] at h
  · cases h
  · cases h
  · cases h
  · cases h
  · rename_i ho
    cases hp : s.loopPtr with
    | true => simp [hp] at h
    | false => exact .inr (.inl ⟨ho, rfl⟩)
  · rename_i ho
    split at h
    · exact absurd h call_not_fault
    · rename_i ha
      exact .inr (.inr ⟨by simp [ho, Owner.inQuit], Bool.eq_false_iff.mpr ha⟩)
  · rename_i ho
    split at h
    · exact absurd h call_not_fault
    · rename_i ha
      exact .inr (.inr ⟨by simp [ho, Owner.inQuit], Bool.eq_false_iff.mpr ha⟩)
  · split at h <;> cases h
  · cases h

omit [DecidableEq T] in
theorem loop_fault {e : LoopEvent C} {g : EventLoop.State (Option T) F C → State T F C}
    (h : (loopStep s.loop e >>= fun l => .ok (g l)) = .error (.fault f)) :
    s.loop.pc = .outside ∧ s.loop.loop.looping = true := by
  obtain hf | ⟨l, -, hok⟩ := bind_eq_error.mp h
  · exact loopStep_fault hf
  · cases hok

theorem threadStep_fault {e : ThreadEvent F C} (h : threadStep s e = .error (.fault f)) :
    (s.thread = .left ∨ s.thread = .cleared) ∧ s.owner = .detached ∨
      s.loop.pc = .outside ∧ s.loop.loop.looping = true := by
  simp only [threadStep] at h
  split at h
  · cases h
  · exact absurd h call_not_fault
  · split at h <;> cases h
  · exact .inr (loop_fault h)
  · exact absurd h call_not_fault
  · exact .inr (loop_fault h)
  · rename_i ht
    split at h
    · rename_i ho
      exact .inl ⟨.inl ht, ho⟩
    · cases h
  · rename_i ht
    split at h
    · rename_i ho
      exact .inl ⟨.inr ht, ho⟩
    · cases h
  · cases h
  · cases h

theorem Apart.not_fault (h : Apart s) (e : Event T F C) : step s e ≠ .error (.fault f) := by
  intro hf
  cases e with
  | owner e =>
    obtain ⟨ho, ht⟩ | ⟨ho, hp⟩ | ⟨ho, ha⟩ := ownerStep_fault hf
    · exact ht (h.idle ho)
    · simp [h.fetching ho] at hp
    · simp [h.inQuit ho] at ha
  | thread e =>
    obtain ⟨ht, ho⟩ | ⟨hpc, hl⟩ := threadStep_fault hf
    · have hdone := h.gone (by simp [ho, Owner.gone])
      simp [hdone] at ht
    · simp [h.looping hpc] at hl
  | other x c =>
    simp only [step] at hf
    split at hf
    · exact call_not_fault hf
    · cases hf

omit [DecidableEq T] in
theorem loopAlive_of_holdsLoop {th : Thread} (h : th.holdsLoop = true) : th.loopAlive = true := by
  cases th <;> first | rfl | cases h

omit [DecidableEq T] in
theorem Apart.of_owner (h : Apart s) {o : Owner} (hidle : o ≠ .idle)
    (hfetching : o = .fetching → s.loopPtr = true)
    (hquit : o.inQuit = true → s.thread.loopAlive = true)
    (hgone : o.gone = true → s.thread = .done) : Apart { s with owner := o } :=
  ⟨h.loopPtr, fun ho => absurd ho hidle, hfetching, hquit, hgone, h.looping⟩

theorem Apart.of_loop (h : Apart s) {e : EventLoop.Event (Option T) F C}
    {l : EventLoop.State (Option T) F C} (hl : EventLoop.step s.loop e = .ok l) :
    Apart { s with loop := l } :=
  ⟨h.loopPtr, h.idle, h.fetching, h.inQuit, h.gone, looping_step h.looping hl⟩

omit [DecidableEq T] in
theorem Apart.of_thread (h : Apart s) {th : Thread} {p : Bool} (hstart : s.thread ≠ .notStarted)
    (hdone : s.thread ≠ .done) (hp : p = th.holdsLoop)
    (hfetching : s.owner = .fetching → p = true)
    (hquit : s.owner.inQuit = true → th.loopAlive = true) :
    Apart { s with thread := th, loopPtr := p } :=
  ⟨hp, fun ho => absurd (h.idle ho) hstart, hfetching, hquit, fun hg => absurd (h.gone hg) hdone,
    h.looping⟩

omit [DecidableEq T] in
theorem Apart.of_publish (h : Apart s) (ht : s.thread = .initializing) :
    Apart { s with thread := .published, loopPtr := true, owner := s.owner.afterPublish } := by
  have hstart : s.owner ≠ .idle := fun ho => by simp [h.idle ho] at ht
  have hgone : s.owner.gone ≠ true := fun ho => by simp [h.gone ho] at ht
  refine ⟨rfl, fun ho => ?_, fun _ => rfl, fun _ => rfl, fun ho => ?_, h.looping⟩
  · cases hs : s.owner <;> simp_all [Owner.afterPublish]
  · cases hs : s.owner <;> simp_all [Owner.afterPublish, Owner.gone]

theorem apart_step (h : Apart s) {e : Event T F C} (horder : InOrder s e)
    (hstep : step s e = .ok t) : Apart t := by
  cases step_move hstep with
  | start ho ht =>
    exact ⟨h.loopPtr.trans (by simp [ht, Thread.holdsLoop]), fun ho => (by cases ho),
      fun ho => (by cases ho), fun ho => (by cases ho), fun ho => (by cases ho), h.looping⟩
  | lockAndTest ho =>
    refine h.of_owner ?_ ?_ ?_ ?_
    all_goals split <;> simp [Owner.inQuit, Owner.gone]
  | wake b ho => exact h.of_owner (by simp) (by simp) (by simp [Owner.inQuit]) (by simp [Owner.gone])
  | destroy ho =>
    exact h.of_owner (by simp) (by simp) (by simp [Owner.inQuit]) (by simp [Owner.gone])
  | test ho =>
    refine h.of_owner ?_ (fun ht => ?_) ?_ (fun hg => ?_)
    · split <;> simp
    · by_contra hp
      simp [hp] at ht
    · split <;> simp [Owner.inQuit]
    · refine horder (Bool.eq_false_iff.mpr fun hp => ?_)
      simp [hp, Owner.gone] at hg
  | fetch ho hp =>
    have halive := loopAlive_of_holdsLoop (h.loopPtr ▸ hp)
    exact h.of_owner (by simp) (by simp) (fun _ => halive) (by simp [Owner.gone])
  | quit l ho ha hl =>
    exact (h.of_loop hl).of_owner (by simp) (by simp) (fun _ => ha) (by simp [Owner.gone])
  | wakeup l ho ha hl =>
    exact (h.of_loop hl).of_owner (by simp) (by simp) (fun _ => ha) (by simp [Owner.gone])
  | join ho ht => exact h.of_owner (by simp) (by simp) (by simp [Owner.inQuit]) fun _ => ht
  | construct ht =>
    exact h.of_thread (by simp [ht]) (by simp [ht])
      (h.loopPtr.trans (by simp [ht, Thread.holdsLoop])) h.fetching fun _ => rfl
  | call c l ht hl => exact h.of_loop hl
  | publish ht hself => exact h.of_publish ht
  | enter l ht hl =>
    exact (h.of_loop hl).of_thread (by simp [ht]) (by simp [ht])
      (h.loopPtr.trans (by simp [ht, Thread.holdsLoop])) h.fetching fun _ => rfl
  | loop e l ht hl =>
    refine (h.of_loop hl).of_thread (by simp [ht]) (by simp [ht])
      (h.loopPtr.trans ?_) h.fetching fun _ => ?_
    · cases l.pc <;> simp [ht, Thread.holdsLoop, Pc.isOutside]
    · cases l.pc <;> rfl
  | clear ht ho =>
    exact h.of_thread (by simp [ht]) (by simp [ht]) rfl (fun ho => absurd ho horder) fun _ => rfl
  | unlock ht ho =>
    exact h.of_thread (by simp [ht]) (by simp [ht])
      (h.loopPtr.trans (by simp [ht, Thread.holdsLoop])) h.fetching fun _ => rfl
  | destroyLoop ht =>
    refine h.of_thread (by simp [ht]) (by simp [ht])
      (h.loopPtr.trans (by simp [ht, Thread.holdsLoop])) h.fetching fun hq => ?_
    simp [show s.owner.inQuit = false from horder] at hq
  | other x c l ha hl => exact h.of_loop hl

/-- A run has ended well so far. No step has used the loop or the owner's object after its end, or
the loop through a null pointer, and the destructor has returned only after `thread_func` has. -/
def EndsWell (es : List (Event T F C)) : Prop :=
  (∀ f, run step State.init es ≠ .error (.fault f)) ∧
    ∀ s, run step State.init es = .ok s → s.owner.gone = true → s.thread = .done

/-- Runs in the order in which the owner and `thread_func` do each other no harm end well. -/
theorem loop_thread_ends_well {es : List (Event T F C)}
    (horder : Throughout step InOrder State.init es) : EndsWell es := by
  have hstep : ∀ (s : State T F C) e, Apart s → InOrder s e →
      step s e = .error .disabled ∨ ∃ t, step s e = .ok t ∧ Apart t := by
    intro s e h ho
    cases hs : step s e with
    | ok t => exact .inr ⟨t, rfl, apart_step h ho hs⟩
    | error d =>
      cases d with
      | disabled => exact .inl rfl
      | fault f => exact absurd hs (h.not_fault e)
  obtain hdisabled | ⟨t, ht, h⟩ := run_safe_of hstep apart_init horder
  · exact ⟨by simp [hdisabled], by simp [hdisabled]⟩
  · refine ⟨by simp [ht], fun s hs => ?_⟩
    cases ht.symm.trans hs
    exact h.gone

def started : List (Event Unit Unit Unit) :=
  [.owner .start, .thread .construct, .thread .publish, .owner .lockAndTest,
    .thread (.loop .enter), .thread (.loop .resetQuit), .thread (.loop .test)]

def leaves : List (Event Unit Unit Unit) :=
  [.thread (.loop (.poll [.wakeup])), .thread (.loop .handle), .thread (.loop .doPendingFunctors),
    .thread (.loop .swap), .thread (.loop .finish), .thread (.loop .test)]

def destroyed : List (Event Unit Unit Unit) :=
  started ++ [.owner .destroy, .owner .test, .owner .fetch, .owner .quit, .owner .wakeup] ++
    leaves ++ [.thread .clear, .thread .unlock, .thread .destroyLoop, .owner .join]

theorem destroyed_inOrder : Throughout step InOrder State.init destroyed := by
  iterate 8 refine .cons trivial rfl ?_
  refine .cons (fun h => nomatch h) rfl ?_
  iterate 9 refine .cons trivial rfl ?_
  refine .cons (fun h => nomatch h) rfl (.cons trivial rfl (.cons rfl rfl ?_))
  exact .cons trivial rfl trivial

theorem loop_thread_ends_well_destroyed :
    ∃ s, run step State.init destroyed = .ok s ∧ s.owner.gone = true ∧ EndsWell destroyed :=
  ⟨_, rfl, rfl, loop_thread_ends_well destroyed_inOrder⟩

def quitByOther : List (Event Unit Unit Unit) :=
  started ++ [.other () .quit, .other () .wake] ++ leaves

/-- When another thread has quit the loop, the destructor can call `quit` on the loop after its end,
read `loop_` again when it is null, or return while `thread_func` still holds the mutex. -/
theorem loop_thread_ends_badly :
    run step State.init (quitByOther ++ [.owner .destroy, .owner .test, .owner .fetch,
      .thread .clear, .thread .unlock, .thread .destroyLoop, .owner .quit]) =
        .error (.fault .useAfterFree) ∧
    run step State.init (quitByOther ++ [.owner .destroy, .owner .test, .thread .clear,
      .owner .fetch]) = .error (.fault .nullDereference) ∧
    run step State.init (quitByOther ++ [.owner .destroy, .thread .clear, .owner .test,
      .thread .unlock]) = .error (.fault .useAfterFree) ∧
    ¬ ∀ es : List (Event Unit Unit Unit), EndsWell es := by
  refine ⟨rfl, rfl, rfl, fun h => ?_⟩
  exact (h (quitByOther ++ [.owner .destroy, .thread .clear, .owner .test, .thread .unlock])).1
    .useAfterFree rfl

end AcMuduo.EventLoopThread
