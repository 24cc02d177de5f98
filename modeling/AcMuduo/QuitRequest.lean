import AcMuduo.EventLoopThread
import AcMuduo.PendingFunctors

namespace AcMuduo.EventLoopThread

open Machine EventLoop

variable {T F C : Type}

def Owner.hasQuit : Owner → Bool
  | .waking | .joining | .joined => true
  | _ => false

def Owner.quitReturned : Owner → Bool
  | .joining | .joined => true
  | _ => false

/-- `loop()` has done its own store to `quit_`. -/
def PastReset (s : State T F C) : Prop :=
  match s.thread with
  | .looping => s.loop.pc ≠ .entered
  | .left | .cleared | .unlocked | .done => True
  | _ => False

structure QuitKept (s : State T F C) : Prop where
  outside : s.loop.pc = .outside ↔ s.thread ≠ .looping
  stored : s.owner.hasQuit = true → PastReset s ∧ s.loop.loop.quit = true
  signalled : s.owner.quitReturned = true → s.loop.pc = .polling → s.loop.loop.wakeupFd ≠ 0

theorem quitKept_init : QuitKept (State.init : State T F C) :=
  ⟨by simp [State.init, EventLoop.State.init], by simp [State.init, Owner.hasQuit],
    by simp [State.init, Owner.quitReturned]⟩

theorem hasQuit_of_returned {o : Owner} (h : o.quitReturned = true) : o.hasQuit = true := by
  cases o <;> first | rfl | cases h

@[simp] theorem hasQuit_afterPublish (o : Owner) : o.afterPublish.hasQuit = o.hasQuit := by
  cases o <;> rfl

@[simp] theorem quitReturned_afterPublish (o : Owner) :
    o.afterPublish.quitReturned = o.quitReturned := by
  cases o <;> rfl

theorem QuitKept.ne_entered {s : State T F C} (h : QuitKept s) (hp : PastReset s) :
    s.loop.pc ≠ .entered := by
  by_cases ht : s.thread = .looping
  · simpa [PastReset, ht] using hp
  · simp [h.outside.mpr ht]

theorem QuitKept.of_owner {s : State T F C} (h : QuitKept s) {o : Owner} {th : Thread}
    (ho : o.hasQuit = false) (hth : th = .looping ↔ s.thread = .looping) :
    QuitKept { s with owner := o, thread := th } :=
  ⟨by simpa [hth] using h.outside, by simp [ho],
    fun hr => by simp [hasQuit_of_returned hr] at ho⟩

variable [DecidableEq T]

theorem QuitKept.of_call {s : State T F C} (h : QuitKept s) {who : Option (Option T)} {c : Call F}
    {l : EventLoop.State (Option T) F C} (hl : EventLoop.step s.loop (.caller who c) = .ok l) :
    QuitKept { s with loop := l } := by
  have hpc := caller_pc hl
  refine ⟨by simpa [hpc] using h.outside, fun hq => ?_, fun hr hp => ?_⟩
  · obtain ⟨hpast, hquit⟩ := h.stored hq
    refine ⟨by simpa [PastReset, hpc] using hpast, quit_step hquit (h.ne_entered hpast) hl⟩
  · obtain ⟨hpast, hquit⟩ := h.stored (hasQuit_of_returned hr)
    obtain ⟨hs, _, hfd⟩ := polling_step hquit hp hl
    exact hfd (h.signalled hr hs)

theorem QuitKept.of_loop {s : State T F C} (h : QuitKept s) (ht : s.thread = .looping)
    {e : LoopEvent C} {l : EventLoop.State (Option T) F C}
    (hl : EventLoop.step s.loop (.loop e) = .ok l) :
    QuitKept { s with loop := l, thread := if l.pc.isOutside then .left else .looping } := by
  have hne : e ≠ .enter := by
    rintro rfl
    exact h.outside.mp (enter_pc hl).1 ht
  refine ⟨?_, fun hq => ?_, fun hr hp => ?_⟩
  · cases hpc : l.pc <;> simp [Pc.isOutside]
  · obtain ⟨hpast, hquit⟩ := h.stored hq
    have hent := h.ne_entered hpast
    refine ⟨?_, quit_step hquit hent hl⟩
    have hent' := entered_step (by simpa using hne) hent hl
    cases hpc : l.pc <;> simp_all [PastReset, Pc.isOutside]
  · obtain ⟨hpast, hquit⟩ := h.stored (hasQuit_of_returned hr)
    obtain ⟨hs, _, hfd⟩ := polling_step hquit hp hl
    exact hfd (h.signalled hr hs)

/-- The destructor's store to `quit_` comes after the one at the entry of `loop()`. -/
def QuitsPastReset (s : State T F C) (e : Event T F C) : Prop := e = .owner .quit → PastReset s

theorem quitKept_step (s : State T F C) (e : Event T F C) (t : State T F C) (h : QuitKept s)
    (hquit : QuitsPastReset s e) (hstep : step s e = .ok t) : QuitKept t := by
  cases step_move hstep with
  | start ho ht => exact h.of_owner rfl (by simp [ht])
  | lockAndTest ho => exact h.of_owner (by split <;> rfl) Iff.rfl
  | wake b ho => exact h.of_owner rfl Iff.rfl
  | destroy ho => exact h.of_owner rfl Iff.rfl
  | test ho => exact h.of_owner (by split <;> rfl) Iff.rfl
  | fetch ho hp => exact h.of_owner rfl Iff.rfl
  | quit l ho ha hl =>
    have hpc := caller_pc hl
    refine ⟨by simpa [hpc] using h.outside, fun _ => ⟨?_, quit_stored hl⟩,
      by simp [Owner.quitReturned]⟩
    simpa [PastReset, hpc] using hquit rfl
  | wakeup l ho ha hl =>
    have hc := h.of_call hl
    exact ⟨hc.outside, fun _ => hc.stored (by simp [ho, Owner.hasQuit]),
      fun _ _ => wake_ne_zero hl⟩
  | join ho ht =>
    refine ⟨h.outside, fun _ => h.stored (by simp [ho, Owner.hasQuit]), fun _ hp => ?_⟩
    exact h.signalled (by simp [ho, Owner.quitReturned]) hp
  | construct ht =>
    refine ⟨by simpa [ht] using h.outside, fun hq => ?_, h.signalled⟩
    simpa [PastReset, ht] using h.stored hq
  | call c l ht hl => exact h.of_call hl
  | publish ht hself =>
    refine ⟨by simpa [ht] using h.outside, fun hq => ?_, fun hr => h.signalled (by simpa using hr)⟩
    simpa [PastReset, ht] using h.stored (by simpa using hq)
  | enter l ht hl =>
    have hpc := (enter_pc hl).2
    refine ⟨by simp [hpc], fun hq => ?_, fun _ hp => by simp [hpc] at hp⟩
    simpa [PastReset, ht] using h.stored hq
  | loop e l ht hl => exact h.of_loop ht hl
  | clear ht ho =>
    refine ⟨by simpa [ht] using h.outside, fun hq => ?_, h.signalled⟩
    exact ⟨trivial, (h.stored hq).2⟩
  | unlock ht ho =>
    refine ⟨by simpa [ht] using h.outside, fun hq => ?_, h.signalled⟩
    exact ⟨trivial, (h.stored hq).2⟩
  | destroyLoop ht =>
    refine ⟨by simpa [ht] using h.outside, fun hq => ?_, h.signalled⟩
    exact ⟨trivial, (h.stored hq).2⟩
  | other x c l ha hl => exact h.of_call hl

def CanJoin (s : State T F C) : Prop := ∃ es t, run step s es = .ok t ∧ t.owner = .joined

theorem CanJoin.of_move {s t : State T F C} {e : Event T F C} (hmove : Move s e t)
    (h : CanJoin t) : CanJoin s := by
  obtain ⟨es, u, hrun, hu⟩ := h
  exact ⟨e :: es, u, run_cons_ok.mpr ⟨t, hmove.step_eq, hrun⟩, hu⟩

theorem canJoin_done {s : State T F C} (ho : s.owner = .joining) (ht : s.thread = .done) :
    CanJoin s :=
  .of_move (.join ho ht) ⟨[], _, rfl, rfl⟩

theorem canJoin_unlocked {s : State T F C} (ho : s.owner = .joining) (ht : s.thread = .unlocked) :
    CanJoin s :=
  .of_move (.destroyLoop ht) (canJoin_done ho rfl)

theorem canJoin_cleared {s : State T F C} (ho : s.owner = .joining) (ht : s.thread = .cleared) :
    CanJoin s :=
  .of_move (.unlock ht (by simp [ho])) (canJoin_unlocked ho rfl)

theorem canJoin_left {s : State T F C} (ho : s.owner = .joining) (ht : s.thread = .left) :
    CanJoin s :=
  .of_move (.clear ht (by simp [ho])) (canJoin_cleared ho rfl)

theorem canJoin_of_leaves {l : EventLoop.State (Option T) F C} (h : Leaves l)
    {s : State T F C} (hs : s.loop = l) (ho : s.owner = .joining) (ht : s.thread = .looping)
    (hpc : l.pc ≠ .outside) : CanJoin s := by
  induction h generalizing s with
  | outside hout => exact absurd hout hpc
  | call c hout hmove _ ih =>
    subst hs
    have hl := hmove.step_eq
    refine .of_move (.call c _ (.inr ht) hl) (ih rfl ho ht ?_)
    rwa [caller_pc hl]
  | @loop a b e hout hmove _ ih =>
    subst hs
    apply CanJoin.of_move (.loop e _ ht hmove.step_eq)
    by_cases hb : b.pc = .outside
    · exact canJoin_left ho (by simp [hb, Pc.isOutside])
    · refine ih rfl ho ?_ hb
      cases hbpc : b.pc <;> simp_all [Pc.isOutside]

theorem QuitKept.canJoin {s : State T F C} (h : QuitKept s) (hr : s.owner.quitReturned = true) :
    CanJoin s := by
  cases ho : s.owner <;> simp only [ho, Owner.quitReturned, Bool.false_eq_true] at hr
  case joined => exact ⟨[], s, rfl, ho⟩
  case joining =>
    obtain ⟨hpast, hquit⟩ := h.stored (by simp [ho, Owner.hasQuit])
    cases ht : s.thread <;> simp only [PastReset, ht] at hpast
    case looping =>
      exact canJoin_of_leaves (leaves_of_quit hquit hpast) rfl ho ht fun hout =>
        h.outside.mp hout ht
    case left => exact canJoin_left ho ht
    case cleared => exact canJoin_cleared ho ht
    case unlocked => exact canJoin_unlocked ho ht
    case done => exact canJoin_done ho ht

structure Ending (s t : State T F C) : Prop where
  kept : QuitKept t
  returned : t.owner.quitReturned = true
  polling : t.loop.pc = .polling →
    s.loop.pc = .polling ∧ t.loop.loop.iteration = s.loop.loop.iteration

omit [DecidableEq T] in
theorem Ending.quit {s t : State T F C} (h : Ending s t) : t.loop.loop.quit = true :=
  (h.kept.stored (hasQuit_of_returned h.returned)).2

theorem Ending.poll_of_step {s t : State T F C} (h : Ending s t)
    {e : EventLoop.Event (Option T) F C} {l : EventLoop.State (Option T) F C}
    (hl : EventLoop.step t.loop e = .ok l) (hp : l.pc = .polling) :
    s.loop.pc = .polling ∧ l.loop.iteration = s.loop.loop.iteration := by
  obtain ⟨ht, hiter, _⟩ := polling_step h.quit hp hl
  obtain ⟨hs, heq⟩ := h.polling ht
  exact ⟨hs, hiter.trans heq⟩

theorem ending_step {s : State T F C} (t : State T F C) (e : Event T F C) (u : State T F C)
    (h : Ending s t) (hstep : step t e = .ok u) : Ending s u := by
  have hr := h.returned
  have hnoquit : QuitsPastReset t e := by
    rintro rfl
    cases step_move hstep with
    | quit l ho ha hl => simp [ho, Owner.quitReturned] at hr
  have hkept := quitKept_step t e u h.kept hnoquit hstep
  cases step_move hstep with
  | start ho ht => simp [ho, Owner.quitReturned] at hr
  | lockAndTest ho => simp [ho, Owner.quitReturned] at hr
  | wake b ho => simp [ho, Owner.quitReturned] at hr
  | destroy ho => simp [ho, Owner.quitReturned] at hr
  | test ho => simp [ho, Owner.quitReturned] at hr
  | fetch ho hp => simp [ho, Owner.quitReturned] at hr
  | quit l ho ha hl => simp [ho, Owner.quitReturned] at hr
  | wakeup l ho ha hl => simp [ho, Owner.quitReturned] at hr
  | join ho ht => exact ⟨hkept, rfl, h.polling⟩
  | construct ht => exact ⟨hkept, hr, h.polling⟩
  | call c l ht hl => exact ⟨hkept, hr, h.poll_of_step hl⟩
  | publish ht hself => exact ⟨hkept, by simpa using hr, h.polling⟩
  | enter l ht hl => exact ⟨hkept, hr, h.poll_of_step hl⟩
  | loop e l ht hl => exact ⟨hkept, hr, h.poll_of_step hl⟩
  | clear ht ho => exact ⟨hkept, hr, h.polling⟩
  | unlock ht ho => exact ⟨hkept, hr, h.polling⟩
  | destroyLoop ht => exact ⟨hkept, hr, h.polling⟩
  | other x c l ha hl => exact ⟨hkept, hr, h.poll_of_step hl⟩

/-- What the destructor counts on when its `quit()` has returned: every later test of `quit_`
ends the loop, the loop is in `poll` at most for the iteration that is in progress now and with
the eventfd written, and the join can complete. -/
def QuitHolds (s : State T F C) : Prop :=
  (∀ es t u, run step s es = .ok t → step t (.thread (.loop .test)) = .ok u → u.thread = .left) ∧
  (∀ es t, run step s es = .ok t → t.loop.pc = .polling →
    s.loop.pc = .polling ∧ t.loop.loop.iteration = s.loop.loop.iteration ∧
      t.loop.loop.wakeupFd ≠ 0) ∧
  ∀ es t, run step s es = .ok t → CanJoin t

theorem leaves_at_test {t u : State T F C} (hq : t.loop.loop.quit = true)
    (hstep : step t (.thread (.loop .test)) = .ok u) : u.thread = .left := by
  cases step_move hstep with
  | loop e l ht hl =>
    cases EventLoop.step_move hl with
    | leave hself hpc hq' => rfl
    | iterate hself hpc hq' => simp [hq] at hq'

theorem quit_request_kept {es : List (Event T F C)} {s : State T F C}
    (hrun : run step State.init es = .ok s)
    (hquit : Throughout step QuitsPastReset State.init es)
    (hret : s.owner.quitReturned = true) : QuitHolds s := by
  have hs : Ending s s :=
    ⟨run_invariant_of quitKept_step quitKept_init hquit hrun, hret, fun hp => ⟨hp, rfl⟩⟩
  have hlater : ∀ es t, run step s es = .ok t → Ending s t := fun es t =>
    run_invariant ending_step hs
  refine ⟨fun es t u ht hu => ?_, fun es t ht hp => ?_, fun es t ht => ?_⟩
  · exact leaves_at_test (hlater es t ht).quit hu
  · obtain ⟨hpoll, hiter⟩ := (hlater es t ht).polling hp
    exact ⟨hpoll, hiter, (hlater es t ht).kept.signalled (hlater es t ht).returned hp⟩
  · exact (hlater es t ht).kept.canJoin (hlater es t ht).returned

def quitDuringPoll : List (Event Unit Unit Unit) :=
  [.owner .start, .thread .construct, .thread .publish, .owner .lockAndTest,
    .thread (.loop .enter), .thread (.loop .resetQuit), .thread (.loop .test), .owner .destroy,
    .owner .test, .owner .fetch, .owner .quit, .owner .wakeup]

theorem quit_request_kept_quitDuringPoll :
    ∃ s, run step State.init quitDuringPoll = .ok s ∧ s.loop.pc = .polling ∧ QuitHolds s := by
  have hrun : run step State.init quitDuringPoll = .ok _ := rfl
  refine ⟨_, rfl, rfl, quit_request_kept hrun ?_ rfl⟩
  iterate 10 refine .cons (fun h => nomatch h) rfl ?_
  refine .cons (fun _ => ?_) rfl (.cons (fun h => nomatch h) rfl trivial)
  exact fun h => nomatch h

def quitBeforeLoop : List (Event Unit Unit Unit) :=
  [.owner .start, .thread .construct, .thread .publish, .owner .lockAndTest, .owner .destroy,
    .owner .test, .owner .fetch, .owner .quit, .owner .wakeup, .thread (.loop .enter),
    .thread (.loop .resetQuit)]

theorem quit_request_lost :
    ¬ ∀ (es : List (Event Unit Unit Unit)) (s : State Unit Unit Unit),
      run step State.init es = .ok s → s.owner.quitReturned = true → QuitHolds s := by
  intro h
  have hleft := (h quitBeforeLoop _ rfl rfl).1 [] _ _ rfl rfl
  cases hleft

end AcMuduo.EventLoopThread
