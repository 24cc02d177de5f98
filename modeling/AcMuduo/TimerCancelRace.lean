import AcMuduo.TimerLoop

namespace AcMuduo.TimerLoop

open Machine TimerQueue

variable {T : Type} [DecidableEq T] {s t : State T} {e : Event T} {es : List (Event T)}

inductive Move (s : State T) : Event T → State T → Prop where
  | alloc {who p x i q} (hq : TimerQueue.step s.timers (.alloc p x i) = .ok q) :
    Move s (.alloc who p x i) (setAdder { s with timers := q } who (.allocated p))
  | addInLoop {p q} (ha : s.adders none = .allocated p)
    (hq : TimerQueue.step s.timers (.add p) = .ok q) :
    Move s (.runInLoop none) (setAdder { s with timers := q } none (.done p))
  | queueAdd {w p l} (ha : s.adders (some w) = .allocated p)
    (hl : EventLoop.callStep s.loop (some w) (.push (.addTimer p)) = .ok l) :
    Move s (.runInLoop (some w)) (setAdder { s with loop := l } (some w) (.queued p))
  | wakeAdd {who p l} (ha : s.adders who = .queued p)
    (hl : EventLoop.callStep s.loop who .wake = .ok l) :
    Move s (.caller who .wake) (setAdder { s with loop := l } who (.done p))
  | returnId {who p t} (ha : s.adders who = .done p) (ht : deref s.timers p = .ok t) :
    Move s (.returnId who) (setAdder s who .idle)
  | cancel {id q} (hq : TimerQueue.step s.timers (.cancel id) = .ok q) :
    Move s (.cancel id) { s with timers := q }
  | caller {who c l} (hl : EventLoop.callStep s.loop who c = .ok l) :
    Move s (.caller who c) { s with loop := l }
  | loop {e l c r} (hl : EventLoop.loopStep s.loop e = .ok l) :
    Move s (.loop e) { s with loop := l, current := c, timerRead := r }
  | runAdd {p q} (hc : s.current = some (.addTimer p))
    (hq : TimerQueue.step s.timers (.add p) = .ok q) :
    Move s .runTask { s with timers := q, current := none }
  | runCancel {id q} (hc : s.current = some (.cancel id))
    (hq : TimerQueue.step s.timers (.cancel id) = .ok q) :
    Move s .runTask { s with timers := q, current := none }
  | timer {x q r} (hq : TimerQueue.step s.timers x = .ok q) :
    Move s (.timer x) { s with timers := q, timerRead := r }

theorem callerStep_move {who : Option T} {c : EventLoop.Call Task}
    (h : callerStep s who c = .ok t) : Move s (.caller who c) t := by
  -- a call that changes the loop only
  have hcaller {c : EventLoop.Call Task}
      (h : (EventLoop.callStep s.loop who c >>= fun l => .ok { s with loop := l }) = .ok t) :
      Move s (.caller who c) t := by
    obtain ⟨l, hl, rfl⟩ := bind_ok_eq_ok.mp h
    exact .caller hl
  simp only [callerStep] at h
  split at h
  · obtain ⟨l, hl, ht⟩ := bind_eq_ok.mp h
    split at ht
    · rename_i ha
      cases ht
      exact .wakeAdd ha hl
    · cases ht
      exact .caller hl
  · cases h
  · split at h
    · exact hcaller h
    · cases h
  · split at h
    · exact hcaller h
    · cases h
  · split at h
    · exact hcaller h
    · cases h

omit [DecidableEq T] in
theorem loopStep_ok {e : EventLoop.LoopEvent Chan} (h : loopStep s e = .ok t) :
    ∃ l c r, EventLoop.loopStep s.loop e = .ok l ∧
      t = { s with loop := l, current := c, timerRead := r } := by
  simp only [loopStep] at h
  split at h
  · split at h
    · split at h
      · obtain ⟨l, hl, rfl⟩ := bind_ok_eq_ok.mp h
        exact ⟨l, s.current, false, hl, rfl⟩
      · cases h
    · obtain ⟨l, hl, rfl⟩ := bind_ok_eq_ok.mp h
      exact ⟨l, _, s.timerRead, hl, rfl⟩
    · cases h
    · cases h
    · obtain ⟨l, hl, rfl⟩ := bind_ok_eq_ok.mp h
      exact ⟨l, none, s.timerRead, hl, rfl⟩
    · obtain ⟨l, hl, rfl⟩ := bind_ok_eq_ok.mp h
      exact ⟨l, s.current, s.timerRead, hl, rfl⟩
  · cases h

omit [DecidableEq T] in
theorem timerStep_ok {x : TimerQueue.Event} (h : timerStep s x = .ok t) :
    ∃ q r, TimerQueue.step s.timers x = .ok q ∧ t = { s with timers := q, timerRead := r } := by
  cases x with
  | tick c =>
    obtain ⟨q, hq, rfl⟩ := bind_ok_eq_ok.mp h
    exact ⟨q, s.timerRead, hq, rfl⟩
  | handleRead =>
    simp only [timerStep] at h
    split at h
    · obtain ⟨q, hq, rfl⟩ := bind_ok_eq_ok.mp h
      exact ⟨q, true, hq, rfl⟩
    · cases h
  | expire | call | ret | finish =>
    simp only [timerStep] at h
    split at h
    · obtain ⟨q, hq, rfl⟩ := bind_ok_eq_ok.mp h
      exact ⟨q, s.timerRead, hq, rfl⟩
    · cases h
  | alloc _ _ _ | add _ | cancel _ => cases h

theorem move_of_step (h : step s e = .ok t) : Move s e t := by
  cases e with
  | alloc who p expiration interval =>
    simp only [step] at h
    split at h
    · obtain ⟨q, hq, rfl⟩ := bind_ok_eq_ok.mp h
      exact .alloc hq
    · cases h
  | runInLoop who =>
    simp only [step, runInLoop] at h
    split at h
    · rename_i ha
      obtain ⟨q, hq, rfl⟩ := bind_ok_eq_ok.mp h
      exact .addInLoop ha hq
    · rename_i ha
      obtain ⟨l, hl, rfl⟩ := bind_ok_eq_ok.mp h
      exact .queueAdd ha hl
    · cases h
  | returnId who =>
    simp only [step] at h
    split at h
    · rename_i ha
      obtain ⟨x, hx, rfl⟩ := bind_ok_eq_ok.mp h
      exact .returnId ha hx
    · cases h
  | cancel id =>
    simp only [step] at h
    split at h
    · obtain ⟨q, hq, rfl⟩ := bind_ok_eq_ok.mp h
      exact .cancel hq
    · cases h
  | caller who c => exact callerStep_move h
  | loop e =>
    obtain ⟨l, c, r, hl, rfl⟩ := loopStep_ok h
    exact .loop hl
  | runTask =>
    simp only [step, runTask] at h
    split at h
    · rename_i hc
      obtain ⟨q, hq, rfl⟩ := bind_ok_eq_ok.mp h
      exact .runAdd hc hq
    · rename_i hc
      obtain ⟨q, hq, rfl⟩ := bind_ok_eq_ok.mp h
      exact .runCancel hc hq
    · cases h
  | timer x =>
    obtain ⟨q, r, hq, rfl⟩ := timerStep_ok h
    exact .timer hq

theorem step_timers (h : step s e = .ok t) :
    run TimerQueue.step s.timers (timerEvents s e t) = .ok t.timers := by
  cases move_of_step h with
  | addInLoop ha hq =>
    simp only [timerEvents, ha]
    exact run_singleton.trans hq
  | runAdd hc hq | runCancel hc hq =>
    simp only [timerEvents, hc]
    exact run_singleton.trans hq
  | alloc hq | cancel hq | timer hq => exact run_singleton.trans hq
  | queueAdd _ _ | wakeAdd _ _ | returnId _ _ | caller _ | loop _ => rfl

def called (s : State T) (e : Event T) (t : State T) : List TimerId :=
  observe TimerQueue.step TimerQueue.called s.timers (timerEvents s e t)

/-- The loop thread cancels only timers that `add_timer_in_loop` has received, if they exist. -/
def CancelAfterAdd (s : State T) (e : Event T) : Prop :=
  match e with
  | .cancel id => Alive s.timers id → id.timer ∉ s.timers.adding
  | _ => True

omit [DecidableEq T] in
instance (s : State T) (e : Event T) : Decidable (CancelAfterAdd s e) :=
  match e with
  | .cancel id => inferInstanceAs (Decidable (Alive s.timers id → id.timer ∉ s.timers.adding))
  | .alloc _ _ _ _ | .runInLoop _ | .returnId _ | .caller _ _ | .loop _ | .runTask | .timer _ =>
    inferInstanceAs (Decidable True)

def CancelsKept (c : Int) (es : List (Event T)) : Prop :=
  ∀ pre id mid post s, es = pre ++ .cancel id :: (mid ++ .timer .handleRead :: post) →
    id ∈ observe step returned (.init c) pre →
    run step (.init c) (pre ++ .cancel id :: mid) = .ok s →
    id ∉ observe step called s (.timer .handleRead :: post)

theorem run_good {c : Int} (hrun : run step (.init c) es = .ok s) : Good s.timers :=
  TimerQueue.run_good (run_projected (fun _ _ _ => step_timers) hrun)

omit [DecidableEq T] in
theorem alive_of_returned {id : TimerId} (h : id ∈ returned s e t) : Alive s.timers id := by
  simp only [returned] at h
  split at h
  · split at h
    · exact (idAt_eq_some.mp (Option.mem_toList.mp h)).1
    · cases h
  · cases h

theorem returned_numbered {c : Int} {id : TimerId} (hrun : run step (.init c) es = .ok s)
    (hid : id ∈ observe step returned (.init c) es) : id.sequence ≤ s.timers.numCreated := by
  have hstep : ∀ (h : List TimerId) (a : State T) e b,
      (Good a.timers ∧ ∀ id ∈ h, id.sequence ≤ a.timers.numCreated) → True → step a e = .ok b →
      Good b.timers ∧ ∀ id ∈ h ++ returned a e b, id.sequence ≤ b.timers.numCreated := by
    rintro h a e b ⟨ha, hold⟩ - hab
    obtain ⟨hb, hle⟩ := good_run ha (step_timers hab)
    refine ⟨hb, fun id hid => ?_⟩
    cases List.mem_append.mp hid with
    | inl hid => exact (hold id hid).trans hle
    | inr hid =>
      obtain ⟨x, hx, hseq⟩ := alive_iff.mp (alive_of_returned hid)
      exact (hseq ▸ ha.bound _ x hx).trans hle
  exact (run_observed hstep ⟨good_init c, fun _ h => nomatch h⟩ throughout_true hrun).2 id hid

/-- If the loop thread cancels timers only after their adding functors have run, then every such
cancel is final. -/
theorem cancels_kept {c : Int} (hrun : run step (.init c) es = .ok t)
    (hadded : Throughout step CancelAfterAdd (.init c) es) : CancelsKept c es := by
  rintro pre id mid post s rfl hid hs
  obtain ⟨r, hr, hrs⟩ := run_append_ok.mp hs
  obtain ⟨u, hcancel, hmid⟩ := run_cons_ok.mp hrs
  have hadding := hadded.at_append hr
  have hpost : run step s (.timer .handleRead :: post) = .ok t := by
    rw [← List.cons_append, ← List.append_assoc, run_append, hs] at hrun
    exact hrun
  have hgood := run_good hr
  have hcancel' : TimerQueue.step r.timers (.cancel id) = .ok u.timers :=
    run_singleton.symm.trans (step_timers hcancel)
  have hdoomed := doomed_of_cancel hgood (returned_numbered hr hid) hadding hcancel'
  obtain ⟨hgood', hdoomed'⟩ := run_keeps_doomed hdoomed (good_step hgood hcancel')
    (run_projected (fun _ _ _ => step_timers) hmid)
  have hrest := run_projected (fun _ _ _ => step_timers) hpost
  obtain ⟨v, hread, _⟩ := run_cons_ok.mp hpost
  rw [observe_cons hread] at hrest
  have hnot := not_called_of_handleRead hdoomed' hgood' hrest
  have hcalled : observe step called s (.timer .handleRead :: post) = _ :=
    observe_projected (fun _ _ _ => step_timers) hpost
  rw [hcalled, observe_cons hread]
  exact hnot

def addFromOutside : List (Event Unit) :=
  [.loop .enter, .loop .resetQuit, .loop .test, .alloc (some ()) 16 100 .zero,
    .runInLoop (some ()), .caller (some ()) .wake, .returnId (some ()),
    .loop (.poll [.other .other])]

def untilDue : List (Event Unit) :=
  [.loop .handle, .loop .doPendingFunctors, .loop .swap, .loop .call, .runTask, .loop .ret,
    .loop .finish, .loop .test, .timer (.tick 200), .loop (.poll [.other .other, .other .timer])]

/-- A handler cancels the timer before the adding functor has run, and the cancel is lost. -/
def cancelOvertakes : List (Event Unit) :=
  addFromOutside ++ .cancel ⟨16, 1⟩ ::
    (untilDue ++ [.loop .handle] ++ .timer .handleRead :: [.timer .expire, .timer .call])

theorem cancel_overtakes_add :
    (∃ t, run step (.init 0) cancelOvertakes = .ok t) ∧ ¬ CancelsKept 0 cancelOvertakes := by
  refine ⟨⟨_, rfl⟩, fun h => ?_⟩
  exact h addFromOutside ⟨16, 1⟩ (untilDue ++ [.loop .handle]) _ _ rfl (by decide) rfl (by decide)

def cancelLater : List (Event Unit) :=
  addFromOutside ++ untilDue ++ .cancel ⟨16, 1⟩ :: ([.loop .handle] ++ [.timer .handleRead])

theorem cancels_kept_cancelLater : CancelsKept 0 cancelLater :=
  have hrun : run step (.init 0) cancelLater = .ok _ := rfl
  cancels_kept hrun (by decide)

end AcMuduo.TimerLoop
