import AcMuduo.PendingFunctors

namespace AcMuduo.EventLoop

open Machine

variable {T F C : Type}

def Pc.unpolled : Pc F C → Bool
  | .outside | .entered | .test | .polling => true
  | _ => false

def WokenByOther (es : List (Event T F C)) : Prop := ∃ t, .caller (some t) .wake ∈ es

/-- Until the first `poll` returns, only other threads have written the eventfd, and what has been
pushed is pending. -/
structure Unpolled (es : List (Event T F C)) (s : State T F C) : Prop where
  pc : s.pc.unpolled = true
  calling : s.loop.callingPendingFunctors = false
  wakeupFd : s.loop.wakeupFd ≠ 0 ↔ WokenByOther es
  pending : ∀ who f, .caller who (.push f) ∈ es → f ∈ s.loop.pendingFunctors

theorem unpolled_init : Unpolled [] (State.init : State T F C) :=
  ⟨rfl, rfl, by simp [State.init, Loop.new, WokenByOther], by simp⟩

theorem wokenByOther_append {es : List (Event T F C)} {e : Event T F C}
    (h : ∀ t, e ≠ .caller (some t) .wake) : WokenByOther (es ++ [e]) ↔ WokenByOther es := by
  refine exists_congr fun t => ?_
  rw [List.mem_append, List.mem_singleton]
  exact or_iff_left (h t).symm

theorem pending_append {es : List (Event T F C)} {l : List F} {e : Event T F C}
    (h : ∀ who f, .caller who (.push f) ∈ es → f ∈ l) (he : ∀ who f, e ≠ .caller who (.push f)) :
    ∀ who f, .caller who (.push f) ∈ es ++ [e] → f ∈ l := by
  intro who f hf
  cases List.mem_append.mp hf with
  | inl hf => exact h who f hf
  | inr hf => exact absurd (List.mem_singleton.mp hf).symm (he who f)

theorem Unpolled.of_step {es : List (Event T F C)} {s t : State T F C} {e : LoopEvent C}
    (h : Unpolled es s) (hpc : t.pc.unpolled = true)
    (hcalling : t.loop.callingPendingFunctors = s.loop.callingPendingFunctors)
    (hfd : t.loop.wakeupFd = s.loop.wakeupFd)
    (hpending : t.loop.pendingFunctors = s.loop.pendingFunctors) :
    Unpolled (es ++ [.loop e]) t := by
  refine ⟨hpc, hcalling.trans h.calling, ?_, hpending ▸ pending_append h.pending (by simp)⟩
  rw [hfd, wokenByOther_append (by simp), h.wakeupFd]

theorem Unpolled.of_wake {es : List (Event T F C)} {s : State T F C} {who : Option T} {l : Loop F}
    (h : Unpolled es s) (callers : Option T → Caller)
    (hcalling : l.callingPendingFunctors = s.loop.callingPendingFunctors)
    (hpending : l.pendingFunctors = s.loop.pendingFunctors)
    (hnone : who = none → l.wakeupFd = s.loop.wakeupFd)
    (hsome : who ≠ none → l.wakeupFd ≠ 0) :
    Unpolled (es ++ [.caller who .wake]) { s with loop := l, callers := callers } := by
  refine ⟨h.pc, hcalling.trans h.calling, ?_, hpending ▸ pending_append h.pending (by simp)⟩
  cases who with
  | none => rw [wokenByOther_append (by simp), ← h.wakeupFd, hnone rfl]
  | some x => exact iff_of_true (hsome (by simp)) ⟨x, by simp⟩

variable [DecidableEq T]

theorem unpolled_step (es : List (Event T F C)) (s : State T F C) (e : Event T F C)
    (t : State T F C) (h : s.loop.iteration = 0 → Unpolled es s) (hstep : step s e = .ok t) :
    t.loop.iteration = 0 → Unpolled (es ++ [e]) t := by
  intro hfirst
  have hmove := step_move hstep
  cases hmove with
  | push who f hwho hcall =>
    have h := h hfirst
    refine ⟨h.pc, h.calling, ?_, fun who' g hg => ?_⟩
    · rw [wokenByOther_append (by simp)]
      exact h.wakeupFd
    · rw [List.mem_append, List.mem_singleton] at hg
      obtain hg | hg := hg
      · exact List.mem_append_left _ (h.pending who' g hg)
      · cases hg
        exact List.mem_append_right _ (List.mem_singleton_self f)
  | quit who hwho hcall =>
    have h := h hfirst
    refine ⟨h.pc, h.calling, ?_, pending_append h.pending (by simp)⟩
    rw [wokenByOther_append (by simp)]
    exact h.wakeupFd
  | wakeQueue who hwho =>
    have h := h (by simpa using hfirst)
    refine h.of_wake _ (by simp) (by simp) ?_ fun hsome => ?_
    · rintro rfl
      simp [wakeAfterQueue, h.calling]
    · obtain ⟨x, rfl⟩ := Option.ne_none_iff_exists'.mp hsome
      exact wake_ne_zero hstep
  | wakeQuit who hwho =>
    have h := h (by simpa using hfirst)
    refine h.of_wake _ (by simp) (by simp) ?_ fun hsome => ?_
    · rintro rfl
      simp [wakeAfterQuit]
    · obtain ⟨x, rfl⟩ := Option.ne_none_iff_exists'.mp hsome
      exact wake_ne_zero hstep
  | enter hself hpc hl => exact (h hfirst).of_step rfl rfl rfl rfl
  | resetQuit hself hpc => exact (h hfirst).of_step rfl rfl rfl rfl
  | leave hself hpc hq => exact (h hfirst).of_step rfl rfl rfl rfl
  | iterate hself hpc hq => exact (h hfirst).of_step rfl rfl rfl rfl
  | poll active hself hpc => cases hfirst
  | handleWakeup active hself hpc => simpa [hpc, Pc.unpolled] using (h hfirst).pc
  | handleOther c active hself hpc => simpa [hpc, Pc.unpolled] using (h hfirst).pc
  | doPendingFunctors hself hpc => simpa [hpc, Pc.unpolled] using (h hfirst).pc
  | swap hself hpc => simpa [hpc, Pc.unpolled] using (h hfirst).pc
  | call f batch hself hpc => simpa [hpc, Pc.unpolled] using (h hfirst).pc
  | ret batch hself hpc => simpa [hpc, Pc.unpolled] using (h hfirst).pc
  | finish hself hpc => simpa [hpc, Pc.unpolled] using (h hfirst).pc

/-- Until the first poll of the first call of `loop()` returns, and so when its first iteration
enters it, what the loop thread queued before `loop()` is pending, and the eventfd is set exactly if
another thread has written it. The iterations are counted over all calls of `loop()`: none has been
made before this one. -/
theorem work_queued_before_loop {pre post : List (Event T F C)} {s : State T F C} {f : F}
    (hqueued : .caller none (.push f) ∈ pre)
    (hrun : run step State.init (pre ++ .loop .enter :: post) = .ok s)
    (hfirst : s.loop.iteration = 0) :
    f ∈ s.loop.pendingFunctors ∧
      (s.loop.wakeupFd ≠ 0 ↔ WokenByOther (pre ++ .loop .enter :: post)) := by
  have h := run_induction (I := fun es s => s.loop.iteration = 0 → Unpolled es s) unpolled_step
    (fun _ => unpolled_init) hrun hfirst
  exact ⟨h.pending none f (List.mem_append_left _ hqueued), h.wakeupFd⟩

def queuedFirst : List (Event Unit Nat Unit) := [.caller none (.push 1), .caller none .wake]

def upToPoll : List (Event Unit Nat Unit) := [.loop .resetQuit, .loop .test]

theorem work_queued_before_loop_other :
    ∃ s, run step State.init (queuedFirst ++ .loop .enter ::
        (upToPoll ++ [.caller (some ()) (.push 2), .caller (some ()) .wake])) = .ok s ∧
      1 ∈ s.loop.pendingFunctors ∧ s.loop.wakeupFd ≠ 0 := by
  have hrun : run step State.init (queuedFirst ++ .loop .enter ::
      (upToPoll ++ [.caller (some ()) (.push 2), .caller (some ()) .wake])) = .ok _ := rfl
  obtain ⟨hpending, hwoken⟩ := work_queued_before_loop (f := 1) (by simp [queuedFirst]) hrun rfl
  exact ⟨_, hrun, hpending, hwoken.mpr ⟨(), by simp⟩⟩

/-- Alone, the loop thread polls with the functor pending and the eventfd at zero. -/
theorem queuedFirst_not_woken :
    ¬ ∀ (pre post : List (Event Unit Nat Unit)) (f : Nat) (s : State Unit Nat Unit),
      .caller none (.push f) ∈ pre → run step State.init (pre ++ .loop .enter :: post) = .ok s →
      s.pc = .polling → s.loop.iteration = 0 → s.loop.wakeupFd ≠ 0 := by
  intro h
  have hrun : run step State.init (queuedFirst ++ .loop .enter :: upToPoll) = .ok _ := rfl
  exact h queuedFirst upToPoll 1 _ (by simp [queuedFirst]) hrun rfl rfl rfl

end AcMuduo.EventLoop
