import AcMuduo.Thread

namespace AcMuduo.Thread

open Machine LogStream

/-- The body goes on to use the object. -/
def Body.usesObject : Body → Bool
  | .created | .counted | .named | .titled | .caught _ => true
  | _ => false

/-- The destructor runs only when the body has called `func_`, and `func_` throws nothing after
it. -/
def Outlived (s : State) : Event → Prop
  | .owner .destroy => s.body.usesObject = false
  | .body (.throw _) => s.owner.gone = false
  | _ => True

variable {s t : State} {e : Event} {es : List Event} {name : List Byte} {numCreated : Int32}

theorem assert_bind_spares {b : Bool} {x : Except (Stop Fault) State}
    (hx : x ≠ .error (.fault .useAfterFree)) :
    (assert b >>= fun _ => x) ≠ .error (.fault .useAfterFree) := by
  cases b with
  | true => exact hx
  | false => simp [assert, bind, Except.bind]

theorem ownerStep_spares {e : OwnerEvent} : ownerStep s e ≠ .error (.fault .useAfterFree) := by
  simp only [ownerStep]
  split
  · exact assert_bind_spares (by simp)
  · simp
  · simp
  · exact assert_bind_spares (assert_bind_spares (by simp))
  · split <;> simp
  · simp
  · simp

theorem step_useAfterFree (h : step s e = .error (.fault .useAfterFree)) :
    s.owner.gone = true ∧ s.body.usesObject = true := by
  have huse {u : State} (h : s.use u = .error (.fault .useAfterFree)) : s.owner.gone = true := by
    rw [State.use] at h
    split at h
    · assumption
    · cases h
  cases e with
  | owner e =>
    simp only [step] at h
    split at h
    · cases h
    · exact absurd h ownerStep_spares
  | body e =>
    simp only [step, bodyStep] at h
    split at h
    · rename_i hb
      exact ⟨huse h, by rw [hb]; rfl⟩
    · rename_i hb
      exact ⟨huse h, by rw [hb]; rfl⟩
    · rename_i hb
      split at h
      · exact ⟨huse h, by rw [hb]; rfl⟩
      · cases h
    · rename_i hb
      exact ⟨huse h, by rw [hb]; rfl⟩
    · cases h
    · cases h
    · rename_i hb
      exact ⟨huse h, by rw [hb]; rfl⟩
    · cases h
    · cases h

theorem gone_notifyAll (o : Owner) : o.notifyAll.gone = o.gone := by
  cases o <;> rfl

def Apart (s : State) : Prop := s.owner.gone = true → s.body.usesObject = false

theorem Apart.not_useAfterFree (h : Apart s) (e : Event) :
    step s e ≠ .error (.fault .useAfterFree) := by
  intro hf
  obtain ⟨hgone, huses⟩ := step_useAfterFree hf
  simp [h hgone] at huses

theorem apart_init : Apart (init name numCreated) := fun _ => rfl

theorem apart_of_gone {s : State} (h : s.owner.gone = false) : Apart s := by
  intro hgone
  simp [h] at hgone

theorem apart_step (h : Apart s) (hlived : Outlived s e) (hstep : step s e = .ok t) : Apart t := by
  cases step_move hstep with
  | start ho hs => exact apart_of_gone rfl
  | lockAndTest ho =>
    refine apart_of_gone ?_
    dsimp only
    split <;> rfl
  | wake b ho => exact apart_of_gone rfl
  | join ho hs hj => exact apart_of_gone rfl
  | joined ho hb => exact apart_of_gone rfl
  | destroy ho => exact fun _ => hlived
  | countDown hb ho =>
    refine apart_of_gone ?_
    dsimp only
    split
    · rw [gone_notifyAll, ho]
    · exact ho
  | setName hb ho => exact apart_of_gone ho
  | prctl hb ho =>
    intro hgone
    have huses := h hgone
    rw [hb] at huses
    cases huses
  | call hb ho => exact apart_of_gone ho
  | finish hb => exact fun _ => rfl
  | throw ex hb => exact apart_of_gone hlived
  | print ex hb ho => exact apart_of_gone ho
  | abort hb => exact fun _ => rfl

theorem useAfterFree_of_gone (hgone : s.owner.gone = true) (huses : s.body.usesObject = true) :
    ∃ es : List BodyEvent, run step s (es.map Event.body) = .error (.fault .useAfterFree) := by
  have huse (u : State) : s.use u = .error (.fault .useAfterFree) := if_pos hgone
  cases hb : s.body with
  | created => exact ⟨[.countDown], by simp [run_singleton, step, bodyStep, hb, huse]⟩
  | counted => exact ⟨[.setName], by simp [run_singleton, step, bodyStep, hb, huse]⟩
  | named =>
    cases hname : s.threadName with
    | ofObject => exact ⟨[.prctl], by simp [run_singleton, step, bodyStep, hb, hname, huse]⟩
    | literal title =>
      have hprctl : step s (.body .prctl) = .ok { s with body := .titled } := by
        simp [step, bodyStep, hb, hname]
      have hcall : step { s with body := .titled } (.body .call) =
          .error (.fault .useAfterFree) := if_pos hgone
      refine ⟨[.prctl, .call], ?_⟩
      rw [List.map_cons, run_cons, hprctl]
      exact run_singleton.trans hcall
  | titled => exact ⟨[.call], by simp [run_singleton, step, bodyStep, hb, huse]⟩
  | caught ex => exact ⟨[.print], by simp [run_singleton, step, bodyStep, hb, huse]⟩
  | _ => simp [hb, Body.usesObject] at huses

theorem dangling_of_not_outlived (hlived : ¬ Outlived s e) (hstep : step s e = .ok t) :
    t.owner.gone = true ∧ t.body.usesObject = true := by
  cases step_move hstep with
  | destroy ho => exact ⟨rfl, Bool.eq_true_of_not_eq_false hlived⟩
  | throw ex hb => exact ⟨Bool.eq_true_of_not_eq_false hlived, rfl⟩
  | _ => exact absurd trivial hlived

/-- The object is not used after its end, if it is destroyed late enough. After a step for which
that is not so, the body comes to use it. -/
theorem body_outlives_object (name : List Byte) (numCreated : Int32) :
    (∀ es, Throughout step Outlived (init name numCreated) es →
      run step (init name numCreated) es ≠ .error (.fault .useAfterFree)) ∧
    ∀ es s e t, run step (init name numCreated) es = .ok s → step s e = .ok t → ¬ Outlived s e →
      ∃ fs : List BodyEvent, run step (init name numCreated) (es ++ e :: fs.map Event.body) =
        .error (.fault .useAfterFree) := by
  constructor
  · intro es hlived
    exact run_avoids (fun s e t h hlived hstep => apart_step h hlived hstep)
      (fun s e h _ => h.not_useAfterFree e) apart_init hlived
  · intro es s e t hrun hstep hlived
    obtain ⟨hgone, huses⟩ := dangling_of_not_outlived hlived hstep
    obtain ⟨fs, hfs⟩ := useAfterFree_of_gone hgone huses
    refine ⟨fs, ?_⟩
    rw [run_append, hrun]
    refine Eq.trans ?_ hfs
    exact run_cons.trans (by rw [hstep]; rfl)

def Joins (s : State) (e : Event) : Prop :=
  e = .owner .destroy → s.started = false ∨ s.joined = true

structure Ended (s : State) : Prop where
  unstarted : s.started = false → s.body = .notStarted
  joined : s.joined = true → s.started = true ∧ (s.owner ≠ .joining → s.body = .finished)
  gone : s.owner.gone = true → s.body = .notStarted ∨ s.body = .finished

theorem ended_init : Ended (init name numCreated) := ⟨fun _ => rfl, nofun, nofun⟩

theorem Ended.of_body (h : Ended s) {u : State} (hstarted : u.started = s.started)
    (hjoined : u.joined = s.joined) (hgone : u.owner.gone = s.owner.gone)
    (howner : s.owner = .joining → u.owner = .joining) (hbegun : s.body ≠ .notStarted)
    (hends : s.body ≠ .finished) : Ended u := by
  refine ⟨fun hu => absurd (h.unstarted (hstarted ▸ hu)) hbegun, fun hu => ?_, fun hu => ?_⟩
  · obtain ⟨hs, hfinished⟩ := h.joined (hjoined ▸ hu)
    refine ⟨hstarted.trans hs, fun hne => ?_⟩
    exact absurd (hfinished fun ho => hne (howner ho)) hends
  · cases h.gone (hgone ▸ hu) with
    | inl hb => exact absurd hb hbegun
    | inr hb => exact absurd hb hends

theorem Ended.of_owner (h : Ended s) {o : Owner} (ho : s.owner ≠ .joining)
    (hgone : o.gone = true → s.body = .notStarted ∨ s.body = .finished) :
    Ended { s with owner := o } :=
  ⟨h.unstarted, fun hj => ⟨(h.joined hj).1, fun _ => (h.joined hj).2 ho⟩, hgone⟩

theorem ended_step (h : Ended s) (hjoins : Joins s e) (hstep : step s e = .ok t) : Ended t := by
  cases step_move hstep with
  | start ho hs =>
    refine ⟨nofun, fun hj => ?_, nofun⟩
    have hstarted := (h.joined hj).1
    simp [hs] at hstarted
  | lockAndTest ho =>
    refine h.of_owner (by simp [ho]) fun hgone => ?_
    split at hgone <;> cases hgone
  | wake b ho => exact h.of_owner (by simp [ho]) nofun
  | join ho hs hj => exact ⟨h.unstarted, fun _ => ⟨hs, fun hne => absurd rfl hne⟩, nofun⟩
  | joined ho hb => exact ⟨h.unstarted, fun hj => ⟨(h.joined hj).1, fun _ => hb⟩, nofun⟩
  | destroy ho =>
    have hne : s.owner ≠ .joining := by simp [ho]
    refine h.of_owner hne fun _ => ?_
    cases hjoins rfl with
    | inl hs => exact .inl (h.unstarted hs)
    | inr hj => exact .inr ((h.joined hj).2 hne)
  | countDown hb ho =>
    refine h.of_body rfl rfl ?_ ?_ (by simp [hb]) (by simp [hb])
    · dsimp only
      split
      · exact gone_notifyAll _
      · rfl
    · intro hjoining
      simp [hjoining, Owner.notifyAll]
  | setName hb ho => exact h.of_body rfl rfl rfl id (by simp [hb]) (by simp [hb])
  | prctl hb ho => exact h.of_body rfl rfl rfl id (by simp [hb]) (by simp [hb])
  | call hb ho => exact h.of_body rfl rfl rfl id (by simp [hb]) (by simp [hb])
  | finish hb => exact h.of_body rfl rfl rfl id (by simp [hb]) (by simp [hb])
  | throw ex hb => exact h.of_body rfl rfl rfl id (by simp [hb]) (by simp [hb])
  | print ex hb ho => exact h.of_body rfl rfl rfl id (by simp [hb]) (by simp [hb])
  | abort hb => exact h.of_body rfl rfl rfl id (by simp [hb]) (by simp [hb])

/-- The object of a thread that is joined first is not used after its end. -/
theorem object_outlives_joined {es : List Event}
    (hjoins : Throughout step Joins (init name numCreated) es) :
    run step (init name numCreated) es ≠ .error (.fault .useAfterFree) := by
  refine run_avoids (fun s e t h hjoins hstep => ended_step h hjoins hstep) (fun s e h _ => ?_)
    ended_init hjoins
  refine Apart.not_useAfterFree (fun hgone => ?_) e
  cases h.gone hgone with
  | inl hb => rw [hb]; rfl
  | inr hb => rw [hb]; rfl

def detachedLate : List Event :=
  [.owner .start, .body .countDown, .owner .lockAndTest, .body .setName, .body .prctl, .body .call,
    .owner .destroy, .body .finish]

theorem body_outlives_object_detachedLate :
    run step (init [] 1) detachedLate ≠ .error (.fault .useAfterFree) := by
  refine (body_outlives_object [] 1).1 detachedLate ?_
  iterate 6 refine .cons trivial rfl ?_
  exact .cons rfl rfl (.cons trivial rfl trivial)

/-- `start` returns as soon as the latch is open, and the name is read after the destructor. -/
theorem body_uses_destroyed_object :
    run step (init [] 1) [.owner .start, .body .countDown, .owner .lockAndTest, .owner .destroy,
      .body .setName] = .error (.fault .useAfterFree) ∧
    ¬ ∀ (name : List Byte) (numCreated : Int32) (es : List Event),
      run step (init name numCreated) es ≠ .error (.fault .useAfterFree) := by
  have hrun : run step (init [] 1) [.owner .start, .body .countDown, .owner .lockAndTest,
    .owner .destroy, .body .setName] = .error (.fault .useAfterFree) := rfl
  exact ⟨hrun, fun h => h _ _ _ hrun⟩

end AcMuduo.Thread
