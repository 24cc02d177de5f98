import AcMuduo.ReactorSafety

namespace AcMuduo.Reactor

open Machine Poller

variable {C O Addr : Type} {p : Selector C} {fd : C → Int} {addr : C → Addr} {I : p.State → Prop}
  {s t : State p O Addr} {c : C} {rest : List C}

structure Item where
  fd : Int
  revents : BitVec 32
  callback : Callback
  deriving DecidableEq

def items (report : Int × BitVec 32) : List Item :=
  Callback.all.map fun callback => ⟨report.1, report.2, callback⟩

/-- What became of an item: `isReady` says that the callback was set, and the object alive that the
channel is tied to. -/
structure Outcome where
  item : Item
  isReady : Bool
  called : Bool
  deriving DecidableEq

def report (fd : C → Int) (s : State p O Addr) (c : C) : Int × BitVec 32 :=
  (fd c, (p.chan s.poller).revents c)

def remaining (fd : C → Int) (s : State p O Addr) (c : C) (callbacks : List Callback) : List Item :=
  callbacks.map fun callback => ⟨fd c, (p.chan s.poller).revents c, callback⟩

def pending (fd : C → Int) (s : State p O Addr) : List Item :=
  match s.pc with
  | .idle => []
  | .next rest | .release rest => rest.flatMap fun c => items (report fd s c)
  | .test c callbacks rest | .call c callbacks rest =>
    remaining fd s c callbacks ++ rest.flatMap fun c => items (report fd s c)

def reported (fd : C → Int) (s : State p O Addr) : Event C O p.Answer → State p O Addr → List Item
  | .loop (.poll answer), _ => (p.reports fd s.poller answer).flatMap items
  | _, _ => []

def Pc.isCall : Pc C → Bool
  | .call _ _ _ => true
  | .idle | .next _ | .test _ _ _ | .release _ => false

/-- The items that a step of the loop decides on: one before each test for a callback, and all those
of a channel that `handle_event` does not handle. -/
def decided (fd : C → Int) (s : State p O Addr) (e : Event C O p.Answer) (t : State p O Addr) :
    List Outcome :=
  match s.pc, e with
  | .test c (callback :: _) _, .loop .test =>
    [⟨⟨fd c, (p.chan s.poller).revents c, callback⟩, s.callback c callback, t.pc.isCall⟩]
  | .next (c :: _), .loop .next =>
    if t.handling c then [] else (items (report fd s c)).map fun item => ⟨item, false, false⟩
  | _, _ => []

theorem pending_congr (hpc : t.pc = s.pc)
    (hrevents : (p.chan t.poller).revents = (p.chan s.poller).revents) :
    pending fd t = pending fd s := by
  simp only [pending, remaining, report, hpc, hrevents]

variable [DecidableEq C] [DecidableEq O] [DecidableEq Addr]

theorem userStep_pending (hp : Lawful p fd I) (h : Inv fd addr I s) {e : UserEvent C O}
    (ht : userStep fd addr s e = .ok t) : pending fd t = pending fd s := by
  suffices h : t.pc = s.pc ∧ (p.chan t.poller).revents = (p.chan s.poller).revents from
    pending_congr h.1 h.2
  cases e with
  | destroy c =>
    simp only [userStep] at ht
    split at ht
    · simp only [destruct, bind_eq_ok, assert_eq_ok, Except.ok.injEq] at ht
      obtain ⟨-, -, -, -, -, -, rfl⟩ := ht
      exact ⟨rfl, rfl⟩
    · cases ht
  | use op =>
    cases op with
    | update u c =>
      simp only [userStep] at ht
      split at ht
      · obtain ⟨poller, hstep, ht⟩ := bind_eq_ok.mp ht
        cases ht
        exact ⟨rfl, (hp.step _ _ _ h.poller hstep).2.2⟩
      · cases ht
    | remove c =>
      simp only [userStep] at ht
      split at ht
      · obtain ⟨-, poller, hstep, rfl⟩ := remove_eq_ok.mp ht
        exact ⟨rfl, (hp.step _ _ _ h.poller hstep).2.2⟩
      · cases ht
  | create | tie | setCallback | make | share | drop =>
    simp only [userStep] at ht
    split at ht <;> cases ht
    exact ⟨rfl, rfl⟩

def Outcome.Right (x : Outcome) : Prop :=
  x.called = (x.item.callback.due x.item.revents && x.isReady)

def Accounts (fd : C → Int) (s : State p O Addr) (e : Event C O p.Answer) (t : State p O Addr) :
    Prop :=
  (decided fd s e t).map Outcome.item ++ pending fd t = pending fd s ++ reported fd s e t ∧
    ∀ x ∈ decided fd s e t, x.Right

omit [DecidableEq Addr] in
theorem accounts_poll (hp : Lawful p fd I) (h : Inv fd addr I s) {answer : p.Answer}
    (hpc : s.pc = .idle) (hvalid : p.Valid fd s.poller answer)
    (ht : loopStep fd s (.poll answer) = .ok t) : Accounts fd s (.loop (.poll answer)) t := by
  obtain ⟨poller, active, hpoll, -, -, -, -, hreports⟩ := hp.poll _ _ h.poller hvalid
  simp only [loopStep, hpc, hpoll, bind_eq_ok, Except.ok.injEq] at ht
  obtain ⟨_, heq, -, -, rfl⟩ := ht
  cases heq
  refine ⟨?_, by simp [decided, hpc]⟩
  simp only [decided, hpc, pending, reported, List.map_nil, List.nil_append]
  rw [← hreports, List.flatMap_map]
  rfl

omit [DecidableEq Addr] in
theorem accounts_next (h : Inv fd addr I s) (hpc : s.pc = .next (c :: rest))
    (ht : loopStep fd s .next = .ok t) : Accounts fd s (.loop .next) t := by
  have hfalse : s.handling c = false := by
    rw [← Bool.not_eq_true, h.handling, hpc]
    exact nofun
  rw [h.loopStep_next hpc, Except.ok.injEq] at ht
  subst ht
  have hpending : pending fd s =
      items (report fd s c) ++ rest.flatMap fun c => items (report fd s c) := by
    simp [pending, hpc]
  obtain ⟨guard, -, heq⟩ | ⟨o, -, -, heq⟩ :=
    handleEvent_cases { s with currentActiveChannel := some c } c rest
  · rw [heq]
    refine ⟨?_, by simp [decided, hpc]⟩
    simp only [decided, hpc, Function.update_self, if_true, reported, hpending]
    simp [pending, items, remaining, report]
  · -- the object is gone, and its channel is not handled
    rw [heq]
    refine ⟨?_, ?_⟩
    · simp only [decided, hpc, hfalse, reported, hpending]
      simp [pending, report, Function.comp_def]
    · simp only [decided, hpc, hfalse]
      simp [Outcome.Right]

omit [DecidableEq Addr] in
theorem accounts_test {callbacks : List Callback} (hpc : s.pc = .test c callbacks rest)
    (ht : loopStep fd s .test = .ok t) : Accounts fd s (.loop .test) t := by
  cases callbacks with
  | nil =>
    simp only [loopStep, hpc, bind_eq_ok, Except.ok.injEq] at ht
    obtain ⟨-, -, rfl⟩ := ht
    refine ⟨?_, by simp [decided, hpc]⟩
    rw [leaveEvent]
    cases hguard : s.guard <;> simp [decided, hpc, pending, reported, remaining, report]
  | cons callback callbacks =>
    simp only [loopStep, hpc, bind_eq_ok] at ht
    obtain ⟨-, -, ht⟩ := ht
    split at ht
    · rename_i hdue
      cases ht
      refine ⟨by simp [decided, hpc, pending, reported, remaining, report], ?_⟩
      intro x hx
      simp only [decided, hpc, List.mem_singleton] at hx
      rw [hx, Outcome.Right, hdue]
      rfl
    · rename_i hdue
      cases ht
      refine ⟨by simp [decided, hpc, pending, reported, remaining, report], ?_⟩
      intro x hx
      simp only [decided, hpc, List.mem_singleton] at hx
      rw [hx, Outcome.Right, Bool.eq_false_iff.mpr hdue]
      rfl

theorem accounts (hp : Lawful p fd I) (h : Inv fd addr I s) {e : Event C O p.Answer}
    (hk : KernelAnswers fd s e) (ht : step fd addr s e = .ok t) : Accounts fd s e t := by
  cases e with
  | user e =>
    simp only [step] at ht
    split at ht
    · refine ⟨?_, ?_⟩
      · simp [decided, reported, userStep_pending hp h ht]
      · simp [decided]
    · cases ht
  | loop e =>
    simp only [step] at ht
    cases hpc : s.pc with
    | idle =>
      cases e with
      | poll answer => exact accounts_poll hp h hpc hk ht
      | next | test | ret => simp [loopStep, hpc] at ht
    | next rest =>
      cases e with
      | next =>
        cases rest with
        | nil =>
          simp only [loopStep, hpc, Except.ok.injEq] at ht
          subst ht
          exact ⟨by simp [decided, hpc, pending, reported], by simp [decided, hpc]⟩
        | cons c rest => exact accounts_next h hpc ht
      | poll | test | ret => simp [loopStep, hpc] at ht
    | test c callbacks rest =>
      cases e with
      | test => exact accounts_test hpc ht
      | poll | next | ret => simp [loopStep, hpc] at ht
    | call c callbacks rest =>
      cases e with
      | ret =>
        simp only [loopStep, hpc, Except.ok.injEq] at ht
        subst ht
        exact ⟨by simp [decided, hpc, pending, reported, remaining, report],
          by simp [decided, hpc]⟩
      | poll | next | test => simp [loopStep, hpc] at ht
    | release rest =>
      cases e with
      | ret =>
        simp only [loopStep, hpc, Except.ok.injEq] at ht
        subst ht
        exact ⟨by simp [decided, hpc, pending, reported, report], by simp [decided, hpc]⟩
      | poll | next | test => simp [loopStep, hpc] at ht

structure Dispatched (fd : C → Int) (addr : C → Addr) (I : p.State → Prop) (outcomes : List Outcome)
    (reports : List Item) (s : State p O Addr) : Prop where
  inv : Inv fd addr I s
  items : outcomes.map Outcome.item ++ pending fd s = reports
  right : ∀ x ∈ outcomes, x.Right

theorem Dispatched.step {outcomes : List Outcome} {reports : List Item}
    (h : Dispatched fd addr I outcomes reports s) (hp : Lawful p fd I) {e : Event C O p.Answer}
    (hk : KernelAnswers fd s e) (ht : step fd addr s e = .ok t) :
    Dispatched fd addr I (outcomes ++ decided fd s e t) (reports ++ reported fd s e t) t := by
  obtain ⟨hstep, hright⟩ := accounts hp h.inv hk ht
  refine ⟨h.inv.of_step hp hk ht, ?_, fun x hx => ?_⟩
  · rw [List.map_append, List.append_assoc, hstep, ← List.append_assoc, h.items]
  · cases List.mem_append.mp hx with
    | inl hx => exact h.right x hx
    | inr hx => exact hright x hx

end AcMuduo.Reactor
