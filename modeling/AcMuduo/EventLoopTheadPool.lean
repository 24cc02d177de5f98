import AcMuduo.Fault
import AcMuduo.RoundRobin

namespace AcMuduo.EventLoopTheadPool

open Machine

variable {L : Type}

/-- The threads that `start` has made stand for themselves as the loops that `start_loop` has
returned. The names that `start` makes up for them do not reach them. -/
structure State (L : Type) where
  started : Bool
  numThreads : Int
  next : Nat
  loops : List L

def State.init : State L := ⟨false, 0, 0, []⟩

/-- The calls of the members, and whether they are made in the thread of the base loop. `start` is
given a callback or none, and comes with the loops that its threads return. -/
inductive Event (L : Type) where
  | setThreadNum (numThreads : Int32)
  | start (inLoopThread cb : Bool) (started : List L)
  | getNextLoop (inLoopThread : Bool)
  | getLoopForHash (inLoopThread : Bool) (hashCode : Nat)
  | getAllLoops (inLoopThread : Bool)

def assertInLoopThread (inLoopThread : Bool) : Except (Stop Fault) Unit :=
  if inLoopThread then .ok () else .error (.fault .fatalLog)

variable [DecidableEq L]

def Fresh (base : L) (n : Nat) (started : List L) : Prop :=
  started.length = n ∧ started.Nodup ∧ base ∉ started

instance (base : L) (n : Nat) (started : List L) : Decidable (Fresh base n started) :=
  inferInstanceAs (Decidable (_ ∧ _))

def nextLoop (base : L) (s : State L) : Except (Stop Fault) (L × State L) :=
  if s.loops.isEmpty then .ok (base, s)
  else
    match s.loops[s.next]? with
    | none => .error (.fault .outOfBounds)
    | some loop =>
      let next := if s.loops.length ≤ s.next + 1 then 0 else s.next + 1
      .ok (loop, { s with next := next })

def loopForHash (base : L) (s : State L) (hashCode : Nat) : Except (Stop Fault) L :=
  if s.loops.isEmpty then .ok base
  else
    match s.loops[hashCode % s.loops.length]? with
    | none => .error (.fault .outOfBounds)
    | some loop => .ok loop

def step (base : L) (s : State L) : Event L → Except (Stop Fault) (State L)
  | .setThreadNum numThreads => .ok { s with numThreads := numThreads.toInt }
  | .start inLoopThread _ started => do
    assert (!s.started)
    assertInLoopThread inLoopThread
    -- the loop of `start` runs up to `num_threads_`, not at all if that is negative
    if Fresh base s.numThreads.toNat started then
      .ok { s with
        started := true
        loops := s.loops ++ started }
    else .error .disabled
  | .getNextLoop inLoopThread => do
    assertInLoopThread inLoopThread
    assert s.started
    let (_, s) ← nextLoop base s
    .ok s
  | .getLoopForHash inLoopThread hashCode => do
    assertInLoopThread inLoopThread
    let _ ← loopForHash base s hashCode
    .ok s
  | .getAllLoops inLoopThread => do
    assertInLoopThread inLoopThread
    assert s.started
    .ok s

def chosen (base : L) (s : State L) (e : Event L) (_ : State L) : List L :=
  match e with
  | .getNextLoop _ => ((nextLoop base s).toOption.map Prod.fst).toList
  | _ => []

def returned (base : L) (s : State L) (e : Event L) (t : State L) : List L :=
  match e with
  | .getNextLoop _ => chosen base s e t
  | .getLoopForHash _ hashCode =>
    if s.started then (loopForHash base s hashCode).toOption.toList else []
  | .getAllLoops _ => if s.loops.isEmpty then [base] else s.loops
  | _ => []

/-- The loops that the callback of `start` is called with: by the threads, each with its own, or by
`start` with the base loop, if there are to be no threads. -/
def initialized (base : L) (s : State L) (e : Event L) (_ : State L) : List L :=
  match e with
  | .start _ cb started =>
    if cb then if s.numThreads = 0 then [base] else started else []
  | _ => []

variable {base : L} {s t : State L} {e : Event L} {es : List (Event L)}

def inUse (base : L) (s : State L) : List L :=
  if s.loops = [] then [base] else s.loops

structure Inv (base : L) (s : State L) : Prop where
  next : s.next < (inUse base s).length
  nodup : s.loops.Nodup
  notStarted : s.started = false → s.loops = []

omit [DecidableEq L] in
theorem inv_init (base : L) : Inv base .init := by
  constructor <;> simp [State.init, inUse]

omit [DecidableEq L] in
theorem Inv.inUse_nodup (h : Inv base s) : (inUse base s).Nodup := by
  rw [inUse]
  split
  · exact List.nodup_singleton _
  · exact h.nodup

omit [DecidableEq L] in
theorem nextLoop_eq (h : Inv base s) : ∃ loop, (inUse base s)[s.next]? = some loop ∧
    nextLoop base s = .ok (loop, { s with next := (s.next + 1) % (inUse base s).length }) := by
  have hlt := h.next
  by_cases hnil : s.loops = []
  · rw [inUse, if_pos hnil, List.length_singleton, Nat.lt_one_iff] at hlt
    refine ⟨base, by rw [inUse, if_pos hnil, hlt]; rfl, ?_⟩
    have hsame : { s with next := 0 } = s := by rw [← hlt]
    rw [nextLoop, if_pos (by simpa using hnil), inUse, if_pos hnil, List.length_singleton,
      Nat.mod_one, hsame]
  · rw [inUse, if_neg hnil] at hlt ⊢
    refine ⟨s.loops[s.next], List.getElem?_eq_getElem hlt, ?_⟩
    rw [nextLoop, if_neg (by simpa using hnil), List.getElem?_eq_getElem hlt]
    by_cases hend : s.loops.length ≤ s.next + 1
    · have hwrap : s.next + 1 = s.loops.length := Nat.le_antisymm hlt hend
      simp [hwrap]
    · simp [hend, Nat.mod_eq_of_lt (Nat.not_le.mp hend)]

omit [DecidableEq L] in
theorem loopForHash_eq (base : L) (s : State L) (hashCode : Nat) :
    ∃ loop ∈ inUse base s, loopForHash base s hashCode = .ok loop := by
  by_cases hnil : s.loops = []
  · refine ⟨base, by simp [inUse, hnil], ?_⟩
    rw [loopForHash, if_pos (by simpa using hnil)]
  · have hlt : hashCode % s.loops.length < s.loops.length :=
      Nat.mod_lt _ (List.length_pos_of_ne_nil hnil)
    refine ⟨s.loops[hashCode % s.loops.length], ?_, ?_⟩
    · rw [inUse, if_neg hnil]
      exact List.getElem_mem hlt
    · rw [loopForHash, if_neg (by simpa using hnil), List.getElem?_eq_getElem hlt]

inductive Move (base : L) (s : State L) : Event L → List L → List L → State L → Prop where
  | setThreadNum {n} : Move base s (.setThreadNum n) [] [] { s with numThreads := n.toInt }
  | start {cb started} (hstarted : s.started = false)
    (hfresh : Fresh base s.numThreads.toNat started) :
    Move base s (.start true cb started) []
      (if cb then if s.numThreads = 0 then [base] else started else []) { s with
      started := true
      loops := s.loops ++ started }
  | getNextLoop {loop} (hstarted : s.started = true) (hloop : (inUse base s)[s.next]? = some loop) :
    Move base s (.getNextLoop true) [loop] []
      { s with next := (s.next + 1) % (inUse base s).length }
  | getLoopForHash {hashCode loop} (hloop : loop ∈ inUse base s) :
    Move base s (.getLoopForHash true hashCode) (if s.started then [loop] else []) [] s
  | getAllLoops (hstarted : s.started = true) : Move base s (.getAllLoops true) (inUse base s) [] s

def Checked (d : Stop Fault) : Prop :=
  d = .disabled ∨ d = .fault .assertFailed ∨ d = .fault .fatalLog

theorem step_move (h : Inv base s) (e : Event L) : (∃ d, step base s e = .error d ∧ Checked d) ∨
    ∃ t, step base s e = .ok t ∧
      Move base s e (returned base s e t) (initialized base s e t) t := by
  cases e with
  | setThreadNum n => exact .inr ⟨_, rfl, .setThreadNum⟩
  | start inLoopThread cb started =>
    cases hstarted : s.started with
    | true => exact .inl ⟨_, by simp [step, hstarted, assert, bind, Except.bind], .inr (.inl rfl)⟩
    | false =>
      cases inLoopThread with
      | false =>
        refine .inl ⟨.fault .fatalLog, ?_, .inr (.inr rfl)⟩
        simp [step, hstarted, assertInLoopThread, bind, Except.bind]
      | true =>
        by_cases hfresh : Fresh base s.numThreads.toNat started
        · refine .inr ⟨_, ?_, .start hstarted hfresh⟩
          simp [step, hstarted, assertInLoopThread, hfresh, bind, Except.bind]
        · refine .inl ⟨.disabled, ?_, .inl rfl⟩
          simp [step, hstarted, assertInLoopThread, hfresh, bind, Except.bind]
  | getNextLoop inLoopThread =>
    cases inLoopThread with
    | false => exact .inl ⟨.fault .fatalLog, rfl, .inr (.inr rfl)⟩
    | true =>
      cases hstarted : s.started with
      | false =>
        refine .inl ⟨.fault .assertFailed, ?_, .inr (.inl rfl)⟩
        simp [step, hstarted, assertInLoopThread, assert, bind, Except.bind]
      | true =>
        obtain ⟨loop, hloop, hnext⟩ := nextLoop_eq h
        have hreturned : ∀ t, returned base s (.getNextLoop true) t = [loop] := by
          intro t
          simp [returned, chosen, hnext, Except.toOption]
        refine .inr ⟨{ s with next := (s.next + 1) % (inUse base s).length }, ?_, ?_⟩
        · simp [step, hstarted, hnext, assertInLoopThread, bind, Except.bind]
        · rw [hreturned]
          exact .getNextLoop hstarted hloop
  | getLoopForHash inLoopThread hashCode =>
    cases inLoopThread with
    | false => exact .inl ⟨.fault .fatalLog, rfl, .inr (.inr rfl)⟩
    | true =>
      obtain ⟨loop, hloop, hhash⟩ := loopForHash_eq base s hashCode
      refine .inr ⟨s, ?_, ?_⟩
      · simp [step, hhash, assertInLoopThread, bind, Except.bind]
      · rw [returned, hhash]
        exact .getLoopForHash hloop
  | getAllLoops inLoopThread =>
    cases inLoopThread with
    | false => exact .inl ⟨.fault .fatalLog, rfl, .inr (.inr rfl)⟩
    | true =>
      cases hstarted : s.started with
      | false =>
        refine .inl ⟨.fault .assertFailed, ?_, .inr (.inl rfl)⟩
        simp [step, hstarted, assertInLoopThread, assert, bind, Except.bind]
      | true =>
        refine .inr ⟨s, ?_, ?_⟩
        · simp [step, hstarted, assertInLoopThread, bind, Except.bind]
        · have hall : returned base s (.getAllLoops true) s = inUse base s := by
            simp [returned, inUse]
          rw [hall]
          exact .getAllLoops hstarted

theorem move_of_step (h : Inv base s) (ht : step base s e = .ok t) :
    Move base s e (returned base s e t) (initialized base s e t) t := by
  obtain ⟨d, hd, -⟩ | ⟨u, hu, hmove⟩ := step_move h e
  · rw [hd] at ht
    cases ht
  · rw [hu, Except.ok.injEq] at ht
    exact ht ▸ hmove

variable {out made : List L}

omit [DecidableEq L] in
theorem inUse_congr (h : t.loops = s.loops) : inUse base t = inUse base s := by
  rw [inUse, inUse, h]

omit [DecidableEq L] in
theorem Move.inv (h : Move base s e out made t) (hs : Inv base s) : Inv base t := by
  have hnext := hs.next
  cases h with
  | setThreadNum => exact ⟨hs.next, hs.nodup, hs.notStarted⟩
  | @start cb started hstarted hfresh =>
    have hloops := hs.notStarted hstarted
    obtain ⟨-, hnodup, -⟩ := hfresh
    rw [inUse, if_pos hloops, List.length_singleton] at hnext
    refine ⟨?_, ?_, nofun⟩
    · simp only [inUse, hloops, List.nil_append]
      split
      · exact hnext
      · rename_i hne
        exact hnext.trans_le (List.length_pos_of_ne_nil hne)
    · simpa [hloops] using hnodup
  | getNextLoop _ _ => exact ⟨Nat.mod_lt _ (Nat.zero_lt_of_lt hnext), hs.nodup, hs.notStarted⟩
  | getLoopForHash _ | getAllLoops _ => exact hs

theorem inv_of_step (hs : Inv base s) (ht : step base s e = .ok t) : Inv base t :=
  (move_of_step hs ht).inv hs

theorem run_inv (hrun : run (step base) .init es = .ok s) : Inv base s :=
  run_invariant (fun _ _ _ hs ht => inv_of_step hs ht) (inv_init base) hrun

def Event.isNext : Event L → Bool
  | .getNextLoop _ => true
  | _ => false

omit [DecidableEq L] in
theorem chosen_eq (base : L) (s : State L) (e : Event L) (t : State L) :
    chosen base s e t = if e.isNext then returned base s e t else [] := by
  cases e <;> rfl

theorem turn_of_step (hs : Inv base s) (hstarted : s.started = true) (ht : step base s e = .ok t) :
    t.started = true ∧ t.loops = s.loops ∧
      (chosen base s e t = [] ∧ t.next = s.next ∨
        chosen base s e t = (inUse base s)[s.next]?.toList ∧
          t.next = (s.next + 1) % (inUse base s).length) := by
  have hmove := move_of_step hs ht
  have hchosen := chosen_eq base s e t
  generalize returned base s e t = out at hmove hchosen
  generalize initialized base s e t = made at hmove
  cases hmove with
  | start hnot _ =>
    rw [hstarted] at hnot
    cases hnot
  | getNextLoop _ hloop => exact ⟨hstarted, rfl, .inr ⟨by rw [hloop]; exact hchosen, rfl⟩⟩
  | setThreadNum | getLoopForHash _ | getAllLoops _ => exact ⟨hstarted, rfl, .inl ⟨hchosen, rfl⟩⟩

theorem chosen_turns (hs : Inv base s) (hstarted : s.started = true)
    (hrun : run (step base) s es = .ok t) : observe (step base) (chosen base) s es =
      RoundRobin.turns (inUse base s) s.next (observe (step base) (chosen base) s es).length := by
  induction es generalizing s with
  | nil => rfl
  | cons e es ih =>
    obtain ⟨u, hu, hrest⟩ := run_cons_ok.mp hrun
    obtain ⟨hstartedU, hloops, hturn⟩ := turn_of_step hs hstarted hu
    have htail := ih (inv_of_step hs hu) hstartedU hrest
    rw [inUse_congr hloops] at htail
    rw [observe_cons hu]
    obtain ⟨hnone, hnext⟩ | ⟨hone, hnext⟩ := hturn
    · rw [hnone, List.nil_append, ← hnext]
      exact htail
    · have hlt : s.next % (inUse base s).length = s.next := Nat.mod_eq_of_lt hs.next
      rw [hnext, RoundRobin.turns_mod] at htail
      have hlength : (inUse base s)[s.next]?.toList.length = 1 := by
        rw [List.getElem?_eq_getElem hs.next]
        rfl
      rw [hone, List.length_append, hlength, Nat.add_comm 1, RoundRobin.turns_cons, hlt, ← htail]

/-- Once a pool is started `get_next_loop` is fair: over any part of a run, with any other calls in
between, it returns each of the loops in use equally often, up to one, and no other loop. -/
theorem next_loop_fair {pre : List (Event L)} (hpre : run (step base) .init pre = .ok s)
    (hstarted : s.started = true) (hrun : run (step base) s es = .ok t) :
    (∀ loop ∈ observe (step base) (chosen base) s es, loop ∈ inUse base s) ∧
    ∀ loop ∈ inUse base s,
      (observe (step base) (chosen base) s es).length / (inUse base s).length ≤
        (observe (step base) (chosen base) s es).count loop ∧
      (observe (step base) (chosen base) s es).count loop ≤
        (observe (step base) (chosen base) s es).length / (inUse base s).length + 1 := by
  have hs := run_inv hpre
  have hturns := chosen_turns hs hstarted hrun
  refine ⟨fun loop hloop => ?_, fun loop hloop => ?_⟩
  · rw [hturns] at hloop
    exact RoundRobin.mem_of_mem_turns hloop
  · have hfair := RoundRobin.fair hs.inUse_nodup hloop s.next
      (observe (step base) (chosen base) s es).length
    rwa [← hturns] at hfair

def twoThreads : State Nat := ⟨true, 2, 0, [1, 2]⟩

theorem next_loop_fair_twoThreads : ∃ t,
    run (step 0) twoThreads [.getNextLoop true, .getLoopForHash true 5,
      .getNextLoop true, .setThreadNum 7, .getNextLoop true] = .ok t ∧
    ∀ loop ∈ inUse 0 twoThreads, 3 / 2 ≤ ([1, 2, 1] : List Nat).count loop := by
  have hpre : run (step 0) .init [.setThreadNum 2, .start true true [1, 2]] =
    .ok twoThreads := rfl
  have hrun : run (step 0) twoThreads [.getNextLoop true, .getLoopForHash true 5,
    .getNextLoop true, .setThreadNum 7, .getNextLoop true] = .ok _ := rfl
  exact ⟨_, hrun, fun loop hloop => ((next_loop_fair hpre rfl hrun).2 loop hloop).1⟩

def StartsWell (s : State L) : Event L → Prop
  | .start _ cb _ => cb = true ∧ 0 ≤ s.numThreads
  | _ => True

structure Handed (base : L) (out made : List L) (s : State L) : Prop where
  inv : Inv base s
  called : made = if s.started then inUse base s else []
  known : ∀ loop ∈ out, loop ∈ made

omit [DecidableEq L] in
theorem Handed.step {out' made' : List L} (h : Handed base out made s) (he : StartsWell s e)
    (hmove : Move base s e out' made' t) : Handed base (out ++ out') (made ++ made') t := by
  have hinv := hmove.inv h.inv
  have hcalled := h.called
  cases hmove with
  | setThreadNum =>
    rw [List.append_nil, List.append_nil]
    exact ⟨hinv, hcalled, h.known⟩
  | @start cb started hstarted hfresh =>
    obtain ⟨rfl, hnum⟩ := he
    have hloops := h.inv.notStarted hstarted
    rw [hstarted, if_neg Bool.false_ne_true] at hcalled
    refine ⟨hinv, ?_, fun loop hloop =>
      List.mem_append_left _ (h.known loop (by simpa using hloop))⟩
    rw [hcalled, List.nil_append, if_pos rfl, if_pos rfl, inUse, hloops, List.nil_append]
    obtain ⟨hlength, -, -⟩ := hfresh
    by_cases hzero : s.numThreads = 0
    · rw [hzero] at hlength
      rw [if_pos hzero, if_pos (List.length_eq_zero_iff.mp hlength)]
    · have hne : started ≠ [] := by
        rintro rfl
        rw [List.length_nil] at hlength
        omega
      rw [if_neg hzero, if_neg hne]
  | @getNextLoop loop hstarted hloop =>
    rw [hstarted, if_pos rfl] at hcalled
    rw [List.append_nil]
    refine ⟨hinv, hcalled.trans (if_pos hstarted).symm, fun x hx => ?_⟩
    cases List.mem_append.mp hx with
    | inl hold => exact h.known x hold
    | inr hnew =>
      rw [hcalled, List.mem_singleton.mp hnew]
      exact List.mem_of_getElem? hloop
  | @getLoopForHash hashCode loop hloop =>
    rw [List.append_nil]
    refine ⟨hinv, hcalled, fun x hx => ?_⟩
    cases List.mem_append.mp hx with
    | inl hold => exact h.known x hold
    | inr hnew =>
      split at hnew
      · rename_i hstarted
        rw [hcalled, if_pos hstarted, List.mem_singleton.mp hnew]
        exact hloop
      · cases hnew
  | getAllLoops hstarted =>
    rw [List.append_nil]
    refine ⟨hinv, hcalled, fun x hx => ?_⟩
    cases List.mem_append.mp hx with
    | inl hold => exact h.known x hold
    | inr hnew =>
      rw [hcalled, if_pos hstarted]
      exact hnew

end AcMuduo.EventLoopTheadPool
