import AcMuduo.CInt
import AcMuduo.CondVar
import AcMuduo.Machine

namespace AcMuduo.CountDownLatch

open Machine

/-- `count_` has no value below that of the smallest `int`. -/
inductive Overflow where
  | overflow

structure State (W : Type) where
  count : Int
  condition : CondVar W

/-- `wait` and `countDown` are the critical sections, `resume` is the one of `wait` from the return
of the inner `wait`, and `wake` is spurious. `getCount` leaves everything as it is. -/
inductive Event (W : Type) where
  | wait (w : W)
  | resume (w : W)
  | wake (w : W)
  | countDown (w : W)
  | getCount (w : W)

variable {W : Type}

def State.init (count : Int) : State W := ⟨count, .empty⟩

def waitSection (s : State W) (w : W) : State W :=
  if 0 < s.count then { s with condition := s.condition.wait w } else s

variable [DecidableEq W]

def outside (s : State W) (w : W) : Except (Stop Overflow) Unit :=
  if w ∈ s.condition.sleepers then .error .disabled else .ok ()

def step (s : State W) : Event W → Except (Stop Overflow) (State W)
  | .wait w => do
    outside s w
    .ok (waitSection s w)
  | .resume w => do
    let condition ← ofOption (s.condition.leave w)
    .ok (waitSection { s with condition := condition } w)
  | .wake w => do
    let condition ← ofOption (s.condition.wake w)
    .ok { s with condition := condition }
  | .countDown w => do
    outside s w
    match CInt.sub s.count 1 with
    | none => .error (.fault .overflow)
    | some count =>
      .ok { count := count, condition := if count = 0 then s.condition.notifyAll else s.condition }
  | .getCount w => do
    outside s w
    .ok s

def returned (s : State W) (e : Event W) (_ : State W) : List W :=
  match e with
  | .wait w | .resume w => if 0 < s.count then [] else [w]
  | _ => []

def Event.countsDown : Event W → Bool
  | .countDown _ => true
  | _ => false

def countDowns (es : List (Event W)) : Nat := es.countP Event.countsDown

variable {s t : State W} {e : Event W} {n : Int}

inductive Move (s : State W) : Event W → State W → Prop where
  | wait {w} : Move s (.wait w) (waitSection s w)
  | resume {w c} (hleave : s.condition.leave w = some c) :
    Move s (.resume w) (waitSection { s with condition := c } w)
  | wake {w c} (hwake : s.condition.wake w = some c) : Move s (.wake w) { s with condition := c }
  | last {w} (hcount : s.count = 1) : Move s (.countDown w) ⟨0, s.condition.notifyAll⟩
  | countDown {w} (hcount : s.count ≠ 1) : Move s (.countDown w) ⟨s.count - 1, s.condition⟩
  | getCount {w} : Move s (.getCount w) s

theorem outside_cases (s : State W) (w : W) :
    outside s w = .error .disabled ∨ outside s w = .ok () := by
  rw [outside]
  split
  · exact .inl rfl
  · exact .inr rfl

theorem step_move (s : State W) (e : Event W) (hhigh : s.count ≤ 2147483647)
    (hlow : e.countsDown = true → -2147483648 < s.count) :
    step s e = .error .disabled ∨ ∃ t, step s e = .ok t ∧ Move s e t := by
  cases e with
  | wait w =>
    apply bind_move
    exact (outside_cases s w).imp_right fun h => ⟨(), h, .inr ⟨_, rfl, .wait⟩⟩
  | resume w =>
    exact ofOption_bind_move fun c hleave => .inr ⟨_, rfl, .resume hleave⟩
  | wake w =>
    exact ofOption_bind_move fun c hwake => .inr ⟨_, rfl, .wake hwake⟩
  | countDown w =>
    apply bind_move
    refine (outside_cases s w).imp_right fun h => ⟨(), h, .inr ?_⟩
    have hroom := hlow rfl
    rw [CInt.sub_eq (by omega) (by omega)]
    by_cases hcount : s.count = 1
    · refine ⟨_, rfl, ?_⟩
      simpa [hcount] using Move.last (w := w) hcount
    · refine ⟨_, rfl, ?_⟩
      have hne : s.count - 1 ≠ 0 := by omega
      simpa [hne] using Move.countDown (w := w) hcount
  | getCount w =>
    apply bind_move
    exact (outside_cases s w).imp_right fun h => ⟨(), h, .inr ⟨_, rfl, .getCount⟩⟩

/-- Nobody waits un-notified once the count is down. -/
def Inv (s : State W) : Prop := s.count ≤ 0 → s.condition.waiting = []

omit [DecidableEq W] in
theorem inv_waitSection (h : Inv s) (w : W) : Inv (waitSection s w) := by
  intro hcount
  rw [waitSection] at hcount ⊢
  split at hcount
  · rename_i hpos
    exact absurd hcount (Int.not_le.mpr hpos)
  · rename_i hpos
    rw [if_neg hpos]
    exact h hcount

omit [DecidableEq W] in
@[simp] theorem waitSection_count (s : State W) (w : W) : (waitSection s w).count = s.count := by
  rw [waitSection]
  split <;> rfl

theorem Move.count (h : Move s e t) :
    t.count = s.count - if e.countsDown then 1 else 0 := by
  cases h with
  | last hcount => simp [Event.countsDown, hcount]
  | wait | resume _ | wake _ | countDown _ | getCount => simp [Event.countsDown]

theorem Move.inv (h : Move s e t) (hs : Inv s) : Inv t := by
  cases h with
  | wait => exact inv_waitSection hs _
  | resume hleave =>
    apply inv_waitSection
    intro hcount
    exact (CondVar.leave_length hleave).1.trans (hs hcount)
  | wake hwake =>
    intro hcount
    exact absurd (hs hcount) (CondVar.wake_waiting hwake)
  | last _ => exact fun _ => rfl
  | countDown hcount =>
    intro hlow
    exact hs (by dsimp only at hlow; omega)
  | getCount => exact hs

omit [DecidableEq W] in
theorem returned_eq_nil (h : 0 < s.count) (e : Event W) (t : State W) : returned s e t = [] := by
  cases e with
  | wait w | resume w => exact if_pos h
  | wake w | countDown w | getCount w => rfl

omit [DecidableEq W] in
theorem countDowns_cons (e : Event W) (es : List (Event W)) :
    (countDowns (e :: es) : Int) = countDowns es + if e.countsDown then 1 else 0 := by
  rw [countDowns, List.countP_cons, countDowns]
  split <;> simp

theorem run_counts (es : List (Event W)) (hs : Inv s) (hhigh : s.count ≤ 2147483647)
    (hlow : -2147483648 ≤ s.count - countDowns es) : run step s es = .error .disabled ∨
    ∃ t, run step s es = .ok t ∧ Inv t ∧ t.count = s.count - countDowns es ∧
      (0 < t.count → observe step returned s es = []) := by
  induction es generalizing s with
  | nil => exact .inr ⟨s, rfl, hs, (Int.sub_zero _).symm, fun _ => rfl⟩
  | cons e es ih =>
    rw [countDowns_cons] at hlow
    have hroom : e.countsDown = true → -2147483648 < s.count := by
      intro hcounts
      rw [if_pos hcounts] at hlow
      omega
    obtain hdisabled | ⟨u, hu, hmove⟩ := step_move s e hhigh hroom
    · exact .inl (by rw [run_cons, hdisabled]; rfl)
    have hcount := hmove.count
    have hle : u.count ≤ s.count := by
      rw [hcount]
      split <;> omega
    obtain hdisabled | ⟨t, ht, hinv, htcount, hnone⟩ :=
      ih (hmove.inv hs) (by omega) (by omega)
    · exact .inl (by rw [run_cons, hu]; exact hdisabled)
    refine .inr ⟨t, run_cons_ok.mpr ⟨u, hu, ht⟩, hinv, ?_, fun hpos => ?_⟩
    · rw [htcount, hcount, countDowns_cons]
      omega
    · have hspos : 0 < s.count := by omega
      rw [observe_cons hu, returned_eq_nil hspos, hnone hpos]
      rfl

theorem run_resumes {ws : List W} (hcount : s.count ≤ 0) (hs : Inv s)
    (hws : ws.Perm s.condition.awake) : ∃ t, run step s (ws.map .resume) = .ok t ∧
      t.condition.sleepers = [] ∧ observe step returned s (ws.map .resume) = ws := by
  induction ws generalizing s with
  | nil =>
    refine ⟨s, rfl, ?_, rfl⟩
    rw [CondVar.sleepers, List.append_assoc, hs hcount]
    exact hws.nil_eq.symm
  | cons w ws ih =>
    obtain ⟨c, hleave, hsame, hperm⟩ := CondVar.exists_leave (hws.mem_iff.mp List.mem_cons_self)
    have hone : step s (.resume w) = .ok { s with condition := c } := by
      simp only [step, hleave, ofOption, bind, Except.bind, waitSection]
      rw [if_neg (Int.not_lt.mpr hcount)]
    have hinv : Inv { s with condition := c } := fun _ => hsame.trans (hs hcount)
    obtain ⟨t, hrun, hend, hreturned⟩ :=
      ih (s := { s with condition := c }) hcount hinv (hws.trans hperm.symm).cons_inv
    refine ⟨t, run_cons_ok.mpr ⟨_, hone, hrun⟩, hend, ?_⟩
    have hfirst : returned s (.resume w) { s with condition := c } = [w] :=
      if_neg (Int.not_lt.mpr hcount)
    rw [List.map_cons, observe_cons hone, hreturned, hfirst]
    rfl

/-- A latch for `n` calls of `count_down`, with any number of threads in any order, as long as
`count_` stays an `int`: before the call number `n` no thread has returned from `wait`, and from it
on no thread waits un-notified, and those in `wait` return when they get the mutex back. -/
theorem opens_when_counted (es : List (Event W)) (hn : n ≤ 2147483647)
    (hes : -2147483648 ≤ n - countDowns es) : run step (.init n) es = .error .disabled ∨
    ∃ s, run step (.init n) es = .ok s ∧ s.count = n - countDowns es ∧
      (countDowns es < n → observe step returned (.init n) es = []) ∧
      (n ≤ countDowns es → s.condition.waiting = [] ∧
        ∀ ws : List W, ws.Perm s.condition.awake → ∃ t, run step s (ws.map .resume) = .ok t ∧
          t.condition.sleepers = [] ∧ observe step returned s (ws.map .resume) = ws) := by
  have hinit : Inv (.init n : State W) := fun _ => rfl
  obtain hdisabled | ⟨s, hrun, hinv, hcount, hnone⟩ := run_counts es hinit hn hes
  · exact .inl hdisabled
  have hstart : s.count = n - countDowns es := hcount
  refine .inr ⟨s, hrun, hcount, fun hlt => hnone (by omega), fun hle => ⟨hinv (by omega), ?_⟩⟩
  intro ws hws
  exact run_resumes (by omega) hinv hws

theorem opens_when_counted_two : ∃ s : State Nat,
    run step (.init 2) [.wait 0, .countDown 1, .wake 0, .resume 0, .countDown 2, .wait 3] = .ok s ∧
    s.condition.waiting = [] := by
  obtain hdisabled | ⟨s, hrun, -, -, hopen⟩ := opens_when_counted (n := 2)
    [.wait 0, .countDown 1, .wake 0, .resume 0, .countDown 2, .wait (3 : Nat)]
    (by decide) (by decide)
  · cases hdisabled
  · exact ⟨s, hrun, (hopen (by decide)).1⟩

end AcMuduo.CountDownLatch
