import AcMuduo.TimerCancelRace
import Mathlib.Data.Fintype.Option

namespace AcMuduo.TimerLoop

open Machine TimerQueue

variable {T : Type}

def Adding.timer : Adding → Option Addr
  | .idle => none
  | .allocated p | .queued p | .done p => some p

/-- The step deletes no timer that an `add_timer` which has not returned works on. -/
def SparesAdded (s : State T) (e : Event T) : Prop :=
  ∀ who, ∀ p ∈ (s.adders who).timer,
    Throughout TimerQueue.step (fun q x => ¬ Deletes q x p) s.timers (timerEvents s e s)

/-- The timers are looked up, not enumerated. -/
instance [Fintype T] (s : State T) (e : Event T) : Decidable (SparesAdded s e) :=
  have (who : Option T) : Decidable (∀ p ∈ (s.adders who).timer,
      Throughout TimerQueue.step (fun q x => ¬ Deletes q x p) s.timers (timerEvents s e s)) :=
    Option.decidableForallMem _
  Fintype.decidableForallFintype

def NoNew (who : Option T) (e : Event T) : Prop := ∀ p x i, e ≠ .alloc who p x i

variable [DecidableEq T] {s t : State T} {e : Event T} {es : List (Event T)} {who : Option T}
  {p : Addr}

/-- When `add_timer` reads the sequence, the timer it has allocated exists, and the id it returns
is that of the timer. -/
def ReturnsItsTimer (c : Int) (es : List (Event T)) : Prop :=
  ∀ pre who p expiration interval mid post s u,
    es = pre ++ .alloc who p expiration interval :: (mid ++ .returnId who :: post) →
    (∀ e ∈ mid, NoNew who e) → run step (.init c) pre = .ok s →
    run step s (.alloc who p expiration interval :: mid) = .ok u → u.adders who = .done p →
    Alive u.timers ⟨p, s.timers.numCreated + 1⟩ ∧
      ∃ t, step u (.returnId who) = .ok t ∧
        returned u (.returnId who) t = [⟨p, s.timers.numCreated + 1⟩]

theorem setAdder_adders {a : Adding} {w : Option T} :
    (setAdder s w a).adders = Function.update s.adders w a := rfl

theorem timer_of_step (hnew : NoNew who e) (h : step s e = .ok t) (hp : p ∈ (t.adders who).timer) :
    p ∈ (s.adders who).timer := by
  have hupdate : ∀ w a, (∀ q ∈ a.timer, q ∈ (s.adders w).timer) →
      p ∈ (Function.update s.adders w a who).timer → p ∈ (s.adders who).timer := by
    intro w a ha hp
    by_cases hw : who = w
    · subst hw
      rw [Function.update_self] at hp
      exact ha p hp
    · rwa [Function.update_of_ne hw] at hp
  cases move_of_step h with
  | @alloc w q x i _ _ =>
    have hw : who ≠ w := by
      rintro rfl
      exact hnew q x i rfl
    rwa [setAdder_adders, Function.update_of_ne hw] at hp
  | addInLoop ha _ | queueAdd ha _ | wakeAdd ha _ =>
    exact hupdate _ _ (fun q hq => by rwa [ha]) hp
  | returnId _ _ => exact hupdate _ _ (fun q hq => by cases hq) hp
  | cancel _ | caller _ | loop _ | runAdd _ _ | runCancel _ _ | timer _ => exact hp

theorem alive_of_alloc {x : Int} {i : Seconds} (h : step s (.alloc who p x i) = .ok t) :
    Alive t.timers ⟨p, s.timers.numCreated + 1⟩ ∧ t.adders who = .allocated p := by
  cases move_of_step h with
  | alloc hq =>
    refine ⟨?_, by rw [setAdder_adders, Function.update_self]⟩
    simp only [TimerQueue.step] at hq
    split at hq
    · cases hq
      exact alive_iff.mpr ⟨_, Function.update_self _ _ _, rfl⟩
    · cases hq

def WorksOn (who : Option T) (id : TimerId) (s : State T) : Prop :=
  ∀ q ∈ (s.adders who).timer, q = id.timer ∧ Alive s.timers id

theorem worksOn_step {id : TimerId} (hs : Good s.timers) (hworks : WorksOn who id s)
    (hspares : SparesAdded s e) (hnew : NoNew who e) (h : step s e = .ok t) :
    WorksOn who id t := by
  intro q hq
  have hqs := timer_of_step hnew h hq
  obtain ⟨rfl, hid⟩ := hworks q hqs
  have hrun : run TimerQueue.step s.timers (timerEvents s e s) = .ok t.timers := step_timers h
  have hkeep : ∀ q x u, (Good q ∧ Alive q id) → ¬ Deletes q x id.timer →
      TimerQueue.step q x = .ok u → Good u ∧ Alive u id := by
    rintro q x u ⟨hq, hid⟩ hdel hu
    exact ⟨good_step hq hu, alive_of_not_deletes hq.inv hid hdel hu⟩
  exact ⟨rfl, (run_invariant_of hkeep ⟨hs, hid⟩ (hspares who id.timer hqs) hrun).2⟩

theorem worksOn_run {id : TimerId} {c : Int} {pre : List (Event T)}
    (hs : run step (.init c) pre = .ok s) (hworks : WorksOn who id s)
    (hspares : Throughout step SparesAdded s es) (hnew : ∀ e ∈ es, NoNew who e)
    (h : run step s es = .ok t) : WorksOn who id t := by
  have hstep : ∀ (a : State T) e b, (Good a.timers ∧ WorksOn who id a) →
      SparesAdded a e ∧ NoNew who e → step a e = .ok b → Good b.timers ∧ WorksOn who id b := by
    rintro a e b ⟨ha, hold⟩ ⟨hspare, hnone⟩ hab
    exact ⟨(good_run ha (step_timers hab)).1, worksOn_step ha hold hspare hnone hab⟩
  exact (run_invariant_of hstep ⟨run_good hs, hworks⟩
    (hspares.and (throughout_of_forall hnew)) h).2

theorem returned_of_alive {id : TimerId} (hid : Alive s.timers id)
    (hdone : s.adders who = .done id.timer) :
    ∃ t, step s (.returnId who) = .ok t ∧ returned s (.returnId who) t = [id] := by
  obtain ⟨x, hx, _⟩ := alive_iff.mp hid
  have hat : idAt s.timers id.timer = some id := hid
  refine ⟨setAdder s who .idle, ?_, ?_⟩
  · simp only [step, hdone, deref_eq hx]
    rfl
  · simp only [returned, hdone, hat]
    rfl

/-- If no timer is deleted while a call of `add_timer` works on it, each call returns the id of the
timer it has allocated. -/
theorem add_timer_returns_its_timer {c : Int} (hspares : Throughout step SparesAdded (.init c) es) :
    ReturnsItsTimer c es := by
  rintro pre who p x i mid post s u rfl hnew hs hu hdone
  obtain ⟨r, halloc, hmid⟩ := run_cons_ok.mp hu
  obtain ⟨hnumber, hallocated⟩ := alive_of_alloc halloc
  have hworks : WorksOn who ⟨p, s.timers.numCreated + 1⟩ r := by
    intro q hq
    rw [hallocated] at hq
    cases hq
    exact ⟨rfl, hnumber⟩
  have hrest := ((throughout_append.mp hspares).2 s hs).2 r halloc
  have hr := run_append_ok.mpr ⟨s, hs, run_singleton.trans halloc⟩
  have hend := worksOn_run hr hworks (throughout_append.mp hrest).1 hnew hmid
  obtain ⟨_, hid⟩ := hend p (by rw [hdone]; rfl)
  exact ⟨hid, returned_of_alive hid hdone⟩

def handedOver : List (Event Unit) :=
  [.loop .enter, .loop .resetQuit, .loop .test, .alloc (some ()) 16 100 .zero,
    .runInLoop (some ()), .loop (.poll [.other .other]), .loop .handle, .loop .doPendingFunctors,
    .loop .swap, .loop .call, .runTask, .loop .ret, .loop .finish, .loop .test]

def runsOnce : List (Event Unit) :=
  handedOver ++ [.timer (.tick 200), .loop (.poll [.other .timer]), .timer .handleRead,
    .timer .expire, .timer .call, .timer .ret, .timer .finish, .caller (some ()) .wake]

theorem add_timer_reads_deleted :
    run step (.init 0) (runsOnce ++ [.returnId (some ())]) = .error (.fault .useAfterFree) ∧
      ¬ ReturnsItsTimer 0 (runsOnce ++ [.returnId (some ())]) := by
  refine ⟨rfl, fun h => ?_⟩
  have hnew : ∀ e ∈ runsOnce.drop 4, NoNew (some ()) e := by
    intro e he p x i heq
    subst heq
    revert he
    simp [runsOnce, handedOver]
  have hid := h (runsOnce.take 3) (some ()) 16 100 .zero (runsOnce.drop 4) [] _ _ rfl hnew rfl
    rfl rfl
  exact absurd hid.1 (by decide)

theorem add_timer_returns_its_timer_handedOver :
    (∃ t, run step (.init 0) (handedOver ++ [.caller (some ()) .wake, .returnId (some ())]) =
      .ok t) ∧
    ReturnsItsTimer 0 (handedOver ++ [.caller (some ()) .wake, .returnId (some ())]) :=
  ⟨⟨_, rfl⟩, add_timer_returns_its_timer (by decide)⟩

end AcMuduo.TimerLoop
