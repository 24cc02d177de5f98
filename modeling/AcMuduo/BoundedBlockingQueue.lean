import AcMuduo.BoundedFifo
import AcMuduo.CondVar
import AcMuduo.Fault

namespace AcMuduo

/-- The operations of `boost::circular_buffer<T>`. There is no front in an empty one. -/
structure CircularBuffer (T C : Type) where
  make : Nat → C
  full : C → Bool
  empty : C → Bool
  size : C → Nat
  capacity : C → Nat
  front : C → Option T
  pushBack : C → T → C
  popFront : C → C

/-- What is documented of them, where `contents` are the elements from the oldest one on. An element
that is put in a full buffer overwrites the oldest one. -/
structure CircularBuffer.IsRing {T C : Type} (B : CircularBuffer T C) (contents : C → List T) :
    Prop where
  contents_make : ∀ n, contents (B.make n) = []
  capacity_make : ∀ n, B.capacity (B.make n) = n
  full_iff : ∀ c, B.full c = true ↔ (contents c).length = B.capacity c
  empty_iff : ∀ c, B.empty c = true ↔ contents c = []
  size_eq : ∀ c, B.size c = (contents c).length
  front_eq : ∀ c, B.front c = (contents c).head?
  contents_pushBack : ∀ c x, 0 < B.capacity c → contents (B.pushBack c x) =
    if (contents c).length < B.capacity c then contents c ++ [x] else (contents c).tail ++ [x]
  capacity_pushBack : ∀ c x, B.capacity (B.pushBack c x) = B.capacity c
  contents_popFront : ∀ c, contents c ≠ [] → contents (B.popFront c) = (contents c).tail
  capacity_popFront : ∀ c, B.capacity (B.popFront c) = B.capacity c

namespace BoundedBlockingQueue

open Machine BoundedFifo

inductive Thread (T : Type) where
  | outside
  | putting (x : T)
  | taking

structure State (C W T : Type) where
  queue : C
  notEmpty : CondVar W
  notFull : CondVar W
  threads : W → Thread T

/-- What the threads do next. `put` and `take` are the critical sections from the locking of the
mutex, `resumePut` and `resumeTake` those from the return of `wait`, where `woken` is the thread
that the `notify_one` in them wakes. `wakePut` and `wakeTake` are spurious. The other members leave
everything as it is, and `observe` is a call of one of them. -/
inductive Event (W T : Type) where
  | put (w : W) (x : T) (woken : Option W)
  | resumePut (w : W) (woken : Option W)
  | wakePut (w : W)
  | take (w : W) (woken : Option W)
  | resumeTake (w : W) (woken : Option W)
  | wakeTake (w : W)
  | observe (w : W)

variable {T C W : Type} [DecidableEq W] (B : CircularBuffer T C)

omit [DecidableEq W] in
def init (maxSize : Nat) : State C W T := ⟨B.make maxSize, .empty, .empty, fun _ => .outside⟩

def setThread (s : State C W T) (w : W) (p : Thread T) : State C W T :=
  { s with threads := Function.update s.threads w p }

/-- Both overloads of `put` from the test of the loop. They differ only in that one moves `x`. -/
def putSection (s : State C W T) (w : W) (x : T) (woken : Option W) :
    Except (Stop Fault) (State C W T) :=
  if B.full s.queue then .ok (setThread { s with notFull := s.notFull.wait w } w (.putting x))
  else do
    assert (!B.full s.queue)
    let notEmpty ← ofOption (s.notEmpty.notifyOne woken)
    .ok (setThread { s with queue := B.pushBack s.queue x, notEmpty := notEmpty } w .outside)

def takeSection (s : State C W T) (w : W) (woken : Option W) :
    Except (Stop Fault) (State C W T) :=
  if B.empty s.queue then .ok (setThread { s with notEmpty := s.notEmpty.wait w } w .taking)
  else do
    assert (!B.empty s.queue)
    match B.front s.queue with
    | none => .error (.fault .outOfBounds)
    | some _ =>
      let notFull ← ofOption (s.notFull.notifyOne woken)
      .ok (setThread { s with queue := B.popFront s.queue, notFull := notFull } w .outside)

def step (s : State C W T) : Event W T → Except (Stop Fault) (State C W T)
  | .put w x woken =>
    match s.threads w with
    | .outside => putSection B s w x woken
    | _ => .error .disabled
  | .resumePut w woken =>
    match s.threads w with
    | .putting x => do
      let notFull ← ofOption (s.notFull.leave w)
      putSection B { s with notFull := notFull } w x woken
    | _ => .error .disabled
  | .wakePut w => do
    let notFull ← ofOption (s.notFull.wake w)
    .ok { s with notFull := notFull }
  | .take w woken =>
    match s.threads w with
    | .outside => takeSection B s w woken
    | _ => .error .disabled
  | .resumeTake w woken =>
    match s.threads w with
    | .taking => do
      let notEmpty ← ofOption (s.notEmpty.leave w)
      takeSection B { s with notEmpty := notEmpty } w woken
    | _ => .error .disabled
  | .wakeTake w => do
    let notEmpty ← ofOption (s.notEmpty.wake w)
    .ok { s with notEmpty := notEmpty }
  | .observe w =>
    match s.threads w with
    | .outside => .ok s
    | _ => .error .disabled

omit [DecidableEq W] in
def empty (s : State C W T) : Bool := B.empty s.queue

omit [DecidableEq W] in
def full (s : State C W T) : Bool := B.full s.queue

omit [DecidableEq W] in
/-- The number is converted to the type of the result, which is `bool`. -/
def size (s : State C W T) : Bool := B.size s.queue != 0

omit [DecidableEq W] in
def capacity (s : State C W T) : Bool := B.capacity s.queue != 0

def putOp (queue : C) (x : T) : List (BoundedFifo.Op T) := if B.full queue then [] else [.put x]

def takeOp (queue : C) : List (BoundedFifo.Op T) := (B.front queue).toList.map .take

def ops (s : State C W T) : Event W T → List (BoundedFifo.Op T)
  | .put _ x _ => putOp B s.queue x
  | .resumePut w _ =>
    match s.threads w with
    | .putting x => putOp B s.queue x
    | _ => []
  | .take _ _ | .resumeTake _ _ => takeOp B s.queue
  | _ => []

/-- After a run from the empty queue: what has been put has been taken or is held, in the same
order, no more is held than fits, and the other members report what is held. -/
structure Reports (contents : C → List T) (maxSize : Nat) (es : List (Event W T))
    (s : State C W T) : Prop where
  conserves :
    (observe (step B) (fun s e _ => ops B s e) (init B maxSize) es).filterMap
        BoundedFifo.Op.takes ++ contents s.queue =
      (observe (step B) (fun s e _ => ops B s e) (init B maxSize) es).filterMap
        BoundedFifo.Op.puts
  length_le : (contents s.queue).length ≤ maxSize
  empty : empty B s = true ↔ contents s.queue = []
  full : full B s = true ↔ (contents s.queue).length = maxSize
  size : (size B s).toNat = (contents s.queue).length
  capacity : (capacity B s).toNat = maxSize

variable {B} {contents : C → List T} {maxSize : Nat} {s t : State C W T} {w : W} {x : T}
  {woken : Option W} {es : List (Event W T)}

def Safe {α : Type} (y : Except (Stop Fault) α) : Prop := y = .error .disabled ∨ ∃ t, y = .ok t

theorem safe_ok {α : Type} (a : α) : Safe (.ok a) := .inr ⟨a, rfl⟩

theorem safe_disabled {α : Type} : Safe (.error .disabled : Except (Stop Fault) α) := .inl rfl

theorem safe_ofOption_bind {α β : Type} {y : Option α} {f : α → Except (Stop Fault) β}
    (h : ∀ a, Safe (f a)) : Safe (ofOption y >>= f) := by
  cases y with
  | none => exact .inl rfl
  | some a => exact h a

theorem putSection_queue (h : putSection B s w x woken = .ok t) :
    (B.full s.queue = true ∧ t.queue = s.queue) ∨
      (B.full s.queue = false ∧ t.queue = B.pushBack s.queue x) := by
  rw [putSection] at h
  cases hfull : B.full s.queue with
  | true =>
    rw [if_pos hfull] at h
    cases h
    exact .inl ⟨rfl, rfl⟩
  | false =>
    rw [if_neg (by simp [hfull])] at h
    obtain ⟨_, _, h⟩ := bind_eq_ok.mp h
    obtain ⟨_, _, h⟩ := bind_eq_ok.mp h
    cases h
    exact .inr ⟨rfl, rfl⟩

theorem takeSection_queue (h : takeSection B s w woken = .ok t) :
    (B.empty s.queue = true ∧ t.queue = s.queue) ∨
      (B.empty s.queue = false ∧ t.queue = B.popFront s.queue) := by
  rw [takeSection] at h
  cases hempty : B.empty s.queue with
  | true =>
    rw [if_pos hempty] at h
    cases h
    exact .inl ⟨rfl, rfl⟩
  | false =>
    rw [if_neg (by simp [hempty])] at h
    obtain ⟨_, _, h⟩ := bind_eq_ok.mp h
    cases hfront : B.front s.queue with
    | none =>
      rw [hfront] at h
      cases h
    | some x =>
      rw [hfront] at h
      obtain ⟨_, _, h⟩ := bind_eq_ok.mp h
      cases h
      exact .inr ⟨rfl, rfl⟩

theorem putSection_safe (B : CircularBuffer T C) (s : State C W T) (w : W) (x : T)
    (woken : Option W) : Safe (putSection B s w x woken) := by
  rw [putSection]
  cases hfull : B.full s.queue with
  | true => exact safe_ok _
  | false =>
    rw [if_neg Bool.false_ne_true]
    exact safe_ofOption_bind fun _ => safe_ok _

theorem takeSection_safe (hB : B.IsRing contents) (s : State C W T) (w : W) (woken : Option W) :
    Safe (takeSection B s w woken) := by
  rw [takeSection]
  cases hempty : B.empty s.queue with
  | true => exact safe_ok _
  | false =>
    rw [if_neg Bool.false_ne_true, hB.front_eq]
    cases hcontents : contents s.queue with
    | nil =>
      rw [(hB.empty_iff _).mpr hcontents] at hempty
      cases hempty
    | cons x q => exact safe_ofOption_bind fun _ => safe_ok _

theorem step_safe (hB : B.IsRing contents) (s : State C W T) (e : Event W T) :
    Safe (step B s e) := by
  cases e with
  | put w x woken =>
    rw [step]
    split
    · exact putSection_safe B s w x woken
    · exact safe_disabled
  | resumePut w woken =>
    rw [step]
    split
    · exact safe_ofOption_bind fun _ => putSection_safe B _ w _ woken
    · exact safe_disabled
  | take w woken =>
    rw [step]
    split
    · exact takeSection_safe hB s w woken
    · exact safe_disabled
  | resumeTake w woken =>
    rw [step]
    split
    · exact safe_ofOption_bind fun _ => takeSection_safe hB _ w woken
    · exact safe_disabled
  | wakePut w | wakeTake w => exact safe_ofOption_bind fun _ => safe_ok _
  | observe w =>
    rw [step]
    split
    · exact safe_ok s
    · exact safe_disabled

theorem run_is_safe (hB : B.IsRing contents) (maxSize : Nat) (es : List (Event W T)) :
    Safe (run (step B) (init B maxSize) es) := by
  have hstep : ∀ (s : State C W T) (e : Event W T), True →
      step B s e = .error .disabled ∨ ∃ t, step B s e = .ok t ∧ True :=
    fun s e _ => (step_safe hB s e).imp id fun ⟨t, ht⟩ => ⟨t, ht, trivial⟩
  exact (run_safe hstep trivial es).imp id fun ⟨t, ht, _⟩ => ⟨t, ht⟩

theorem toNat_ne_zero (n : Nat) : (n != 0).toNat = n ↔ n ≤ 1 := by
  cases n with
  | zero => decide
  | succ n =>
    have hne : (n + 1 != 0) = true := bne_iff_ne.mpr n.succ_ne_zero
    rw [hne, Bool.toNat_true]
    omega

def Correct (B : CircularBuffer T C) (contents : C → List T) (maxSize : Nat)
    (h : List (BoundedFifo.Op T)) (queue : C) : Prop :=
  B.capacity queue = maxSize ∧ Holds maxSize h (contents queue)

section

variable (hB : B.IsRing contents) {h : List (BoundedFifo.Op T)} {queue queue' : C}
include hB

theorem put_correct (hmax : 1 ≤ maxSize) (hcorrect : Correct B contents maxSize h queue)
    (hput : (B.full queue = true ∧ queue' = queue) ∨
      (B.full queue = false ∧ queue' = B.pushBack queue x)) :
    Correct B contents maxSize (h ++ putOp B queue x) queue' := by
  obtain ⟨hcapacity, hholds⟩ := hcorrect
  cases hput with
  | inl hwait =>
    obtain ⟨hfull, rfl⟩ := hwait
    rw [putOp, if_pos hfull, List.append_nil]
    exact ⟨hcapacity, hholds⟩
  | inr hpush =>
    obtain ⟨hfull, rfl⟩ := hpush
    have hne : (contents queue).length ≠ maxSize := by
      rw [← hcapacity]
      intro heq
      rw [(hB.full_iff queue).mpr heq] at hfull
      cases hfull
    have hlt : (contents queue).length < maxSize := Nat.lt_of_le_of_ne hholds.length_le hne
    rw [putOp, if_neg (by simp [hfull])]
    refine ⟨(hB.capacity_pushBack queue x).trans hcapacity, ?_⟩
    rw [hB.contents_pushBack queue x (by omega), if_pos (hcapacity ▸ hlt)]
    exact hholds.put x hlt

theorem take_correct (hcorrect : Correct B contents maxSize h queue)
    (htake : (B.empty queue = true ∧ queue' = queue) ∨
      (B.empty queue = false ∧ queue' = B.popFront queue)) :
    Correct B contents maxSize (h ++ takeOp B queue) queue' := by
  obtain ⟨hcapacity, hholds⟩ := hcorrect
  rw [takeOp, hB.front_eq]
  cases htake with
  | inl hwait =>
    obtain ⟨hempty, rfl⟩ := hwait
    rw [(hB.empty_iff _).mp hempty]
    exact ⟨hcapacity, (List.append_nil h).symm ▸ hholds⟩
  | inr hpop =>
    obtain ⟨hempty, rfl⟩ := hpop
    have hne : contents queue ≠ [] := by
      intro heq
      rw [(hB.empty_iff queue).mpr heq] at hempty
      cases hempty
    refine ⟨(hB.capacity_popFront queue).trans hcapacity, ?_⟩
    rw [hB.contents_popFront queue hne]
    cases hcontents : contents queue with
    | nil => exact absurd hcontents hne
    | cons x q => exact (hcontents ▸ hholds).take

theorem step_correct (hmax : 1 ≤ maxSize) {e : Event W T}
    (hcorrect : Correct B contents maxSize h s.queue) (hstep : step B s e = .ok t) :
    Correct B contents maxSize (h ++ ops B s e) t.queue := by
  cases e with
  | put w x woken =>
    rw [step] at hstep
    split at hstep
    next => exact put_correct hB hmax hcorrect (putSection_queue hstep)
    next => cases hstep
  | resumePut w woken =>
    rw [step] at hstep
    rw [ops]
    cases hthread : s.threads w with
    | putting x =>
      rw [hthread] at hstep
      obtain ⟨_, _, hstep⟩ := bind_eq_ok.mp hstep
      have hqueue := putSection_queue hstep
      exact put_correct hB hmax hcorrect hqueue
    | _ =>
      rw [hthread] at hstep
      cases hstep
  | take w woken =>
    rw [step] at hstep
    split at hstep
    next => exact take_correct hB hcorrect (takeSection_queue hstep)
    next => cases hstep
  | resumeTake w woken =>
    rw [step] at hstep
    split at hstep
    next =>
      obtain ⟨_, _, hstep⟩ := bind_eq_ok.mp hstep
      have hqueue := takeSection_queue hstep
      exact take_correct hB hcorrect hqueue
    next => cases hstep
  | wakePut w | wakeTake w =>
    obtain ⟨_, _, hstep⟩ := bind_eq_ok.mp hstep
    cases hstep
    exact (List.append_nil h).symm ▸ hcorrect
  | observe w =>
    rw [step] at hstep
    split at hstep
    next =>
      cases hstep
      exact (List.append_nil h).symm ▸ hcorrect
    next => cases hstep

theorem run_correct (hmax : 1 ≤ maxSize) (hrun : run (step B) (init B maxSize) es = .ok s) :
    Correct B contents maxSize
      (Machine.observe (step B) (fun s e _ => ops B s e) (init B maxSize) es) s.queue := by
  have hinit : Correct B contents maxSize [] (init B maxSize : State C W T).queue := by
    refine ⟨hB.capacity_make maxSize, ?_⟩
    rw [init, hB.contents_make]
    exact .nothing
  exact run_observed (I := fun h s => Correct B contents maxSize h s.queue)
    (fun h s e t hcorrect _ hstep => step_correct hB hmax hcorrect hstep) hinit throughout_true hrun

theorem run_size (hmax : 1 ≤ maxSize) (hrun : run (step B) (init B maxSize) es = .ok s) :
    (empty B s = true ↔ contents s.queue = []) ∧
    (full B s = true ↔ (contents s.queue).length = maxSize) ∧
    ((size B s).toNat = (contents s.queue).length ↔ (contents s.queue).length ≤ 1) ∧
    ((capacity B s).toNat = maxSize ↔ maxSize ≤ 1) := by
  obtain ⟨hcapacity, -⟩ := run_correct hB hmax hrun
  refine ⟨hB.empty_iff _, ?_, ?_, ?_⟩
  · rw [full, hB.full_iff, hcapacity]
  · rw [size, hB.size_eq]
    exact toNat_ne_zero _
  · rw [capacity, hcapacity]
    exact toNat_ne_zero maxSize

/-- After every run the members report what is held exactly if there is the space of one element. -/
theorem reports_iff (hmax : 1 ≤ maxSize) (hrun : run (step B) (init B maxSize) es = .ok s) :
    Reports B contents maxSize es s ↔ maxSize = 1 := by
  obtain ⟨-, hholds⟩ := run_correct hB hmax hrun
  obtain ⟨hempty, hfull, hsize, hcapacity⟩ := run_size hB hmax hrun
  have hle := hholds.length_le
  constructor
  · intro h
    have hone := hcapacity.mp h.capacity
    omega
  · intro hone
    exact ⟨hholds.conserves, hle, hempty, hfull, hsize.mpr (by omega), hcapacity.mpr (by omega)⟩

end

structure ListRing (T : Type) where
  capacity : Nat
  elements : List T

def listRing (T : Type) : CircularBuffer T (ListRing T) where
  make n := ⟨n, []⟩
  full c := c.elements.length == c.capacity
  empty c := c.elements.isEmpty
  size c := c.elements.length
  capacity := ListRing.capacity
  front c := c.elements.head?
  pushBack c x := { c with
    elements := if c.elements.length < c.capacity then c.elements ++ [x]
      else c.elements.tail ++ [x] }
  popFront c := { c with elements := c.elements.tail }

theorem listRing_isRing (T : Type) : (listRing T).IsRing ListRing.elements where
  contents_make _ := rfl
  capacity_make _ := rfl
  full_iff _ := beq_iff_eq
  empty_iff _ := List.isEmpty_iff
  size_eq _ := rfl
  front_eq _ := rfl
  contents_pushBack _ _ _ := rfl
  capacity_pushBack _ _ := rfl
  contents_popFront _ _ := rfl
  capacity_popFront _ := rfl

def handOver : List (Event Bool Nat) := [.take true none, .put false 7 (some true)]

theorem reports_iff_handOver : ∃ s,
    run (step (listRing Nat)) (init (listRing Nat) 1) handOver = .ok s ∧
      (Reports (listRing Nat) ListRing.elements 1 handOver s ↔ 1 = 1) :=
  ⟨_, rfl, reports_iff (listRing_isRing Nat) (Nat.le_refl 1) rfl⟩

/-- With two elements in a queue for two, both numbers are reported as 1. -/
theorem reports_one : ∃ s, run (step (listRing Nat)) (init (listRing Nat) 2)
      [.put false 7 none, .put false 8 none] = .ok s ∧ s.queue.elements = [7, 8] ∧
    (size (listRing Nat) s).toNat = 1 ∧ (capacity (listRing Nat) s).toNat = 1 ∧
    ¬ Reports (listRing Nat) ListRing.elements 2 [.put false 7 none, .put false 8 none] s :=
  ⟨_, rfl, rfl, rfl, rfl, fun h => absurd h.capacity (by decide)⟩

end BoundedBlockingQueue

end AcMuduo
