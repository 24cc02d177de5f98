import AcMuduo.IntegerText
import AcMuduo.Fault

namespace AcMuduo.ThreadNames

open Machine LogStream

variable {T : Type} [DecidableEq T]

inductive Stage where
  | fresh
  | counted
  | named (name : List Byte)

def Stage.name : Stage → Option (List Byte)
  | .named name => some name
  | _ => none

/-- The counter is shared by all the threads, and wraps around. -/
structure State (T : Type) where
  numCreated : Int32
  stage : T → Stage

def State.init : State T := ⟨0, fun _ => .fresh⟩

inductive Event (T : Type) where
  | count (x : T)
  | setName (x : T)

def Event.isCount : Event T → Bool
  | .count _ => true
  | .setName _ => false

def defaultName (numCreated : Int32) : List Byte :=
  (bytes "thread" ++ convert numCreated.toInt).take 31

def nameOf (given : T → List Byte) (s : State T) (x : T) : List Byte :=
  if (given x).isEmpty then defaultName s.numCreated else given x

/-- Counting a thread is atomic, but the counter is read again for its name. -/
def step (given : T → List Byte) (s : State T) : Event T → Except (Stop Fault) (State T)
  | .count x =>
    match s.stage x with
    | .fresh => .ok ⟨s.numCreated + 1, Function.update s.stage x .counted⟩
    | _ => .error .disabled
  | .setName x =>
    match s.stage x with
    | .counted => .ok { s with stage := Function.update s.stage x (.named (nameOf given s x)) }
    | _ => .error .disabled

variable {given : T → List Byte} {s t u : State T} {e : Event T} {es : List (Event T)} {x y : T}

inductive Move (given : T → List Byte) (s : State T) : Event T → State T → Prop
  | count (x : T) (hx : s.stage x = .fresh) :
    Move given s (.count x) ⟨s.numCreated + 1, Function.update s.stage x .counted⟩
  | setName (x : T) (hx : s.stage x = .counted) :
    Move given s (.setName x)
      { s with stage := Function.update s.stage x (.named (nameOf given s x)) }

theorem move_of_step (h : step given s e = .ok t) : Move given s e t := by
  cases e with
  | count x =>
    cases hx : s.stage x with
    | fresh =>
      rw [step, hx] at h
      cases h
      exact .count x hx
    | counted | named => simp [step, hx] at h
  | setName x =>
    cases hx : s.stage x with
    | counted =>
      rw [step, hx] at h
      cases h
      exact .setName x hx
    | fresh | named => simp [step, hx] at h

theorem numCreated_of_run (h : run (step given) s es = .ok t) :
    t.numCreated = s.numCreated + Int32.ofNat (es.countP Event.isCount) := by
  induction es generalizing s with
  | nil =>
    cases h
    simp
  | cons e es ih =>
    obtain ⟨u, hu, hrun⟩ := run_cons_ok.mp h
    rw [ih hrun]
    cases move_of_step hu with
    | count x hx =>
      rw [List.countP_cons_of_pos (by rfl), Int32.ofNat_add, Int32.add_assoc]
      congr 1
      exact Int32.add_comm _ _
    | setName x hx => rw [List.countP_cons_of_neg Bool.false_ne_true]

theorem stage_of_run {name : List Byte} (hx : s.stage x = .named name)
    (h : run (step given) s es = .ok t) : t.stage x = .named name := by
  refine run_invariant (I := fun u : State T => u.stage x = .named name) ?_ hx h
  intro u e v hu hv
  cases move_of_step hv with
  | count y hy | setName y hy =>
    have hne : x ≠ y := by
      rintro rfl
      rw [hu] at hy
      cases hy
    rw [← hu]
    exact Function.update_of_ne hne _ _

theorem length_defaultName (n : Int32) : (bytes "thread" ++ convert n.toInt).length ≤ 31 := by
  have hlow := n.le_toInt
  have hhigh := n.toInt_lt
  have hdigits := decimal.length_written_le (n := n.toInt.natAbs) (k := 10) (by decide) (by decide)
    (by omega)
  have hsign : (if n.toInt < 0 then [minus] else ([] : List Byte)).length ≤ 1 := by
    split <;> decide
  rw [convert_eq_signed, Glyphs.signed, List.length_append, List.length_append]
  have hword : (bytes "thread").length = 6 := rfl
  omega

theorem defaultName_inj {m n : Int32} (h : defaultName m = defaultName n) : m = n := by
  rw [defaultName, defaultName, List.take_of_length_le (length_defaultName m),
    List.take_of_length_le (length_defaultName n), List.append_cancel_left_eq] at h
  have hvalue : ∀ z, decimal.signedValue minus (convert z) = z := fun z => by
    rw [convert_eq_signed, Glyphs.signedValue_signed (by decide) decimal_glyph_ne_minus]
  rw [← Int32.toInt_inj, ← hvalue m.toInt, h, hvalue]

theorem name_of_setName (hx : given x = []) (h : step given s (.setName x) = .ok t) :
    t.stage x = .named (defaultName s.numCreated) ∧ t.numCreated = s.numCreated := by
  cases move_of_step h with
  | setName x _ =>
    rw [nameOf, hx]
    exact ⟨Function.update_self _ _ _, rfl⟩

theorem ofNat_eq_zero_iff (n : Nat) : Int32.ofNat n = 0 ↔ 2 ^ 32 ∣ n := by
  have hvalue : (Int32.ofNat n).toBitVec.toNat = n % 2 ^ 32 := BitVec.toNat_ofNat n 32
  rw [Nat.dvd_iff_mod_eq_zero, ← hvalue, ← Int32.toBitVec_inj, ← BitVec.toNat_inj]
  rfl

/-- However the constructors are interleaved, two default names are the same exactly if between
them no thread has been counted, or the counter has gone all the way around. So a thread whose
construction begins when another one has its name gets a new name, if not too many are counted. -/
theorem default_names_eq_iff {pre mid post : List (Event T)} (hx : given x = [])
    (hy : given y = [])
    (ht : run (step given) State.init (pre ++ .setName x :: (mid ++ .setName y :: post)) = .ok t) :
    ((t.stage x).name = (t.stage y).name ↔ 2 ^ 32 ∣ mid.countP Event.isCount) ∧
      (.count y ∈ mid → mid.countP Event.isCount < 2 ^ 32 →
        (t.stage x).name ≠ (t.stage y).name) := by
  obtain ⟨s, -, hrun⟩ := run_append_ok.mp ht
  obtain ⟨s', hs', hrun⟩ := run_cons_ok.mp hrun
  obtain ⟨u, hu, hrun'⟩ := run_append_ok.mp hrun
  obtain ⟨u', hu', hpost⟩ := run_cons_ok.mp hrun'
  obtain ⟨hstage, hcreated⟩ := name_of_setName hx hs'
  obtain ⟨hstage', -⟩ := name_of_setName hy hu'
  have heq : (t.stage x).name = (t.stage y).name ↔ 2 ^ 32 ∣ mid.countP Event.isCount := by
    rw [stage_of_run hstage hrun, stage_of_run hstage' hpost, Stage.name, Stage.name,
      Option.some.injEq, numCreated_of_run hu, hcreated, ← ofNat_eq_zero_iff]
    constructor
    · intro h
      exact Int32.left_eq_add.mp (defaultName_inj h)
    · intro h
      rw [h, Int32.add_zero]
  refine ⟨heq, fun hlater hfew => ?_⟩
  have hpos : 0 < mid.countP Event.isCount := List.countP_pos_iff.mpr ⟨_, hlater, rfl⟩
  rw [Ne, heq]
  exact Nat.not_dvd_of_pos_of_lt hpos hfew

theorem default_names_eq_race : ∃ t : State Bool,
    run (step fun _ => []) State.init
      ([.count false, .count true] ++ .setName false :: ([] ++ .setName true :: [])) = .ok t ∧
    ((t.stage false).name = (t.stage true).name ↔
      2 ^ 32 ∣ ([] : List (Event Bool)).countP Event.isCount) := by
  obtain ⟨t, ht⟩ : ∃ t : State Bool, run (step fun _ => []) State.init
    ([.count false, .count true] ++ .setName false :: ([] ++ .setName true :: [])) = .ok t :=
    ⟨_, rfl⟩
  exact ⟨t, ht, (default_names_eq_iff rfl rfl ht).1⟩

end AcMuduo.ThreadNames
