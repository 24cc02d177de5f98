import AcMuduo.FixedBuffer

namespace AcMuduo.FileUtils

/-- What a call of `fwrite_unlocked` returns, and what `ferror` says after it. -/
structure Result where
  count : Nat
  error : Bool

/-- An `append_file` with the bytes that `stdio` has accepted for it. -/
structure AppendFile where
  accepted : List Byte
  writtenBytes : Int

namespace AppendFile

def write (f : AppendFile) (logline : List Byte) (r : Result) : AppendFile × Nat :=
  ({ f with accepted := f.accepted ++ logline.take r.count }, r.count)

def append.loop (results : Nat → Result) (logline : List Byte) :
    Nat → Nat → Nat → AppendFile → Option (AppendFile × Nat)
  | 0, _, _, _ => none
  | fuel + 1, k, written, f =>
    if written ≠ logline.length then
      let remain := logline.length - written
      let (f, n) := f.write (logline.drop written) (results k)
      if n ≠ remain ∧ (results k).error then some (f, written)
      else append.loop results logline fuel (k + 1) (written + n) f
    else some (f, written)

/-- Each round but the last one writes at least one byte. -/
def append (results : Nat → Result) (f : AppendFile) (logline : List Byte) : Option AppendFile := do
  let (f, written) ← append.loop results logline (logline.length + 1) 0 0 f
  some { f with writtenBytes := f.writtenBytes + written }

section

variable (results : Nat → Result)

def taken : Nat → Nat
  | 0 => 0
  | k + 1 => taken k + (results k).count

/-- A call that is made for the rest of a record of `len` bytes comes back short, with an error. -/
def Fails (len k : Nat) : Prop :=
  taken results k < len ∧ (results k).count ≠ len - taken results k ∧ (results k).error = true

def FirstFails (len k : Nat) : Prop := Fails results len k ∧ ∀ i < k, ¬ Fails results len i

/-- Each call that is made accepts no more bytes than it is given, and none only with an error. -/
def Possible (len : Nat) : Prop :=
  ∀ k, taken results k < len → (∀ i < k, ¬ Fails results len i) →
    (results k).count ≤ len - taken results k ∧
      ((results k).count = 0 → (results k).error = true)

end

variable {results : Nat → Result} {f : AppendFile} {logline : List Byte} {k j len fuel : Nat}

theorem taken_mono (h : k ≤ j) : taken results k ≤ taken results j := by
  induction h with
  | refl => exact Nat.le_refl _
  | step _ ih => exact Nat.le_trans ih (Nat.le_add_right _ _)

inductive Ends (results : Nat → Result) (logline : List Byte) (f : AppendFile) :
    AppendFile × Nat → Prop where
  | whole (j : Nat) (hj : taken results j = logline.length)
    (hnone : ∀ i < j, ¬ Fails results logline.length i) :
    Ends results logline f ({ f with accepted := f.accepted ++ logline }, logline.length)
  | fails (j : Nat) (hj : FirstFails results logline.length j) :
    Ends results logline f
      ({ f with accepted := f.accepted ++ logline.take (taken results (j + 1)) }, taken results j)

theorem loop_ends (hpossible : Possible results logline.length)
    (hnone : ∀ i < k, ¬ Fails results logline.length i)
    (hle : taken results k ≤ logline.length) (hfuel : logline.length - taken results k < fuel) :
    ∃ r, append.loop results logline fuel k (taken results k)
      { f with accepted := f.accepted ++ logline.take (taken results k) } = some r ∧
      Ends results logline f r := by
  induction fuel generalizing k with
  | zero => omega
  | succ fuel ih =>
    rw [append.loop]
    by_cases hwritten : taken results k = logline.length
    · refine ⟨_, if_neg (not_not.mpr hwritten), ?_⟩
      rw [hwritten, List.take_length]
      exact .whole k hwritten hnone
    · have hlt : taken results k < logline.length := by omega
      obtain ⟨hcount, herror⟩ := hpossible k hlt hnone
      have hwrite : ({ f with accepted := f.accepted ++ logline.take (taken results k) } :
          AppendFile).write (logline.drop (taken results k)) (results k) =
          ({ f with accepted := f.accepted ++ logline.take (taken results (k + 1)) },
            (results k).count) := by
        rw [write, List.append_assoc, ← List.take_add]
        rfl
      simp only [if_pos hwritten, hwrite]
      by_cases hfails : Fails results logline.length k
      · refine ⟨_, if_pos hfails.2, .fails k ⟨hfails, hnone⟩⟩
      · rw [if_neg fun h => hfails ⟨hlt, h⟩]
        have hpos : 0 < (results k).count := by
          by_contra hzero
          have hcount0 : (results k).count = 0 := by omega
          exact hfails ⟨hlt, by omega, herror hcount0⟩
        refine ih (k := k + 1) (fun i hi => ?_) ?_ ?_
        · cases Nat.lt_succ_iff_lt_or_eq.mp hi with
          | inl hi => exact hnone i hi
          | inr heq => exact heq ▸ hfails
        · rw [taken]
          omega
        · rw [taken]
          omega

theorem append_ends (f : AppendFile) (hpossible : Possible results logline.length) :
    ∃ r, append results f logline =
      some { r.1 with writtenBytes := r.1.writtenBytes + r.2 } ∧ Ends results logline f r := by
  have hnone : ∀ i < 0, ¬ Fails results logline.length i := fun i hi => absurd hi i.not_lt_zero
  obtain ⟨r, hr, hends⟩ := loop_ends (f := f) hpossible hnone (Nat.zero_le _) (Nat.lt_succ_self _)
  refine ⟨r, ?_, hends⟩
  rw [taken, List.take_zero, List.append_nil] at hr
  have hloop : append.loop results logline (logline.length + 1) 0 0 f = some r := hr
  rw [append, hloop]
  rfl

theorem FirstFails.unique (h : FirstFails results len j) (h' : FirstFails results len k) :
    k = j := by
  rcases Nat.lt_trichotomy k j with hlt | heq | hgt
  · exact absurd h'.1 (h.2 k hlt)
  · exact heq
  · exact absurd h.1 (h'.2 j hgt)

/-- The call returns, and leaves the beginning of the record, all of it if no call fails. The bytes
are counted right exactly if the call that fails, if there is one, accepts none. -/
theorem append_counts_iff (f : AppendFile) (hpossible : Possible results logline.length) :
    ∃ f', append results f logline = some f' ∧ ∃ n ≤ logline.length,
      f'.accepted = f.accepted ++ logline.take n ∧
      ((∀ k, ¬ Fails results logline.length k) → n = logline.length) ∧
      (f'.writtenBytes = f.writtenBytes + n ↔
        ∀ k, FirstFails results logline.length k → (results k).count = 0) := by
  obtain ⟨r, hr, hends⟩ := append_ends f hpossible
  refine ⟨_, hr, ?_⟩
  cases hends with
  | whole j hj hnone =>
    refine ⟨logline.length, Nat.le_refl _, by rw [List.take_length], fun _ => rfl,
      iff_of_true rfl fun k hk => ?_⟩
    have hkj : j ≤ k := Nat.not_lt.mp fun hlt => hnone k hlt hk.1
    have hmono : taken results j ≤ taken results k := taken_mono hkj
    have hlt := hk.1.1
    omega
  | fails j hj =>
    refine ⟨taken results (j + 1), ?_, rfl, fun hnone => absurd hj.1 (hnone j), ?_⟩
    · have hcount := (hpossible j hj.1.1 hj.2).1
      have hlt := hj.1.1
      rw [taken]
      omega
    · have hsum : taken results (j + 1) = taken results j + (results j).count := rfl
      constructor
      · intro heq k hk
        cases hj.unique hk
        simp only [hsum] at heq
        omega
      · intro hzero
        have hzero' := hzero j hj
        simp only [hsum, hzero', Nat.add_zero]

theorem append_of_no_error (f : AppendFile) (hpossible : Possible results logline.length)
    (herror : ∀ k, (results k).error = false) : append results f logline =
      some ⟨f.accepted ++ logline, f.writtenBytes + logline.length⟩ := by
  obtain ⟨r, hr, hends⟩ := append_ends f hpossible
  cases hends with
  | whole => exact hr
  | fails j hj => simpa [herror j] using hj.1.2.2

def diskFull : Nat → Result
  | 0 => ⟨4, true⟩
  | _ + 1 => ⟨0, true⟩

def abcdef : List Byte := [97, 98, 99, 100, 101, 102]

theorem diskFull_possible : Possible diskFull abcdef.length := by
  intro k hlt hnone
  cases k with
  | zero => exact ⟨by decide, by decide⟩
  | succ k => exact ⟨Nat.zero_le _, fun _ => rfl⟩

theorem append_counts_iff_diskFull : ∃ f', append diskFull ⟨[], 0⟩ abcdef = some f' ∧ ∃ n ≤ 6,
    f'.accepted = [] ++ abcdef.take n ∧
    ((∀ k, ¬ Fails diskFull 6 k) → n = 6) ∧
    (f'.writtenBytes = 0 + n ↔ ∀ k, FirstFails diskFull 6 k → (diskFull k).count = 0) :=
  append_counts_iff ⟨[], 0⟩ diskFull_possible

theorem append_miscounts : append diskFull ⟨[], 0⟩ abcdef = some ⟨[97, 98, 99, 100], 0⟩ ∧
    ¬ ∀ (results : Nat → Result) (f : AppendFile) (logline : List Byte),
      Possible results logline.length → ∃ f', append results f logline = some f' ∧
        ∃ n, f'.accepted = f.accepted ++ logline.take n ∧ n ≤ logline.length ∧
          f'.writtenBytes = f.writtenBytes + n := by
  have hends : append diskFull ⟨[], 0⟩ abcdef = some ⟨[97, 98, 99, 100], 0⟩ := rfl
  refine ⟨hends, fun h => ?_⟩
  obtain ⟨f', hf', n, haccepted, -, hwritten⟩ := h diskFull ⟨[], 0⟩ abcdef diskFull_possible
  cases hends.symm.trans hf'
  have hzero : n = 0 := by simpa using hwritten.symm
  subst hzero
  cases haccepted

end AppendFile

end AcMuduo.FileUtils
