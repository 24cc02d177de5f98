import AcMuduo.CInt
import AcMuduo.FixedBuffer

namespace AcMuduo.FileUtils

open CInt

inductive FileType where
  | regular
  | directory
  | other

structure Stat where
  mode : FileType
  size : Int
  mtime : Int
  ctime : Int

structure File where
  stat : Except Int Stat
  bytes : List Byte

structure Descriptor where
  file : File
  offset : Nat

namespace Descriptor

def rest (fd : Descriptor) : List Byte := fd.file.bytes.drop fd.offset

/-- A call of `read` that asks for `count` bytes; its result is how many it can give, or `errno`. -/
def read (fd : Descriptor) (result : Except Int Nat) (count : Nat) : Except Int (List Byte) :=
  result.map fun n => fd.rest.take (min n count)

def advance (fd : Descriptor) (n : Nat) : Descriptor := { fd with offset := fd.offset + n }

end Descriptor

/-- There is no descriptor if `open` has failed. -/
structure ReadSmallFile where
  fd : Option Descriptor
  err : Int

structure Pointers where
  fileSize : Bool
  modifyTime : Bool
  createTime : Bool

structure Stored where
  fileSize : Option Int
  modifyTime : Option Int
  createTime : Option Int

inductive Thrown where
  | lengthError

/-- A string longer than its `max_size` cannot be reserved. -/
def reserve (n : Nat) : Except Thrown Unit :=
  if n ≤ 9223372036854775807 then .ok () else .error .lengthError

def eisdir : Int := 21

namespace ReadSmallFile

def kBufferSize : Nat := 64 * 1024

def readSmallFile : Except Int File → ReadSmallFile
  | .ok file => ⟨some ⟨file, 0⟩, 0⟩
  | .error errno => ⟨none, errno⟩

structure Reading where
  fd : Descriptor
  err : Int
  content : List Byte

/-- The loop, where the calls of `read` have the results from `k` on. -/
def readToString.loop (results : Nat → Except Int Nat) (maxSize : Nat) :
    Nat → Nat → Reading → Option Reading
  | 0, _, _ => none
  | fuel + 1, k, s =>
    if s.content.length < maxSize then
      let toRead := min (maxSize - s.content.length) kBufferSize
      match s.fd.read (results k) toRead with
      | .ok buf =>
        if 0 < buf.length then
          readToString.loop results maxSize fuel (k + 1)
            { s with fd := s.fd.advance buf.length, content := s.content ++ buf }
        else some s
      | .error errno => some { s with err := errno }
    else some s

/-- What `fstat` says is asked for only with a pointer for the size. -/
def status (fd : Descriptor) (err : Int) (maxSize : Int32) (p : Pointers) :
    Except Thrown (Int × Stored) :=
  if p.fileSize then
    match fd.file.stat with
    | .ok statbuf => do
      let (err, fileSize) ← match statbuf.mode with
        | .regular => do
          reserve (sizeT (narrow (min maxSize.toInt statbuf.size)))
          .ok (err, some statbuf.size)
        | .directory => .ok (eisdir, none)
        | .other => .ok (err, none)
      .ok (err, ⟨fileSize, if p.modifyTime then some statbuf.mtime else none,
        if p.createTime then some statbuf.ctime else none⟩)
    | .error errno => .ok (errno, ⟨none, none, none⟩)
  else .ok (err, ⟨none, none, none⟩)

structure Outcome where
  file : ReadSmallFile
  err : Int
  content : List Byte
  stored : Stored

def readToString (results : Nat → Except Int Nat) (f : ReadSmallFile) (maxSize : Int32)
    (content : List Byte) (p : Pointers) : Except Thrown (Option Outcome) :=
  match f.fd with
  | none => .ok (some ⟨f, f.err, content, ⟨none, none, none⟩⟩)
  | some fd => do
    let (err, stored) ← status fd f.err maxSize p
    .ok ((readToString.loop results (sizeT maxSize.toInt) (fd.rest.length + 1) 0
      ⟨fd, err, content⟩).map fun s => ⟨{ f with fd := some s.fd }, s.err, s.content, stored⟩)

end ReadSmallFile

def readFile (results : Nat → Except Int Nat) (opened : Except Int File) (maxSize : Int32)
    (content : List Byte) (p : Pointers) : Except Thrown (Option ReadSmallFile.Outcome) :=
  (ReadSmallFile.readSmallFile opened).readToString results maxSize content p

def File.Regular (f : File) : Prop := ∃ statbuf, f.stat = .ok statbuf ∧
  statbuf.mode = .regular ∧ 0 ≤ statbuf.size

/-- Every call of `read` before the end of the file gives some bytes. -/
def Progress (results : Nat → Except Int Nat) : Prop := ∀ k, ∃ n, 0 < n ∧ results k = .ok n

/-- What is there already is the beginning of the file, and where the reading starts the file goes
on as it does after that. -/
def Continues (file old : List Byte) (maxSize offset : Nat) : Prop :=
  old <+: file ∧ old.length ≤ maxSize ∧
    ∀ i, old.length + i < maxSize → file[offset + i]? = file[old.length + i]?

/-- What is there already is repeated by the file up to the limit, before which it does not end. -/
def Repeated (file old : List Byte) (maxSize : Nat) : Prop :=
  old <+: file ∧ old.length ≤ maxSize ∧ maxSize ≤ file.length ∧
    ∀ i, old.length + i < maxSize → file[i]? = file[old.length + i]?

theorem continues_iff {file old : List Byte} {maxSize offset : Nat} :
    old ++ (file.drop offset).take (maxSize - old.length) = file.take maxSize ↔
      Continues file old maxSize offset := by
  have hsplit (hle : old.length ≤ maxSize) (hbegins : old <+: file) : file.take maxSize =
      old ++ (file.drop old.length).take (maxSize - old.length) := by
    obtain ⟨rest, rfl⟩ := hbegins
    rw [List.drop_left, List.take_append, List.take_of_length_le hle]
  have hget {i : Nat} (hi : old.length + i < maxSize) (j : Nat) :
      ((file.drop j).take (maxSize - old.length))[i]? = file[j + i]? := by
    rw [List.getElem?_take_of_lt (by omega), List.getElem?_drop]
  constructor
  · intro heq
    have hbegins : old <+: file.take maxSize := ⟨_, heq⟩
    obtain ⟨hbegins, hle⟩ := List.prefix_take_iff.mp hbegins
    rw [hsplit hle hbegins] at heq
    have hrest := List.append_cancel_left heq
    refine ⟨hbegins, hle, fun i hi => ?_⟩
    rw [← hget hi offset, ← hget hi old.length, hrest]
  · rintro ⟨hbegins, hle, hsame⟩
    rw [hsplit hle hbegins]
    congr 1
    apply List.ext_getElem?
    intro i
    by_cases hi : old.length + i < maxSize
    · rw [hget hi, hget hi, hsame i hi]
    · rw [List.getElem?_take_eq_none (by omega), List.getElem?_take_eq_none (by omega)]

theorem continues_start {file old : List Byte} {maxSize : Nat} :
    Continues file old maxSize 0 ↔ old = [] ∨ Repeated file old maxSize := by
  constructor
  · rintro ⟨hbegins, hle, hsame⟩
    simp only [Nat.zero_add] at hsame
    refine or_iff_not_imp_left.mpr fun hne => ⟨hbegins, hle, ?_, hsame⟩
    have hpos : 0 < old.length := List.length_pos_iff.mpr hne
    have hlength := hbegins.length_le
    -- otherwise the file has a byte where it ends
    by_contra hend
    have hlast := hsame (file.length - old.length) (by omega)
    rw [List.getElem?_eq_none (i := old.length + (file.length - old.length)) (by omega),
      List.getElem?_eq_none_iff] at hlast
    omega
  · rintro (rfl | ⟨hbegins, hle, -, hsame⟩)
    · have hbegins : [] <+: file := List.nil_prefix
      exact ⟨hbegins, Nat.zero_le _, fun i _ => rfl⟩
    · refine ⟨hbegins, hle, fun i hi => ?_⟩
      rw [Nat.zero_add]
      exact hsame i hi

theorem take_append_take {α : Type} {l : List α} {n m : Nat} (h : n ≤ m) :
    l.take n ++ (l.drop (l.take n).length).take (m - (l.take n).length) = l.take m := by
  rcases Nat.le_total n l.length with hle | hle
  · rw [List.length_take_of_le hle, ← List.take_add, Nat.add_sub_cancel' h]
  · rw [List.take_of_length_le hle, List.drop_length, List.take_nil, List.append_nil,
      List.take_of_length_le (Nat.le_trans hle h)]

section

variable {results : Nat → Except Int Nat} (hresults : Progress results)
include hresults

theorem read_eq (fd : Descriptor) (k : Nat) {count : Nat} (hcount : 0 < count) :
    ∃ n ≤ count, fd.read (results k) count = .ok (fd.rest.take n) ∧
      (fd.rest.take n = [] → fd.rest = []) := by
  obtain ⟨n, hn, hresult⟩ := hresults k
  refine ⟨min n count, Nat.min_le_right _ _, by rw [Descriptor.read, hresult]; rfl, fun hnil => ?_⟩
  refine (List.take_eq_nil_iff.mp hnil).resolve_left ?_
  omega

theorem loop_reads (maxSize fuel k : Nat) (s : ReadSmallFile.Reading)
    (hfuel : s.fd.rest.length < fuel) :
    ∃ fd, ReadSmallFile.readToString.loop results maxSize fuel k s =
      some ⟨fd, s.err, s.content ++ s.fd.rest.take (maxSize - s.content.length)⟩ := by
  induction fuel generalizing k s with
  | zero => omega
  | succ fuel ih =>
    rw [ReadSmallFile.readToString.loop]
    by_cases hroom : s.content.length < maxSize
    · have hcount : 0 < min (maxSize - s.content.length) ReadSmallFile.kBufferSize :=
        Nat.lt_min.mpr ⟨by omega, by decide⟩
      obtain ⟨n, hn, hread, hend⟩ := read_eq hresults s.fd k hcount
      have hn' : n ≤ maxSize - s.content.length := Nat.le_trans hn (Nat.min_le_left _ _)
      simp only [if_pos hroom, hread]
      by_cases hnil : s.fd.rest.take n = []
      · refine ⟨s.fd, ?_⟩
        rw [hnil, hend hnil, List.take_nil, List.append_nil]
        rfl
      · have hpos : 0 < (s.fd.rest.take n).length := List.length_pos_iff.mpr hnil
        rw [if_pos hpos]
        have hrest : (s.fd.advance (s.fd.rest.take n).length).rest =
            s.fd.rest.drop (s.fd.rest.take n).length := by
          rw [Descriptor.rest, Descriptor.rest, List.drop_drop]
          rfl
        obtain ⟨fd, hfd⟩ := ih (k + 1) { s with
          fd := s.fd.advance (s.fd.rest.take n).length
          content := s.content ++ s.fd.rest.take n } (by
            rw [hrest, List.length_drop]
            have hle := List.length_take_le' n s.fd.rest
            omega)
        refine ⟨fd, hfd.trans ?_⟩
        simp only [hrest, List.length_append, Nat.sub_add_eq, List.append_assoc]
        rw [take_append_take hn']
    · refine ⟨s.fd, (if_neg hroom).trans ?_⟩
      rw [Nat.sub_eq_zero_of_le (Nat.not_lt.mp hroom), List.take_zero, List.append_nil]

omit hresults in
theorem status_regular {fd : Descriptor} (hregular : fd.file.Regular) (err : Int)
    {maxSize : Int32} (hmax : 0 ≤ maxSize.toInt) (p : Pointers) :
    ∃ stored, ReadSmallFile.status fd err maxSize p = .ok (err, stored) := by
  obtain ⟨⟨mode, size, mtime, ctime⟩, hstat, hmode, hsize⟩ := hregular
  dsimp only at hmode hsize
  subst hmode
  by_cases hp : p.fileSize = true
  · have hlt := maxSize.toInt_lt
    have hreserve : reserve (sizeT (narrow (min maxSize.toInt size))) = .ok () := by
      rw [narrow_eq (by omega) (by omega), sizeT_eq (by omega) (by omega)]
      refine if_pos ?_
      omega
    rw [ReadSmallFile.status, if_pos hp, hstat]
    simp only [hreserve]
    exact ⟨_, rfl⟩
  · exact ⟨_, if_neg hp⟩

theorem readToString_eq (fd : Descriptor) (hregular : fd.file.Regular) (maxSize : Int32)
    (hmax : 0 ≤ maxSize.toInt) (content : List Byte) (p : Pointers) :
    ∃ o, ReadSmallFile.readToString results ⟨some fd, 0⟩ maxSize content p = .ok (some o) ∧
      o.err = 0 ∧ o.content =
        content ++ fd.rest.take (maxSize.toInt.toNat - content.length) := by
  obtain ⟨stored, hstored⟩ := status_regular hregular 0 hmax p
  obtain ⟨fd', hloop⟩ := loop_reads hresults (sizeT maxSize.toInt) (fd.rest.length + 1) 0
    ⟨fd, 0, content⟩ (Nat.lt_succ_self _)
  have hlt := maxSize.toInt_lt
  have hsize : sizeT maxSize.toInt = maxSize.toInt.toNat := sizeT_eq hmax (by omega)
  refine ⟨⟨⟨some fd', 0⟩, 0, content ++ fd.rest.take (maxSize.toInt.toNat - content.length),
    stored⟩, ?_, rfl, rfl⟩
  rw [hsize] at hloop
  simp only [ReadSmallFile.readToString, hstored, hsize, bind, Except.bind, hloop]
  rfl

/-- From any place of a regular file the string ends up with the beginning of the file exactly if
what was there already is that beginning and the reading continues it; from the start of the file,
exactly if there was nothing or the file repeats it. -/
theorem readFile_beginning_iff {file : File} (hregular : file.Regular) (maxSize : Int32)
    (hmax : 0 ≤ maxSize.toInt) (content : List Byte) (p : Pointers) :
    (∀ offset, ∃ o,
      ReadSmallFile.readToString results ⟨some ⟨file, offset⟩, 0⟩ maxSize content p =
        .ok (some o) ∧ o.err = 0 ∧ (o.content = file.bytes.take maxSize.toInt.toNat ↔
          Continues file.bytes content maxSize.toInt.toNat offset)) ∧
    ∃ o, readFile results (.ok file) maxSize content p = .ok (some o) ∧ o.err = 0 ∧
      (o.content = file.bytes.take maxSize.toInt.toNat ↔
        content = [] ∨ Repeated file.bytes content maxSize.toInt.toNat) := by
  have hread (offset : Nat) : ∃ o,
      ReadSmallFile.readToString results ⟨some ⟨file, offset⟩, 0⟩ maxSize content p =
        .ok (some o) ∧ o.err = 0 ∧ (o.content = file.bytes.take maxSize.toInt.toNat ↔
          Continues file.bytes content maxSize.toInt.toNat offset) := by
    obtain ⟨o, ho, herr, hcontent⟩ := readToString_eq hresults ⟨file, offset⟩ hregular maxSize
      hmax content p
    refine ⟨o, ho, herr, ?_⟩
    rw [hcontent]
    exact continues_iff
  refine ⟨hread, ?_⟩
  obtain ⟨o, ho, herr, hcontent⟩ := hread 0
  exact ⟨o, ho, herr, hcontent.trans continues_start⟩

end

def ab : File := ⟨.ok ⟨.regular, 2, 5, 6⟩, [97, 98]⟩

def previous : List Byte := [120]

def eachByte (_ : Nat) : Except Int Nat := .ok 1

theorem ab_regular : ab.Regular := ⟨_, rfl, rfl, by decide⟩

theorem eachByte_progress : Progress eachByte := fun _ => ⟨1, Nat.one_pos, rfl⟩

theorem readFile_beginning_iff_ab :
    (∀ offset, ∃ o,
      ReadSmallFile.readToString eachByte ⟨some ⟨ab, offset⟩, 0⟩ 10 previous ⟨true, true, false⟩ =
        .ok (some o) ∧ o.err = 0 ∧ (o.content = ab.bytes.take 10 ↔
          Continues ab.bytes previous 10 offset)) ∧
    ∃ o, readFile eachByte (.ok ab) 10 previous ⟨true, true, false⟩ = .ok (some o) ∧ o.err = 0 ∧
      (o.content = ab.bytes.take 10 ↔ previous = [] ∨ Repeated ab.bytes previous 10) :=
  readFile_beginning_iff eachByte_progress ab_regular 10 (by decide) previous ⟨true, true, false⟩

theorem readFile_keeps_old :
    (readFile eachByte (.ok ab) 10 previous ⟨true, true, false⟩).map
      (fun o => o.map fun o => (o.err, o.content)) = .ok (some (0, [120, 97, 98])) ∧
    ¬ ∀ (results : Nat → Except Int Nat) (file : File) (maxSize : Int32) (content : List Byte)
      (p : Pointers), Progress results → file.Regular → 0 ≤ maxSize.toInt →
        ∃ o, readFile results (.ok file) maxSize content p = .ok (some o) ∧ o.err = 0 ∧
          o.content = file.bytes.take maxSize.toInt.toNat := by
  have hrun : (readFile eachByte (.ok ab) 10 previous ⟨true, true, false⟩).map
      (fun o => o.map fun o => (o.err, o.content)) = .ok (some (0, [120, 97, 98])) := rfl
  refine ⟨hrun, fun h => ?_⟩
  obtain ⟨o, ho, -, hcontent⟩ := h eachByte ab 10 previous ⟨true, true, false⟩ eachByte_progress
    ab_regular (by decide)
  rw [ho] at hrun
  injection hrun with hrun
  injection hrun with hrun
  have hlist : o.content = [120, 97, 98] := congrArg Prod.snd hrun
  rw [hlist] at hcontent
  revert hcontent
  decide

end AcMuduo.FileUtils
