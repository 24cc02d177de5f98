import AcMuduo.ReadFile
import AcMuduo.StringPiece

namespace AcMuduo

open CInt FileUtils

namespace StringPiece

def asString (s : StringPiece) : Except Thrown (List Byte) := do
  reserve (sizeT s.length)
  .ok (s.ptr.take (sizeT s.length))

theorem length_le_of_bytes {s : StringPiece} {name : List Byte}
    (h : s.bytes = some name) : (name.length : Int) ≤ s.length := by
  rw [bytes] at h
  split at h
  · next hpos =>
    have hle := List.length_take_le s.length.toNat s.ptr
    rw [Option.some.inj h] at hle
    omega
  · cases h

theorem asString_of_bytes {s : StringPiece} {name : List Byte}
    (h : s.bytes = some name) (hle : s.length ≤ 2147483647) : s.asString = .ok name := by
  rw [bytes] at h
  split at h
  · next hpos =>
    have hsize : sizeT s.length = s.length.toNat := sizeT_eq hpos (by omega)
    have hreserve : reserve s.length.toNat = .ok () := if_pos (by omega)
    rw [asString, hsize, hreserve, ← Option.some.inj h]
    rfl
  · cases h

end StringPiece

namespace ProcessInfo

/-- Of `stat`, what is between the first parentheses of each kind. -/
def procName (stat : List Byte) : StringPiece :=
  match stat.idxOf? 40, stat.idxOf? 41 with
  | some lp, some rp =>
    if lp < rp then ⟨stat.drop (lp + 1), narrow (rp - lp - 1 : Nat)⟩ else .empty
  | _, _ => .empty

def procStat (results : Nat → Except Int Nat) (opened : Except Int File) :
    Except Thrown (Option (List Byte)) := do
  let o ← readFile results opened 65535 [] ⟨false, false, false⟩
  .ok (o.map fun o => o.content)

def ownProcName (results : Nat → Except Int Nat) (opened : Except Int File) :
    Except Thrown (Option (List Byte)) := do
  match ← procStat results opened with
  | none => .ok none
  | some stat => do
    let name ← (procName stat).asString
    .ok (some name)

structure StatLine where
  pid : List Byte
  name : List Byte
  tail : List Byte
  isDigit : ∀ b ∈ pid, 48 ≤ b ∧ b ≤ 57
  tail_open : 40 ∉ tail
  tail_close : 41 ∉ tail

def StatLine.front (line : StatLine) : List Byte := line.pid ++ [32]

def StatLine.bytes (line : StatLine) : List Byte :=
  line.front ++ 40 :: (line.name ++ 41 :: line.tail)

def Unpaired (stat : List Byte) : Prop :=
  ∀ i j : Nat, i < j → stat[i]? = some 40 → stat[j]? ≠ some 41

theorem idxOf?_append_cons {l r : List Byte} {c : Byte} (h : c ∉ l) :
    (l ++ c :: r).idxOf? c = some l.length := by
  induction l with
  | nil => simp [List.idxOf?_cons]
  | cons b l ih =>
    have hne : c ≠ b := List.ne_of_not_mem_cons h
    rw [List.cons_append, List.idxOf?_cons, if_neg (by simpa using hne.symm),
      ih (List.not_mem_of_not_mem_cons h)]
    rfl

theorem getElem?_of_idxOf? {l : List Byte} {c : Byte} {i : Nat} (h : l.idxOf? c = some i) :
    l[i]? = some c := by
  obtain ⟨hlt, hget, -⟩ := List.idxOf?_eq_some_iff.mp h
  rw [List.getElem?_eq_getElem hlt, hget]

theorem procName_of_unpaired {stat : List Byte} (h : Unpaired stat) : procName stat = .empty := by
  rw [procName]
  split
  · next lp rp hlp hrp =>
    refine if_neg fun hlt => ?_
    exact h lp rp hlt (getElem?_of_idxOf? hlp) (getElem?_of_idxOf? hrp)
  · rfl

theorem procName_append {front name rest : List Byte} (hfront : 40 ∉ front ∧ 41 ∉ front)
    (hname : 41 ∉ name) : procName (front ++ 40 :: (name ++ 41 :: rest)) =
      ⟨name ++ 41 :: rest, narrow name.length⟩ := by
  have hopen : (front ++ 40 :: (name ++ 41 :: rest)).idxOf? 40 = some front.length :=
    idxOf?_append_cons hfront.1
  have hclose : (front ++ 40 :: (name ++ 41 :: rest)).idxOf? 41 =
      some (front.length + 1 + name.length) := by
    have hnot : 41 ∉ front ++ 40 :: name := by
      rw [List.mem_append, List.mem_cons]
      rintro (hmem | heq | hmem)
      · exact hfront.2 hmem
      · exact absurd heq (by decide)
      · exact hname hmem
    have hfind := idxOf?_append_cons (r := rest) hnot
    rw [List.append_assoc, List.cons_append] at hfind
    rw [hfind, List.length_append, List.length_cons]
    congr 1
    omega
  have hdrop : (front ++ 40 :: (name ++ 41 :: rest)).drop (front.length + 1) =
      name ++ 41 :: rest := by
    rw [← List.drop_drop, List.drop_left]
    rfl
  rw [procName, hopen, hclose]
  simp only [hdrop]
  rw [if_pos (by omega)]
  congr 2
  omega

theorem bytes_procName {front name rest : List Byte} (hfront : 40 ∉ front ∧ 41 ∉ front)
    (hname : 41 ∉ name) (hlength : name.length < 2147483648) :
    (procName (front ++ 40 :: (name ++ 41 :: rest))).bytes = some name := by
  have hle : (name.length : Int) ≤ (name ++ 41 :: rest).length := by
    rw [List.length_append]
    omega
  have hwhole := StringPiece.Whole.bytes_eq
    ⟨⟨name ++ 41 :: rest, name.length⟩, Int.natCast_nonneg _, hle⟩
  rw [procName_append hfront hname, narrow_eq (by omega) (by omega), hwhole,
    StringPiece.Whole.asString, Int.toNat_natCast, List.take_left]

namespace StatLine

variable (line : StatLine)

theorem not_mem_front {c : Byte} (hspace : c ≠ 32) (hc : c < 48) : c ∉ line.front := by
  intro hmem
  rcases List.mem_append.mp hmem with hmem | hmem
  · exact UInt8.not_le.mpr hc (line.isDigit c hmem).1
  · exact hspace (List.mem_singleton.mp hmem)

theorem front_clean : 40 ∉ line.front ∧ 41 ∉ line.front :=
  ⟨line.not_mem_front (by decide) (by decide), line.not_mem_front (by decide) (by decide)⟩

end StatLine

/-- The name is recovered exactly if it contains no closing parenthesis and is not too long. -/
theorem procName_eq_iff (line : StatLine) :
    ((procName line.bytes).bytes = some line.name ↔
      41 ∉ line.name ∧ line.name.length < 2147483648) ∧
    ∀ stat, Unpaired stat → procName stat = .empty := by
  refine ⟨⟨fun h => ?_, fun ⟨hname, hlength⟩ => ?_⟩, fun _ => procName_of_unpaired⟩
  · have hle := StringPiece.length_le_of_bytes h
    have hname : 41 ∉ line.name := by
      intro hmem
      obtain ⟨name, rest, hsplit, hname⟩ := List.eq_append_cons_of_mem hmem
      rw [StatLine.bytes, hsplit, List.append_assoc, List.cons_append,
        procName_append line.front_clean hname, List.length_append, List.length_cons] at hle
      have hnarrow := narrow_le_self (Int.natCast_nonneg name.length)
      dsimp only at hle
      omega
    rw [StatLine.bytes, procName_append line.front_clean hname] at hle
    have hnarrow := narrow_le line.name.length
    dsimp only at hle
    exact ⟨hname, by omega⟩
  · exact bytes_procName line.front_clean hname hlength

theorem asString_procName {front name rest : List Byte} (hfront : 40 ∉ front ∧ 41 ∉ front)
    (hname : 41 ∉ name) (hlength : name.length < 2147483648) :
    (procName (front ++ 40 :: (name ++ 41 :: rest))).asString = .ok name := by
  refine StringPiece.asString_of_bytes (bytes_procName hfront hname hlength) ?_
  have hle := narrow_le name.length
  rw [procName_append hfront hname]
  dsimp only
  omega

section

variable {results : Nat → Except Int Nat} (hresults : Progress results) {file : File}
  (hregular : file.Regular)
include hresults hregular

theorem procStat_eq (hlength : file.bytes.length ≤ 65535) :
    procStat results (.ok file) = .ok (some file.bytes) := by
  obtain ⟨o, ho, -, hcontent⟩ := readToString_eq hresults ⟨file, 0⟩ hregular 65535
    (by decide) [] ⟨false, false, false⟩
  have hread : readFile results (.ok file) 65535 [] ⟨false, false, false⟩ = .ok (some o) := ho
  have hall : o.content = file.bytes := hcontent.trans (List.take_of_length_le hlength)
  rw [procStat, hread, ← hall]
  rfl

theorem ownProcName_eq (hlength : file.bytes.length ≤ 65535) {name : List Byte}
    (hname : (procName file.bytes).asString = .ok name) :
    ownProcName results (.ok file) = .ok (some name) := by
  rw [ownProcName, procStat_eq hresults hregular hlength]
  simp only [bind, Except.bind, hname]

/-- A process finds its own name, unless that contains a closing parenthesis. -/
theorem ownProcName_eq_iff {line : StatLine} (hbytes : file.bytes = line.bytes)
    (hlength : line.bytes.length ≤ 65535) :
    ownProcName results (.ok file) = .ok (some line.name) ↔ 41 ∉ line.name := by
  have hlt : line.name.length < 65535 := by
    rw [StatLine.bytes, List.length_append, List.length_cons, List.length_append,
      List.length_cons] at hlength
    omega
  constructor
  · intro h hmem
    obtain ⟨name, rest, hsplit, hname⟩ := List.eq_append_cons_of_mem hmem
    rw [hsplit, List.length_append, List.length_cons] at hlt
    have hfound : (procName file.bytes).asString = .ok name := by
      rw [hbytes, StatLine.bytes, hsplit, List.append_assoc, List.cons_append]
      exact asString_procName line.front_clean hname (by omega)
    rw [ownProcName_eq hresults hregular (hbytes ▸ hlength) hfound, hsplit] at h
    have hlist : name = name ++ 41 :: rest := Option.some.inj (Except.ok.inj h)
    have hlist := congrArg List.length hlist
    rw [List.length_append, List.length_cons] at hlist
    omega
  · intro hname
    refine ownProcName_eq hresults hregular (hbytes ▸ hlength) ?_
    rw [hbytes]
    exact asString_procName line.front_clean hname (by omega)

end

def renamed : StatLine where
  pid := [49]
  name := [97, 41, 98]
  tail := [32, 83]
  isDigit := List.forall_mem_singleton.mpr ⟨by decide, by decide⟩
  tail_open := by decide
  tail_close := by decide

theorem procName_eq_iff_renamed :
    ((procName renamed.bytes).bytes = some [97, 41, 98] ↔
      41 ∉ renamed.name ∧ renamed.name.length < 2147483648) ∧ procName [41, 40] = .empty := by
  have hunpaired : Unpaired [41, 40] := by
    intro i j hlt hopen hclose
    match i, j with
    | 0, _ => cases hopen
    | 1, j + 2 => cases hclose
  exact ⟨(procName_eq_iff renamed).1, (procName_eq_iff renamed).2 [41, 40] hunpaired⟩

theorem procName_cuts_name : (procName renamed.bytes).bytes = some [97] ∧
    ¬ ∀ line : StatLine, (procName line.bytes).bytes = some line.name := by
  have hbytes : (procName renamed.bytes).bytes = some [97] := by decide
  refine ⟨hbytes, fun h => ?_⟩
  have hname := hbytes.symm.trans (h renamed)
  revert hname
  decide

end ProcessInfo

end AcMuduo
