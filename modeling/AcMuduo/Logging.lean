import AcMuduo.LogStream

namespace AcMuduo

open Machine LogStream

inductive LogLevel where
  | trace
  | debug
  | info
  | warn
  | error
  | fatal
  deriving DecidableEq, Repr

def LogLevel.name : LogLevel → List Byte
  | trace => bytes "TRACE "
  | debug => bytes "DEBUG "
  | info => bytes "INFO  "
  | warn => bytes "WARN  "
  | error => bytes "ERROR "
  | fatal => bytes "FATAL "

structure SourceFile where
  data : List Byte
  size : Int32
  size_eq : size.toInt = data.length

def SourceFile.insertion (v : SourceFile) : Insertion := .append v.data v.size v.size_eq.le

@[simp] theorem SourceFile.text_insertion (v : SourceFile) : v.insertion.text = v.data := by
  rw [insertion, Insertion.text, v.size_eq, Int.toNat_natCast, List.take_length]

/-- What a record shows of the moment and the thread in which it is made. The text of the second is
that in `t_time`, and the texts of the error numbers are those of `strerror_r`. -/
structure Circumstances where
  time : List Byte
  time_length : time.length = 17
  microseconds : Nat
  microseconds_lt : microseconds < 10 ^ 6
  zoneValid : Bool
  tid : Int32
  strerror : Int32 → List Byte

def padded (pad : Byte) (width : Nat) (text : List Byte) : List Byte :=
  List.replicate (width - text.length) pad ++ text

structure Logger where
  stream : LogStream
  level : LogLevel
  line : Int32
  baseName : SourceFile

namespace Logger

variable (c : Circumstances)

/-- The insertion of a `T`, which is a text that is as long as it is said to be. -/
def insertT (str : List Byte) (len : Nat) (s : LogStream) : Except (Stop Fault) LogStream := do
  assert (str.length = len)
  .ok (s.append str (Int32.ofNat len))

def us : List Byte :=
  bytes "." ++ padded 48 6 (convert c.microseconds) ++ bytes (if c.zoneValid then " " else "Z ")

def formatTime (s : LogStream) : Except (Stop Fault) LogStream :=
  if c.zoneValid then do
    assert ((us c).length = 8)
    let s ← insertT c.time 17 s
    insertT (us c) 8 s
  else do
    assert ((us c).length = 9)
    let s ← insertT c.time 17 s
    insertT (us c) 9 s

def tidString : List Byte := padded 32 5 (convert c.tid.toInt) ++ bytes " "

def impl (level : LogLevel) (oldErrno : Int32) (file : SourceFile) (line : Int32) :
    Except (Stop Fault) Logger := do
  let s ← formatTime c LogStream.empty
  let s ← insertT (tidString c) (tidString c).length s
  let s ← insertT level.name 6 s
  let s ← run insert s (if oldErrno ≠ 0 then
    [.cString (some (c.strerror oldErrno)), .cString (some (bytes " (error=")), .int oldErrno,
      .cString (some (bytes ") "))]
    else [])
  .ok ⟨s, level, line, file⟩

/-- The constructors of `logger`, where the last one finds the error number in `errno`. -/
inductive Constructor where
  | info
  | level (level : LogLevel)
  | func (level : LogLevel) (func : Option (List Byte))
  | sys (toAbort : Bool) (errno : Int32)

def construct (file : SourceFile) (line : Int32) : Constructor → Except (Stop Fault) Logger
  | .info => impl c .info 0 file line
  | .level level => impl c level 0 file line
  | .func level func => do
    let l ← impl c level 0 file line
    let s ← run insert l.stream [.cString func, .cString (some (bytes " "))]
    .ok { l with stream := s }
  | .sys toAbort errno => impl c (if toAbort then .fatal else .error) errno file line

def insertAll (l : Logger) (xs : List Insertion) : Except (Stop Fault) Logger := do
  let s ← run insert l.stream xs
  .ok { l with stream := s }

def finish (l : Logger) : Except (Stop Fault) Logger :=
  l.insertAll [.cString (some (bytes " - ")), l.baseName.insertion, .cString (some (bytes ":")),
    .int l.line, .char newline]

def filled (file : SourceFile) (line : Int32) (k : Constructor) (xs : List Insertion) :
    Except (Stop Fault) Logger := do
  let l ← construct c file line k
  l.insertAll xs

/-- The bytes that `~logger` gives to `g_output`. After that it aborts the program if the level is
`fatal`. -/
def destroy (l : Logger) : Except (Stop Fault) (List Byte) := do
  let l ← l.finish
  .ok l.stream.buffer.data

end Logger

end AcMuduo
