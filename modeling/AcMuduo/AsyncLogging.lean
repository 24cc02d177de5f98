import AcMuduo.Fault
import AcMuduo.FixedBuffer

namespace AcMuduo.AsyncLogging

open Machine

def kLargeBuffer : Nat := 4000 * 1000

abbrev Buffer := FixedBuffer kLargeBuffer

/-- A `unique_ptr` to a buffer; `none` is the null pointer. -/
abbrev BufferPtr := Option Buffer

def BufferPtr.data (p : BufferPtr) : List Byte := p.elim [] FixedBuffer.data

@[simp] theorem BufferPtr.data_some (b : Buffer) : BufferPtr.data (some b) = b.data := rfl

inductive Chunk where
  | notice (bytes : List Byte)
  | buffer (bytes : List Byte)

/-- The log file: what has been appended to it, and how much of that has been flushed. -/
structure LogFile where
  written : List Chunk
  flushed : Nat

def LogFile.append (f : LogFile) (c : Chunk) : LogFile := { f with written := f.written ++ [c] }

def LogFile.flush (f : LogFile) : LogFile := { f with flushed := f.written.length }

/-- Where the back-end thread is. `locking` is between the asserts of an iteration and its lock,
`writing` carries the buffers of the batch that it has not written. -/
inductive Pc where
  | notStarted
  | launched
  | test
  | locking
  | waiting
  | swapped
  | writing (rest : List BufferPtr)
  | flushing
  | finalFlush
  | done

inductive Owner where
  | idle
  | starting
  | started
  | stopping
  | stopped
  deriving DecidableEq, Repr

structure State where
  running : Bool
  latch : Nat
  currentBuffer : BufferPtr
  nextBuffer : BufferPtr
  buffers : List BufferPtr
  newBuffer1 : BufferPtr
  newBuffer2 : BufferPtr
  buffersToWrite : List BufferPtr
  output : LogFile
  pc : Pc
  owner : Owner

def State.init : State :=
  ⟨false, 1, some .empty, some .empty, [], none, none, [], ⟨[], 0⟩, .notStarted, .idle⟩

def deref (p : BufferPtr) : Except (Stop Fault) Buffer :=
  match p with
  | some b => .ok b
  | none => .error (.fault .nullDereference)

/-- The critical section of `append`. -/
def append (s : State) (logline : List Byte) : Except (Stop Fault) State := do
  let current ← deref s.currentBuffer
  if current.avail > logline.length then
    .ok { s with currentBuffer := some (current.append logline) }
  else
    -- the next buffer if there is one, else a new one
    let current := s.nextBuffer.getD .empty
    .ok { s with
      buffers := s.buffers ++ [s.currentBuffer]
      currentBuffer := some (current.append logline)
      nextBuffer := none }

/-- The critical section of an iteration from the end of the wait on. -/
def swap (s : State) : State :=
  let buffers := s.buffers ++ [s.currentBuffer]
  let s := { s with
    currentBuffer := s.newBuffer1
    newBuffer1 := none
    buffersToWrite := buffers
    buffers := s.buffersToWrite
    pc := .swapped }
  match s.nextBuffer with
  | some _ => s
  | none => { s with nextBuffer := s.newBuffer2, newBuffer2 := none }

/-- The text of the `snprintf` into `char buf[256]`. -/
def dropNotice (time : String) (n : Nat) : List Byte :=
  ("Dropped log messages at " ++ time ++ ", " ++ toString n ++
    " larger buffers\n").toUTF8.toList.take 255

def overload (s : State) (time : String) : Except (Stop Fault) State := do
  assert (!s.buffersToWrite.isEmpty)
  if s.buffersToWrite.length > 25 then
    let kept := s.buffersToWrite.take 2
    .ok { s with
      output := s.output.append (.notice (dropNotice time (s.buffersToWrite.length - 2)))
      buffersToWrite := kept
      pc := .writing kept }
  else .ok { s with pc := .writing s.buffersToWrite }

def takeBack (buffersToWrite : List BufferPtr) :
    Except (Stop Fault) (BufferPtr × List BufferPtr) := do
  assert (!buffersToWrite.isEmpty)
  let b ← deref (buffersToWrite.getLast?.join)
  .ok (some b.reset, buffersToWrite.dropLast)

def refill (s : State) : Except (Stop Fault) State := do
  let batch := if s.buffersToWrite.length > 2 then s.buffersToWrite.take 2 else s.buffersToWrite
  let (newBuffer1, batch) ←
    if s.newBuffer1.isNone then takeBack batch else .ok (s.newBuffer1, batch)
  let (newBuffer2, _) ←
    if s.newBuffer2.isNone then takeBack batch else .ok (s.newBuffer2, batch)
  .ok { s with
    newBuffer1 := newBuffer1
    newBuffer2 := newBuffer2
    buffersToWrite := []
    pc := .flushing }

/-- `append` is a call by any thread. `start`, `started`, `stop` and `join` are the owner's: `start`
launches the thread, `started` is the end of the wait for the latch, and `join` the return of
`stop`. The others are the back end's; `wake` ends its wait, for whatever reason. -/
inductive Event where
  | append (logline : List Byte)
  | start
  | started
  | stop
  | join
  | enter
  | test
  | lock
  | wake
  | overload (time : String)
  | write
  | refill
  | flush

def isEmptyBuffer (p : BufferPtr) : Bool := p.any fun b => b.length = 0

def step (s : State) : Event → Except (Stop Fault) State
  | .append logline => append s logline
  | .start =>
    if s.owner = .idle then .ok { s with running := true, pc := .launched, owner := .starting }
    else .error .disabled
  | .started =>
    if s.owner = .starting ∧ s.latch = 0 then .ok { s with owner := .started }
    else .error .disabled
  | .stop =>
    if s.owner = .started then .ok { s with running := false, owner := .stopping }
    else .error .disabled
  | .join =>
    match s.owner, s.pc with
    | .stopping, .done => .ok { s with owner := .stopped }
    | _, _ => .error .disabled
  | .enter =>
    match s.pc with
    | .launched => do
      assert s.running
      .ok { s with
        latch := s.latch - 1
        newBuffer1 := some .empty
        newBuffer2 := some .empty
        pc := .test }
    | _ => .error .disabled
  | .test =>
    match s.pc with
    | .test =>
      if s.running then do
        assert (isEmptyBuffer s.newBuffer1)
        assert (isEmptyBuffer s.newBuffer2)
        assert s.buffersToWrite.isEmpty
        .ok { s with pc := .locking }
      else .ok { s with pc := .finalFlush }
    | _ => .error .disabled
  | .lock =>
    match s.pc with
    | .locking => .ok (if s.buffers.isEmpty then { s with pc := .waiting } else swap s)
    | _ => .error .disabled
  | .wake =>
    match s.pc with
    | .waiting => .ok (swap s)
    | _ => .error .disabled
  | .overload time =>
    match s.pc with
    | .swapped => overload s time
    | _ => .error .disabled
  | .write =>
    match s.pc with
    | .writing (p :: rest) => do
      let b ← deref p
      .ok { s with output := s.output.append (.buffer b.data), pc := .writing rest }
    | _ => .error .disabled
  | .refill =>
    match s.pc with
    | .writing [] => refill s
    | _ => .error .disabled
  | .flush =>
    match s.pc with
    | .flushing => .ok { s with output := s.output.flush, pc := .test }
    | .finalFlush => .ok { s with output := s.output.flush, pc := .done }
    | _ => .error .disabled

end AcMuduo.AsyncLogging
