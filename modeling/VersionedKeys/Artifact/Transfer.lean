import VersionedKeys.Error

/-!
# Sources and sinks

A source is the list of what it will produce: data, failures, interruptions.  A
sink takes bytes until its room is used up.  Both are values, so that what
passes between them can be spoken about.
-/

namespace VersionedKeys

/-- What a source produces next. -/
inductive SourceEvent where
  /-- Some bytes.  None at all are the end of the source. -/
  | chunk (bytes : Bytes)
  | failure (reason : String)
  /-- An interruption, after which one may go on. -/
  | interruption
  deriving DecidableEq, Repr

/-- The outcome of one read. -/
inductive Read where
  | data (bytes : Bytes)
  | ended
  | failed (fault : TransferFault)
  deriving DecidableEq, Repr

/-- The reads of an event, of at most `capacity` bytes each. -/
def SourceEvent.reads (capacity : Nat) : SourceEvent → List Read
  | chunk bytes => if bytes.isEmpty then [.ended] else (bytes.chunks capacity).map .data
  | failure reason => [.failed (.readFailed reason)]
  | interruption => [.failed .interrupted]

abbrev Source := List SourceEvent

namespace Source

def ofBytes (bytes : Bytes) : Source := [.chunk bytes]

/-- The reads of a source, of at most `capacity` bytes each.  After them it has
ended. -/
def reads (capacity : Nat) (source : Source) : List Read :=
  source.flatMap (·.reads capacity)

/-- All bytes up to the end; interruptions are passed over. -/
def readAll : Source → Except Error Bytes
  | [] => .ok []
  | .chunk bytes :: source =>
      if bytes.isEmpty then .ok [] else (readAll source).map (bytes ++ ·)
  | .failure reason :: _ => .error (.transfer (.readFailed reason))
  | .interruption :: source => readAll source

end Source

/-- A sink, and what it has taken. -/
structure Sink where
  /-- How many more bytes it takes; without limit if absent. -/
  room : Option Nat := none
  flushFails : Bool := false
  written : Bytes := []
  /-- How often it was flushed. -/
  flushes : Nat := 0
  deriving DecidableEq, Repr

namespace Sink

/-- Write all of a byte string, or as much as there is room for. -/
def write (sink : Sink) (bytes : Bytes) : Except Error Unit × Sink :=
  match sink.room with
  | none => (.ok (), { sink with written := sink.written ++ bytes })
  | some room =>
      let taken := bytes.take room
      let sink := { sink with room := some (room - taken.length), written := sink.written ++ taken }
      (if taken.length < bytes.length then .error (.transfer .writeFailed) else .ok (), sink)

def flush (sink : Sink) : Except Error Unit × Sink :=
  (if sink.flushFails then .error (.transfer .flushFailed) else .ok (),
    { sink with flushes := sink.flushes + 1 })

end Sink

end VersionedKeys
