import VersionedKeys.Artifact.Transfer
import VersionedKeys.Proofs.Bytes
import VersionedKeys.Proofs.Outcomes

/-!
# Laws of sources and sinks

A source delivers some bytes up to its end, or it breaks before that, and what it
delivers does not depend on how it is cut (`Source.readAll_eq_ok_iff`).  A sink gets a
beginning of what is sent to it, and all of it if it does not complain
(`Sink.exists_received`).
-/

namespace VersionedKeys

namespace Source

/-- A source delivers some bytes up to its end.  It may be cut anywhere, and be
interrupted in between. -/
inductive Delivers : Source → Bytes → Prop where
  | exhausted : Delivers [] []
  | ended (rest : Source) : Delivers (.chunk [] :: rest) []
  | chunk {bytes more : Bytes} {rest : Source} :
      bytes ≠ [] → Delivers rest more → Delivers (.chunk bytes :: rest) (bytes ++ more)
  | interruption {bytes : Bytes} {rest : Source} :
      Delivers rest bytes → Delivers (.interruption :: rest) bytes

/-- A source fails before its end, for a reason. -/
inductive Breaks : Source → String → Prop where
  | failure (reason : String) (rest : Source) : Breaks (.failure reason :: rest) reason
  | chunk {bytes : Bytes} {rest : Source} {reason : String} :
      bytes ≠ [] → Breaks rest reason → Breaks (.chunk bytes :: rest) reason
  | interruption {rest : Source} {reason : String} :
      Breaks rest reason → Breaks (.interruption :: rest) reason

theorem readAll_of_delivers {source : Source} {bytes : Bytes} (delivers : source.Delivers bytes) :
    source.readAll = .ok bytes := by
  induction delivers with
  | exhausted => rfl
  | ended rest => rfl
  | chunk some delivers inductionHypothesis =>
      rw [readAll, if_neg (by simpa using some), inductionHypothesis, Outcome.map_ok]
  | interruption delivers inductionHypothesis => exact inductionHypothesis

theorem readAll_of_breaks {source : Source} {reason : String} (breaks : source.Breaks reason) :
    source.readAll = .error (.transfer (.readFailed reason)) := by
  induction breaks with
  | failure reason rest => rfl
  | chunk some breaks inductionHypothesis =>
      rw [readAll, if_neg (by simpa using some), inductionHypothesis, Outcome.map_error]
  | interruption breaks inductionHypothesis => exact inductionHypothesis

theorem delivers_or_breaks (source : Source) :
    (∃ bytes, source.Delivers bytes) ∨ ∃ reason, source.Breaks reason := by
  induction source with
  | nil => exact .inl ⟨[], .exhausted⟩
  | cons event rest inductionHypothesis =>
      cases event with
      | failure reason => exact .inr ⟨reason, .failure reason rest⟩
      | interruption =>
          exact inductionHypothesis.imp (fun ⟨bytes, delivers⟩ => ⟨bytes, .interruption delivers⟩)
            fun ⟨reason, breaks⟩ => ⟨reason, .interruption breaks⟩
      | chunk bytes =>
          by_cases empty : bytes = []
          · subst empty
            exact .inl ⟨[], .ended rest⟩
          · exact inductionHypothesis.imp
              (fun ⟨more, delivers⟩ => ⟨bytes ++ more, .chunk empty delivers⟩)
              fun ⟨reason, breaks⟩ => ⟨reason, .chunk empty breaks⟩

theorem readAll_eq_ok_iff {source : Source} {bytes : Bytes} :
    source.readAll = .ok bytes ↔ source.Delivers bytes := by
  refine ⟨?_, readAll_of_delivers⟩
  intro read
  rcases source.delivers_or_breaks with ⟨found, delivers⟩ | ⟨reason, breaks⟩
  · rw [readAll_of_delivers delivers, Except.ok.injEq] at read
    exact read ▸ delivers
  · rw [readAll_of_breaks breaks] at read
    cases read

/-- Reads that come to the end of a source without a failure or an interruption, and what
they give. -/
inductive Complete : List Read → Bytes → Prop where
  | exhausted : Complete [] []
  | ended (rest : List Read) : Complete (.ended :: rest) []
  | data {bytes more : Bytes} {rest : List Read} :
      Complete rest more → Complete (.data bytes :: rest) (bytes ++ more)

theorem Complete.of_append {pieces : List Bytes} {rest : List Read} {bytes : Bytes}
    (complete : Complete (pieces.map .data ++ rest) bytes) :
    ∃ more, bytes = pieces.flatten ++ more ∧ Complete rest more := by
  induction pieces generalizing bytes with
  | nil => exact ⟨bytes, rfl, complete⟩
  | cons piece pieces inductionHypothesis =>
      cases complete with
      | data later =>
          obtain ⟨more, rfl, last⟩ := inductionHypothesis later
          exact ⟨more, (List.append_assoc _ _ _).symm, last⟩

theorem delivers_of_complete {capacity : Nat} (positive : 0 < capacity) {source : Source}
    {bytes : Bytes} (complete : Complete (source.reads capacity) bytes) :
    source.Delivers bytes := by
  induction source generalizing bytes with
  | nil =>
      cases complete
      exact .exhausted
  | cons event rest inductionHypothesis =>
      rw [reads, List.flatMap_cons] at complete
      cases event with
      | failure reason => cases complete
      | interruption => cases complete
      | chunk chunk =>
          by_cases empty : chunk = []
          · subst empty
            cases complete
            exact .ended rest
          · rw [SourceEvent.reads, if_neg (by simpa using empty)] at complete
            obtain ⟨more, rfl, later⟩ := complete.of_append
            rw [Bytes.flatten_chunks positive]
            exact .chunk empty (inductionHypothesis later)

theorem Delivers.eq {source : Source} {left right : Bytes} (delivers : source.Delivers left)
    (again : source.Delivers right) : left = right :=
  Except.ok.inj ((readAll_of_delivers delivers).symm.trans (readAll_of_delivers again))

/-- Something has ended because a source failed or was interrupted. -/
def Stops (result : Except Error Unit) : Prop :=
  (∃ reason, result = .error (.transfer (.readFailed reason))) ∨
    result = .error (.transfer .interrupted)

theorem Stops.ne_ok {result : Except Error Unit} (stops : Stops result) : result ≠ .ok () := by
  rintro rfl
  rcases stops with ⟨reason, equality⟩ | equality <;> cases equality

end Source

namespace Sink

theorem write_nil (sink : Sink) : sink.write [] = (.ok (), sink) := by
  obtain ⟨room, flushFails, written, flushes⟩ := sink
  cases room <;> simp [write]

/-- Bytes may be given to a sink in pieces, up to the first that it has no room for. -/
theorem write_append (sink : Sink) (front back : Bytes) :
    sink.write (front ++ back) =
      match sink.write front with
      | (.error error, sink) => (.error error, sink)
      | (.ok (), sink) => sink.write back := by
  obtain ⟨room, flushFails, written, flushes⟩ := sink
  cases room with
  | none => simp [write]
  | some room =>
      by_cases full : room < front.length
      · have less : room < front.length + back.length := by omega
        have none : room - front.length = 0 := by omega
        simp [write, full, less, none, List.take_append]
      · have fits : front.length ≤ room := by omega
        simp only [write, List.take_append, List.take_of_length_le fits, List.length_append,
          Nat.lt_irrefl, if_false, Nat.add_lt_add_iff_left, List.append_assoc, Nat.sub_add_eq]

/-- Send bytes to a sink, and then end with a result. -/
def deliver (sink : Sink) (sent : Bytes × Except Error Unit) : Except Error Unit × Sink :=
  match sink.write sent.1, sent.2 with
  | (.error error, sink), _ | (.ok (), sink), .error error => (.error error, sink)
  | (.ok (), sink), .ok () => sink.flush

/-- Some bytes have arrived at a sink. -/
def Received (sink : Sink) (bytes : Bytes) (after : Sink) : Prop :=
  after.written = sink.written ++ bytes

theorem Received.nil (sink : Sink) : sink.Received [] sink := (List.append_nil _).symm

theorem Received.append {sink middle after : Sink} {front back : Bytes}
    (first : sink.Received front middle) (second : middle.Received back after) :
    sink.Received (front ++ back) after := by
  rw [Received, second, first, List.append_assoc]

/-- A sink has room for a number of bytes. -/
def HasRoom (sink : Sink) (length : Nat) : Prop := ∀ room, sink.room = some room → length ≤ room

theorem write_of_room {sink : Sink} {bytes : Bytes} (room : sink.HasRoom bytes.length) :
    ∃ after, sink.write bytes = (.ok (), after) ∧ sink.Received bytes after ∧
      after.flushFails = sink.flushFails := by
  rw [write]
  cases limit : sink.room with
  | none => exact ⟨_, rfl, rfl, rfl⟩
  | some length =>
      have whole := List.take_of_length_le (room length limit)
      simp only [whole, Nat.lt_irrefl, if_false]
      exact ⟨_, rfl, rfl, rfl⟩

theorem write_of_full {sink : Sink} {bytes : Bytes} (full : ¬ sink.HasRoom bytes.length) :
    ∃ received after, sink.write bytes = (.error (.transfer .writeFailed), after) ∧
      received <+: bytes ∧ sink.Received received after := by
  simp only [HasRoom, not_forall, Nat.not_le, exists_prop] at full
  obtain ⟨room, limit, full⟩ := full
  have less : (bytes.take room).length < bytes.length := by
    rw [List.length_take]
    omega
  rw [write]
  simp only [limit, if_pos less]
  exact ⟨bytes.take room, _, rfl, List.take_prefix room bytes, rfl⟩

theorem write_eq_or (sink : Sink) (bytes : Bytes) :
    (∃ after, sink.write bytes = (.ok (), after) ∧ sink.Received bytes after) ∨
      ∃ received after, sink.write bytes = (.error (.transfer .writeFailed), after) ∧
        received <+: bytes ∧ sink.Received received after := by
  by_cases room : sink.HasRoom bytes.length
  · obtain ⟨after, accepted, received, -⟩ := write_of_room room
    exact .inl ⟨after, accepted, received⟩
  · exact .inr (write_of_full room)

section Deliver

variable (sink : Sink) (bytes : Bytes)

/-- A sink gets a beginning of what is sent to it, and all of it if it does not
complain. -/
theorem exists_received :
    ∃ received, received <+: bytes ∧ sink.Received received (sink.deliver (bytes, .ok ())).2 ∧
      ((sink.deliver (bytes, .ok ())).1 = .ok () → received = bytes) := by
  rcases sink.write_eq_or bytes with
    ⟨after, accepted, arrived⟩ | ⟨received, after, refused, beginning, arrived⟩
  · rw [deliver, accepted]
    exact ⟨bytes, List.prefix_rfl, arrived, fun _ => rfl⟩
  · rw [deliver, refused]
    exact ⟨received, beginning, arrived, fun complaint => by cases complaint⟩

theorem deliver_eq_ok_iff :
    (sink.deliver (bytes, .ok ())).1 = .ok () ↔
      sink.HasRoom bytes.length ∧ sink.flushFails = false := by
  by_cases room : sink.HasRoom bytes.length
  · obtain ⟨after, accepted, -, flushes⟩ := write_of_room room
    rw [deliver, accepted]
    simp [flush, flushes, room]
  · obtain ⟨received, after, refused, -⟩ := write_of_full room
    rw [deliver, refused]
    simp [room]

/-- A sink has errors of its own. -/
theorem deliver_eq_error {error : Error}
    (failed : (sink.deliver (bytes, .ok ())).1 = .error error) :
    error = .transfer .writeFailed ∨ error = .transfer .flushFailed := by
  rcases sink.write_eq_or bytes with ⟨after, accepted, -⟩ | ⟨received, after, refused, -⟩
  · rw [deliver, accepted] at failed
    simp only [flush] at failed
    split at failed <;> cases failed
    exact .inr rfl
  · rw [deliver, refused] at failed
    cases failed
    exact .inl rfl

end Deliver

end Sink

end VersionedKeys
