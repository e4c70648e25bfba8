import LineSearch.Log
import LineSearch.Output.Channel
import LineSearch.Text.Utf8

namespace LineSearch.Output

/-!
# Delivering a search

A search is an action that logs records and gives lines to a channel in pieces. The
first line that is refused ends the action, whatever it is a part of: what has been
logged and given to the channel by then stays, and nothing is added to it.
-/

/-- Why an output failed. -/
inductive Failure where
  | write (reason : String)
  | flush (reason : String)
  deriving Repr, DecidableEq

namespace Failure

/-- The text shown for a failure. -/
def message : Failure → String
  | .write reason => "failed to write output: " ++ reason
  | .flush reason => "failed to flush output: " ++ reason

end Failure

/-- The pieces in which a line is given to a channel. -/
def linePieces (label? : Option String) (text : String) : List (List UInt8) :=
  let line := [Utf8.encode text, Utf8.encode "\n"]
  match label? with
  | some label => Utf8.encode label :: Utf8.encode ":" :: line
  | none => line

/-- Flush a channel when everything has been delivered. -/
def finish (channel : Channel) : Channel × Option Failure :=
  let flushed := channel.flush
  (flushed.state, flushed.failure?.map .flush)

/-- What a search works on. -/
structure Session where
  channel : Channel
  /-- The records logged so far. -/
  records : Array Log.Record

/-- A piece of work in a session, which the output can make fail. -/
abbrev Action := ExceptT Failure (StateM Session)

namespace Action

/-- Log a record. -/
def log (record : Log.Record) : Action Unit :=
  modify fun session => { session with records := session.records.push record }

/-- Go on, unless the output has failed. -/
def check : Option Failure → Action Unit
  | none => pure ()
  | some failure => throw failure

/-- Print a line, behind its label if it has one. -/
def writeLine (label? : Option String) (text : String) : Action Unit := do
  let session ← get
  let written := session.channel.writeAll (linePieces label? text)
  set { session with channel := written.state }
  check (written.failure?.map .write)

/-- Flush the channel. -/
def flush : Action Unit := do
  let session ← get
  let (channel, failure?) := finish session.channel
  set { session with channel := channel }
  check failure?

/-- Log why something is left out; nothing is found there. -/
def leaveOut (record : Log.Record) : Action Bool := do
  log record
  pure false

/-- Do this for each item in order, and tell whether anything was found for any of them. -/
def foundAmong (items : List α) (search : α → Action Bool) : Action Bool :=
  items.foldlM
    (fun found item => do
      let foundHere ← search item
      pure (found || foundHere))
    false

section Run

variable (session : Session)

theorem run_pure (value : α) :
    (pure value : Action α).run.run session = (.ok value, session) :=
  rfl

/-- What is done after an action is done in the session it leaves, unless it failed. -/
theorem run_bind
    (action : Action α)
    (next : α → Action β) :
    (action >>= next).run.run session =
      match action.run.run session with
      | (.ok value, after) => (next value).run.run after
      | (.error failure, after) => (.error failure, after) := by
  rw [ExceptT.run_bind, StateT.run_bind]
  simp only [bind]
  rcases action.run.run session with ⟨_ | _, _⟩ <;> rfl

theorem run_log (record : Log.Record) :
    (log record).run.run session =
      (.ok (), { session with records := session.records.push record }) :=
  rfl

theorem run_check (failure? : Option Failure) :
    (check failure?).run.run session =
      (match failure? with
        | none => (.ok (), session)
        | some failure => (.error failure, session)) := by
  cases failure? <;> rfl

theorem run_flush :
    flush.run.run session =
      (check (finish session.channel).2).run.run
        { session with channel := (finish session.channel).1 } :=
  rfl

theorem run_writeLine_of_taken
    {after : Channel}
    {label? : Option String}
    {text : String}
    (taken : session.channel.writeAll (linePieces label? text) = ⟨after, none⟩) :
    (writeLine label? text).run.run session =
      (.ok (), { session with channel := after }) := by
  change (check (session.channel.writeAll _ |>.failure?.map _)).run.run _ = _
  rw [taken]
  rfl

theorem run_writeLine_of_refused
    {after : Channel}
    {label? : Option String}
    {text reason : String}
    (refused :
      session.channel.writeAll (linePieces label? text) = ⟨after, some reason⟩) :
    (writeLine label? text).run.run session =
      (.error (.write reason), { session with channel := after }) := by
  change (check (session.channel.writeAll _ |>.failure?.map _)).run.run _ = _
  rw [refused]
  rfl

end Run

end Action

/-- What came of an action. -/
structure Delivery where
  /-- The records logged, in order. -/
  records : List Log.Record
  channel : Channel
  /-- Was anything found, or did the output fail? -/
  result : Except Failure Bool

namespace Delivery

/-- Why the output failed, if it did. -/
def failure? (delivery : Delivery) : Option Failure :=
  match delivery.result with
  | .ok _ => none
  | .error failure => some failure

/-- Was anything found, in an action that did not fail? -/
def found (delivery : Delivery) : Bool :=
  match delivery.result with
  | .ok found => found
  | .error _ => false

end Delivery

/-- Do all of an action on a channel. -/
def Action.deliver (action : Action Bool) (channel : Channel) : Delivery :=
  match action.run.run ⟨channel, #[]⟩ with
  | (result, session) => ⟨session.records.toList, session.channel, result⟩

end LineSearch.Output
