import LineSearch.Proofs.SearchEvents

namespace LineSearch

/-!
# Delivering to a device without a detour

However a search's output is cut into lines and pieces, a device that is given
the pieces directly ends up as if it had been given the whole output at once.
So it holds a beginning of the output, as long as its room allows, and the
delivery fails exactly when the output is longer than that.
-/

namespace Event

/-- The bytes that an event prints. -/
def bytes : Event → List UInt8
  | .line label? text => (Output.linePieces label? text).flatten
  | .record _ => []

/-- The record that an event logs, if it does. -/
def record? : Event → Option Log.Record
  | .line _ _ => none
  | .record entry => some entry

end Event

namespace Output

/-- The bytes that these events print, one after the other. -/
def printed (events : List Event) : List UInt8 :=
  events.flatMap Event.bytes

@[simp] theorem printed_nil : printed [] = [] :=
  rfl

@[simp] theorem printed_cons
    (event : Event)
    (rest : List Event) :
    printed (event :: rest) = event.bytes ++ printed rest :=
  rfl

@[simp] theorem printed_append
    (first second : List Event) :
    printed (first ++ second) = printed first ++ printed second :=
  List.flatMap_append

/-- A printed line has an end. -/
theorem bytes_line_ne_nil
    (label? : Option String)
    (text : String) :
    (Event.line label? text).bytes ≠ [] := by
  cases label? <;> simp [Event.bytes, linePieces, Utf8.encode]

namespace Attempt

@[simp] theorem map_state
    (into : α → β)
    (attempt : Attempt α) :
    (attempt.map into).state = into attempt.state :=
  rfl

@[simp] theorem map_failure?
    (into : α → β)
    (attempt : Attempt α) :
    (attempt.map into).failure? = attempt.failure? :=
  rfl

/-- What is carried over is carried over from each of two attempts. -/
theorem map_andThen
    (into : α → β)
    {attempt : Attempt α}
    {next : α → Attempt α}
    {after : β → Attempt β}
    (same : ∀ state, after (into state) = (next state).map into) :
    (attempt.andThen next).map into = (attempt.map into).andThen after := by
  rcases attempt with ⟨state, _ | reason⟩
  · exact (same state).symm
  · rfl

end Attempt

namespace Device

theorem write_nil (device : Device) :
    device.write [] = .done device := by
  rcases device with ⟨taken, _ | room, refusal, flushRefusal?⟩ <;>
    simp [write, Attempt.done]

/-- Bytes can be given at once or in two parts. -/
theorem write_append
    (device : Device)
    (first second : List UInt8) :
    device.write (first ++ second) =
      (device.write first).andThen (·.write second) := by
  have taking (taken : Array UInt8) (left right : List UInt8) :
      taken ++ (left ++ right) = taken ++ left ++ right := by
    simp [← Array.toList_inj]
  rcases device with ⟨taken, _ | room, refusal, flushRefusal?⟩
  · simp [write, Attempt.done, Attempt.andThen, taking]
  by_cases fits : first.length ≤ room
  · have rest :
        first.length + second.length ≤ room ↔
          second.length ≤ room - first.length := by
      omega
    simp [write, Attempt.andThen, fits, rest, List.take_append,
      List.take_of_length_le fits, Nat.sub_sub, taking]
  · have tooMuch : ¬ first.length + second.length ≤ room := by
      omega
    have full : room - first.length = 0 := by
      omega
    have stillFull : room - (first.length + second.length) = 0 := by
      omega
    simp [write, Attempt.andThen, fits, tooMuch, full, stillFull,
      List.take_append]

end Device

namespace Channel

theorem writeAll_direct
    (device : Device)
    (pieces : List (List UInt8)) :
    (Channel.direct device).writeAll pieces =
      (device.write pieces.flatten).map .direct := by
  induction pieces generalizing device with
  | nil =>
      rw [List.flatten_nil, Device.write_nil]
      rfl
  | cons piece rest inductionHypothesis =>
      rw [List.flatten_cons, Device.write_append]
      exact
        (Attempt.map_andThen Channel.direct
          fun state => inductionHypothesis state).symm

end Channel

/-- Delivering events is giving the device all that they print. -/
theorem deliver_direct
    (device : Device)
    (events : List Event) :
    (deliver (.direct device) events).channel =
        .direct (device.write (printed events)).state ∧
      (deliver (.direct device) events).failure? =
        (device.write (printed events)).failure?.map .write := by
  induction events generalizing device with
  | nil =>
      rw [printed_nil, Device.write_nil]
      exact ⟨rfl, rfl⟩
  | cons event rest inductionHypothesis =>
      rw [printed_cons, Device.write_append]
      cases event with
      | record record =>
          rw [Event.bytes, Device.write_nil]
          exact inductionHypothesis device
      | line label? text =>
          have written :=
            Channel.writeAll_direct device (linePieces label? text)
          rw [Event.bytes]
          rcases outcome : device.write (linePieces label? text).flatten with
            ⟨after, _ | reason⟩
          · rw [outcome] at written
            rw [deliver_line_of_taken written, Delivery.finding_channel,
              Delivery.finding_failure?]
            exact inductionHypothesis after
          · rw [outcome] at written
            rw [deliver_line_of_refused written]
            exact ⟨rfl, rfl⟩

/-- A delivery that does not fail logs every record, and has found what is printed. -/
theorem deliver_of_succeeds
    {channel : Channel}
    {events : List Event}
    (succeeds : (deliver channel events).failure? = none) :
    (deliver channel events).records = events.filterMap Event.record? ∧
      ((deliver channel events).found = true ↔ printed events ≠ []) := by
  induction events generalizing channel with
  | nil => simp [deliver, Delivery.found]
  | cons event rest inductionHypothesis =>
      cases event with
      | record entry =>
          obtain ⟨records, found⟩ := inductionHypothesis succeeds
          exact ⟨congrArg (entry :: ·) records, found⟩
      | line label? text =>
          rcases outcome : channel.writeAll (linePieces label? text) with
            ⟨after, _ | reason⟩
          · rw [deliver_line_of_taken outcome] at succeeds ⊢
            rw [Delivery.finding_failure?] at succeeds
            obtain ⟨records, -⟩ := inductionHypothesis succeeds
            refine ⟨records, ?_⟩
            simp [Delivery.found_finding succeeds, bytes_line_ne_nil]
          · rw [deliver_line_of_refused outcome] at succeeds
            cases succeeds

/--
A delivery that fails does so at one line: all in front of that line is
delivered, and what is behind it is neither printed nor logged.
-/
theorem exists_refused_line
    {channel : Channel}
    {events : List Event}
    (fails : (deliver channel events).failure? ≠ none) :
    ∃ before label? text later reason,
      events = before ++ .line label? text :: later ∧
        (deliver channel before).failure? = none ∧
        (deliver channel before).channel.writeAll (linePieces label? text) =
          ⟨(deliver channel events).channel, some reason⟩ ∧
        (deliver channel events).records =
          (deliver channel before).records := by
  induction events generalizing channel with
  | nil => exact (fails rfl).elim
  | cons event rest inductionHypothesis =>
      cases event with
      | record entry =>
          obtain
            ⟨before, label?, text, later, reason, shape, delivered, refused,
              records⟩ := inductionHypothesis fails
          exact
            ⟨.record entry :: before, label?, text, later, reason,
              congrArg (.record entry :: ·) shape, delivered, refused,
              congrArg (entry :: ·) records⟩
      | line label? text =>
          rcases outcome : channel.writeAll (linePieces label? text) with
            ⟨after, _ | reason⟩
          · rw [deliver_line_of_taken outcome] at fails ⊢
            rw [Delivery.finding_failure?] at fails
            obtain
              ⟨before, otherLabel?, otherText, later, reason, shape, delivered,
                refused, records⟩ := inductionHypothesis fails
            refine
              ⟨.line label? text :: before, otherLabel?, otherText, later,
                reason, congrArg (.line label? text :: ·) shape, ?_⟩
            rw [deliver_line_of_taken outcome, Delivery.finding_failure?]
            exact ⟨delivered, refused, records⟩
          · rw [deliver_line_of_refused outcome]
            exact
              ⟨[], label?, text, rest, reason, rfl, rfl, outcome, rfl⟩

/-- A device without a limit is given all that is printed, and all is logged. -/
theorem deliver_unlimited
    {device : Device}
    (accepts : device.room? = none)
    (events : List Event) :
    (deliver (.direct device) events).failure? = none ∧
      (deliver (.direct device) events).channel.device.taken.toList =
        device.taken.toList ++ printed events ∧
      (deliver (.direct device) events).records =
        events.filterMap Event.record? ∧
      ((deliver (.direct device) events).found = true ↔
        printed events ≠ []) := by
  obtain ⟨channel, failure⟩ := deliver_direct device events
  have succeeds : (deliver (.direct device) events).failure? = none := by
    simpa [Device.write, accepts, Attempt.done] using failure
  refine ⟨succeeds, ?_, deliver_of_succeeds succeeds⟩
  rw [channel]
  simp [Channel.direct, Device.write, accepts, Attempt.done]

end Output

namespace Search

open Output

/-- A call on a device without a limit prints all that its events print. -/
theorem perform_unlimited
    (search : Search)
    {device : Device}
    (accepts : device.room? = none)
    (call : Call) :
    let delivery := search.perform (.direct device) call
    delivery.failure? = none ∧
      delivery.channel.device.taken.toList =
        device.taken.toList ++ printed (search.events call) ∧
      delivery.records = (search.events call).filterMap Event.record? ∧
      (delivery.found = true ↔ printed (search.events call) ≠ []) := by
  rw [perform_eq_deliver]
  exact deliver_unlimited accepts (search.events call)

end Search

end LineSearch
