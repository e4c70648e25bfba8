import LineSearch.Proofs.DirectOutput

namespace LineSearch

/-!
# A search on a device with little room

Calls share one device that takes so many bytes.  What is left of the room when a
call begins decides all: the call prints what it would print anyway, up to where
the room ends, and fails when that is not the end of it.  Nothing else of earlier
calls, failed or not, shows in a later one.
-/

namespace Output.Device

/-- A device that takes so many bytes and refuses the others for this reason. -/
def limited
    (limit : Nat)
    (refusal : String)
    (flushRefusal? : Option String) :
    Device :=
  ⟨#[], some limit, refusal, flushRefusal?⟩

/-- What of its room is taken and what is left is the limit of the device. -/
structure LimitedTo
    (limit : Nat)
    (refusal : String)
    (room : Nat)
    (device : Device) : Prop where
  left : device.room? = some room
  whole : device.taken.size + room = limit
  refuses : device.refusal = refusal

theorem limited_limitedTo
    (limit : Nat)
    (refusal : String)
    (flushRefusal? : Option String) :
    LimitedTo limit refusal limit (limited limit refusal flushRefusal?) :=
  ⟨rfl, Nat.zero_add limit, rfl⟩

section Limited

variable {limit room : Nat}
variable {refusal : String}
variable {device : Device}

theorem LimitedTo.taken_write
    (limited : LimitedTo limit refusal room device)
    (bytes : List UInt8) :
    (device.write bytes).state.taken.toList =
      device.taken.toList ++ bytes.take room := by
  simp [write, limited.left]

theorem LimitedTo.failure?_write
    (limited : LimitedTo limit refusal room device)
    (bytes : List UInt8) :
    (device.write bytes).failure? =
      if room < bytes.length then some refusal else none := by
  by_cases fits : bytes.length ≤ room
  · simp [write, limited.left, fits, Nat.not_lt.mpr fits]
  · simp [write, limited.left, limited.refuses, fits, Nat.lt_of_not_le fits]

/-- After any bytes, taken or refused, the limit is what it was. -/
theorem LimitedTo.write
    (limited : LimitedTo limit refusal room device)
    (bytes : List UInt8) :
    LimitedTo limit refusal (room - bytes.length)
      (device.write bytes).state := by
  have size :
      (device.write bytes).state.taken.size =
        device.taken.size + min room bytes.length := by
    rw [← Array.length_toList, limited.taken_write]
    simp
  obtain ⟨left, whole, refuses⟩ := limited
  refine ⟨by simp [Device.write, left], ?_, by simp [Device.write, left, refuses]⟩
  omega

end Limited

end Output.Device

namespace Output

/-- A delivery that fails on a limited device ends inside a line, where the room ends. -/
theorem deliver_cut
    {limit room : Nat}
    {refusal : String}
    {device : Device}
    (limited : device.LimitedTo limit refusal room)
    {events : List Event}
    (fails : (deliver (.direct device) events).failure? ≠ none) :
    ∃ delivered label? text undelivered,
      events = delivered ++ .line label? text :: undelivered ∧
        (deliver (.direct device) events).records =
          delivered.filterMap Event.record? ∧
        (printed events).take room =
          printed delivered ++
            (Event.line label? text).bytes.take
              (room - (printed delivered).length) ∧
        (printed delivered).length ≤ room ∧
        room <
          (printed delivered).length +
            (Event.line label? text).bytes.length := by
  obtain
    ⟨delivered, label?, text, undelivered, reason, shape, succeeds, refused,
      records⟩ := exists_refused_line fails
  obtain ⟨channel, failure⟩ := deliver_direct device delivered
  have fits : (printed delivered).length ≤ room := by
    apply Nat.le_of_not_lt
    intro tooMuch
    rw [limited.failure?_write, if_pos tooMuch, succeeds] at failure
    cases failure
  have overflows :
      room - (printed delivered).length <
        (Event.line label? text).bytes.length := by
    apply Decidable.byContradiction
    intro within
    rw [channel, Channel.writeAll_direct] at refused
    have outcome := congrArg Attempt.failure? refused
    have stillLimited := limited.write (printed delivered)
    rw [Event.bytes] at within
    rw [Attempt.map_failure?, stillLimited.failure?_write, if_neg within]
      at outcome
    cases outcome
  refine
    ⟨delivered, label?, text, undelivered, shape,
      records.trans (deliver_of_succeeds succeeds).1, ?_, fits, by omega⟩
  rw [shape, printed_append, printed_cons, List.take_append,
    List.take_of_length_le fits, List.take_append_of_le_length]
  exact Nat.le_of_lt overflows

end Output

namespace Search

open Output

/-- The channel that calls leave when they are made one after the other. -/
def channelAfter
    (search : Search)
    (channel : Channel)
    (calls : List Call) :
    Channel :=
  calls.foldl (fun channel call => (search.perform channel call).channel) channel

/-- What a call prints on a device that takes everything. -/
def wholeOutput (search : Search) (call : Call) : List UInt8 :=
  (search.perform (.direct .unlimited) call).channel.device.taken.toList

theorem wholeOutput_eq
    (search : Search)
    (call : Call) :
    search.wholeOutput call = printed (search.events call) := by
  obtain ⟨channel, _⟩ := deliver_direct .unlimited (search.events call)
  rw [wholeOutput, perform_eq_deliver, channel]
  simp [Channel.direct, Device.write, Device.unlimited, Attempt.done]

/-- A call is performed on the channel that the calls before it leave. -/
theorem getElem?_performAll
    (search : Search)
    (channel : Channel)
    (earlier : List Call)
    (call : Call)
    (later : List Call) :
    (search.performAll channel (earlier ++ call :: later))[earlier.length]? =
      some (search.perform (search.channelAfter channel earlier) call) := by
  induction earlier generalizing channel with
  | nil => rfl
  | cons first rest inductionHypothesis =>
      exact inductionHypothesis (search.perform channel first).channel

/-- A call leaves a limited device limited. -/
theorem perform_limited
    (search : Search)
    {limit room : Nat}
    {refusal : String}
    {device : Device}
    (limited : device.LimitedTo limit refusal room)
    (call : Call) :
    ∃ after,
      (search.perform (.direct device) call).channel = .direct after ∧
        after.LimitedTo limit refusal
          (room - (search.wholeOutput call).length) := by
  rw [wholeOutput_eq, perform_eq_deliver]
  exact
    ⟨_, (deliver_direct device (search.events call)).1, limited.write _⟩

/-- Any calls leave a limited device limited. -/
theorem channelAfter_limited
    (search : Search)
    {limit room : Nat}
    {refusal : String}
    {device : Device}
    (limited : device.LimitedTo limit refusal room)
    (calls : List Call) :
    ∃ after left,
      search.channelAfter (.direct device) calls = .direct after ∧
        after.LimitedTo limit refusal left := by
  induction calls generalizing device room with
  | nil => exact ⟨device, room, rfl, limited⟩
  | cons call rest inductionHypothesis =>
      obtain ⟨after, same, stillLimited⟩ := search.perform_limited limited call
      rw [channelAfter, List.foldl_cons, same]
      exact inductionHypothesis stillLimited

/--
Calls on one limited device, whatever calls came before and failed or not.

A call prints the beginning of its whole output for which there is room, fails
exactly when that is not all of it, and otherwise reports what it prints.  A
failing call has delivered all in front of one line and a part of that line.
-/
theorem output_failures_truncate
    (search : Search)
    (limit : Nat)
    (refusal : String)
    (flushRefusal? : Option String)
    (earlier : List Call)
    (call : Call)
    (later : List Call) :
    let start := Channel.direct (.limited limit refusal flushRefusal?)
    let before := search.channelAfter start earlier
    let whole := search.wholeOutput call
    ∃ room delivery,
      before.device.room? = some room ∧
        before.device.taken.size + room = limit ∧
        (search.performAll start (earlier ++ call :: later))[earlier.length]? =
          some delivery ∧
        delivery.channel.device.taken.toList =
          before.device.taken.toList ++ whole.take room ∧
        delivery.failure? =
          (if room < whole.length then some (.write refusal) else none) ∧
        (delivery.failure? = none →
          (delivery.found = true ↔ whole ≠ [])) ∧
        (delivery.failure? ≠ none →
          ∃ delivered label? text undelivered,
            search.events call =
                delivered ++ .line label? text :: undelivered ∧
              delivery.records = delivered.filterMap Event.record? ∧
              whole.take room =
                printed delivered ++
                  (Event.line label? text).bytes.take
                    (room - (printed delivered).length) ∧
              (printed delivered).length ≤ room ∧
              room <
                (printed delivered).length +
                  (Event.line label? text).bytes.length) := by
  intro start before whole
  obtain ⟨device, room, same, limited⟩ :=
    search.channelAfter_limited
      (Device.limited_limitedTo limit refusal flushRefusal?) earlier
  have beforeShape : before = .direct device := same
  have wholeShape : whole = printed (search.events call) :=
    search.wholeOutput_eq call
  obtain ⟨channel, failure⟩ := deliver_direct device (search.events call)
  rw [limited.failure?_write, ← wholeShape] at failure
  have fails :
      (search.perform before call).failure? =
        if room < whole.length then some (.write refusal) else none := by
    rw [beforeShape, perform_eq_deliver, failure]
    split <;> rfl
  refine
    ⟨room, _, ?_, ?_, search.getElem?_performAll start earlier call later, ?_,
      fails, ?_, ?_⟩
  · rw [beforeShape]
    exact limited.left
  · rw [beforeShape]
    exact limited.whole
  · rw [show search.channelAfter start earlier = .direct device from same,
      beforeShape, perform_eq_deliver, channel, wholeShape]
    exact limited.taken_write _
  · rw [wholeShape, perform_eq_deliver]
    exact fun succeeds => (deliver_of_succeeds succeeds).2
  · intro failed
    rw [show search.channelAfter start earlier = .direct device from same,
      perform_eq_deliver] at failed ⊢
    rw [wholeShape]
    exact deliver_cut limited failed

end Search

end LineSearch
