import LineSearch.CommandLine.Run
import LineSearch.Proofs.DirectOutput

namespace LineSearch

/-!
# Delivering through a gathering channel

A gathering channel gives its device late what it was given early, and in other
pieces.  What an attempt on it comes to is the device once all that is under way
has been given to it too.  By that measure every operation of the channel does
what giving its bytes to the device at once would do, and a flush leaves nothing
under way.

So a run that gathers its output and flushes it ends with the device in the state
in which a single write of all the output leaves it, and it fails if that write
would fail, however late the refusal is noticed.
-/

namespace Output

namespace Attempt

@[simp] theorem andThen_done (attempt : Attempt α) :
    attempt.andThen .done = attempt := by
  rcases attempt with ⟨state, _ | reason⟩ <;> rfl

/-- What is read off the state in both attempts is read off the state after them. -/
theorem andThen_same
    (read : α → β)
    {value : β}
    {attempt : Attempt α}
    {next : α → Attempt α}
    (before : read attempt.state = value)
    (after : read (next attempt.state).state = value) :
    read (attempt.andThen next).state = value := by
  rcases attempt with ⟨state, _ | reason⟩
  · exact after
  · exact before

end Attempt

namespace Channel

/-- The bytes of an unfinished line that stand before the device. -/
def heldBack (channel : Channel) : List UInt8 :=
  channel.held.toList

/-- All bytes that were given to the channel and not yet to its device. -/
def underWay (channel : Channel) : List UInt8 :=
  channel.heldBack ++ channel.block.toList

/--
What an attempt comes to when the device is given what is pending after it.

What is pending are the bytes under way, or only those held back: where a block is
handed on its bytes are given once more, and would otherwise count twice.
-/
def settle
    (pending : Channel → List UInt8)
    (attempt : Attempt Channel) :
    Attempt Device :=
  (attempt.map Channel.device).andThen (·.write (pending attempt.state))

/-- An attempt that comes to giving the device what was pending, and these bytes behind it. -/
structure Settles
    (pending : Channel → List UInt8)
    (channel : Channel)
    (bytes : List UInt8)
    (attempt : Attempt Channel) : Prop where
  settled : settle pending attempt = channel.device.write (pending channel ++ bytes)
  buffered : attempt.state.buffered = channel.buffered

section Settles

variable {pending : Channel → List UInt8}
variable {channel : Channel}
variable {bytes more : List UInt8}

/-- Bytes that are put behind those pending are not lost. -/
theorem settles_done
    {after : Channel}
    (sameDevice : after.device = channel.device)
    (sameWay : after.buffered = channel.buffered)
    (kept : pending after = pending channel ++ bytes) :
    Settles pending channel bytes (.done after) := by
  refine ⟨?_, sameWay⟩
  rw [← sameDevice, ← kept]
  rfl

/-- What is given in two attempts settles when each of them does. -/
theorem Settles.andThen
    {attempt : Attempt Channel}
    {next : Channel → Attempt Channel}
    (first : Settles pending channel bytes attempt)
    (second : Settles pending attempt.state more (next attempt.state)) :
    Settles pending channel (bytes ++ more) (attempt.andThen next) := by
  have buffered :=
    Attempt.andThen_same Channel.buffered first.buffered
      (second.buffered.trans first.buffered)
  refine ⟨?_, buffered⟩
  rw [← List.append_assoc, Device.write_append, ← first.settled]
  rcases attempt with ⟨after, _ | reason⟩
  · exact second.settled.trans (after.device.write_append _ _)
  · rfl

end Settles

/-- The device is given what was held back and the bytes behind it, and nothing is left. -/
theorem release_settles
    (channel : Channel)
    (bytes : List UInt8) :
    Settles heldBack channel bytes (channel.release bytes) := by
  have nothingLeft (device : Device) : device.write [] = .done device :=
    device.write_nil
  refine ⟨?_, rfl⟩
  simp only [settle, release, heldBack, Attempt.map, nothingLeft]
  exact Attempt.andThen_done _

/-- An unfinished line stays in front of the device, or goes to it when it is long. -/
theorem hold_settles
    (channel : Channel)
    (bytes : List UInt8) :
    Settles heldBack channel bytes (channel.hold bytes) := by
  unfold hold
  split
  · exact settles_done rfl rfl (by simp [heldBack])
  split
  · have released := channel.release_settles []
    exact released.andThen (settles_done rfl rfl (by simp [heldBack, release]))
  · exact channel.release_settles bytes

/-- What is cut at a line end is all there was. -/
theorem cutAtLineEnd_append (bytes : List UInt8) :
    (cutAtLineEnd bytes).1 ++ (cutAtLineEnd bytes).2 = bytes := by
  simp [cutAtLineEnd]

theorem handOn_settles
    (channel : Channel)
    (bytes : List UInt8) :
    Settles heldBack channel bytes (channel.handOn bytes) := by
  have whole := cutAtLineEnd_append bytes
  unfold handOn
  split
  · next unfinished cut =>
    rw [cut] at whole
    subst whole
    exact channel.hold_settles unfinished
  · next finished unfinished _ cut =>
    rw [cut] at whole
    subst whole
    exact (channel.release_settles finished).andThen (hold_settles _ unfinished)

/-- An unfinished line does not go through the block. -/
theorem block_hold
    (channel : Channel)
    (bytes : List UInt8) :
    (channel.hold bytes).state.block = channel.block := by
  unfold hold
  split
  · rfl
  split
  · exact Attempt.andThen_same Channel.block rfl rfl
  · rfl

/-- What is handed on does not go through the block. -/
theorem block_handOn
    (channel : Channel)
    (bytes : List UInt8) :
    (channel.handOn bytes).state.block = channel.block := by
  unfold handOn
  split
  · exact channel.block_hold _
  · exact Attempt.andThen_same Channel.block rfl (block_hold _ _)

/-- Without a block, what is under way is what is held back. -/
theorem underWay_of_empty
    {channel : Channel}
    (empty : channel.block = #[]) :
    channel.underWay = channel.heldBack := by
  simp [underWay, empty]

/-- A block that is handed on is empty afterwards. -/
theorem underWay_spill (channel : Channel) :
    channel.spill.state.underWay = channel.spill.state.heldBack :=
  underWay_of_empty rfl

/-- What was in a block that is handed on is not lost. -/
theorem spill_settles (channel : Channel) :
    Settles underWay channel [] channel.spill := by
  have handedOn := channel.handOn_settles channel.block.toList
  refine ⟨?_, handedOn.buffered⟩
  rw [settle, underWay_spill, List.append_nil]
  exact handedOn.settled

/-- A piece is put into the block, or handed on when it is large and finds the block empty. -/
theorem place_settles
    {channel : Channel}
    {piece : List UInt8}
    (finds : ¬ piece.length < blockSize → channel.block = #[]) :
    Settles underWay channel piece
      (if piece.length < blockSize then
        .done { channel with block := channel.block ++ piece }
      else
        channel.handOn piece) := by
  split
  · exact settles_done rfl rfl (by simp [underWay, heldBack])
  · next large =>
    have empty := finds large
    have stillEmpty := (channel.block_handOn piece).trans empty
    obtain ⟨settled, buffered⟩ := channel.handOn_settles piece
    refine ⟨?_, buffered⟩
    rw [settle, underWay_of_empty stillEmpty, underWay_of_empty empty]
    exact settled

/-- A gathered piece is under way behind what was so already. -/
theorem gather_settles
    (channel : Channel)
    (piece : List UInt8) :
    Settles underWay channel piece (channel.gather piece) := by
  unfold gather
  by_cases fits : channel.block.size + piece.length ≤ blockSize
  · have ready : Settles underWay channel [] (.done channel) :=
      settles_done rfl rfl (List.append_nil _).symm
    have finds (large : ¬ piece.length < blockSize) : channel.block = #[] :=
      Array.eq_empty_of_size_eq_zero (by omega)
    simp only [if_pos fits]
    exact ready.andThen (place_settles finds)
  · simp only [if_neg fits]
    exact channel.spill_settles.andThen (place_settles fun _ => rfl)

/-- All pieces given to a gathering channel go to its device in the end. -/
theorem writeAll_settles
    {channel : Channel}
    (gathers : channel.buffered = true)
    (pieces : List (List UInt8)) :
    Settles underWay channel pieces.flatten (channel.writeAll pieces) := by
  -- Each piece leaves the channel a gathering one, so the next is gathered too.
  induction pieces generalizing channel with
  | nil => exact settles_done rfl rfl (List.append_nil _).symm
  | cons piece rest inductionHypothesis =>
      have first := channel.gather_settles piece
      rw [writeAll, write, if_pos gathers]
      exact first.andThen (inductionHypothesis (first.buffered.trans gathers))

/-- Before the device is flushed, it is given all that is under way. -/
theorem spill_release (channel : Channel) :
    (channel.spill.andThen (·.release [])).map Channel.device =
      channel.device.write channel.underWay := by
  have settled := channel.spill_settles.settled
  rw [List.append_nil, settle, underWay_spill] at settled
  rw [← settled]
  rcases channel.spill with ⟨after, _ | reason⟩
  · simp [Attempt.map, Attempt.andThen, release, heldBack]
  · rfl

/-- A flush gives the device all that is under way, and then flushes it. -/
theorem flush_gives_all_under_way (channel : Channel) :
    channel.flush.map Channel.device =
      (channel.device.write channel.underWay).andThen Device.flush := by
  rw [← spill_release]
  exact Attempt.map_andThen Channel.device fun _ => rfl

end Channel

/-- Delivering events is giving all that they print to the channel. -/
theorem deliver_settles
    {channel : Channel}
    (gathers : channel.buffered = true)
    (events : List Event) :
    ∃ attempt : Attempt Channel,
      Channel.Settles Channel.underWay channel (printed events) attempt ∧
        (deliver channel events).channel = attempt.state ∧
        (deliver channel events).failure? = attempt.failure?.map .write := by
  induction events generalizing channel with
  | nil =>
      exact
        ⟨.done channel, Channel.settles_done rfl rfl (List.append_nil _).symm,
          rfl, rfl⟩
  | cons event rest inductionHypothesis =>
      cases event with
      | record entry => exact inductionHypothesis gathers
      | line label? text =>
          have first := Channel.writeAll_settles gathers (linePieces label? text)
          obtain ⟨attempt, second, after, failure⟩ :=
            inductionHypothesis (first.buffered.trans gathers)
          -- Behind a line that is refused, `andThen` leaves the other attempt out.
          have both :
              Channel.Settles Channel.underWay channel
                (printed (.line label? text :: rest))
                ((channel.writeAll (linePieces label? text)).andThen
                  fun _ => attempt) :=
            first.andThen second
          refine ⟨_, both, ?_⟩
          rcases outcome : channel.writeAll (linePieces label? text) with
            ⟨taken, _ | reason⟩
          · rw [deliver_line_of_taken outcome, Delivery.finding_channel,
              Delivery.finding_failure?]
            rw [outcome] at after failure
            exact ⟨after, failure⟩
          · rw [deliver_line_of_refused outcome]
            exact ⟨rfl, rfl⟩

end Output

namespace CommandLine

open Output

/-- What comes of a delivery when its channel is flushed, which is done unless it failed. -/
def flushed (delivery : Delivery) : Delivery :=
  match delivery.result with
  | .error _ => delivery
  | .ok found =>
      let flushed := delivery.channel.flush
      {
        delivery with
        channel := flushed.state
        result :=
          match flushed.failure? with
          | none => .ok found
          | some reason => .error (.flush reason)
      }

section PerformAndFlush

variable {device : Device}
variable {search : Search}
variable {call : Search.Call}

/-- A run delivers the events of its call and flushes the channel behind them. -/
theorem performAndFlush_eq_flushed
    (device : Device)
    (search : Search)
    (call : Search.Call) :
    performAndFlush device search call =
      flushed (deliver (.gathering device) (search.events call)) := by
  simp only [performAndFlush, Action.deliver, Action.run_bind,
    search.action_eq_happen, run_happen]
  generalize deliver (.gathering device) (search.events call) = delivery
  rcases delivery with ⟨records, channel, failure | found⟩
  · simp [flushed]
  · simp only [flushed, Action.run_flush, Action.run_check, finish]
    rcases channel.flush with ⟨after, _ | reason⟩
    · simp only [Option.map_none, Action.run_pure, Array.empty_append]
    · simp

/--
A run that gathers its output leaves the device as one write of all the output
would, and fails exactly if that write or the flush behind it would.
-/
theorem performAndFlush_settles
    (device : Device)
    (search : Search)
    (call : Search.Call) :
    let written := device.write (printed (search.events call))
    let delivery := performAndFlush device search call
    delivery.channel.device = written.state ∧
      delivery.failure?.isSome =
        (written.andThen Device.flush).failure?.isSome := by
  intro written delivery
  have gathers : (Channel.gathering device).buffered = true := rfl
  obtain ⟨attempt, ⟨settled, -⟩, channel, failure⟩ :=
    deliver_settles gathers (search.events call)
  have same : Channel.settle Channel.underWay attempt = written := settled
  have performed : delivery = _ := performAndFlush_eq_flushed device search call
  rw [performed]
  generalize deliver (.gathering device) (search.events call) = delivered
    at channel failure
  rcases delivered with ⟨records, last, refused | found⟩
  · rcases attempt with ⟨after, _ | reason⟩
    · cases failure
    · have refused : written = ⟨after.device, some reason⟩ := same.symm
      cases channel
      rw [refused]
      exact ⟨rfl, rfl⟩
  · rcases attempt with ⟨after, _ | reason⟩
    · have flush :
          after.flush.map Channel.device = written.andThen Device.flush := by
        rw [after.flush_gives_all_under_way, ← same]
        rfl
      have unchanged : (written.andThen Device.flush).state = written.state :=
        Attempt.andThen_same id rfl rfl
      cases channel
      rw [← unchanged, ← flush]
      refine ⟨rfl, ?_⟩
      simp only [flushed, Delivery.failure?]
      rcases last.flush with ⟨_, _ | _⟩ <;> rfl
    · cases failure

/-- A run that does not fail has found something when something was printed. -/
theorem found_performAndFlush_iff
    (succeeds : (performAndFlush device search call).failure? = none) :
    (performAndFlush device search call).found = true ↔
      printed (search.events call) ≠ [] := by
  rw [performAndFlush_eq_flushed] at succeeds ⊢
  have finds
      (delivers :
        (deliver (.gathering device) (search.events call)).failure? = none) :
      (deliver (.gathering device) (search.events call)).found = true ↔
        printed (search.events call) ≠ [] :=
    (deliver_of_succeeds delivers).2
  generalize deliver (.gathering device) (search.events call) = delivered
    at succeeds finds ⊢
  rcases delivered with ⟨records, last, failure | found⟩
  · cases succeeds
  · rw [← finds rfl]
    rcases refused : last.flush.failure? with _ | reason
    · simp only [flushed, refused, Delivery.found]
    · simp [flushed, refused, Delivery.failure?] at succeeds

end PerformAndFlush

end CommandLine

end LineSearch
