import LineSearch.Search.Call

namespace LineSearch

/-!
# What happens in a search

A search comes down to a list of events: lines to print and records to log, in
the order in which they come about.  Which events there are depends on the files
alone, not on the output that the lines go to.

The loops of a search stand inside each other, and a refused line ends them all.
What they do together is to deliver the events one after the other, up to the
first line that is refused.
-/

open Output

/-- One thing that happens in a search. -/
inductive Event where
  /-- A line to print, behind its label if it has one. -/
  | line (label? : Option String) (text : String)
  | record (record : Log.Record)
  deriving Repr, DecidableEq

namespace Event

/-- Let an event happen; a line is something found. -/
def action : Event → Action Bool
  | .line label? text => do
      Action.writeLine label? text
      pure true
  | .record entry => Action.leaveOut entry

end Event

namespace Output

namespace Action

section FoundAmong

variable (search : α → Action Bool)

theorem foundAmong_nil : foundAmong [] search = pure false :=
  rfl

/-- What the loop has found before an item is found whatever comes of the others. -/
theorem foldlM_found
    (found : Bool)
    (items : List α) :
    items.foldlM
        (fun found item => do
          let foundHere ← search item
          pure (found || foundHere))
        found =
      (found || ·) <$> foundAmong items search := by
  induction items generalizing found with
  | nil => simp [foundAmong]
  | cons item rest inductionHypothesis =>
      rw [foundAmong, List.foldlM_cons, List.foldlM_cons]
      simp only [inductionHypothesis, bind_assoc, pure_bind, map_bind,
        Functor.map_map, Bool.or_assoc, Bool.false_or]

theorem foundAmong_cons
    (item : α)
    (rest : List α) :
    foundAmong (item :: rest) search = (do
      let found ← search item
      let foundLater ← foundAmong rest search
      pure (found || foundLater)) := by
  rw [foundAmong, List.foldlM_cons]
  simp only [foldlM_found, bind_assoc, pure_bind, Bool.false_or,
    map_eq_pure_bind]

/-- Items can be searched at once or in two parts. -/
theorem foundAmong_append
    (first second : List α) :
    foundAmong (first ++ second) search = (do
      let found ← foundAmong first search
      let foundLater ← foundAmong second search
      pure (found || foundLater)) := by
  induction first with
  | nil => simp only [List.nil_append, foundAmong_nil, pure_bind, Bool.false_or, bind_pure]
  | cons item rest inductionHypothesis =>
      simp only [List.cons_append, foundAmong_cons, inductionHypothesis,
        bind_assoc, pure_bind, Bool.or_assoc]

theorem foundAmong_singleton (item : α) :
    foundAmong [item] search = search item := by
  simp [foundAmong_cons, foundAmong_nil]

/-- A search in items that are themselves searched item by item is one search. -/
theorem foundAmong_flatMap
    (items : List β)
    (parts : β → List α) :
    foundAmong (items.flatMap parts) search =
      foundAmong items fun item => foundAmong (parts item) search := by
  induction items with
  | nil => rfl
  | cons item rest inductionHypothesis =>
      rw [List.flatMap_cons, foundAmong_append, foundAmong_cons,
        inductionHypothesis]

theorem foundAmong_map
    (items : List β)
    (part : β → α) :
    foundAmong (items.map part) search =
      foundAmong items fun item => search (part item) :=
  List.foldlM_map

end FoundAmong

end Action

/-- Let events happen one after the other, and tell whether a line is among them. -/
def happen (events : List Event) : Action Bool :=
  Action.foundAmong events Event.action

/-- A record is logged before what comes behind it. -/
theorem happen_record_cons
    (record : Log.Record)
    (rest : List Event) :
    happen (.record record :: rest) = (do
      Action.log record
      happen rest) := by
  simp only [happen, Action.foundAmong_cons, Event.action, Action.leaveOut,
    bind_assoc, pure_bind, Bool.false_or, bind_pure]

/-- A line is printed before what comes behind it, and is something found. -/
theorem happen_line_cons
    (label? : Option String)
    (text : String)
    (rest : List Event) :
    happen (.line label? text :: rest) = (do
      Action.writeLine label? text
      let found ← happen rest
      pure (true || found)) := by
  simp only [happen, Action.foundAmong_cons, Event.action, bind_assoc,
    pure_bind]

theorem happen_append
    (first second : List Event) :
    happen (first ++ second) = (do
      let found ← happen first
      let foundLater ← happen second
      pure (found || foundLater)) :=
  Action.foundAmong_append Event.action first second

theorem happen_flatMap
    (items : List α)
    (parts : α → List Event) :
    happen (items.flatMap parts) =
      Action.foundAmong items fun item => happen (parts item) :=
  Action.foundAmong_flatMap Event.action items parts

theorem happen_singleton (event : Event) :
    happen [event] = event.action :=
  Action.foundAmong_singleton Event.action event

/-- Records are logged one after the other before what comes behind them. -/
theorem happen_records_append
    (records : List Log.Record)
    (rest : List Event) :
    happen (records.map .record ++ rest) = (do
      records.forM Action.log
      happen rest) := by
  induction records with
  | nil => rfl
  | cons record later inductionHypothesis =>
      rw [List.map_cons, List.cons_append, happen_record_cons,
        inductionHypothesis]
      exact (bind_assoc _ _ _).symm

/-- The delivery in which something has been found besides, unless it failed. -/
def Delivery.finding (delivery : Delivery) : Delivery :=
  { delivery with result := delivery.result.map fun _ => true }

namespace Delivery

@[simp] theorem finding_channel (delivery : Delivery) :
    delivery.finding.channel = delivery.channel :=
  rfl

@[simp] theorem finding_failure? (delivery : Delivery) :
    delivery.finding.failure? = delivery.failure? := by
  rcases delivery with ⟨records, channel, _ | _⟩ <;> rfl

theorem found_finding
    {delivery : Delivery}
    (succeeds : delivery.failure? = none) :
    delivery.finding.found = true := by
  rcases delivery with ⟨records, channel, failure | found⟩
  · cases succeeds
  · rfl

end Delivery

/-- Deliver events one after the other, up to the first line refused. -/
def deliver (channel : Channel) : List Event → Delivery
  | [] => ⟨[], channel, .ok false⟩
  | .record record :: rest =>
      let later := deliver channel rest
      { later with records := record :: later.records }
  | .line label? text :: rest =>
      match channel.writeAll (linePieces label? text) with
      | ⟨channel, some reason⟩ => ⟨[], channel, .error (.write reason)⟩
      | ⟨channel, none⟩ => (deliver channel rest).finding

/-- Once a line is taken, the delivery goes on behind it. -/
theorem deliver_line_of_taken
    {channel after : Channel}
    {label? : Option String}
    {text : String}
    (taken : channel.writeAll (linePieces label? text) = ⟨after, none⟩)
    (rest : List Event) :
    deliver channel (.line label? text :: rest) =
      (deliver after rest).finding := by
  rw [deliver, taken]

/-- A line that is refused is the end of the delivery. -/
theorem deliver_line_of_refused
    {channel after : Channel}
    {label? : Option String}
    {text reason : String}
    (refused :
      channel.writeAll (linePieces label? text) = ⟨after, some reason⟩)
    (rest : List Event) :
    deliver channel (.line label? text :: rest) =
      ⟨[], after, .error (.write reason)⟩ := by
  rw [deliver, refused]

/-- Events that happen in a session are delivered on its channel, and logged behind its records. -/
theorem run_happen
    (channel : Channel)
    (records : Array Log.Record)
    (events : List Event) :
    (happen events).run.run ⟨channel, records⟩ =
      ((deliver channel events).result,
        ⟨(deliver channel events).channel,
          records ++ (deliver channel events).records.toArray⟩) := by
  induction events generalizing channel records with
  | nil => exact congrArg (Except.ok false, Session.mk channel ·) (by simp [deliver])
  | cons event rest inductionHypothesis =>
      cases event with
      | record record =>
          rw [happen_record_cons, Action.run_bind, Action.run_log]
          simp [inductionHypothesis, deliver]
      | line label? text =>
          rw [happen_line_cons, Action.run_bind]
          rcases outcome : channel.writeAll (linePieces label? text) with
            ⟨after, _ | reason⟩
          · rw [deliver_line_of_taken outcome,
              Action.run_writeLine_of_taken ⟨channel, records⟩ outcome]
            simp only [Action.run_bind, inductionHypothesis, Delivery.finding]
            cases (deliver after rest).result <;> rfl
          · rw [deliver_line_of_refused outcome,
              Action.run_writeLine_of_refused ⟨channel, records⟩ outcome]
            simp

/-- Events that happen on a channel are delivered on it. -/
theorem deliver_happen
    (channel : Channel)
    (events : List Event) :
    (happen events).deliver channel = deliver channel events := by
  simp [Action.deliver, run_happen]

end Output

namespace Search

open Files

/-- What happens when a source is searched that goes by this label, or by none. -/
def sourceEvents
    (search : Search)
    (label? : Option String)
    (source : Source) :
    List Event :=
  (source.lines.filter search.pattern.isMatch).map
      (.line (search.printedLabel? label?)) ++
    (source.failure?.map fun reason =>
      Event.record (stoppedReading label? reason)).toList

/-- What happens when the file at a path is searched. -/
def fileEvents (search : Search) (path : String) : List Event :=
  match Source.atPath search.files path with
  | .error reason => [.record (skipped path reason)]
  | .ok source => .record (searching path) :: search.sourceEvents (some path) source

/-- What happens when the listing of the directory at a path meets failures. -/
def listingEvents (path : String) (access : Access) : List Event :=
  (access.failures.map (entrySkipped path)).map .record

mutual

/-- What happens at an entry met in a directory, known by its path. -/
def entryEvents (search : Search) (path : String) : Entry → List Event
  | .directory access entries =>
      match readDirectory search.files path with
      | .error reason => [.record (directorySkipped path reason)]
      | .ok _ =>
          listingEvents path access ++
            (inNameOrder (access.listed (eventsByName search path entries))).flatMap
              (·.2)
  | .file .. | .link _ =>
      if isRegular search.files path then
        search.fileEvents path
      else
        [.record (notRegular path)]
  | .hidden reason => [.record (skipped path reason)]

/-- What happens at each of these entries of the directory at a path, by name. -/
def eventsByName
    (search : Search)
    (path : String) :
    List (String × Entry) → List (String × List Event)
  | [] => []
  | (name, inner) :: rest =>
      (name, entryEvents search (Path.join path name) inner) ::
        eventsByName search path rest

end

/-- What happens when a directory is searched with all that is below it. -/
def directoryEvents (search : Search) (path : String) : List Event :=
  match readDirectory search.files path with
  | .error reason => [.record (directorySkipped path reason)]
  | .ok directory => search.entryEvents path directory.entry

/-- What happens when a path is searched that may be a file or a directory. -/
def operandEvents (search : Search) (path : String) : List Event :=
  match resolve search.files path with
  | .error reason => [.record (skipped path reason)]
  | .ok (.file ..) => search.fileEvents path
  | .ok (.directory _) =>
      if search.settings.recursive then
        search.directoryEvents path
      else
        [.record (directoryNotSearched path)]

/-- What happens in a call. -/
def events (search : Search) : Call → List Event
  | .operands paths => paths.flatMap search.operandEvents
  | .operand path => search.operandEvents path
  | .directory path => search.directoryEvents path
  | .file path => search.fileEvents path
  | .source label? source => search.sourceEvents label? source

section Happen

variable (search : Search)

theorem leaveOut_eq_happen (record : Log.Record) :
    Action.leaveOut record = happen [.record record] :=
  (happen_singleton (.record record)).symm

/-- The lines of a source are looked at one after the other, and those that match are printed. -/
theorem foundAmong_line
    (label? : Option String)
    (texts : List String) :
    Action.foundAmong texts (search.line label?) =
      happen
        ((texts.filter search.pattern.isMatch).map
          (.line (search.printedLabel? label?))) := by
  induction texts with
  | nil => rfl
  | cons text rest inductionHypothesis =>
      rw [Action.foundAmong_cons, inductionHypothesis, List.filter_cons]
      cases isMatch : search.pattern.isMatch text with
      | true =>
          simp only [line, isMatch, if_true, List.map_cons, happen_line_cons,
            bind_assoc, pure_bind]
      | false =>
          simp only [line, isMatch, Bool.false_eq_true, if_false, pure_bind,
            Bool.false_or, bind_pure]

theorem source_eq_happen
    (label? : Option String)
    (source : Source) :
    search.source label? source =
      happen (search.sourceEvents label? source) := by
  rw [Search.source, sourceEvents, happen_append, foundAmong_line]
  cases source.failure? with
  | none => simp [happen, Action.foundAmong_nil]
  | some reason =>
      simp [happen_singleton, Event.action, Action.leaveOut]

theorem file_eq_happen (path : String) :
    search.file path = happen (search.fileEvents path) := by
  unfold file fileEvents
  cases Source.atPath search.files path with
  | error reason => exact leaveOut_eq_happen _
  | ok source => simp only [source_eq_happen, happen_record_cons]

/-- Sorting by name does not look at what goes by the names. -/
theorem inNameOrder_map
    (into : String × α → β)
    (byName : List (String × α)) :
    inNameOrder (byName.map fun named => (named.1, into named)) =
      (inNameOrder byName).map fun named => (named.1, into named) := by
  rw [inNameOrder, inNameOrder, List.map_mergeSort]
  exact fun _ _ _ _ => rfl

theorem listed_map
    (access : Access)
    (into : α → β)
    (entries : List α) :
    access.listed (entries.map into) = (access.listed entries).map into := by
  cases access <;> simp [Access.listed, List.map_take]

mutual

/-- The loops of a walk let happen what happens at an entry and below it. -/
theorem entry_eq_happen
    (path : String) :
    ∀ entry : Entry,
      search.entry path entry = happen (search.entryEvents path entry)
  | .directory access entries => by
      rw [Search.entry, entryEvents]
      cases readDirectory search.files path with
      | error reason => exact leaveOut_eq_happen _
      | ok directory =>
          simp only [entriesByName_eq_happen path entries, listed_map,
            inNameOrder_map fun named => happen named.2,
            Action.foundAmong_map, listingEvents, happen_records_append,
            happen_flatMap, List.forM_eq_forM, List.forM_map]
  | .file .. | .link _ => by
      rw [Search.entry, entryEvents]
      split
      · exact search.file_eq_happen path
      · exact leaveOut_eq_happen _
  | .hidden reason => leaveOut_eq_happen _

/-- Each entry is searched by letting happen what happens at it. -/
theorem entriesByName_eq_happen
    (path : String) :
    ∀ entries : List (String × Entry),
      search.entriesByName path entries =
        (search.eventsByName path entries).map fun named =>
          (named.1, happen named.2)
  | [] => rfl
  | (name, inner) :: rest => by
      rw [entriesByName, eventsByName, List.map_cons,
        entry_eq_happen (Path.join path name) inner,
        entriesByName_eq_happen path rest]

end

theorem directory_eq_happen (path : String) :
    search.directory path = happen (search.directoryEvents path) := by
  unfold directory directoryEvents
  cases readDirectory search.files path with
  | error reason => exact leaveOut_eq_happen _
  | ok directory => exact search.entry_eq_happen path directory.entry

theorem operand_eq_happen (path : String) :
    search.operand path = happen (search.operandEvents path) := by
  unfold operand operandEvents
  cases resolve search.files path with
  | error reason => exact leaveOut_eq_happen _
  | ok reached =>
      cases reached with
      | file kind content => exact search.file_eq_happen path
      | directory directory =>
          simp only
          split
          · exact search.directory_eq_happen path
          · exact leaveOut_eq_happen _

/-- What is done in a call is to let happen what happens in it. -/
theorem action_eq_happen (call : Call) :
    search.action call = happen (search.events call) := by
  cases call with
  | operands paths =>
      rw [events, happen_flatMap]
      exact
        congrArg (Action.foundAmong paths) (funext search.operand_eq_happen)
  | operand path => exact search.operand_eq_happen path
  | directory path => exact search.directory_eq_happen path
  | file path => exact search.file_eq_happen path
  | source label? source => exact search.source_eq_happen label? source

/-- A call delivers its events: the loops of a search come to that one loop. -/
theorem perform_eq_deliver
    (channel : Channel)
    (call : Call) :
    search.perform channel call = deliver channel (search.events call) := by
  rw [perform, action_eq_happen, deliver_happen]

end Happen

end Search

end LineSearch
