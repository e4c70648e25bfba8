import LineSearch.Proofs.LineFilter
import LineSearch.Proofs.OutputLimit
import LineSearch.Proofs.WalkOrder

namespace LineSearch

/-!
# Searching a directory is searching its files

A walk comes upon every entry below a directory once, in the order of the names
on the way.  An entry at whose path there is a regular file is searched, just as
a search of that path would; every other one is logged and left out, and so is
what a directory fails to list.

The system takes no path of more than 4095 bytes.  So there is no regular file at
a longer one, whatever stands there in its directory, and a directory with a
longer path is logged and not entered.
-/

namespace Files

/-- The system takes no path that is too long. -/
theorem isRegular_of_tooLong
    (files : FileSystem)
    {path : String}
    (tooLong : Path.isTooLong path = true) :
    isRegular files path = false := by
  cases refused : Path.refusal? path with
  | some reason => simp only [isRegular, resolve, refused]
  | none =>
      obtain ⟨-, -, fits⟩ := Path.refusal?_eq_none_iff.mp refused
      rw [fits] at tooLong
      cases tooLong

/-- A directory that can be listed is one that its path resolves to. -/
theorem resolve_of_readDirectory
    {files : FileSystem}
    {path : String}
    {directory : Directory}
    (listed : readDirectory files path = .ok directory) :
    resolve files path = .ok (.directory directory) := by
  unfold readDirectory at listed
  split at listed
  · cases listed
  · cases listed
  · next reached resolved =>
    split at listed
    · cases listed
    · cases listed
      exact resolved

section NotRegular

variable {files : FileSystem}
variable {path : String}

/-- Where a directory stands, there is no regular file. -/
theorem LeadsTo.isRegular_of_directory
    {access : Access}
    {entries : Listing}
    (leads : LeadsTo files path (.directory access entries)) :
    isRegular files path = false := by
  cases tooLong : Path.isTooLong path with
  | true => simp [isRegular, leads.resolve_of_tooLong tooLong]
  | false => simp [isRegular, leads.resolve_directory tooLong]

/-- Where something hidden stands, no regular file is to be found. -/
theorem LeadsTo.isRegular_of_hidden
    {reason : SystemError}
    (leads : LeadsTo files path (.hidden reason)) :
    isRegular files path = false := by
  have arrives := leads.arrives
  generalize location : files.follow path = reached at arrives
  cases arrives with
  | hidden =>
      unfold isRegular resolve
      rw [location]
      cases Path.refusal? path <;> rfl

end NotRegular

end Files

namespace Search

open Output Files

section Visit

variable (search : Search)

/--
The one record of an entry, other than a directory, that a walk meets: that it is
searched, or that it is left out.
-/
def visitRecord (path : String) : Entry → Log.Record
  | .hidden reason => skipped path reason
  | .directory .. | .file .. | .link _ =>
      if isRegular search.files path then
        match Source.atPath search.files path with
        | .error reason => skipped path reason
        | .ok _ => searching path
      else
        notRegular path

/-- The record behind the lines of a file that breaks off. -/
def breakRecord? (path : String) : Option Log.Record :=
  if isRegular search.files path then
    match Source.atPath search.files path with
    | .error _ => none
    | .ok source => source.failure?.map (stoppedReading (some path))
  else
    none

/-- All that is logged of an entry that a walk meets. -/
def visitRecords (path : String) : Entry → List Log.Record
  | .directory access _ => directoryRecords path access
  | entry => search.visitRecord path entry :: (search.breakRecord? path).toList

/-- What happens at an entry that a walk meets, less what happens below it. -/
def visitEvents (path : String) : Entry → List Event
  | .directory access _ => (directoryRecords path access).map .record
  | .hidden reason => [.record (skipped path reason)]
  | .file .. | .link _ =>
      if isRegular search.files path then
        search.events (.file path)
      else
        [.record (notRegular path)]

theorem visit_eq_happen
    (path : String)
    (entry : Entry) :
    search.visit path entry = happen (search.visitEvents path entry) := by
  cases entry with
  | directory access entries =>
      have logs := happen_records_append (directoryRecords path access) []
      rw [List.append_nil] at logs
      exact logs.symm
  | hidden reason => exact leaveOut_eq_happen _
  | file kind content | link target =>
      rw [visit, visitEvents]
      split
      · exact search.action_eq_happen (.file path)
      · exact leaveOut_eq_happen _

/-- Only that a source broke off is logged of it. -/
theorem records_source
    (label? : Option String)
    (source : Source) :
    (search.sourceEvents label? source).filterMap Event.record? =
      (source.failure?.map (stoppedReading label?)).toList := by
  rw [sourceEvents, List.filterMap_append, List.filterMap_map]
  cases source.failure? <;> simp [Event.record?, Function.comp_def]

section Leads

variable {search : Search}
variable {path : String}
variable {entry : Entry}

theorem records_visit (leads : LeadsTo search.files path entry) :
    (search.visitEvents path entry).filterMap Event.record? =
      search.visitRecords path entry := by
  cases entry with
  | directory access entries =>
      simp [visitEvents, visitRecords, Event.record?, List.filterMap_map,
        Function.comp_def]
  | hidden reason =>
      simp [visitEvents, visitRecords, visitRecord, breakRecord?,
        leads.isRegular_of_hidden, Event.record?]
  | file kind content | link target =>
      simp only [visitEvents, visitRecords, visitRecord, breakRecord?]
      cases isRegular search.files path with
      | false => rfl
      | true =>
          simp only [if_true, events, fileEvents]
          cases Source.atPath search.files path with
          | error reason => rfl
          | ok source =>
              exact
                congrArg (searching path :: ·)
                  (search.records_source (some path) source)

/-- Only where there is a regular file, something is printed of an entry. -/
theorem printed_visit (leads : LeadsTo search.files path entry) :
    printed (search.visitEvents path entry) =
      if isRegular search.files path then
        search.wholeOutput (.file path)
      else
        [] := by
  cases entry with
  | directory access entries =>
      simp [visitEvents, leads.isRegular_of_directory, printed, Event.bytes,
        List.flatMap_map]
  | hidden reason =>
      simp [visitEvents, leads.isRegular_of_hidden, Event.bytes]
  | file kind content | link target =>
      rw [visitEvents]
      split
      · rw [wholeOutput_eq]
      · rfl

end Leads

/-- What visits print is what the searches of the regular files print. -/
theorem printed_visits
    (path : String)
    {met : List (List String × Entry)}
    (leads :
      ∀ found ∈ met, LeadsTo search.files (Path.below path found.1) found.2) :
    printed
        (met.flatMap fun found =>
          search.visitEvents (Path.below path found.1) found.2) =
      ((met.map fun found => Path.below path found.1).filter
          (isRegular search.files)).flatMap
        fun file => search.wholeOutput (.file file) := by
  induction met with
  | nil => rfl
  | cons found rest inductionHypothesis =>
      obtain ⟨leadsThere, leadsLater⟩ := List.forall_mem_cons.mp leads
      rw [List.flatMap_cons, printed_append, printed_visit leadsThere,
        inductionHypothesis leadsLater, List.map_cons, List.filter_cons]
      split <;> rfl

/-- What visits log is what is logged of one entry after the other. -/
theorem records_visits
    (path : String)
    {met : List (List String × Entry)}
    (leads :
      ∀ found ∈ met, LeadsTo search.files (Path.below path found.1) found.2) :
    (met.flatMap fun found =>
        search.visitEvents (Path.below path found.1) found.2).filterMap
          Event.record? =
      met.flatMap fun found =>
        search.visitRecords (Path.below path found.1) found.2 := by
  rw [List.filterMap_flatMap]
  exact
    congrArg List.flatten
      (List.map_congr_left fun found isMet => records_visit (leads found isMet))

end Visit

/-- A call finds something when there is something it would print. -/
theorem found_perform_iff
    (search : Search)
    {device : Device}
    (accepts : device.room? = none)
    (call : Call) :
    (search.perform (.direct device) call).found = true ↔
      search.wholeOutput call ≠ [] := by
  obtain ⟨-, -, -, found⟩ := search.perform_unlimited accepts call
  rw [wholeOutput_eq]
  exact found

/--
A directory of a well-formed tree, by any path that leads to it.

What the walk meets, it visits once and in the order of the names on the way, in
one loop; what a directory lists as a file is found by its path, unless that is too
long.  With an output that takes everything, all that is printed is printed by the
searches of the regular files, and something is found when one of them finds
something.  Of each entry but a directory there is one record, with a second one if
it is a file that breaks off; a directory is logged only as far as it is not listed.
-/
theorem walk_visits_each_entry_in_name_order
    (search : Search)
    (wellFormed : search.files.WellFormed)
    {path : String}
    {directory : Directory}
    (listed : readDirectory search.files path = .ok directory)
    {device : Device}
    (accepts : device.room? = none) :
    let delivery := search.perform (.direct device) (.directory path)
    ∃ met : List (List String × Entry),
      let searched :=
        (met.map fun found => Path.below path found.1).filter
          (isRegular search.files)
      (∀ names entry,
        (names, entry) ∈ met ↔ Met path directory.entry names entry) ∧
        (met.Pairwise fun earlier later => NamesBefore earlier.1 later.1) ∧
        search.action (.directory path) =
          (Action.foundAmong met fun found =>
            search.visit (Path.below path found.1) found.2) ∧
        (∀ names kind content, (names, .file kind content) ∈ met →
          Path.isTooLong (Path.below path names) = false →
            resolve search.files (Path.below path names) =
              .ok (.file kind content)) ∧
        delivery.failure? = none ∧
        delivery.channel.device.taken.toList =
          device.taken.toList ++
            searched.flatMap (fun file => search.wholeOutput (.file file)) ∧
        (delivery.found = true ↔
          ∃ file ∈ searched,
            (search.perform (.direct device) (.file file)).found = true) ∧
        delivery.records =
          met.flatMap fun found =>
            search.visitRecords (Path.below path found.1) found.2 := by
  intro delivery
  obtain ⟨directoryLeads, -, wellFormedThere⟩ :=
    leadsTo_of_resolve (resolve_of_readDirectory listed)
  obtain ⟨met, complete, ordered, walked⟩ :=
    exists_walks directoryLeads (wellFormedThere wellFormed)
  have leadsTo (found : List String × Entry) (isMet : found ∈ met) :
      LeadsTo search.files (Path.below path found.1) found.2 :=
    directoryLeads.of_met (wellFormedThere wellFormed)
      ((complete _ _).mp isMet)
  have visits :
      search.action (.directory path) =
        Action.foundAmong met fun found =>
          search.visit (Path.below path found.1) found.2 := by
    rw [action, Search.directory, listed]
    exact walked
  have delivered :
      delivery =
        deliver (.direct device)
          (met.flatMap fun found =>
            search.visitEvents (Path.below path found.1) found.2) := by
    simp only [delivery, perform, visits, visit_eq_happen, ← happen_flatMap,
      deliver_happen]
  obtain ⟨succeeds, taken, records, found⟩ :=
    deliver_unlimited accepts
      (met.flatMap fun found =>
        search.visitEvents (Path.below path found.1) found.2)
  rw [search.printed_visits path leadsTo] at taken found
  rw [search.records_visits path leadsTo] at records
  refine ⟨met, complete, ordered, visits, ?_, ?_⟩
  · exact fun names kind content isMet => (leadsTo _ isMet).resolve_file
  rw [delivered]
  refine ⟨succeeds, taken, found.trans ?_, records⟩
  simp only [found_perform_iff search accepts, ne_eq, List.flatMap_eq_nil_iff,
    Classical.not_forall, exists_prop]

/--
A directory beside a file whose name goes on where its own ends, and two links.  The
directory can be listed in part, one file breaks off and another cannot be opened.
-/
def crossedTree : Directory :=
  ⟨.whole,
    [("b", .folder []), ("a.txt", .plain [97, 10]), ("link", .link "/data/a.txt"),
      ("lock", .file .regular (.refused .permissionDenied)),
      ("gone", .hidden .inputOutput),
      ("a",
        .directory (.partly 2 [.inputOutput])
          [("up", .link ".."),
            ("x", .file .regular (.opens [97, 10, 98] (some .inputOutput))),
            ("y", .plain [97, 10])])]⟩

/-- The tree stands beside the working directory. -/
def crossedFiles : FileSystem :=
  ⟨⟨.whole, [("home", .folder []), ("data", crossedTree.entry)]⟩, ["home"]⟩

/-- The steps by which the tree is built. -/
def buildCrossed (files : FileSystem) : Except SystemError FileSystem := do
  let files ← files.makeDirectory "/data/b"
  let files ← files.writeFile "../data/a.txt" [97, 10]
  let files ← files.makeLink "/data/link" "/data/a.txt"
  let files ← files.makeFile "/data/lock" .regular (.refused .permissionDenied)
  let files ← files.hide "/data/gone" .inputOutput
  let files ← files.makeLink "/data/a/up" ".."
  let files ←
    files.makeFile "/data/a/x" .regular (.opens [97, 10, 98] (some .inputOutput))
  let files ← files.writeFile "/data/a/y" [97, 10]
  files.setAccess "/data/a" (.partly 2 [.inputOutput])

theorem buildCrossed_eq :
    buildCrossed (.bare ["home"]) = .ok crossedFiles := by
  have empty : Path.components "/data/b" = ["", "data", "b"] := by decide
  have beside : Path.components "../data/a.txt" = ["..", "data", "a.txt"] := by
    decide
  have link : Path.components "/data/link" = ["", "data", "link"] := by decide
  have lock : Path.components "/data/lock" = ["", "data", "lock"] := by decide
  have gone : Path.components "/data/gone" = ["", "data", "gone"] := by decide
  have inner : Path.components "/data/a" = ["", "data", "a"] := by decide
  have up : Path.components "/data/a/up" = ["", "data", "a", "up"] := by decide
  have x : Path.components "/data/a/x" = ["", "data", "a", "x"] := by decide
  have y : Path.components "/data/a/y" = ["", "data", "a", "y"] := by decide
  have accepted (path : String)
      (known :
        path ∈
          ["/data/b", "../data/a.txt", "/data/a.txt", "/data/link", "/data/lock",
            "/data/gone", "/data/a", "/data/a/up", "..", "/data/a/x",
            "/data/a/y"]) :
      Path.refusal? path = none := by
    revert path
    decide
  simp +decide [buildCrossed, crossedFiles, crossedTree, FileSystem.bare, nested,
    FileSystem.makeDirectory, FileSystem.writeFile, FileSystem.makeFile,
    FileSystem.makeLink, FileSystem.hide, FileSystem.putName,
    FileSystem.setAccess, FileSystem.change, FileSystem.way, FileSystem.start,
    accepted, empty, beside, link, lock, gone, inner, up, x, y, makeWay,
    locateFromRoot, locate, Place.atRoot, Place.up, Place.down, Place.put,
    Place.setAccess, Place.rebuild, Directory.put, linkLimit, List.lookup, bind,
    Except.bind, Except.map]

theorem crossedFiles_wellFormed : crossedFiles.WellFormed := by
  have keeps : FileSystem.Keeps buildCrossed :=
    .andThen (FileSystem.keeps_makeDirectory _) <|
      .andThen (FileSystem.keeps_writeFile _ _) <|
        .andThen (FileSystem.keeps_makeLink _ _) <|
          .andThen (FileSystem.keeps_makeFile _ _ _) <|
            .andThen (FileSystem.keeps_hide _ _) <|
              .andThen (FileSystem.keeps_makeLink _ _) <|
                .andThen (FileSystem.keeps_makeFile _ _ _) <|
                  .andThen (FileSystem.keeps_writeFile _ _)
                    (FileSystem.keeps_setAccess _ _)
  exact keeps _ _ (FileSystem.bare_wellFormed (by decide)) buildCrossed_eq

/--
What is below the directory comes first, and its link up is not followed; what is
left out and what breaks off is logged where it is met.
-/
theorem walk_visits_each_entry_in_name_order_across_links :
    let search : Search :=
      ⟨⟨.literal 'a', 0, false, "a"⟩, ⟨true, true⟩, crossedFiles⟩
    let delivery := search.perform (.direct .unlimited) (.directory "/data")
    crossedFiles.WellFormed ∧
      readDirectory crossedFiles "/data" = .ok crossedTree ∧
      Device.unlimited.room? = none ∧
      ∃ met : List (List String × Entry),
        (∀ names entry,
          (names, entry) ∈ met ↔ Met "/data" crossedTree.entry names entry) ∧
          (met.Pairwise fun earlier later => NamesBefore earlier.1 later.1) ∧
          delivery.channel.device.taken.toList =
            Utf8.encode "/data/a/x:a\n/data/a.txt:a\n/data/link:a\n" ∧
          (met.flatMap fun found =>
              search.visitRecords (Path.below "/data" found.1) found.2) =
            [entrySkipped "/data/a" .inputOutput, notRegular "/data/a/up",
              searching "/data/a/x",
              stoppedReading (some "/data/a/x") SystemError.inputOutput.message,
              searching "/data/a.txt", skipped "/data/gone" .inputOutput,
              searching "/data/link", skipped "/data/lock" .permissionDenied] := by
  intro search delivery
  have data : Path.components "/data" = ["", "data"] := by decide
  have file : Path.components "/data/a.txt" = ["", "data", "a.txt"] := by decide
  have link : Path.components "/data/link" = ["", "data", "link"] := by decide
  have lock : Path.components "/data/lock" = ["", "data", "lock"] := by decide
  have empty : Path.components "/data/b" = ["", "data", "b"] := by decide
  have inner : Path.components "/data/a" = ["", "data", "a"] := by decide
  have up : Path.components "/data/a/up" = ["", "data", "a", "up"] := by decide
  have x : Path.components "/data/a/x" = ["", "data", "a", "x"] := by decide
  have above : Path.components ".." = [".."] := by decide
  have accepted (path : String)
      (known :
        path ∈
          ["/data", "/data/a.txt", "/data/link", "/data/lock", "/data/b", "/data/a",
            "/data/a/up", "/data/a/x"]) :
      Path.refusal? path = none := by
    revert path
    decide
  have resolved : resolve crossedFiles "/data" = .ok (.directory crossedTree) := by
    simp +decide [resolve, FileSystem.follow, FileSystem.way, FileSystem.start,
      data, accepted, locate, crossedFiles, List.lookup, Place.atRoot, Place.down]
  have listed : readDirectory crossedFiles "/data" = .ok crossedTree := by
    simp [readDirectory, resolved, crossedTree, Access.refusal?]
  have happens :
      search.events (.directory "/data") =
        [.record (entrySkipped "/data/a" .inputOutput),
          .record (notRegular "/data/a/up"), .record (searching "/data/a/x"),
          .line (some "/data/a/x") "a",
          .record
            (stoppedReading (some "/data/a/x") SystemError.inputOutput.message),
          .record (searching "/data/a.txt"), .line (some "/data/a.txt") "a",
          .record (skipped "/data/gone" .inputOutput),
          .record (searching "/data/link"), .line (some "/data/link") "a",
          .record (skipped "/data/lock" .permissionDenied)] := by
    simp +decide [search, events, directoryEvents, entryEvents, eventsByName,
      listingEvents, fileEvents, sourceEvents, printedLabel?, inNameOrder,
      List.mergeSort, List.MergeSort.Internal.splitInTwo, Path.join, isRegular,
      readDirectory, Source.atPath, Source.ofContent, Access.listed,
      Access.failures, Access.refusal?, resolve, FileSystem.follow,
      FileSystem.way, FileSystem.start, data, file, link, lock, empty, inner,
      up, x, above, accepted, locate, linkLimit, startOf, Place.atRoot,
      Place.down, Place.up, Place.top, crossedFiles, crossedTree, List.lookup]
  have accepts : Device.unlimited.room? = none := rfl
  obtain ⟨met, complete, ordered, -, -, -, -, -, records⟩ :=
    search.walk_visits_each_entry_in_name_order crossedFiles_wellFormed listed
      accepts
  have delivered :
      delivery = deliver (.direct .unlimited) (search.events (.directory "/data")) :=
    search.perform_eq_deliver _ _
  rw [happens] at delivered
  refine
    ⟨crossedFiles_wellFormed, listed, accepts, met, complete, ordered, ?_,
      records.symm.trans ?_⟩
  · rw [delivered]
    decide
  · change delivery.records = _
    rw [delivered]
    decide

/-- The working directory, by a path with this many dots. -/
def dots : Nat → String
  | 0 => ""
  | count + 1 => "./" ++ dots count

theorem utf8ByteSize_dots
    (count : Nat) :
    (dots count).utf8ByteSize = 2 * count := by
  induction count with
  | zero => rfl
  | succ count inductionHypothesis =>
      rw [dots, String.utf8ByteSize_append, inductionHypothesis]
      change 2 + 2 * count = 2 * (count + 1)
      omega

theorem toList_dots_succ
    (count : Nat) :
    (dots (count + 1)).toList = '.' :: '/' :: (dots count).toList := by
  rw [dots, String.toList_append]
  rfl

theorem noZero_dots
    (count : Nat) :
    '\x00' ∉ (dots count).toList := by
  induction count with
  | zero => exact List.not_mem_nil
  | succ count inductionHypothesis =>
      rw [toList_dots_succ]
      simpa using inductionHypothesis

theorem components_dots_succ
    (count : Nat) :
    Path.components (dots (count + 1)) =
      "." :: Path.components (dots count) := by
  have cut := segments_append_separator '/' ['.'] (dots count).toList
  rw [Path.components, toList_dots_succ]
  exact congrArg (List.map String.ofList) cut

/-- Dots lead nowhere else. -/
theorem locate_dots
    (links : Nat)
    (place : Place)
    (count : Nat) :
    locate links place (Path.components (dots count)) =
      .ok (.directory place) := by
  induction count with
  | zero =>
      have none : Path.components (dots 0) = [""] := rfl
      rw [none, locate_stay (Or.inl rfl), locate]
  | succ count inductionHypothesis =>
      rw [components_dots_succ, locate_stay (Or.inr rfl), inductionHypothesis]

theorem isTooLong_dots
    {count : Nat}
    (fits : 2 * count ≤ Path.limit) :
    Path.isTooLong (dots count) = false := by
  simpa [Path.isTooLong, utf8ByteSize_dots] using fits

/-- In the root, dots lead to the root. -/
theorem resolve_dots
    {files : FileSystem}
    (inRoot : files.working = [])
    {count : Nat}
    (some : count ≠ 0)
    (fits : 2 * count ≤ Path.limit) :
    resolve files (dots count) = .ok (.directory files.root) := by
  obtain ⟨fewer, rfl⟩ := Nat.exists_eq_succ_of_ne_zero some
  have shape := toList_dots_succ fewer
  have accepted : Path.refusal? (dots (fewer + 1)) = none := by
    refine
      Path.refusal?_eq_none_iff.mpr
        ⟨noZero_dots _, ?_, isTooLong_dots fits⟩
    intro empty
    rw [empty] at shape
    cases shape
  have start : files.start (dots (fewer + 1)) = [] := by
    simp [FileSystem.start, inRoot]
  simp only [resolve, accepted, FileSystem.follow, FileSystem.way, start,
    List.nil_append, locate_dots]
  rfl

theorem getLast?_dots_succ
    (count : Nat) :
    (dots (count + 1)).toList.getLast? = '/' := by
  induction count with
  | zero => rfl
  | succ count inductionHypothesis =>
      rw [dots, String.toList_append, List.getLast?_append,
        inductionHypothesis]
      rfl

theorem join_dots
    {count : Nat}
    (some : count ≠ 0)
    (name : String) :
    Path.join (dots count) name = dots count ++ name := by
  obtain ⟨fewer, rfl⟩ := Nat.exists_eq_succ_of_ne_zero some
  rw [Path.join, if_pos (getLast?_dots_succ fewer)]

/-- A file is left out where the path is too long on which a walk comes to it. -/
theorem directory_dots
    {search : Search}
    (inRoot : search.files.working = [])
    {name : String}
    {bytes : List UInt8}
    (single : search.files.root = ⟨.whole, [(name, .plain bytes)]⟩)
    {count : Nat}
    (some : count ≠ 0)
    (fits : 2 * count ≤ Path.limit)
    (exceeds : Path.limit < 2 * count + name.utf8ByteSize) :
    search.action (.directory (dots count)) =
      Action.leaveOut (notRegular (dots count ++ name)) := by
  have tooLong : Path.isTooLong (dots count ++ name) = true := by
    simpa [Path.isTooLong, utf8ByteSize_dots] using exceeds
  have listed :
      readDirectory search.files (dots count) = .ok search.files.root := by
    simp only [readDirectory, resolve_dots inRoot some fits, single,
      Access.refusal?]
  have order (action : Action Bool) :
      inNameOrder [(name, action)] = [(name, action)] :=
    List.mergeSort_singleton _
  rw [action, Search.directory, listed]
  simp only [single, Search.entry, listed, Access.failures, Access.listed,
    entriesByName, order, join_dots some,
    isRegular_of_tooLong search.files tooLong, Action.foundAmong_singleton,
    Bool.false_eq_true, if_false]
  rfl

/--
A walk does not search a file whose path is too long, although the directory that
it walks lists that file.
-/
theorem walk_leaves_out_a_file_at_a_long_path :
    let path := dots 2047
    let files : FileSystem := ⟨⟨.whole, [("ab", .plain [97, 10])]⟩, []⟩
    let search : Search := ⟨⟨.literal 'a', 0, false, "a"⟩, ⟨true, true⟩, files⟩
    files.WellFormed ∧
      readDirectory files path = .ok files.root ∧
      search.wholeOutput (.source (some (path ++ "ab")) (.whole [97, 10])) =
        Utf8.encode (path ++ "ab" ++ ":" ++ "a" ++ "\n") ∧
      search.action (.directory path) =
        Action.leaveOut (notRegular (path ++ "ab")) ∧
      search.wholeOutput (.directory path) = [] := by
  intro path files search
  have action :
      search.action (.directory path) =
        Action.leaveOut (notRegular (path ++ "ab")) :=
    directory_dots rfl rfl (by decide) (by decide) (by decide)
  have resolved : resolve files path = .ok (.directory files.root) :=
    resolve_dots rfl (by decide) (by decide)
  refine ⟨⟨?_, List.forall_mem_nil _⟩, ?_, ?_, action, ?_⟩
  · exact
      .directory .whole (by decide) (by decide)
        (List.forall_mem_singleton.mpr (.file _ _))
  · rw [readDirectory, resolved]
    rfl
  · have lines : (Source.whole [97, 10]).lines = ["a"] := by decide
    have matching : ["a"].filter search.pattern.isMatch = ["a"] := by decide
    rw [wholeOutput_eq, printed_source, lines, matching,
      List.flatMap_singleton]
    simp only [Settings.shownLine, search, if_true]
  · rw [wholeOutput, perform, action]
    rfl

end Search

end LineSearch
