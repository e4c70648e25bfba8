import LineSearch.Proofs.DirectoryWalk
import LineSearch.Proofs.ExitCode
import LineSearch.Proofs.LabelledLines

namespace LineSearch

/-!
# Files alone, files together, and standard input

A file that is searched alone is searched like standard input with the same bytes.
With several paths, each of them adds a block to the output: what standard input
would yield for its bytes, each line behind the path, or nothing where no file is
that can be opened.  The blocks stand in the order of the paths, so the exit code,
which only tells whether all of them are empty, does not depend on that order.
-/

/--
Standard input yields just what the file at a path does: its bytes, and behind them
the failure by which the file breaks off if it does.
-/
structure Source.HoldsFile
    (files : Files.FileSystem)
    (path : String)
    (source : Source) : Prop where
  opens :
    ∃ kind failure?,
      Files.resolve files path =
          .ok (.file kind (.opens source.chunks.flatten failure?)) ∧
        source.failure? = failure?.map SystemError.message

namespace Search

open Output Files

/-- The search in so many paths that leaves directories out; standard input is no path. -/
def flat (pattern : Pattern) (files : FileSystem) (pathCount : Nat) : Search :=
  { pattern := pattern, settings := .forPaths false pathCount, files := files }

/-- With more than one path, it does not matter how many there are. -/
theorem flat_of_many
    (pattern : Pattern)
    (files : FileSystem)
    {pathCount : Nat}
    (many : 2 ≤ pathCount) :
    flat pattern files pathCount = flat pattern files 2 := by
  have shows : (1 < pathCount) = (1 < 2) := by
    simp only [eq_iff_iff]
    omega
  simp only [flat, Settings.forPaths, shows]

theorem printed_operands
    (search : Search)
    (paths : List String) :
    printed (search.events (.operands paths)) =
      paths.flatMap fun path => printed (search.events (.operand path)) :=
  List.flatMap_assoc

section Operand

variable {search : Search}
variable {path : String}

/-- Nothing is printed where there is nothing. -/
theorem printed_operand_of_missing
    {reason : SystemError}
    (missing : resolve search.files path = .error reason) :
    printed (search.events (.operand path)) = [] := by
  simp only [events, operandEvents, missing]
  rfl

/-- Without recursion, nothing is printed where a directory is. -/
theorem printed_operand_of_directory
    (notRecursive : search.settings.recursive = false)
    {directory : Directory}
    (resolved : resolve search.files path = .ok (.directory directory)) :
    printed (search.events (.operand path)) = [] := by
  simp only [events, operandEvents, resolved, notRecursive]
  rfl

/-- Nothing is printed of a file that cannot be opened. -/
theorem printed_operand_of_refused
    {kind : FileKind}
    {reason : SystemError}
    (resolved : resolve search.files path = .ok (.file kind (.refused reason))) :
    printed (search.events (.operand path)) = [] := by
  simp only [events, operandEvents, resolved, fileEvents, Source.atPath,
    Source.ofContent]
  rfl

/-- A file at a path prints, behind its label or not, what a source with its bytes prints. -/
theorem printed_operand_of_holdsFile
    {source : Source}
    (holds : source.HoldsFile search.files path) :
    printed (search.events (.operand path)) =
      printed (search.events (.source (some path) source)) := by
  obtain ⟨kind, failure?, resolved, sameFailure⟩ := holds.opens
  let read : Source :=
    ⟨[source.chunks.flatten], failure?.map SystemError.message⟩
  have sameLines : read.lines = source.lines :=
    Source.lines_eq_of_same_bytes (by simp [read])
      (congrArg Option.isSome sameFailure.symm)
  have happens :
      search.events (.operand path) =
        .record (searching path) :: search.events (.source (some path) read) := by
    simp only [events, operandEvents, resolved, fileEvents, Source.atPath,
      Source.ofContent, read]
  rw [happens, printed_cons, printed_source, printed_source, sameLines]
  rfl

end Operand

section HoldsFile

variable {pattern : Pattern}
variable {files : FileSystem}
variable {path : String}
variable {source : Source}

/-- Alone, a file prints what standard input with its bytes prints. -/
theorem printed_single_file
    (pattern : Pattern)
    (holds : source.HoldsFile files path) :
    printed ((flat pattern files 1).events (.operands [path])) =
      printed ((flat pattern files 0).events (.source none source)) := by
  rw [printed_operands, List.flatMap_singleton,
    printed_operand_of_holdsFile holds, printed_source, printed_source]
  rfl

/-- Among others, a file prints what standard input does, each line behind its path. -/
theorem printed_labelled_file
    (holds : source.HoldsFile files path) :
    Lines.Labelled (Utf8.encode (path ++ ":"))
      (printed ((flat pattern files 0).events (.source none source)))
      (printed ((flat pattern files 2).events (.operand path))) := by
  have shows : (flat pattern files 2).settings.printPaths = true := rfl
  rw [printed_operand_of_holdsFile holds]
  exact printed_source_labelled rfl shows path source

end HoldsFile

/-- What a path adds to the output of a search in several paths. -/
structure IsBlock
    (pattern : Pattern)
    (files : FileSystem)
    (path : String)
    (block : List UInt8) : Prop where
  ofFile :
    ∀ source : Source,
      source.HoldsFile files path →
        Lines.Labelled (Utf8.encode (path ++ ":"))
          ((flat pattern files 0).wholeOutput (.source none source)) block
  ofMissing : ∀ reason, resolve files path = .error reason → block = []
  ofDirectory :
    ∀ directory, resolve files path = .ok (.directory directory) → block = []
  ofRefused :
    ∀ kind reason,
      resolve files path = .ok (.file kind (.refused reason)) → block = []

/-- Every path has a block, which it prints whenever it is not the only path. -/
theorem operand_isBlock
    (pattern : Pattern)
    (files : FileSystem)
    (path : String) :
    IsBlock pattern files path
      (printed ((flat pattern files 2).events (.operand path))) where
  ofFile source holds := by
    rw [wholeOutput_eq]
    exact printed_labelled_file holds
  ofMissing _ missing := printed_operand_of_missing missing
  ofDirectory _ resolved := printed_operand_of_directory rfl resolved
  ofRefused _ _ resolved := printed_operand_of_refused resolved

/-- Several paths print their blocks one after the other. -/
theorem printed_several
    (pattern : Pattern)
    (files : FileSystem)
    {paths : List String}
    (several : 2 ≤ paths.length) :
    printed ((flat pattern files paths.length).events (.operands paths)) =
      paths.flatMap fun path =>
        printed ((flat pattern files 2).events (.operand path)) := by
  rw [flat_of_many pattern files several, printed_operands]

/-- The output of a run that searches several paths without recursion. -/
theorem outputOf_several
    (environment : CommandLine.Environment)
    (pattern : Pattern)
    {paths : List String}
    (several : 2 ≤ paths.length) :
    CommandLine.outputOf environment pattern false paths =
      paths.flatMap fun path =>
        printed ((flat pattern environment.files 2).events (.operand path)) := by
  have call : CommandLine.callFor environment paths = .operands paths := by
    cases paths with
    | nil => cases several
    | cons path rest => rfl
  rw [CommandLine.outputOf, call, wholeOutput_eq]
  exact printed_several pattern environment.files several

/-- All blocks are empty in one order if they are in another. -/
theorem flatMap_eq_nil_of_perm
    {paths reordered : List String}
    (permuted : paths.Perm reordered)
    (block : String → List UInt8) :
    reordered.flatMap block = [] ↔ paths.flatMap block = [] := by
  simp only [List.flatMap_eq_nil_iff, permuted.mem_iff]

/-- The order of several paths does not show in the exit code. -/
theorem code_of_perm
    (environment : CommandLine.Environment)
    (level : Log.Level)
    (pattern : Pattern)
    {paths reordered : List String}
    (several : 2 ≤ paths.length)
    (permuted : paths.Perm reordered) :
    let code (paths : List String) :=
      (CommandLine.searchFor { environment with output := .unlimited } level
        pattern false paths).code
    code reordered = code paths := by
  intro code
  have stillSeveral : 2 ≤ reordered.length := by
    rwa [← permuted.length_eq]
  have first := CommandLine.searchFor_unlimited environment level pattern false paths
  have second :=
    CommandLine.searchFor_unlimited environment level pattern false reordered
  simp only [code, first.2, second.2, outputOf_several environment pattern several,
    outputOf_several environment pattern stillSeveral,
    flatMap_eq_nil_of_perm permuted]

/--
Searches that leave directories out, with an output that takes everything.

A file that is the only path is searched like standard input with its bytes, in
whatever chunks these arrive.  Each of several paths has a block: that same output
with the path before every line, or nothing where there is nothing, or a directory,
or a file that cannot be opened.  Several paths print their blocks in order, and find
something if standard input with the bytes of one of them would.  In another order
they print their blocks in that order, find as much, and the run ends with the same
code.
-/
theorem files_are_searched_like_standard_input
    (pattern : Pattern)
    (files : FileSystem)
    {device : Device}
    (accepts : device.room? = none) :
    let input (source : Source) :=
      (flat pattern files 0).perform (.direct device) (.source none source)
    let searched (paths : List String) :=
      (flat pattern files paths.length).perform (.direct device)
        (.operands paths)
    (∀ path source,
        source.HoldsFile files path →
          (searched [path]).channel.device.taken =
              (input source).channel.device.taken ∧
            (searched [path]).found = (input source).found ∧
            (searched [path]).failure? = none ∧
            (input source).failure? = none) ∧
      ∃ block : String → List UInt8,
        (∀ path, IsBlock pattern files path (block path)) ∧
          (∀ path source,
            source.HoldsFile files path →
              ((input source).found = true ↔ block path ≠ [])) ∧
          ∀ paths,
            2 ≤ paths.length →
              (searched paths).channel.device.taken.toList =
                  device.taken.toList ++ paths.flatMap block ∧
                (searched paths).failure? = none ∧
                ((searched paths).found = true ↔
                  ∃ path ∈ paths, block path ≠ []) ∧
                ∀ reordered,
                  paths.Perm reordered →
                    (searched reordered).found = (searched paths).found ∧
                      ∀ standardInput level,
                        let ending (paths : List String) :=
                          CommandLine.searchFor
                            ⟨standardInput, files, .unlimited⟩ level pattern
                            false paths
                        (ending reordered).code = (ending paths).code := by
  intro input searched
  have ofInput (source : Source) :=
    (flat pattern files 0).perform_unlimited accepts (.source none source)
  have ofPaths (paths : List String) :=
    (flat pattern files paths.length).perform_unlimited accepts
      (.operands paths)
  refine ⟨fun path source holds => ?_, _, operand_isBlock pattern files,
    fun path source holds => ?_, fun paths several => ?_⟩
  · obtain ⟨inputSucceeds, inputTaken, -, inputFound⟩ := ofInput source
    obtain ⟨succeeds, taken, -, found⟩ := ofPaths [path]
    have same := printed_single_file pattern holds
    rw [List.length_singleton, same] at taken found
    refine ⟨?_, ?_, succeeds, inputSucceeds⟩
    · exact Array.toList_inj.mp (taken.trans inputTaken.symm)
    · exact Bool.eq_iff_iff.mpr (found.trans inputFound.symm)
  · obtain ⟨-, -, -, found⟩ := ofInput source
    exact found.trans (not_congr (printed_labelled_file holds).eq_nil_iff.symm)
  · have stillSeveral {reordered : List String} (permuted : paths.Perm reordered) :
        2 ≤ reordered.length := by
      rwa [← permuted.length_eq]
    obtain ⟨succeeds, taken, -, found⟩ := ofPaths paths
    rw [printed_several pattern files several] at taken found
    refine ⟨taken, succeeds, found.trans (by simp), fun reordered permuted => ⟨?_, ?_⟩⟩
    · obtain ⟨-, -, -, otherFound⟩ := ofPaths reordered
      rw [printed_several pattern files (stillSeveral permuted)] at otherFound
      refine Bool.eq_iff_iff.mpr (otherFound.trans (Iff.trans ?_ found.symm))
      exact not_congr (flatMap_eq_nil_of_perm permuted _)
    · intro standardInput level
      exact code_of_perm ⟨standardInput, files, .unlimited⟩ level pattern several permuted

/--
An absolute link to a file stands behind a path to nothing, which makes the search
print paths; the file is not below the working directory.
-/
theorem files_are_searched_like_standard_input_through_a_link :
    let pattern : Pattern := ⟨.literal 'a', 0, false, "a"⟩
    let files : FileSystem :=
      ⟨⟨.whole,
          [("file", .plain [97, 10, 98, 97]),
            ("home", .folder [("link", .link "/file")])]⟩,
        ["home"]⟩
    let source : Source := ⟨[[97], [10, 98, 97]], none⟩
    let paths := ["gone", "/home/link", "../file"]
    let searched (paths : List String) :=
      (flat pattern files paths.length).perform (.direct .unlimited)
        (.operands paths)
    Device.unlimited.room? = none ∧
      source.HoldsFile files "/home/link" ∧
      source.HoldsFile files "../file" ∧
      (searched ["../file"]).channel.device.taken.toList =
        Utf8.encode "a\nba\n" ∧
      (searched paths).channel.device.taken.toList =
        Utf8.encode
          "/home/link:a\n/home/link:ba\n../file:a\n../file:ba\n" ∧
      (searched paths.reverse).found = true := by
  intro pattern files source paths searched
  have accepts : Device.unlimited.room? = none := rfl
  have link : Path.components "/home/link" = ["", "home", "link"] := by decide
  have file : Path.components "../file" = ["..", "file"] := by decide
  have target : Path.components "/file" = ["", "file"] := by decide
  have linkAccepted : Path.refusal? "/home/link" = none := by decide
  have fileAccepted : Path.refusal? "../file" = none := by decide
  have linkResolved :
      resolve files "/home/link" =
        .ok (.file .regular (.opens [97, 10, 98, 97] none)) := by
    simp +decide [resolve, FileSystem.follow, FileSystem.way, FileSystem.start,
      locate, linkLimit, startOf, Place.atRoot, Place.down, Place.top,
      List.lookup, files, link, target, linkAccepted]
  have fileResolved :
      resolve files "../file" =
        .ok (.file .regular (.opens [97, 10, 98, 97] none)) := by
    simp +decide [resolve, FileSystem.follow, FileSystem.way, FileSystem.start,
      locate, Place.atRoot, Place.down, Place.up, List.lookup, files, file,
      fileAccepted]
  have holdsLink : source.HoldsFile files "/home/link" :=
    ⟨.regular, none, linkResolved, rfl⟩
  have holds : source.HoldsFile files "../file" :=
    ⟨.regular, none, fileResolved, rfl⟩
  obtain ⟨alone, block, -, inputFinds, together⟩ :=
    files_are_searched_like_standard_input pattern files accepts
  obtain ⟨-, inputTaken, -, inputFound⟩ :=
    (flat pattern files 0).perform_unlimited accepts (.source none source)
  obtain ⟨-, taken, -, -⟩ :=
    (flat pattern files 3).perform_unlimited accepts (.operands paths)
  have inputPrinted :
      printed ((flat pattern files 0).events (.source none source)) =
        Utf8.encode "a\nba\n" := by
    cbv
  have missing : resolve files "gone" = .error .noSuchFile := by
    cbv
  have pathsPrinted :
      printed ((flat pattern files 3).events (.operands paths)) =
        Utf8.encode
          "/home/link:a\n/home/link:ba\n../file:a\n../file:ba\n" := by
    rw [printed_operands, List.flatMap_cons, List.flatMap_cons,
      List.flatMap_singleton, printed_operand_of_missing missing,
      printed_operand_of_holdsFile holdsLink,
      printed_operand_of_holdsFile holds]
    cbv
  have nonempty :
      printed ((flat pattern files 0).events (.source none source)) ≠ [] := by
    rw [inputPrinted]
    decide
  have blockNonempty : block "../file" ≠ [] :=
    (inputFinds "../file" source holds).mp (inputFound.mpr nonempty)
  obtain ⟨-, -, found, order⟩ := together paths (by decide)
  have anyFound : (searched paths).found = true :=
    found.mpr ⟨"../file", by decide, blockNonempty⟩
  obtain ⟨sameBytes, -⟩ := alone "../file" source holds
  rw [inputPrinted] at inputTaken
  rw [pathsPrinted] at taken
  refine ⟨accepts, holdsLink, holds, ?_, taken, ?_⟩
  · exact (congrArg Array.toList sameBytes).trans inputTaken
  · rw [← anyFound]
    exact (order paths.reverse paths.reverse_perm.symm).1

end Search

end LineSearch
