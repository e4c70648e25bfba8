import LineSearch.Proofs.BufferedOutput
import LineSearch.Proofs.CompiledSpelling
import LineSearch.Proofs.OutputLimit
import Mathlib

namespace LineSearch.CommandLine

/-!
# What the exit code tells

Arguments choose the pattern that an option gives, or else the first operand that
is not empty.  A run without a pattern, or with one that cannot be read, is in
trouble before anything is searched.  Every other run tells whether it printed
anything, and is in trouble only if its output was not taken; what is wrong with
the paths does not show in its exit code.
-/

open Output

namespace Arguments

/-- An option that is absent or has an empty value gives no pattern. -/
def GivesNoPattern (option? : Option String) : Prop :=
  option? = none ∨ option? = some ""

/-- These operands are passed over when a pattern is looked for. -/
def AreEmpty (operands : List String) : Prop :=
  ∀ operand ∈ operands, operand = ""

/-- Arguments choose this pattern and leave these paths to be searched. -/
inductive Chooses (arguments : Arguments) (text : String) : List String → Prop where
  | byOption
      (given : arguments.pattern? = some text)
      (nonempty : text ≠ "") :
      Chooses arguments text arguments.operands
  | byOperand
      {empties paths : List String}
      (notByOption : GivesNoPattern arguments.pattern?)
      (shape : arguments.operands = empties ++ text :: paths)
      (areEmpty : AreEmpty empties)
      (nonempty : text ≠ "") :
      Chooses arguments text paths

/-- Arguments do not say what to search for, or say it in a way that cannot be read. -/
def Troubled (arguments : Arguments) : Prop :=
  GivesNoPattern arguments.pattern? ∧ AreEmpty arguments.operands ∨
    ∃ text paths reason,
      arguments.Chooses text paths ∧ Pattern.compile text = .error reason

/-- The value of the option counts if there is something of it. -/
theorem filter_nonempty_eq_none_iff
    {option? : Option String} :
    option?.filter (· != "") = none ↔ GivesNoPattern option? := by
  cases option? with
  | none => simp [GivesNoPattern]
  | some text => simp [GivesNoPattern]

theorem filter_nonempty_eq_some_iff
    {option? : Option String}
    {text : String} :
    option?.filter (· != "") = some text ↔ option? = some text ∧ text ≠ "" := by
  simp [Option.filter_eq_some_iff]

theorem dropWhile_empty_eq_nil_iff
    {operands : List String} :
    operands.dropWhile (· == "") = [] ↔ AreEmpty operands := by
  simp [AreEmpty, List.dropWhile_eq_nil_iff]

/-- The first operand that is not empty stands behind empty ones. -/
theorem dropWhile_empty_eq_cons_iff
    {operands paths : List String}
    {text : String} :
    operands.dropWhile (· == "") = text :: paths ↔
      text ≠ "" ∧
        ∃ empties, operands = empties ++ text :: paths ∧ AreEmpty empties := by
  constructor
  · intro shape
    have first := List.head?_dropWhile_not (· == "") operands
    refine ⟨by simpa [shape] using first, operands.takeWhile (· == ""), ?_, ?_⟩
    · rw [← shape, List.takeWhile_append_dropWhile]
    · intro operand member
      simpa using List.mem_takeWhile_imp member
  · rintro ⟨nonempty, empties, rfl, areEmpty⟩
    rw [List.dropWhile_append_of_pos (by simpa [AreEmpty] using areEmpty),
      List.dropWhile_cons_of_neg (by simpa using nonempty)]

/-- Arguments without a pattern are those that give none in either way. -/
theorem patternAndPaths?_eq_none_iff
    {arguments : Arguments} :
    arguments.patternAndPaths? = none ↔
      GivesNoPattern arguments.pattern? ∧ AreEmpty arguments.operands := by
  rw [← filter_nonempty_eq_none_iff, ← dropWhile_empty_eq_nil_iff]
  unfold patternAndPaths?
  split
  · next given => simp [given]
  · next notGiven =>
    split
    · next nothing => simp [notGiven, nothing]
    · next found => simp [notGiven, found]

/-- The pattern and the paths of arguments are those that they choose. -/
theorem patternAndPaths?_eq_some_iff
    {arguments : Arguments}
    {text : String}
    {paths : List String} :
    arguments.patternAndPaths? = some (text, paths) ↔
      arguments.Chooses text paths := by
  constructor
  · intro chosen
    unfold patternAndPaths? at chosen
    split at chosen
    · next given =>
      cases chosen
      obtain ⟨byOption, nonempty⟩ := filter_nonempty_eq_some_iff.mp given
      exact .byOption byOption nonempty
    · next notGiven =>
      split at chosen
      · cases chosen
      · next found =>
        cases chosen
        obtain ⟨nonempty, empties, shape, areEmpty⟩ :=
          dropWhile_empty_eq_cons_iff.mp found
        exact
          .byOperand (filter_nonempty_eq_none_iff.mp notGiven) shape areEmpty
            nonempty
  · rintro (⟨given, nonempty⟩ | ⟨notByOption, shape, areEmpty, nonempty⟩)
    · have given := filter_nonempty_eq_some_iff.mpr ⟨given, nonempty⟩
      simp only [patternAndPaths?, given]
    · have found := dropWhile_empty_eq_cons_iff.mpr ⟨nonempty, _, shape, areEmpty⟩
      have notGiven := filter_nonempty_eq_none_iff.mpr notByOption
      simp only [patternAndPaths?, notGiven, found]

/-- Arguments that are in no trouble choose a pattern that can be read. -/
theorem not_troubled_iff
    {arguments : Arguments} :
    ¬ arguments.Troubled ↔
      ∃ text paths pattern,
        arguments.Chooses text paths ∧ Pattern.compile text = .ok pattern := by
  constructor
  · intro untroubled
    rcases chosen : arguments.patternAndPaths? with _ | ⟨text, paths⟩
    · exact (untroubled (.inl (patternAndPaths?_eq_none_iff.mp chosen))).elim
    · have chooses := patternAndPaths?_eq_some_iff.mp chosen
      cases compiled : Pattern.compile text with
      | error reason =>
          exact (untroubled (.inr ⟨text, paths, reason, chooses, compiled⟩)).elim
      | ok pattern => exact ⟨text, paths, pattern, chooses, compiled⟩
  · rintro ⟨text, paths, pattern, chooses, compiled⟩ troubled
    have chosen := patternAndPaths?_eq_some_iff.mpr chooses
    rcases troubled with nothing | ⟨other, others, reason, otherwise, refused⟩
    · rw [patternAndPaths?_eq_none_iff.mpr nothing] at chosen
      cases chosen
    · rw [patternAndPaths?_eq_some_iff.mpr otherwise] at chosen
      cases chosen
      rw [refused] at compiled
      cases compiled

end Arguments

section Perform

variable {arguments : Arguments}

/-- In trouble, a run searches nothing: it ends the same way whatever there is to read. -/
theorem perform_of_troubled
    (troubled : arguments.Troubled) :
    ∃ diagnostics, ∀ environment,
      perform environment arguments =
        ⟨ExitStatus.trouble.code, environment.output, diagnostics⟩ := by
  rcases troubled with nothing | ⟨text, paths, reason, chooses, refused⟩
  · have chosen := Arguments.patternAndPaths?_eq_none_iff.mpr nothing
    refine ⟨.usage, fun environment => ?_⟩
    simp only [perform, chosen, refuse]
  · have chosen := Arguments.patternAndPaths?_eq_some_iff.mpr chooses
    refine
      ⟨.lines ["error: invalid pattern: " ++ reason.message], fun environment => ?_⟩
    simp only [perform, chosen, refused]

/-- A run goes by what its arguments choose, however they choose it. -/
theorem perform_of_chooses
    (environment : Environment)
    {text : String}
    {paths : List String}
    {pattern : Pattern}
    (chooses : arguments.Chooses text paths)
    (compiled : Pattern.compile text = .ok pattern) :
    perform environment arguments =
      searchFor environment (.ofVerbosity arguments.verbosity) pattern
        arguments.recursive paths := by
  have chosen := Arguments.patternAndPaths?_eq_some_iff.mpr chooses
  simp only [perform, chosen, compiled]

/-- Runs end the same way when their arguments choose the same, in whatever way. -/
theorem perform_of_same_choice
    (environment : Environment)
    {others : Arguments}
    {text : String}
    {paths : List String}
    (sameDetail : arguments.verbosity = others.verbosity)
    (sameDepth : arguments.recursive = others.recursive)
    (chooses : arguments.Chooses text paths)
    (otherChooses : others.Chooses text paths) :
    perform environment arguments = perform environment others := by
  have chosen := Arguments.patternAndPaths?_eq_some_iff.mpr chooses
  have otherChosen := Arguments.patternAndPaths?_eq_some_iff.mpr otherChooses
  simp only [perform, chosen, otherChosen, sameDetail, sameDepth]

end Perform

/-- All that a search for a pattern in these paths prints when all of it is taken. -/
def outputOf
    (environment : Environment)
    (pattern : Pattern)
    (recursive : Bool)
    (paths : List String) :
    List UInt8 :=
  (searchIn environment pattern recursive paths).wholeOutput
    (callFor environment paths)

/-- A device that takes nothing refuses all bytes but none. -/
theorem failure?_write_full
    (reason : String)
    (bytes : List UInt8) :
    (((Device.full reason).write bytes).andThen Device.flush).failure?.isSome =
      !bytes.isEmpty := by
  cases bytes <;> simp [Device.write, Device.full, Attempt.andThen, Device.flush]

section SearchFor

variable (environment : Environment)
variable (level : Log.Level)
variable (pattern : Pattern)
variable (recursive : Bool)
variable (paths : List String)

/-- A search leaves its output where it goes, as if it were written at once. -/
theorem output_searchFor :
    (searchFor environment level pattern recursive paths).output =
      (environment.output.write
        (outputOf environment pattern recursive paths)).state := by
  rw [outputOf, Search.wholeOutput_eq]
  exact (performAndFlush_settles _ _ _).1

/-- The exit code tells whether the output was taken, and whether there was any. -/
theorem code_searchFor :
    let output := outputOf environment pattern recursive paths
    let written := (environment.output.write output).andThen Device.flush
    (searchFor environment level pattern recursive paths).code =
      if written.failure?.isSome then 2 else if output = [] then 1 else 0 := by
  intro output written
  let delivery :=
    performAndFlush environment.output
      (searchIn environment pattern recursive paths)
      (callFor environment paths)
  have whole :
      output =
        printed
          ((searchIn environment pattern recursive paths).events
            (callFor environment paths)) :=
    Search.wholeOutput_eq _ _
  have failure : delivery.failure?.isSome = written.failure?.isSome := by
    simp only [written, whole]
    exact (performAndFlush_settles _ _ _).2
  have finds : delivery.failure? = none → (delivery.found = true ↔ output ≠ []) := by
    rw [whole]
    exact found_performAndFlush_iff
  change (statusOf delivery).code = _
  rw [← failure]
  generalize delivery = delivered at finds
  rcases delivered with ⟨records, channel, reason | found⟩
  · rfl
  · have isFound : found = true ↔ output ≠ [] := finds rfl
    by_cases empty : output = []
    · have notFound : found = false := by
        simpa [empty] using isFound
      simp [statusOf, Delivery.failure?, empty, notFound, ExitStatus.ofFound,
        ExitStatus.code]
    · simp [statusOf, Delivery.failure?, empty, isFound.mpr empty,
        ExitStatus.ofFound, ExitStatus.code]

/-- With an output that takes everything, the code tells whether there is any. -/
theorem searchFor_unlimited :
    let output := outputOf environment pattern recursive paths
    let ending :=
      searchFor { environment with output := .unlimited } level pattern
        recursive paths
    ending.output.taken = output.toArray ∧
      ending.code = if output = [] then 1 else 0 := by
  intro output ending
  refine ⟨?_, code_searchFor _ _ _ _ _⟩
  rw [show ending.output = _ from output_searchFor _ _ _ _ _]
  simp [Device.write, Device.unlimited, Attempt.done, output, outputOf, searchIn,
    callFor]

/-- With an output that takes nothing, the code tells whether there would be any. -/
theorem code_searchFor_full (reason : String) :
    let output := outputOf environment pattern recursive paths
    let ending :=
      searchFor { environment with output := .full reason } level pattern
        recursive paths
    ending.code = if output = [] then 1 else 2 := by
  intro output ending
  have code : ending.code = _ := code_searchFor _ _ _ _ _
  rw [failure?_write_full] at code
  have same :
      outputOf { environment with output := .full reason } pattern recursive
          paths =
        output :=
    rfl
  rw [code, same]
  cases output <;> rfl

end SearchFor

/--
For all arguments that are read, and all that there is to be read.

When the arguments are in trouble the code is 2, whatever takes the output; nothing
is printed, and nothing is searched: the run ends in the same way whatever there
is to search.  Otherwise the chosen pattern is searched for in the chosen paths.
With an output that takes everything, all that is found is printed, and the code is
0 if that is something and 1 if it is nothing, and never 2.  With an output that
takes nothing it is 2 in the first case and 1 in the second.

A pattern given by the option is searched for just as one that stands before the
same paths, behind any empty operands, when the option gives none.
-/
theorem exit_code_tells_the_truth
    (environment : Environment)
    (arguments : Arguments) :
    let healthy := perform { environment with output := .unlimited } arguments
    (arguments.Troubled →
        ∃ diagnostics, ∀ other,
          perform other arguments = ⟨2, other.output, diagnostics⟩) ∧
      (¬ arguments.Troubled →
        (∃ text paths pattern,
            arguments.Chooses text paths ∧
              Pattern.compile text = .ok pattern ∧
              healthy.output.taken.toList =
                outputOf environment pattern arguments.recursive paths) ∧
          (healthy.code = 0 ↔ healthy.output.taken ≠ #[]) ∧
          (healthy.code = 1 ↔ healthy.output.taken = #[]) ∧
          healthy.code ≠ 2 ∧
          ∀ reason,
            let rejected :=
              perform { environment with output := .full reason } arguments
            (rejected.code = 2 ↔ healthy.output.taken ≠ #[]) ∧
              (rejected.code = 1 ↔ healthy.output.taken = #[])) ∧
      ∀ text paths empties option?,
        text ≠ "" →
        Arguments.AreEmpty empties →
        Arguments.GivesNoPattern option? →
        perform environment
            { arguments with pattern? := some text, operands := paths } =
          perform environment
            { arguments with
              pattern? := option?
              operands := empties ++ text :: paths } := by
  intro healthy
  refine ⟨perform_of_troubled, fun untroubled => ?_, ?_⟩
  · obtain ⟨text, paths, pattern, chooses, compiled⟩ :=
      Arguments.not_troubled_iff.mp untroubled
    have performed (device : Device) :=
      perform_of_chooses { environment with output := device } chooses compiled
    obtain ⟨taken, code⟩ :=
      searchFor_unlimited environment (.ofVerbosity arguments.verbosity) pattern
        arguments.recursive paths
    have rejected (reason : String) :=
      code_searchFor_full environment (.ofVerbosity arguments.verbosity) pattern
        arguments.recursive paths reason
    simp only [healthy, performed, taken, code, rejected]
    refine ⟨⟨text, paths, pattern, chooses, compiled, rfl⟩, ?_⟩
    by_cases empty :
        outputOf environment pattern arguments.recursive paths = []
    · simp [empty]
    · simp [empty]
  · intro text paths empties option? nonempty areEmpty notByOption
    exact
      perform_of_same_choice environment rfl rfl (.byOption rfl nonempty)
        (.byOperand notByOption rfl areEmpty nonempty)

/--
Nothing is at the first path, the file at the second cannot be opened, and the third
breaks off behind a match; the option is empty.
-/
theorem exit_code_tells_the_truth_of_failing_paths :
    let files : Files.FileSystem :=
      ⟨⟨.whole,
          [("in", .file .regular (.opens [97, 98, 10, 97] (some .inputOutput))),
            ("lock", .file .regular (.refused .permissionDenied))]⟩,
        []⟩
    let environment : Environment := ⟨.whole [], files, .unlimited⟩
    let paths := ["gone", "/lock", "in"]
    let arguments : Arguments := ⟨some "", false, 0, ["", "a"] ++ paths⟩
    Arguments.parse (["-E", "", "", "a"] ++ paths) = .ok arguments ∧
      ¬ arguments.Troubled ∧
      (perform environment arguments).code = 0 ∧
      (perform environment arguments).output.taken.toList =
        Utf8.encode "in:ab\n" ∧
      (perform { environment with output := .full "full" } arguments).code = 2 ∧
      perform environment ⟨some "a", false, 0, paths⟩ =
        perform environment arguments := by
  intro files environment paths arguments
  have parsed :
      Arguments.parse (["-E", "", "", "a"] ++ paths) = .ok arguments := by
    decide
  have areEmpty : Arguments.AreEmpty [""] := by
    simp [Arguments.AreEmpty]
  have chooses : arguments.Chooses "a" paths :=
    .byOperand (.inr rfl) (List.singleton_append).symm areEmpty (by decide)
  have spells :
      Spelling.Alternation.Spells
        (.of (.cons (.plain 'a') none .nil) .nil) "a" := by
    decide
  let pattern : Pattern := ⟨.literal 'a', 0, false, "a"⟩
  have compiled : Pattern.compile "a" = .ok pattern :=
    Pattern.compile_of_spells spells
  have untroubled : ¬ arguments.Troubled :=
    Arguments.not_troubled_iff.mpr ⟨_, _, _, chooses, compiled⟩
  have output :
      outputOf environment pattern false paths = Utf8.encode "in:ab\n" := by
    cbv
  have taken :
      (perform environment arguments).output.taken =
        (Utf8.encode "in:ab\n").toArray := by
    rw [perform_of_chooses environment chooses compiled, ← output]
    exact (searchFor_unlimited environment _ _ _ _).1
  have nonempty : (perform environment arguments).output.taken ≠ #[] := by
    rw [taken]
    decide
  obtain ⟨-, tells, sameChoice⟩ :=
    exit_code_tells_the_truth environment arguments
  obtain ⟨-, zeroIff, -, -, rejected⟩ := tells untroubled
  refine
    ⟨parsed, untroubled, zeroIff.mpr nonempty, congrArg Array.toList taken,
      (rejected "full").1.mpr nonempty, ?_⟩
  exact sameChoice "a" paths [""] (some "") (by decide) areEmpty (.inr rfl)

end LineSearch.CommandLine
