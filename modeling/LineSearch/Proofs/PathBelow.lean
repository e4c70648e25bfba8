import LineSearch.Proofs.WellFormedTree

namespace LineSearch

/-!
# Where the path of an entry leads

The path of a directory, with the name of one of its entries behind it, leads to
that entry, whatever links were passed on the way to the directory.  So what a
directory lists can be reached by its path, for as long as the system takes that
path.
-/

namespace Files

/-- An empty component stands for the directory itself, as a dot does. -/
theorem locate_stay
    {links : Nat}
    {place : Place}
    {name : String}
    {rest : List String}
    (stays : name = "" ∨ name = ".") :
    locate links place (name :: rest) = locate links place rest := by
  rw [locate, if_pos stays]

theorem locate_up
    {links : Nat}
    {place : Place}
    {rest : List String} :
    locate links place (".." :: rest) = locate links place.up rest := by
  rw [locate, if_neg (by decide), if_pos rfl]

/--
Components lead from one directory to another, through so many links of those that
may be passed that so many are left.
-/
inductive Follows : Nat → Place → List String → Nat → Place → Prop
  | arrived
      {links : Nat}
      {place : Place} :
      Follows links place [] links place
  | stay
      {links left : Nat}
      {place last : Place}
      {name : String}
      {rest : List String}
      (stays : name = "" ∨ name = ".")
      (onward : Follows links place rest left last) :
      Follows links place (name :: rest) left last
  | up
      {links left : Nat}
      {place last : Place}
      {rest : List String}
      (onward : Follows links place.up rest left last) :
      Follows links place (".." :: rest) left last
  | down
      {links left : Nat}
      {place last : Place}
      {name : String}
      {rest : List String}
      {access : Access}
      {entries : Listing}
      (moves : ¬(name = "" ∨ name = "."))
      (notAbove : name ≠ "..")
      (fits : ¬Path.nameLimit < name.utf8ByteSize)
      (found : place.here.entries.lookup name = some (.directory access entries))
      (onward : Follows links (place.down name ⟨access, entries⟩) rest left last) :
      Follows links place (name :: rest) left last
  | through
      {fewer left : Nat}
      {place last : Place}
      {name : String}
      {rest : List String}
      {target : String}
      (moves : ¬(name = "" ∨ name = "."))
      (notAbove : name ≠ "..")
      (fits : ¬Path.nameLimit < name.utf8ByteSize)
      (found : place.here.entries.lookup name = some (.link target))
      (onward :
        Follows fewer (startOf target place) (Path.components target ++ rest)
          left last) :
      Follows (fewer + 1) place (name :: rest) left last

/-- What leads to a directory is followed all the way. -/
theorem follows_of_locate
    {links : Nat}
    {place last : Place}
    {components : List String}
    (leads : locate links place components = .ok (.directory last)) :
    ∃ left, Follows links place components left last := by
  fun_induction locate links place components with
  | case1 links place =>
      cases leads
      exact ⟨links, .arrived⟩
  | case2 links place name rest stays inductionHypothesis =>
      obtain ⟨left, onward⟩ := inductionHypothesis leads
      exact ⟨left, .stay stays onward⟩
  | case3 links place rest _ inductionHypothesis =>
      obtain ⟨left, onward⟩ := inductionHypothesis leads
      exact ⟨left, .up onward⟩
  | case10 links place name rest moves notAbove fits access entries found
      inductionHypothesis =>
      obtain ⟨left, onward⟩ := inductionHypothesis leads
      exact ⟨left, .down moves notAbove fits found onward⟩
  | case12 place name rest moves notAbove fits target found fewer
      inductionHypothesis =>
      obtain ⟨left, onward⟩ := inductionHypothesis leads
      exact ⟨left, .through moves notAbove fits found onward⟩
  -- Everything else ends in an error or at something that is no directory.
  | case4 | case5 | case6 | case7 | case8 | case9 | case11 => cases leads

namespace Follows

/-- Whatever else is to be followed goes on from where components lead. -/
theorem locate_append
    {links left : Nat}
    {place last : Place}
    {components : List String}
    (follows : Follows links place components left last)
    (further : List String) :
    locate links place (components ++ further) =
      locate left last further := by
  induction follows with
  | arrived => rfl
  | stay stays _ inductionHypothesis =>
      rw [List.cons_append, locate_stay stays, inductionHypothesis]
  | up _ inductionHypothesis =>
      rw [List.cons_append, locate_up, inductionHypothesis]
  | down moves notAbove fits found _ inductionHypothesis =>
      rw [List.cons_append, locate, if_neg moves, if_neg notAbove, if_neg fits]
      simp only [found, inductionHypothesis]
  | through moves notAbove fits found _ inductionHypothesis =>
      rw [List.append_assoc] at inductionHypothesis
      rw [List.cons_append, locate, if_neg moves, if_neg notAbove, if_neg fits]
      simp only [found, inductionHypothesis]

/-- A way through a tree has a beginning of its own wherever it is parted. -/
theorem split
    {links left : Nat}
    {place last : Place}
    {first second : List String}
    (follows : Follows links place (first ++ second) left last) :
    ∃ between middle,
      Follows links place first between middle ∧
        Follows between middle second left last := by
  generalize whole : first ++ second = components at follows
  induction follows generalizing first with
  | arrived =>
      obtain ⟨rfl, rfl⟩ := List.append_eq_nil_iff.mp whole
      exact ⟨_, _, .arrived, .arrived⟩
  | stay stays onward inductionHypothesis =>
      cases first with
      | nil =>
          cases whole
          exact ⟨_, _, .arrived, .stay stays onward⟩
      | cons name first =>
          cases whole
          obtain ⟨between, middle, begins, ends⟩ := inductionHypothesis rfl
          exact ⟨between, middle, .stay stays begins, ends⟩
  | up onward inductionHypothesis =>
      cases first with
      | nil =>
          cases whole
          exact ⟨_, _, .arrived, .up onward⟩
      | cons name first =>
          cases whole
          obtain ⟨between, middle, begins, ends⟩ := inductionHypothesis rfl
          exact ⟨between, middle, .up begins, ends⟩
  | down moves notAbove fits found onward inductionHypothesis =>
      cases first with
      | nil =>
          cases whole
          exact ⟨_, _, .arrived, .down moves notAbove fits found onward⟩
      | cons name first =>
          cases whole
          obtain ⟨between, middle, begins, ends⟩ := inductionHypothesis rfl
          exact
            ⟨between, middle, .down moves notAbove fits found begins, ends⟩
  | through moves notAbove fits found onward inductionHypothesis =>
      cases first with
      | nil =>
          cases whole
          exact ⟨_, _, .arrived, .through moves notAbove fits found onward⟩
      | cons name first =>
          cases whole
          obtain ⟨between, middle, begins, ends⟩ :=
            inductionHypothesis (List.append_assoc _ _ _)
          exact
            ⟨between, middle, .through moves notAbove fits found begins, ends⟩

end Follows

namespace Path

/-- The path of what is reached by these names below the directory at a path. -/
def below (path : String) (names : List String) : String :=
  names.foldl join path

/-- Joining puts the name behind the components, in place of the empty one behind a last slash. -/
theorem exists_components_join
    (path : String)
    {name : String}
    (noSlash : '/' ∉ name.toList) :
    ∃ leading trailing,
      (trailing = [] ∨ trailing = [""]) ∧
        components path = leading ++ trailing ∧
        components (join path name) = leading ++ [name] := by
  have last : (segments '/' name.toList).map String.ofList = [name] := by
    simp [segments_of_not_mem noSlash]
  by_cases ends : path.toList.getLast? = some '/'
  · obtain ⟨front, shape⟩ := List.getLast?_eq_some_iff.mp ends
    refine
      ⟨(segments '/' front).map String.ofList, [""], Or.inr rfl, ?_, ?_⟩
    · rw [components, shape, segments_append_separator, List.map_append]
      rfl
    · rw [components, join, if_pos ends, String.toList_append, shape,
        List.append_assoc, List.singleton_append, segments_append_separator,
        List.map_append, last]
  · refine ⟨components path, [], Or.inl rfl, (List.append_nil _).symm, ?_⟩
    have shape :
        (join path name).toList = path.toList ++ '/' :: name.toList := by
      simp [join, ends]
    rw [components, shape, segments_append_separator, List.map_append, last]
    rfl

theorem isAbsolute_join
    {path : String}
    (notEmpty : path ≠ "")
    (name : String) :
    isAbsolute (join path name) = isAbsolute path := by
  have some : path.toList ≠ [] := by simpa using notEmpty
  obtain ⟨first, rest, shape⟩ := List.exists_cons_of_ne_nil some
  unfold isAbsolute join
  split <;> simp [shape]

theorem join_ne_empty
    {path : String}
    (notEmpty : path ≠ "")
    (name : String) :
    join path name ≠ "" := by
  unfold join
  split <;> simp [notEmpty]

theorem noZero_join
    {path name : String}
    (noZero : '\x00' ∉ path.toList)
    (isName : IsName name) :
    '\x00' ∉ (join path name).toList := by
  have inName := isName.noZero
  unfold join
  split <;> simp [noZero, inName]

end Path

/-- The path of an entry is followed as that of its directory, and its name behind it. -/
theorem FileSystem.start_join
    (files : FileSystem)
    {path : String}
    (notEmpty : path ≠ "")
    (name : String) :
    files.start (Path.join path name) = files.start path := by
  rw [start, start, Path.isAbsolute_join notEmpty]

/-- A location is where this entry stands; of a link nothing is asked. -/
inductive Arrives : Except SystemError Location → Entry → Prop
  | file
      (place : Place)
      (name : String)
      (kind : FileKind)
      (content : Content) :
      Arrives (.ok (.file place name kind content)) (.file kind content)
  | directory
      (place : Place) :
      Arrives (.ok (.directory place)) place.here.entry
  | link
      (location : Except SystemError Location)
      (target : String) :
      Arrives location (.link target)
  | hidden
      (reason : SystemError) :
      Arrives (.error reason) (.hidden reason)

/-- The system takes a path, unless it is too long, and finds this entry at its end. -/
structure LeadsTo
    (files : FileSystem)
    (path : String)
    (entry : Entry) : Prop where
  notEmpty : path ≠ ""
  noZero : '\x00' ∉ path.toList
  arrives : Arrives (files.follow path) entry

/-- A name leads from a place to the entry it stands for. -/
theorem arrives_of_lookup
    {place : Place}
    {name : String}
    {entry : Entry}
    (isName : IsName name)
    (found : place.here.entries.lookup name = some entry)
    (links : Nat) :
    Arrives (locate links place [name]) entry := by
  have moves : ¬(name = "" ∨ name = ".") :=
    not_or.mpr ⟨isName.notEmpty, isName.notHere⟩
  have fits : ¬Path.nameLimit < name.utf8ByteSize :=
    Nat.not_lt.mpr isName.fits
  cases entry with
  | link target => exact .link _ target
  | file kind content =>
      rw [locate, if_neg moves, if_neg isName.notAbove, if_neg fits]
      simp only [found]
      exact .file place name kind content
  | directory access entries =>
      rw [locate, if_neg moves, if_neg isName.notAbove, if_neg fits]
      simp only [found, locate]
      exact .directory (place.down name ⟨access, entries⟩)
  | hidden reason =>
      rw [locate, if_neg moves, if_neg isName.notAbove, if_neg fits]
      simp only [found]
      exact .hidden reason

namespace LeadsTo

/-- The path of an entry of a directory leads to that entry. -/
theorem join
    {files : FileSystem}
    {path name : String}
    {access : Access}
    {entries : Listing}
    {entry : Entry}
    (leads : LeadsTo files path (.directory access entries))
    (wellFormed : (Entry.directory access entries).WellFormed)
    (listed : (name, entry) ∈ entries) :
    LeadsTo files (Path.join path name) entry := by
  cases wellFormed with
  | directory _ once named inner =>
      have isName : IsName name := named _ listed
      refine
        ⟨Path.join_ne_empty leads.notEmpty name,
          Path.noZero_join leads.noZero isName, ?_⟩
      obtain ⟨leading, trailing, stays, whole, joined⟩ :=
        Path.exists_components_join path isName.noSlash
      have arrives := leads.arrives
      generalize location : files.follow path = reached at arrives
      cases arrives with
      | directory place =>
          rw [FileSystem.follow, FileSystem.way, whole, ← List.append_assoc]
            at location
          obtain ⟨left, whole⟩ := follows_of_locate location
          obtain ⟨between, middle, begins, ends⟩ := whole.split
          have same : middle = place := by
            have arrived := ends.locate_append []
            rcases stays with rfl | rfl
            · simpa [locate] using arrived
            · simpa [locate, locate_stay] using arrived
          subst same
          rw [FileSystem.follow, FileSystem.way, joined,
            files.start_join leads.notEmpty, ← List.append_assoc,
            begins.locate_append]
          exact arrives_of_lookup isName (lookup_of_mem once listed) between

section Resolve

variable {files : FileSystem}
variable {path : String}

/-- The system takes a path that leads somewhere unless it is too long. -/
theorem accepted
    {entry : Entry}
    (leads : LeadsTo files path entry)
    (fits : Path.isTooLong path = false) :
    Path.refusal? path = none :=
  Path.refusal?_eq_none_iff.mpr ⟨leads.noZero, leads.notEmpty, fits⟩

/-- A file is found by its path unless that is too long. -/
theorem resolve_file
    {kind : FileKind}
    {content : Content}
    (leads : LeadsTo files path (.file kind content))
    (fits : Path.isTooLong path = false) :
    resolve files path = .ok (.file kind content) := by
  have arrives := leads.arrives
  generalize location : files.follow path = reached at arrives
  cases arrives with
  | file place name kind content =>
      simp only [resolve, leads.accepted fits, location]

/-- A directory is found by its path unless that is too long. -/
theorem resolve_directory
    {access : Access}
    {entries : Listing}
    (leads : LeadsTo files path (.directory access entries))
    (fits : Path.isTooLong path = false) :
    resolve files path = .ok (.directory ⟨access, entries⟩) := by
  have arrives := leads.arrives
  generalize location : files.follow path = reached at arrives
  cases arrives with
  | directory place => simp only [resolve, leads.accepted fits, location]

/-- The system takes no path that is too long. -/
theorem resolve_of_tooLong
    {entry : Entry}
    (leads : LeadsTo files path entry)
    (tooLong : Path.isTooLong path = true) :
    resolve files path = .error .nameTooLong := by
  have refused : Path.refusal? path = some .nameTooLong := by
    simp [Path.refusal?, leads.noZero, leads.notEmpty, tooLong]
  simp only [resolve, refused]

/-- A directory that a walk comes upon is listed unless its path is too long or it refuses. -/
theorem readDirectory_eq
    {access : Access}
    {entries : Listing}
    (leads : LeadsTo files path (.directory access entries)) :
    readDirectory files path =
      if Path.isTooLong path then
        .error .nameTooLong
      else
        match access.refusal? with
        | some reason => .error reason
        | none => .ok ⟨access, entries⟩ := by
  cases tooLong : Path.isTooLong path with
  | true => simp only [readDirectory, leads.resolve_of_tooLong tooLong, if_true]
  | false =>
      cases refusal : access.refusal? with
      | none =>
          simp only [readDirectory, leads.resolve_directory tooLong, refusal,
            Bool.false_eq_true, if_false]
      | some reason =>
          simp only [readDirectory, leads.resolve_directory tooLong, refusal,
            Bool.false_eq_true, if_false]

end Resolve

end LeadsTo

/-- A directory that a path resolves to is one that the path leads to. -/
theorem leadsTo_of_resolve
    {files : FileSystem}
    {path : String}
    {directory : Directory}
    (resolved : resolve files path = .ok (.directory directory)) :
    LeadsTo files path directory.entry ∧
      Path.isTooLong path = false ∧
      (files.WellFormed → directory.WellFormed) := by
  cases refused : Path.refusal? path with
  | some reason => simp [resolve, refused] at resolved
  | none =>
      obtain ⟨noZero, notEmpty, fits⟩ := Path.refusal?_eq_none_iff.mp refused
      simp only [resolve, refused] at resolved
      split at resolved
      · cases resolved
      · cases resolved
      · cases resolved
      · next place location =>
        cases resolved
        refine ⟨⟨notEmpty, noZero, location ▸ .directory place⟩, fits, ?_⟩
        intro wellFormed
        have isThere :=
          wellFormed_of_locate (.atRoot wellFormed.root)
            (wellFormed.isComponent_of_mem_way refused) location
        cases isThere with
        | directory placeWellFormed => exact placeWellFormed.here

end Files

end LineSearch
