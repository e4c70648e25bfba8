import LineSearch.Files.Build

namespace LineSearch

/-!
# Well-formed trees

In a well-formed tree every directory lists names, each of them once, and every link
holds a path that the system takes.  Paths that are followed stay in the tree.  So
whatever is built at the end of a path, the tree stays well formed.
-/

namespace Files

/-- Below an entry there are names only, and each directory lists each name once. -/
inductive Entry.WellFormed : Entry → Prop
  | file
      (kind : FileKind)
      (content : Content) :
      WellFormed (.file kind content)
  | link
      {target : String}
      (accepted : Path.refusal? target = none) :
      WellFormed (.link target)
  | directory
      (access : Access)
      {entries : Listing}
      (once : (entries.map (·.1)).Nodup)
      (named : ∀ listed ∈ entries, IsName listed.1)
      (inner : ∀ listed ∈ entries, listed.2.WellFormed) :
      WellFormed (.directory access entries)
  | hidden
      (reason : SystemError) :
      WellFormed (.hidden reason)

/-- A directory is well formed as an entry is. -/
abbrev Directory.WellFormed (directory : Directory) : Prop :=
  directory.entry.WellFormed

/-- The whole tree is well formed, and the working directory goes by names. -/
structure FileSystem.WellFormed (files : FileSystem) : Prop where
  root : files.root.WellFormed
  working : ∀ name ∈ files.working, IsName name

theorem lookup_of_mem
    {entries : Listing}
    (once : (entries.map (·.1)).Nodup)
    {name : String}
    {entry : Entry}
    (listed : (name, entry) ∈ entries) :
    entries.lookup name = some entry := by
  obtain ⟨before, later, rfl⟩ := List.append_of_mem listed
  refine List.lookup_eq_some_iff.mpr ⟨before, later, rfl, ?_⟩
  intro other isBefore
  rw [List.map_append, List.map_cons, List.nodup_append] at once
  have differ : other.1 ≠ name :=
    once.2.2 _ (List.mem_map_of_mem isBefore) _ List.mem_cons_self
  simpa using Ne.symm differ

theorem mem_of_lookup
    {entries : Listing}
    {name : String}
    {entry : Entry}
    (found : entries.lookup name = some entry) :
    (name, entry) ∈ entries := by
  obtain ⟨before, later, rfl, -⟩ := List.lookup_eq_some_iff.mp found
  simp

namespace Directory

/-- A name that is put stands for its new entry, and all others for what they stood for. -/
theorem mem_put
    {directory : Directory}
    {name : String}
    {entry : Entry}
    {listed : String × Entry} :
    listed ∈ (directory.put name entry).entries ↔
      (listed ∈ directory.entries ∧ listed.1 ≠ name) ∨
        listed = (name, entry) := by
  simp [put]

/-- A name that is put is not listed twice. -/
theorem once_put
    (directory : Directory)
    {name : String}
    {entry : Entry}
    (once : (directory.entries.map (·.1)).Nodup) :
    ((directory.put name entry).entries.map (·.1)).Nodup := by
  have kept :
      (directory.entries.filter fun other => other.1 != name).Sublist
        directory.entries :=
    List.filter_sublist
  rw [put, List.map_append, List.nodup_append]
  refine ⟨once.sublist (kept.map (·.1)), by simp, ?_⟩
  intro other isOther last isLast
  obtain ⟨listed, isKept, rfl⟩ := List.mem_map.mp isOther
  obtain rfl := List.mem_singleton.mp isLast
  simpa using (List.mem_filter.mp isKept).2

end Directory

namespace Directory.WellFormed

theorem named
    {directory : Directory}
    (wellFormed : directory.WellFormed)
    {name : String}
    {entry : Entry}
    (found : directory.entries.lookup name = some entry) :
    IsName name := by
  cases wellFormed with
  | directory _ once named inner => exact named _ (mem_of_lookup found)

theorem inner
    {directory : Directory}
    (wellFormed : directory.WellFormed)
    {name : String}
    {entry : Entry}
    (found : directory.entries.lookup name = some entry) :
    entry.WellFormed := by
  cases wellFormed with
  | directory _ once named inner => exact inner _ (mem_of_lookup found)

/-- How much of a directory is told does not matter. -/
theorem setAccess
    {directory : Directory}
    (wellFormed : directory.WellFormed)
    (access : Access) :
    Directory.WellFormed { directory with access := access } := by
  cases wellFormed with
  | directory _ once named inner => exact .directory access once named inner

theorem put
    {directory : Directory}
    (wellFormed : directory.WellFormed)
    {name : String}
    (isName : IsName name)
    {entry : Entry}
    (entryWellFormed : entry.WellFormed) :
    (directory.put name entry).WellFormed := by
  cases wellFormed with
  | directory _ once named inner =>
      refine .directory _ (once_put directory once) ?_ ?_
      · intro listed member
        rcases mem_put.mp member with isKept | rfl
        · exact named listed isKept.1
        · exact isName
      · intro listed member
        rcases mem_put.mp member with isKept | rfl
        · exact inner listed isKept.1
        · exact entryWellFormed

end Directory.WellFormed

/-- A place in a well-formed tree, with well-formed directories all the way up. -/
structure Place.WellFormed (place : Place) : Prop where
  here : place.here.WellFormed
  above : ∀ passed ∈ place.above, IsName passed.1 ∧ passed.2.WellFormed

namespace Place.WellFormed

theorem atRoot
    {root : Directory}
    (wellFormed : root.WellFormed) :
    (Place.atRoot root).WellFormed :=
  ⟨wellFormed, List.forall_mem_nil _⟩

theorem up
    {place : Place}
    (wellFormed : place.WellFormed) :
    place.up.WellFormed := by
  obtain ⟨here, _ | ⟨⟨name, nearest⟩, farther⟩⟩ := place
  · exact wellFormed
  · obtain ⟨isAbove, above⟩ := List.forall_mem_cons.mp wellFormed.above
    exact ⟨isAbove.2, above⟩

theorem top
    {place : Place}
    (wellFormed : place.WellFormed) :
    place.top.WellFormed := by
  unfold Place.top
  split
  · exact wellFormed
  · next name root last =>
    exact .atRoot (wellFormed.above _ (List.mem_of_getLast? last)).2

theorem down
    {place : Place}
    (wellFormed : place.WellFormed)
    {name : String}
    {access : Access}
    {entries : Listing}
    (found : place.here.entries.lookup name = some (.directory access entries)) :
    (place.down name ⟨access, entries⟩).WellFormed where
  here := wellFormed.here.inner found
  above :=
    List.forall_mem_cons.mpr
      ⟨⟨wellFormed.here.named found, wellFormed.here⟩, wellFormed.above⟩

theorem startOf
    {place : Place}
    (wellFormed : place.WellFormed)
    (target : String) :
    (startOf target place).WellFormed := by
  unfold Files.startOf
  split
  · exact wellFormed.top
  · exact wellFormed

/-- A directory that takes the place of another one leaves the tree well formed. -/
theorem rebuild
    {directory : Directory}
    (wellFormed : directory.WellFormed)
    {above : List (String × Directory)}
    (allAbove : ∀ passed ∈ above, IsName passed.1 ∧ passed.2.WellFormed) :
    (Place.rebuild directory above).WellFormed := by
  induction above generalizing directory with
  | nil => exact wellFormed
  | cons nearest farther inductionHypothesis =>
      obtain ⟨⟨isName, isWellFormed⟩, isFarther⟩ :=
        List.forall_mem_cons.mp allAbove
      exact inductionHypothesis (isWellFormed.put isName wellFormed) isFarther

theorem put
    {place : Place}
    (wellFormed : place.WellFormed)
    {name : String}
    (isName : IsName name)
    {entry : Entry}
    (entryWellFormed : entry.WellFormed) :
    (place.put name entry).WellFormed :=
  rebuild (wellFormed.here.put isName entryWellFormed) wellFormed.above

theorem setAccess
    {place : Place}
    (wellFormed : place.WellFormed)
    (access : Access) :
    (place.setAccess access).WellFormed :=
  rebuild (wellFormed.here.setAccess access) wellFormed.above

end Place.WellFormed

/-- A component of a path that the system takes. -/
structure IsComponent (component : String) : Prop where
  noSlash : '/' ∉ component.toList
  noZero : '\x00' ∉ component.toList

/-- A component that stands for an entry is a name that a directory can list. -/
theorem IsComponent.isName
    {component : String}
    (isComponent : IsComponent component)
    (moves : ¬(component = "" ∨ component = "."))
    (notAbove : component ≠ "..")
    (fits : ¬Path.nameLimit < component.utf8ByteSize) :
    IsName component where
  notEmpty := (not_or.mp moves).1
  notHere := (not_or.mp moves).2
  notAbove := notAbove
  noSlash := isComponent.noSlash
  noZero := isComponent.noZero
  fits := Nat.le_of_not_lt fits

theorem IsName.isComponent
    {name : String}
    (isName : IsName name) :
    IsComponent name :=
  ⟨isName.noSlash, isName.noZero⟩

namespace Path

/-- The system takes just these paths. -/
theorem refusal?_eq_none_iff
    {path : String} :
    refusal? path = none ↔
      '\x00' ∉ path.toList ∧ path ≠ "" ∧ isTooLong path = false := by
  unfold refusal?
  repeat' split
  all_goals simp_all

theorem isComponent_of_mem
    {path : String}
    (accepted : refusal? path = none) :
    ∀ component ∈ components path, IsComponent component := by
  intro component member
  obtain ⟨segment, isSegment, rfl⟩ := List.mem_map.mp member
  obtain ⟨noSlash, within⟩ := of_mem_segments isSegment
  refine ⟨by simpa using noSlash, fun isZero => ?_⟩
  exact (refusal?_eq_none_iff.mp accepted).1 (within (by simpa using isZero))

end Path

/-- Where a path ends is a place in the tree, or a name in such a place. -/
inductive Location.WellFormed : Location → Prop
  | directory
      {place : Place}
      (wellFormed : place.WellFormed) :
      WellFormed (.directory place)
  | file
      {place : Place}
      {name : String}
      {kind : FileKind}
      {content : Content}
      (wellFormed : place.WellFormed)
      (isName : IsName name) :
      WellFormed (.file place name kind content)
  | vacant
      {place : Place}
      {name : String}
      (wellFormed : place.WellFormed)
      (isName : IsName name) :
      WellFormed (.vacant place name)

/-- Whatever is followed in a well-formed tree, it leads to somewhere in that tree. -/
theorem wellFormed_of_locate
    {links : Nat}
    {place : Place}
    {components : List String}
    {location : Location}
    (wellFormed : place.WellFormed)
    (plain : ∀ component ∈ components, IsComponent component)
    (leads : locate links place components = .ok location) :
    location.WellFormed := by
  fun_induction locate links place components with
  | case1 links place =>
      cases leads
      exact .directory wellFormed
  | case2 links place name rest _ inductionHypothesis =>
      exact
        inductionHypothesis wellFormed (List.forall_mem_cons.mp plain).2 leads
  | case3 links place rest _ inductionHypothesis =>
      exact
        inductionHypothesis wellFormed.up (List.forall_mem_cons.mp plain).2
          leads
  | case5 links place name moves notAbove fits _ =>
      cases leads
      exact
        .vacant wellFormed
          ((plain name List.mem_cons_self).isName moves notAbove fits)
  | case7 links place name moves notAbove fits kind content found =>
      cases leads
      exact .file wellFormed (wellFormed.here.named found)
  | case10 links place name rest moves notAbove fits access entries found
      inductionHypothesis =>
      exact
        inductionHypothesis (wellFormed.down found)
          (List.forall_mem_cons.mp plain).2 leads
  | case12 place name rest moves notAbove fits target found fewer
      inductionHypothesis =>
      refine inductionHypothesis (wellFormed.startOf target) ?_ leads
      have later := (List.forall_mem_cons.mp plain).2
      cases wellFormed.here.inner found with
      | link accepted =>
          exact
            List.forall_mem_append.mpr
              ⟨Path.isComponent_of_mem accepted, later⟩
  -- Everything else ends in an error.
  | case4 | case6 | case8 | case9 | case11 => cases leads

/-- The way of a path that the system takes consists of components. -/
theorem FileSystem.WellFormed.isComponent_of_mem_way
    {files : FileSystem}
    (wellFormed : files.WellFormed)
    {path : String}
    (accepted : Path.refusal? path = none) :
    ∀ component ∈ files.way path, IsComponent component := by
  refine List.forall_mem_append.mpr ⟨?_, Path.isComponent_of_mem accepted⟩
  intro name isWorking
  unfold FileSystem.start at isWorking
  split at isWorking
  · cases isWorking
  · exact (wellFormed.working name isWorking).isComponent

/-- Making the directories that are missing on a way keeps a tree well formed. -/
theorem wellFormed_of_makeWay
    {root after : Directory}
    {passed way : List String}
    (wellFormed : root.WellFormed)
    (plain : ∀ component ∈ passed ++ way, IsComponent component)
    (made : makeWay root passed way = .ok after) :
    after.WellFormed := by
  induction way generalizing root passed with
  | nil =>
      cases made
      exact wellFormed
  | cons name rest inductionHypothesis =>
      rw [List.append_cons] at plain
      rw [makeWay] at made
      split at made
      · cases made
      · exact inductionHypothesis wellFormed plain made
      · next place last leads =>
        have isThere :=
          wellFormed_of_locate (.atRoot wellFormed)
            (List.forall_mem_append.mp plain).1 leads
        cases isThere with
        | vacant placeWellFormed isName =>
            have empty : (Entry.folder []).WellFormed :=
              .directory .whole List.nodup_nil (List.forall_mem_nil _)
                (List.forall_mem_nil _)
            exact
              inductionHypothesis (placeWellFormed.put isName empty) plain made
      · cases made

namespace FileSystem

/-- What is done to a file system, if it is done, keeps it well formed. -/
def Keeps (build : FileSystem → Except SystemError FileSystem) : Prop :=
  ∀ files after, files.WellFormed → build files = .ok after → after.WellFormed

/-- What is done in two steps keeps file systems well formed when each step does. -/
theorem Keeps.andThen
    {first second : FileSystem → Except SystemError FileSystem}
    (firstKeeps : Keeps first)
    (secondKeeps : Keeps second) :
    Keeps fun files => first files >>= second := by
  intro files after wellFormed built
  change (first files >>= second) = .ok after at built
  rcases done : first files with reason | between
  · rw [done] at built
    cases built
  · rw [done] at built
    exact secondKeeps between after (firstKeeps files between wellFormed done) built

/-- A change at the end of a path keeps a file system well formed if it keeps its tree so. -/
theorem keeps_change
    (path : String)
    {make : Directory → List String → Except SystemError Directory}
    (makes :
      ∀ root way after,
        root.WellFormed →
          (∀ component ∈ way, IsComponent component) →
            make root way = .ok after → after.WellFormed) :
    Keeps (·.change path make) := by
  intro files after wellFormed changed
  simp only [change] at changed
  split at changed
  · cases changed
  · next accepted =>
    have plain := wellFormed.isComponent_of_mem_way accepted
    rcases made : make files.root (files.way path) with reason | root
    · rw [made] at changed
      cases changed
    · rw [made] at changed
      cases changed
      exact ⟨makes _ _ _ wellFormed.root plain made, wellFormed.working⟩

theorem keeps_makeDirectory (path : String) :
    Keeps (·.makeDirectory path) :=
  keeps_change path fun _ _ _ wellFormed plain made =>
    wellFormed_of_makeWay wellFormed plain made

theorem keeps_setAccess
    (path : String)
    (access : Access) :
    Keeps (·.setAccess path access) := by
  refine keeps_change path fun root way after wellFormed plain made => ?_
  split at made
  · cases made
  · next place leads =>
    cases made
    cases wellFormed_of_locate (.atRoot wellFormed) plain leads with
    | directory placeWellFormed => exact placeWellFormed.setAccess access
  · cases made
  · cases made

/-- The components of a way but the last are components too. -/
theorem isComponent_of_mem_dropLast
    {way : List String}
    (plain : ∀ component ∈ way, IsComponent component) :
    ∀ component ∈ way.dropLast, IsComponent component :=
  fun component member => plain component (way.dropLast_subset member)

theorem keeps_makeFile
    (path : String)
    (kind : FileKind)
    (content : Content) :
    Keeps (·.makeFile path kind content) := by
  refine keeps_change path fun root way after wellFormed plain made => ?_
  split at made
  · cases made
  · next between parents =>
    have betweenWellFormed : between.WellFormed :=
      wellFormed_of_makeWay wellFormed (isComponent_of_mem_dropLast plain)
        parents
    split at made
    · cases made
    · cases made
    · next place name _ _ leads =>
      cases made
      cases wellFormed_of_locate (.atRoot betweenWellFormed) plain leads with
      | file placeWellFormed isName =>
          exact placeWellFormed.put isName (.file kind content)
    · next place name leads =>
      cases made
      cases wellFormed_of_locate (.atRoot betweenWellFormed) plain leads with
      | vacant placeWellFormed isName =>
          exact placeWellFormed.put isName (.file kind content)

theorem keeps_writeFile
    (path : String)
    (bytes : List UInt8) :
    Keeps (·.writeFile path bytes) :=
  keeps_makeFile path _ _

theorem keeps_putName
    (path : String)
    {entry : Entry}
    (entryWellFormed : entry.WellFormed) :
    Keeps (·.putName path entry) := by
  refine keeps_change path fun root way after wellFormed plain made => ?_
  split at made
  · cases made
  · next between parents =>
    have plainParents := isComponent_of_mem_dropLast plain
    have betweenWellFormed : between.WellFormed :=
      wellFormed_of_makeWay wellFormed plainParents parents
    split at made
    · cases made
    · next place name leads _ =>
      split at made
      · next isName =>
        cases made
        cases wellFormed_of_locate (.atRoot betweenWellFormed) plainParents leads with
        | directory placeWellFormed =>
            exact placeWellFormed.put isName entryWellFormed
      · cases made
    · cases made

theorem keeps_makeLink
    (path target : String) :
    Keeps (·.makeLink path target) := by
  intro files after wellFormed made
  unfold makeLink at made
  split at made
  · cases made
  · next accepted =>
    exact keeps_putName path (.link accepted) files after wellFormed made

theorem keeps_hide
    (path : String)
    (reason : SystemError) :
    Keeps (·.hide path reason) :=
  keeps_putName path (.hidden reason)

end FileSystem

/-- Directories in each other list one name each, or none. -/
theorem nested_wellFormed
    {names : List String}
    (named : ∀ name ∈ names, IsName name) :
    (nested names).WellFormed := by
  induction names with
  | nil =>
      exact
        .directory .whole List.nodup_nil (List.forall_mem_nil _)
          (List.forall_mem_nil _)
  | cons name rest inductionHypothesis =>
      obtain ⟨isName, later⟩ := List.forall_mem_cons.mp named
      have inner := inductionHypothesis later
      exact
        .directory .whole (by simp [nested])
          (List.forall_mem_singleton.mpr isName)
          (List.forall_mem_singleton.mpr inner)

/-- What is built begins with a well-formed file system. -/
theorem FileSystem.bare_wellFormed
    {working : List String}
    (named : ∀ name ∈ working, IsName name) :
    (bare working).WellFormed :=
  ⟨nested_wellFormed named, named⟩

end Files

end LineSearch
