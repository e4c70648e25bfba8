import LineSearch.Proofs.PathBelow
import LineSearch.Proofs.SearchEvents

namespace LineSearch

/-!
# The order of a walk

Each directory is walked in the order of its names.  All in all this is the order
of the lists of names by which entries are reached, which is not the order of the
paths: what is below a directory stays together.  The loops of a walk, one for each
directory that is entered, come to a single loop over all that the walk meets.
-/

namespace Utf8

/-- Different texts have different bytes. -/
theorem encode_injective : Function.Injective encode := by
  intro left right same
  have bytes : left.toList.utf8Encode = right.toList.utf8Encode :=
    congrArg List.toByteArray same
  rwa [String.utf8Encode_toList, String.utf8Encode_toList,
    String.toByteArray_inj] at bytes

end Utf8

namespace Files

/-- Does a walk go on below this entry, which stands at this path? -/
def isEntered (path : String) : Entry → Bool
  | .directory access _ => !Path.isTooLong path && access.refusal?.isNone
  | _ => false

theorem isEntered_directory_iff
    {path : String}
    {access : Access}
    {entries : Listing} :
    isEntered path (.directory access entries) = true ↔
      Path.isTooLong path = false ∧ access.refusal? = none := by
  simp [isEntered]

/--
What a walk meets that has come to an entry at a path: the entry itself and, if the
walk goes on below it, what it meets at the entries listed there. Only real
directories are passed, whatever links lead to.
-/
inductive Met : String → Entry → List String → Entry → Prop
  | here
      {path : String}
      {entry : Entry} :
      Met path entry [] entry
  | inside
      {path name : String}
      {access : Access}
      {entries : Listing}
      {inner found : Entry}
      {names : List String}
      (goesOn : isEntered path (.directory access entries) = true)
      (listed : (name, inner) ∈ access.listed entries)
      (met : Met (Path.join path name) inner names found) :
      Met path (.directory access entries) (name :: names) found

/-- What is listed of a directory keeps its order. -/
theorem Access.listed_sublist
    (access : Access)
    (entries : List α) :
    (access.listed entries).Sublist entries := by
  cases access with
  | whole => exact List.Sublist.refl entries
  | partly count failures => exact List.take_sublist count entries
  | refused reason => exact List.nil_sublist entries

/-- What is met below an entry has a path that leads to it. -/
theorem LeadsTo.of_met
    {files : FileSystem}
    {path : String}
    {entry found : Entry}
    {names : List String}
    (leads : LeadsTo files path entry)
    (wellFormed : entry.WellFormed)
    (met : Met path entry names found) :
    LeadsTo files (Path.below path names) found := by
  induction met with
  | here => exact leads
  | @inside _ _ access entries _ _ _ goesOn listed _ inductionHypothesis =>
      have isEntry := (access.listed_sublist entries).subset listed
      cases wellFormed with
      | directory _ once named inner =>
          exact
            inductionHypothesis
              (leads.join (.directory _ once named inner) isEntry)
              (inner _ isEntry)

end Files

namespace Search

open Output Files

theorem nameLE_iff
    {left right : String} :
    nameLE left right = true ↔ Utf8.encode left ≤ Utf8.encode right :=
  decide_eq_true_iff

theorem nameLE_trans
    {first second third : String}
    (before : nameLE first second = true)
    (after : nameLE second third = true) :
    nameLE first third = true :=
  nameLE_iff.mpr (List.le_trans (nameLE_iff.mp before) (nameLE_iff.mp after))

theorem nameLE_total
    (left right : String) :
    (nameLE left right || nameLE right left) = true := by
  rw [Bool.or_eq_true, nameLE_iff, nameLE_iff]
  exact List.le_total _ _

/-- Names that are each there once come in their strict order. -/
theorem pairwise_inNameOrder
    {byName : List (String × α)}
    (once : (byName.map (·.1)).Nodup) :
    (inNameOrder byName).Pairwise fun earlier later =>
      Utf8.encode earlier.1 < Utf8.encode later.1 := by
  have ordered :
      (inNameOrder byName).Pairwise fun earlier later =>
        nameLE earlier.1 later.1 = true := by
    refine List.pairwise_mergeSort ?_ ?_ byName
    · exact fun first second third before after =>
        nameLE_trans before after
    · exact fun left right => nameLE_total left.1 right.1
  have stillOnce : ((inNameOrder byName).map (·.1)).Nodup :=
    ((List.mergeSort_perm byName _).map (·.1)).nodup_iff.mpr once
  have different :
      (inNameOrder byName).Pairwise fun earlier later => earlier.1 ≠ later.1 :=
    List.pairwise_map.mp stillOnce
  refine (ordered.and different).imp ?_
  rintro earlier later ⟨isLE, differ⟩
  exact
    Std.lt_of_le_of_ne (nameLE_iff.mp isLE)
      fun same => differ (Utf8.encode_injective same)

/-- One list of names is before another in the order of their bytes. -/
def NamesBefore (earlier later : List String) : Prop :=
  earlier.map Utf8.encode < later.map Utf8.encode

/-- What is logged of a directory that a walk meets: why it is not entered, or what it does not list. -/
def directoryRecords (path : String) (access : Access) : List Log.Record :=
  if Path.isTooLong path then
    [directorySkipped path .nameTooLong]
  else
    match access.refusal? with
    | some reason => [directorySkipped path reason]
    | none => access.failures.map (entrySkipped path)

/-- What is done at an entry that a walk meets, less what is done below it. -/
def visit (search : Search) (path : String) : Entry → Action Bool
  | .directory access _ => do
      (directoryRecords path access).forM Action.log
      pure false
  | .hidden reason => Action.leaveOut (skipped path reason)
  | .file .. | .link _ =>
      if isRegular search.files path then
        search.action (.file path)
      else
        Action.leaveOut (notRegular path)

/-- Where a walk does not go on, it visits the entry. -/
theorem entry_of_not_entered
    {search : Search}
    {path : String}
    {entry : Entry}
    (leads : LeadsTo search.files path entry)
    (stops : isEntered path entry = false) :
    search.entry path entry = search.visit path entry := by
  cases entry with
  | file kind content => rw [Search.entry, visit, action]
  | link target => rw [Search.entry, visit, action]
  | hidden reason => rw [Search.entry, visit]
  | directory access entries =>
      rw [Search.entry, leads.readDirectory_eq, visit, directoryRecords]
      cases tooLong : Path.isTooLong path with
      | true => simp [Action.leaveOut]
      | false =>
          cases refusal : access.refusal? with
          | none => simp [isEntered, tooLong, refusal] at stops
          | some reason => simp [Action.leaveOut]

theorem entriesByName_eq_map
    (search : Search)
    (path : String)
    (entries : Listing) :
    search.entriesByName path entries =
      entries.map fun listed =>
        (listed.1, search.entry (Path.join path listed.1) listed.2) := by
  induction entries with
  | nil => rfl
  | cons listed rest inductionHypothesis =>
      rw [entriesByName, inductionHypothesis, List.map_cons]

/-- A directory that is entered is visited, and then walked entry by entry. -/
theorem entry_of_entered
    {search : Search}
    {path : String}
    {access : Access}
    {entries : Listing}
    (leads : LeadsTo search.files path (.directory access entries))
    (goesOn : isEntered path (.directory access entries) = true) :
    search.entry path (.directory access entries) = (do
      let found ← search.visit path (.directory access entries)
      let foundInside ←
        Action.foundAmong (inNameOrder (access.listed entries)) fun listed =>
          search.entry (Path.join path listed.1) listed.2
      pure (found || foundInside)) := by
  obtain ⟨fits, accessible⟩ := isEntered_directory_iff.mp goesOn
  rw [Search.entry, leads.readDirectory_eq, visit, directoryRecords, fits,
    accessible, entriesByName_eq_map, listed_map,
    inNameOrder_map fun listed =>
      search.entry (Path.join path listed.1) listed.2,
    Action.foundAmong_map]
  simp only [Bool.false_eq_true, if_false, bind_assoc, pure_bind,
    Bool.false_or, bind_pure, List.forM_eq_forM, List.forM_map]

/-- All that a walk from an entry at a path meets, in the order in which it is met. -/
structure Walks
    (search : Search)
    (path : String)
    (entry : Entry)
    (met : List (List String × Entry)) : Prop where
  complete :
    ∀ names found, (names, found) ∈ met ↔ Met path entry names found
  ordered : met.Pairwise fun earlier later => NamesBefore earlier.1 later.1
  visits :
    search.entry path entry =
      Action.foundAmong met fun found =>
        search.visit (Path.below path found.1) found.2

/-- All that walks from these entries of the directory at a path meet, one walk after the other. -/
structure WalksAll
    (search : Search)
    (path : String)
    (entries : Listing)
    (met : List (List String × Entry)) : Prop where
  complete :
    ∀ names found,
      (names, found) ∈ met ↔
        ∃ name inner rest,
          (name, inner) ∈ entries ∧
            names = name :: rest ∧
            Met (Path.join path name) inner rest found
  ordered : met.Pairwise fun earlier later => NamesBefore earlier.1 later.1
  visits :
    (Action.foundAmong entries fun listed =>
        search.entry (Path.join path listed.1) listed.2) =
      Action.foundAmong met fun found =>
        search.visit (Path.below path found.1) found.2

namespace WalksAll

theorem nil
    (search : Search)
    (path : String) :
    search.WalksAll path [] [] where
  complete := by simp
  ordered := .nil
  visits := rfl

/-- What one walk meets is met under the name of its entry, before all that is under later names. -/
theorem cons
    {search : Search}
    {path name : String}
    {entry : Entry}
    {rest : Listing}
    {first later : List (List String × Entry)}
    (walks : search.Walks (Path.join path name) entry first)
    (walksLater : search.WalksAll path rest later)
    (isFirst :
      ∀ other ∈ rest, Utf8.encode name < Utf8.encode other.1) :
    search.WalksAll path ((name, entry) :: rest)
      (first.map (fun found => (name :: found.1, found.2)) ++ later) where
  complete names found := by
    simp only [List.mem_append, List.mem_map, walksLater.complete]
    constructor
    · rintro
        (⟨⟨_, _⟩, isMet, same⟩ | ⟨other, inner, others, listed, same, met⟩)
      · cases same
        exact
          ⟨name, entry, _, List.mem_cons_self, rfl,
            (walks.complete _ _).mp isMet⟩
      · exact
          ⟨other, inner, others, List.mem_cons_of_mem _ listed, same, met⟩
    · rintro ⟨other, inner, others, listed, rfl, met⟩
      rcases List.mem_cons.mp listed with same | isLater
      · cases same
        exact Or.inl ⟨(others, found), (walks.complete _ _).mpr met, rfl⟩
      · exact Or.inr ⟨other, inner, others, isLater, rfl, met⟩
  ordered := by
    refine List.pairwise_append.mpr ⟨?_, walksLater.ordered, ?_⟩
    · refine List.pairwise_map.mpr (walks.ordered.imp fun before => ?_)
      exact List.cons_lt_cons_iff.mpr (Or.inr ⟨rfl, before⟩)
    · intro found isFound other isOther
      obtain ⟨inFirst, -, rfl⟩ := List.mem_map.mp isFound
      obtain ⟨_, _, _, listed, same, -⟩ :=
        (walksLater.complete other.1 other.2).mp isOther
      rw [NamesBefore, same]
      exact List.cons_lt_cons_iff.mpr (Or.inl (isFirst _ listed))
  visits := by
    rw [Action.foundAmong_cons, walks.visits, walksLater.visits,
      Action.foundAmong_append, Action.foundAmong_map]
    rfl

end WalksAll

/-- Entries in the order of their names can be walked one after the other. -/
theorem exists_walksAll
    (search : Search)
    (path : String)
    {entries : Listing}
    (ordered :
      entries.Pairwise fun earlier later =>
        Utf8.encode earlier.1 < Utf8.encode later.1)
    (each :
      ∀ listed ∈ entries,
        ∃ met, search.Walks (Path.join path listed.1) listed.2 met) :
    ∃ met, search.WalksAll path entries met := by
  induction entries with
  | nil => exact ⟨[], .nil search path⟩
  | cons listed rest inductionHypothesis =>
      obtain ⟨isFirst, restOrdered⟩ := List.pairwise_cons.mp ordered
      obtain ⟨first, walks⟩ := each listed List.mem_cons_self
      obtain ⟨later, walksLater⟩ :=
        inductionHypothesis restOrdered
          fun other member => each other (List.mem_cons_of_mem _ member)
      exact ⟨_, .cons walks walksLater isFirst⟩

namespace Walks

/-- Nothing but the entry is met where a walk does not go on. -/
theorem here
    {search : Search}
    {path : String}
    {entry : Entry}
    (leads : LeadsTo search.files path entry)
    (stops : isEntered path entry = false) :
    search.Walks path entry [([], entry)] where
  complete names found := by
    constructor
    · intro isHere
      cases List.mem_singleton.mp isHere
      exact .here
    · intro met
      cases met with
      | here => exact List.mem_singleton_self _
      | inside goesOn =>
          rw [stops] at goesOn
          cases goesOn
  ordered := List.pairwise_singleton _ _
  visits := by
    rw [entry_of_not_entered leads stops, Action.foundAmong_singleton]
    rfl

/-- A directory that is entered comes before what is met by walking its entries in their order. -/
theorem directory
    {search : Search}
    {path : String}
    {access : Access}
    {entries : Listing}
    {met : List (List String × Entry)}
    (leads : LeadsTo search.files path (.directory access entries))
    (goesOn : isEntered path (.directory access entries) = true)
    (walksAll : search.WalksAll path (inNameOrder (access.listed entries)) met) :
    search.Walks path (.directory access entries)
      (([], .directory access entries) :: met) where
  complete names found := by
    rw [List.mem_cons, walksAll.complete]
    constructor
    · rintro (isHere | ⟨name, inner, rest, listed, rfl, isMet⟩)
      · cases isHere
        exact .here
      · exact .inside goesOn (List.mem_mergeSort.mp listed) isMet
    · intro isMet
      cases isMet with
      | here => exact Or.inl rfl
      | inside _ listed isMet =>
          exact
            Or.inr ⟨_, _, _, List.mem_mergeSort.mpr listed, rfl, isMet⟩
  ordered := by
    refine List.pairwise_cons.mpr ⟨fun found isMet => ?_, walksAll.ordered⟩
    obtain ⟨name, inner, rest, -, same, -⟩ :=
      (walksAll.complete found.1 found.2).mp isMet
    rw [NamesBefore, same]
    exact List.nil_lt_cons _ _
  visits := by
    rw [entry_of_entered leads goesOn, walksAll.visits,
      Action.foundAmong_cons]
    rfl

end Walks

/-- Every well-formed entry that its path leads to is walked in the order of the names on the way. -/
theorem exists_walks
    {search : Search}
    {path : String}
    {entry : Entry}
    (leads : LeadsTo search.files path entry)
    (wellFormed : entry.WellFormed) :
    ∃ met, search.Walks path entry met := by
  induction wellFormed generalizing path with
  | file kind content => exact ⟨_, .here leads rfl⟩
  | link accepted => exact ⟨_, .here leads rfl⟩
  | hidden reason => exact ⟨_, .here leads rfl⟩
  | @directory access entries once named inner inductionHypothesis =>
      cases goesOn : isEntered path (.directory access entries) with
      | false => exact ⟨_, .here leads goesOn⟩
      | true =>
          have isListed := access.listed_sublist entries
          have ordered :=
            pairwise_inNameOrder (once.sublist (isListed.map (·.1)))
          obtain ⟨met, walksAll⟩ :=
            search.exists_walksAll path ordered fun listed member => by
              have isEntry := isListed.subset (List.mem_mergeSort.mp member)
              exact
                inductionHypothesis listed isEntry
                  (leads.join (.directory access once named inner) isEntry)
          exact ⟨_, .directory leads goesOn walksAll⟩

end Search

end LineSearch
