import LineSearch.Proofs.WaysDerived
import Mathlib.Data.List.Basic

namespace LineSearch.Node

/-!
# The order in which occurrences follow one another

A repetition could be written by recursion to the right: first the progress that
has been reached, then, for each way of one more occurrence in turn, all that
follows from it.  Only an occurrence that consumed something is followed.

`Seed.walk` is that recursion.  It compares offsets and nothing else; it ends
because no way of a node goes back or leaves the line.  Unrolling with a stack
lists the same ways in the same order and as often.
-/

variable {chars : Line} {child : Node}

/-- The entries for the ways of one more occurrence: expand those that end elsewhere. -/
def flagged (start : Progress) (ways : List Progress) : List Unroll.Pending :=
  ways.map fun way => (way, way.offset != start.offset)

/-- Inside the line an occurrence advances when it does not end where it began. -/
theorem successors_eq_flagged
    {start : Progress}
    (inside : start.Inside chars) :
    Unroll.successors chars.size (possibilities chars child) start =
      flagged start (possibilities chars child start) := by
  refine List.map_congr_left fun way member => ?_
  have advances :
      Unroll.advances chars.size start way = (way.offset != start.offset) :=
    Unroll.advances_eq_ne
      (le_offset_of_mem_possibilities inside member)
      (inside_of_mem_possibilities inside member).offset_le
  rw [advances]

/-- Where a repetition has come to inside the line, with the word whether it goes on from there. -/
structure Seed (chars : Line) where
  progress : Progress
  inside : progress.Inside chars
  goesOn : Bool

namespace Seed

/-- The entry that stands for a seed on the stack. -/
def pending (seed : Seed chars) : Unroll.Pending :=
  (seed.progress, seed.goesOn)

/-- What one more occurrence leads to; it goes on from where something was consumed. -/
def next (child : Node) (seed : Seed chars) : List (Seed chars) :=
  (possibilities chars child seed.progress).attach.map fun way =>
    { progress := way.val
      inside := inside_of_mem_possibilities seed.inside way.property
      goesOn := way.val.offset != seed.progress.offset }

/-- What is left of the line, and at equal offsets the seed to go on from before the other. -/
def rank (seed : Seed chars) : Nat :=
  2 * (chars.size - seed.progress.offset) + seed.goesOn.toNat

/-- One more occurrence consumes something or is the last one. -/
theorem rank_lt_of_mem_next
    {seed later : Seed chars}
    (goesOn : seed.goesOn = true)
    (among : later ∈ seed.next child) :
    later.rank < seed.rank := by
  obtain ⟨⟨way, member⟩, -, rfl⟩ := List.mem_map.mp among
  have forward := le_offset_of_mem_possibilities seed.inside member
  have bounded := (inside_of_mem_possibilities seed.inside member).offset_le
  simp only [rank, goesOn, Bool.toNat_true]
  by_cases same : way.offset = seed.progress.offset
  · simp [same]
  · have moved : seed.progress.offset < way.offset :=
      Nat.lt_of_le_of_ne forward (Ne.symm same)
    have atMostOne := Bool.toNat_le (way.offset != seed.progress.offset)
    omega

/-- A seed alone, or in front of the walks from all that one more occurrence leads to. -/
def walk (child : Node) (seed : Seed chars) : List Progress :=
  match _ : seed.goesOn with
  | false => [seed.progress]
  | true =>
      seed.progress ::
        (seed.next child).attach.flatMap fun later => walk child later.val
  termination_by seed.rank
  decreasing_by exact rank_lt_of_mem_next ‹_› later.property

theorem walk_of_not_goesOn
    {seed : Seed chars}
    (stays : seed.goesOn = false) :
    seed.walk child = [seed.progress] := by
  rw [walk]
  split
  · rfl
  · next goesOn => cases stays.symm.trans goesOn

theorem walk_of_goesOn
    {seed : Seed chars}
    (goesOn : seed.goesOn = true) :
    seed.walk child =
      seed.progress :: (seed.next child).flatMap (walk child) := by
  rw [walk]
  split
  · next stays => cases goesOn.symm.trans stays
  · simp only [List.flatMap_subtype, List.unattach_attach]

theorem map_progress_next (seed : Seed chars) :
    (seed.next child).map progress =
      possibilities chars child seed.progress := by
  rw [next, List.map_map]
  exact List.attach_map_subtype_val _

theorem map_pending_next (seed : Seed chars) :
    (seed.next child).map pending =
      Unroll.successors chars.size (possibilities chars child)
        seed.progress := by
  rw [successors_eq_flagged seed.inside, flagged, next, List.map_map]
  exact
    List.attach_map_val
      (f := fun way : Progress =>
        (way, way.offset != seed.progress.offset))

/-- A seed's walk is what the stack promises for its entry. -/
theorem walk_eq_outputs (seed : Seed chars) :
    seed.walk child =
      Unroll.outputs chars.size (possibilities chars child) seed.pending := by
  cases follows : seed.goesOn with
  | false =>
      rw [walk_of_not_goesOn follows, pending, follows]
      rfl
  | true =>
      have later :
          (seed.next child).flatMap (walk child) =
            (seed.next child).flatMap fun later =>
              Unroll.outputs chars.size (possibilities chars child)
                later.pending :=
        List.flatMap_congr fun later among => walk_eq_outputs later
      rw [walk_of_goesOn follows, later, pending, follows, Unroll.outputs,
        Unroll.walk_eq, ← map_pending_next, List.flatMap_map]
  termination_by seed.rank
  decreasing_by exact rank_lt_of_mem_next follows among

end Seed

/-- Unrolling is the walks from the seeds, one after the other. -/
theorem unroll_eq_flatMap_walk (seeds : List (Seed chars)) :
    Unroll.unroll chars.size (possibilities chars child)
        (seeds.map Seed.pending) =
      seeds.flatMap (Seed.walk child) := by
  rw [Unroll.unroll_eq_flatMap, List.flatMap_map]
  exact List.flatMap_congr fun seed _ => seed.walk_eq_outputs.symm

/-- A star lists the walk from where it starts. -/
theorem possibilities_star_eq_walk
    (seed : Seed chars)
    (goesOn : seed.goesOn = true)
    (greedy : Bool) :
    possibilities chars (.repetition child .zeroOrMore greedy) seed.progress =
      seed.walk child := by
  rw [possibilities_zeroOrMore, seed.walk_eq_outputs, Seed.pending, goesOn,
    Unroll.outputs]

/-- What follows one more occurrence, said with the star in place of the walk. -/
theorem flatMap_walk_next
    (seed : Seed chars)
    (greedy : Bool) :
    (seed.next child).flatMap (Seed.walk child) =
      (possibilities chars child seed.progress).flatMap fun way =>
        if way.offset ≠ seed.progress.offset then
          possibilities chars (.repetition child .zeroOrMore greedy) way
        else
          [way] := by
  let follow (way : Progress) : List Progress :=
    if way.offset ≠ seed.progress.offset then
      possibilities chars (.repetition child .zeroOrMore greedy) way
    else
      [way]
  have followed :
      ∀ later ∈ seed.next child, later.walk child = follow later.progress := by
    intro later among
    obtain ⟨⟨way, member⟩, -, rfl⟩ := List.mem_map.mp among
    by_cases same : way.offset = seed.progress.offset
    · rw [Seed.walk_of_not_goesOn (by simp [same])]
      simp [follow, same]
    · rw [← possibilities_star_eq_walk _ (by simp [same]) greedy]
      simp [follow, same]
  calc (seed.next child).flatMap (Seed.walk child)
      = (seed.next child).flatMap fun later => follow later.progress :=
        List.flatMap_congr followed
    _ = ((seed.next child).map Seed.progress).flatMap follow :=
        (List.flatMap_map ..).symm
    _ = (possibilities chars child seed.progress).flatMap follow := by
        rw [seed.map_progress_next]

/--
Unrolling with a stack is the recursion to the right, entry for entry: the walks
from the seeds one after the other.  So a star lists where it starts and then,
for each way of its body in turn, the star from there, or that way alone when it
consumed nothing; a plus lists the same without where it starts.
-/
theorem unroll_is_the_right_recursion
    (chars : Line)
    (child : Node) :
    (∀ seeds : List (Seed chars),
      Unroll.unroll chars.size (possibilities chars child)
          (seeds.map Seed.pending) =
        seeds.flatMap (Seed.walk child)) ∧
      ∀ (start : Progress) (greedy : Bool),
        start.Inside chars →
          let star := possibilities chars (.repetition child .zeroOrMore greedy)
          let plus := possibilities chars (.repetition child .oneOrMore greedy)
          let further :=
            (possibilities chars child start).flatMap fun way =>
              if way.offset ≠ start.offset then star way else [way]
          star start = start :: further ∧ plus start = further := by
  refine ⟨unroll_eq_flatMap_walk, fun start greedy inside => ?_⟩
  let seed : Seed chars := ⟨start, inside, true⟩
  intro star plus further
  have later : (seed.next child).flatMap (Seed.walk child) = further :=
    flatMap_walk_next seed greedy
  constructor
  · calc star start
        = seed.walk child := possibilities_star_eq_walk seed rfl greedy
      _ = start :: (seed.next child).flatMap (Seed.walk child) :=
          Seed.walk_of_goesOn rfl
      _ = start :: further := by rw [later]
  · calc plus start
        = Unroll.unroll chars.size (possibilities chars child)
            ((seed.next child).map Seed.pending) := by
          simp only [plus, possibilities, Seed.map_pending_next, seed]
      _ = (seed.next child).flatMap (Seed.walk child) :=
          unroll_eq_flatMap_walk _
      _ = further := later

/-- An occurrence that consumes nothing is listed and not followed, wherever it comes up. -/
theorem unroll_is_the_right_recursion_past_empty_occurrences :
    let chars : Line := #['a', 'a']
    let child : Node := .group 1 (.alternation [.literal 'a', .empty])
    let start : Progress := ⟨0, #[none, none]⟩
    let star := possibilities chars (.repetition child .zeroOrMore true)
    let plus := possibilities chars (.repetition child .oneOrMore true)
    start.Inside chars ∧
      star start = start :: plus start ∧
      plus start =
        [⟨1, #[none, some ⟨0, 1⟩]⟩, ⟨2, #[none, some ⟨1, 2⟩]⟩,
          ⟨2, #[none, some ⟨2, 2⟩]⟩, ⟨1, #[none, some ⟨1, 1⟩]⟩,
          ⟨0, #[none, some ⟨0, 0⟩]⟩] := by
  intro chars child start star plus
  have inside : start.Inside chars :=
    ⟨Nat.zero_le _, Captures.Inside.unset 1 2⟩
  obtain ⟨begins, follows⟩ :=
    (unroll_is_the_right_recursion chars child).2 start true inside
  refine ⟨inside, begins.trans (congrArg (start :: ·) follows.symm), ?_⟩
  show possibilities chars (.repetition child .oneOrMore true) start = _
  cbv

end LineSearch.Node
