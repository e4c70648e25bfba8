import LineSearch.Match.Progress

namespace LineSearch.Unroll

/-!
# Repetition without recursion into the line

A repetition goes from one progress to the next by a step, which lists the ways
of one more occurrence. All ways of repeating form a tree, and they are wanted in
the order of a walk that reports each progress before what follows from it. A
progress that is no further in the line than the one it came from is reported
but not followed, so the tree is finite.

`walk` is that order, by recursion. `drain` computes it with a stack in place of
the recursion, so that a long line needs no deep calls, and
`unroll_eq_flatMap` says that the two agree. The loop ends because each round
takes one progress from what the stack still has to put out.
-/

/-- Has the second progress come further in a line of this length than the first? -/
def advances (length : Nat) (before after : Progress) : Bool :=
  length - after.offset < length - before.offset

/-- Inside the line, further means at a greater offset. -/
theorem advances_iff_lt
    {length : Nat}
    {before after : Progress}
    (inside : after.offset ≤ length) :
    advances length before after = true ↔ before.offset < after.offset := by
  simp [advances]
  omega

/-- Inside the line and never going back, not further means at the same offset. -/
theorem advances_eq_ne
    {length : Nat}
    {before after : Progress}
    (forward : before.offset ≤ after.offset)
    (inside : after.offset ≤ length) :
    advances length before after = (after.offset != before.offset) := by
  rw [Bool.eq_iff_iff, advances_iff_lt inside]
  simp
  omega

/-- A progress, and every way of going on from it, each before what follows from it. -/
def walk
    (length : Nat)
    (step : Progress → List Progress)
    (progress : Progress) :
    List Progress :=
  progress :: (step progress).flatMap fun next =>
    if _ : advances length progress next = true then
      walk length step next
    else
      [next]
  termination_by length - progress.offset
  decreasing_by
    next advanced => simpa [advances] using advanced

/-- A progress to report, with the word whether to go on from it. -/
abbrev Pending := Progress × Bool

/-- What a pending progress will put out. -/
def outputs
    (length : Nat)
    (step : Progress → List Progress) :
    Pending → List Progress
  | (progress, true) => walk length step progress
  | (progress, false) => [progress]

/-- The next ways from a progress, those that advance to be followed. -/
def successors
    (length : Nat)
    (step : Progress → List Progress)
    (progress : Progress) :
    List Pending :=
  (step progress).map fun next => (next, advances length progress next)

/-- A walk is its root, then what the successors put out. -/
theorem walk_eq
    (length : Nat)
    (step : Progress → List Progress)
    (progress : Progress) :
    walk length step progress =
      progress ::
        (successors length step progress).flatMap (outputs length step) := by
  rw [walk, successors, List.flatMap_map]
  congr 2
  funext next
  cases followed : advances length progress next <;>
    simp [outputs]

/-- Empty a stack, top first, on behalf of what is already done in reverse. -/
def drain
    (length : Nat)
    (step : Progress → List Progress) :
    List Pending → List Progress → List Progress
  | [], done => done.reverse
  | (current, false) :: stack, done =>
      drain length step stack (current :: done)
  | (current, true) :: stack, done =>
      drain length step
        (successors length step current ++ stack)
        (current :: done)
  termination_by stack _ => (stack.flatMap (outputs length step)).length
  decreasing_by
    · simp [outputs]
    · simp [outputs, walk_eq length step current]

/-- All ways of repeating from these seeds on. -/
def unroll
    (length : Nat)
    (step : Progress → List Progress)
    (seeds : List Pending) :
    List Progress :=
  drain length step seeds []

/-- The loop puts out what its stack promises, behind what was done before. -/
theorem drain_eq
    (length : Nat)
    (step : Progress → List Progress)
    (stack : List Pending)
    (done : List Progress) :
    drain length step stack done =
      done.reverse ++ stack.flatMap (outputs length step) := by
  fun_induction drain length step stack done with
  | case1 done => simp
  | case2 current stack done inductionHypothesis =>
      simp [inductionHypothesis, outputs]
  | case3 current stack done inductionHypothesis =>
      simp [inductionHypothesis, outputs, walk_eq length step current]

/-- Unrolling is the walks from the seeds, one after the other. -/
theorem unroll_eq_flatMap
    (length : Nat)
    (step : Progress → List Progress)
    (seeds : List Pending) :
    unroll length step seeds = seeds.flatMap (outputs length step) := by
  simp [unroll, drain_eq]

end LineSearch.Unroll
