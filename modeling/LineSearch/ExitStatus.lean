namespace LineSearch

/-!
# Exit status

How a search ended, as the shell is told.
-/

/-- The ways in which a search can end. -/
inductive ExitStatus where
  /-- Some line matched. -/
  | matched
  /-- All went well and no line matched. -/
  | noMatch
  /-- There was nothing to search for, or the output failed. -/
  | trouble
  deriving Repr, DecidableEq

namespace ExitStatus

/-- How a search ended that met no trouble. -/
def ofFound (found : Bool) : ExitStatus :=
  if found then .matched else .noMatch

/-- The number the shell is given. -/
def code : ExitStatus → Nat
  | .matched => 0
  | .noMatch => 1
  | .trouble => 2

end ExitStatus

end LineSearch
