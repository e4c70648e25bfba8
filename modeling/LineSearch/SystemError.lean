namespace LineSearch

/-!
# Refusals of the operating system

What the system can answer instead of doing what it was asked for, with the words
and numbers it uses.
-/

/-- The reasons for which the system refuses to find, read or write a file. -/
inductive SystemError where
  | noSuchFile
  | inputOutput
  | permissionDenied
  | notADirectory
  | isADirectory
  | noSpaceLeft
  | nameTooLong
  | tooManyLinks
  /-- A path with a zero character, which no system call can be given. -/
  | zeroInPath
  /-- Any other refusal, with the number and the words the system has for it. -/
  | other (number : Nat) (words : String)
  deriving Repr, DecidableEq

namespace SystemError

/-- The system's text for a refusal. -/
def message : SystemError → String
  | .noSuchFile => "No such file or directory (os error 2)"
  | .inputOutput => "Input/output error (os error 5)"
  | .permissionDenied => "Permission denied (os error 13)"
  | .notADirectory => "Not a directory (os error 20)"
  | .isADirectory => "Is a directory (os error 21)"
  | .noSpaceLeft => "No space left on device (os error 28)"
  | .nameTooLong => "File name too long (os error 36)"
  | .tooManyLinks => "Too many levels of symbolic links (os error 40)"
  | .zeroInPath => "file name contained an unexpected NUL byte"
  | .other number words => s!"{words} (os error {number})"

end SystemError

end LineSearch
