import LineSearch.Pattern.Basic

namespace LineSearch

/-!
# Membership in classes and sets

Classes know the characters of ASCII only: a digit of another script is no
digit here. Sets compare characters one by one.
-/

namespace CharClass

/-- The class that the escape with this letter names, if any. -/
def ofLetter? : Char → Option CharClass
  | 'd' => some .digit
  | 'w' => some .word
  | _ => none

/-- A digit is one of `0` to `9`; a word character may also be an ASCII letter or `_`. -/
def contains : CharClass → Char → Bool
  | .digit, char => char.isDigit
  | .word, char => char.isAlphanum || char = '_'

end CharClass

namespace CharSet

/-- A plain set admits its members, a negated one everything else. -/
def contains (members : CharSet) (char : Char) : Bool :=
  members.chars.contains char != members.negated

end CharSet

end LineSearch
