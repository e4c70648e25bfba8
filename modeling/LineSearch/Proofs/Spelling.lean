import LineSearch.Pattern.Compile

namespace LineSearch

/-!
# The grammar of pattern texts

A spelling is a derivation tree of the grammar: it fixes how every character of
a pattern text is meant.  Its text, the tree it stands for and the number of its
groups are read off it.  A spelling is well formed when each character may stand
where it stands; the conditions are about single characters, empty branches, and
a repetition sign behind an atom, which always belongs to that atom.

Nothing here knows of the reader.
-/

namespace RepeatKind

/-- The sign that asks for a repetition. -/
def sign : RepeatKind → Char
  | .zeroOrOne => '?'
  | .zeroOrMore => '*'
  | .oneOrMore => '+'

end RepeatKind

namespace Spelling

mutual

/-- An atom: a character that stands for itself, an escape, a set or a group. -/
inductive Atom where
  | plain (char : Char)
  | escape (char : Char)
  | set (negated : Bool) (members : List Char)
  | group (body : Alternation)

/-- Atoms one after the other, each with the repetition it is under, if any. -/
inductive Items where
  | nil
  | cons (atom : Atom) (kind? : Option RepeatKind) (rest : Items)

/-- Further branches, each behind its bar. -/
inductive Branches where
  | nil
  | cons (branch : Items) (rest : Branches)

/-- A whole pattern or the body of a group. -/
inductive Alternation where
  | of (first : Items) (further : Branches)

end

mutual

/-- The characters of a spelling. -/
def Atom.text : Atom → List Char
  | .plain char => [char]
  | .escape char => ['\\', char]
  | .set negated members =>
      '[' :: (if negated then ['^'] else []) ++ members ++ [']']
  | .group body => '(' :: body.text ++ [')']

@[inherit_doc Atom.text]
def Items.text : Items → List Char
  | .nil => []
  | .cons atom kind? rest =>
      atom.text ++ (kind?.map RepeatKind.sign).toList ++ rest.text

@[inherit_doc Atom.text]
def Branches.text : Branches → List Char
  | .nil => []
  | .cons branch rest => '|' :: branch.text ++ rest.text

@[inherit_doc Atom.text]
def Alternation.text : Alternation → List Char
  | .of first further => first.text ++ further.text

end

mutual

/-- How many groups a spelling opens. -/
def Atom.groups : Atom → Nat
  | .group body => body.groups + 1
  | _ => 0

@[inherit_doc Atom.groups]
def Items.groups : Items → Nat
  | .nil => 0
  | .cons atom _ rest => atom.groups + rest.groups

@[inherit_doc Atom.groups]
def Branches.groups : Branches → Nat
  | .nil => 0
  | .cons branch rest => branch.groups + rest.groups

@[inherit_doc Atom.groups]
def Alternation.groups : Alternation → Nat
  | .of first further => first.groups + further.groups

end

/-- One item stands for itself; any other number of them is a concatenation. -/
def chained : List Node → Node
  | [item] => item
  | items => .concat items

/-- One branch stands for itself; several are an alternation. -/
def alternated (first : Node) : List Node → Node
  | [] => first
  | further => .alternation (first :: further)

/-- An atom under a repetition, which is greedy. -/
def repeated (atom : Node) : Option RepeatKind → Node
  | none => atom
  | some kind => .repetition atom kind true

/-- What a character stands for outside of sets and escapes. -/
def plainNode : Char → Node
  | '.' => .dot
  | '^' => .anchor .lineStart
  | '$' => .anchor .lineEnd
  | char => .literal char

/-- What a character stands for behind a backslash. -/
def escapeNode : Char → Node
  | 'd' => .charClass .digit
  | 'w' => .charClass .word
  | '1' => .backref 1
  | '2' => .backref 2
  | '3' => .backref 3
  | '4' => .backref 4
  | '5' => .backref 5
  | '6' => .backref 6
  | '7' => .backref 7
  | '8' => .backref 8
  | '9' => .backref 9
  | char => .literal char

mutual

/-- The tree of a spelling in front of which this many groups are opened. -/
def Atom.node : Atom → Nat → Node
  | .plain char, _ => plainNode char
  | .escape char, _ => escapeNode char
  | .set negated members, _ => .set ⟨members.eraseDups, negated⟩
  | .group body, opened => .group (opened + 1) (body.node (opened + 1))

/-- The trees of the items, from left to right. -/
def Items.nodes : Items → Nat → List Node
  | .nil, _ => []
  | .cons atom kind? rest, opened =>
      repeated (atom.node opened) kind? ::
        rest.nodes (opened + atom.groups)

/-- The trees of the further branches, from left to right. -/
def Branches.nodes : Branches → Nat → List Node
  | .nil, _ => []
  | .cons branch rest, opened =>
      chained (branch.nodes opened) ::
        rest.nodes (opened + branch.groups)

@[inherit_doc Atom.node]
def Alternation.node : Alternation → Nat → Node
  | .of first further, opened =>
      alternated (chained (first.nodes opened))
        (further.nodes (opened + first.groups))

end

mutual

/--
Each character may stand where it stands.  A set closes at the first closing
bracket, and a `^` directly behind its opening one negates it.
-/
def Atom.WellFormed : Atom → Prop
  | .plain char => char ∉ ['|', ')', '(', '[', '\\']
  | .escape _ => True
  | .set negated members =>
      ']' ∉ members ∧ (negated = false → members.head? ≠ some '^')
  | .group body => body.WellFormed

/-- An atom under no repetition has no repetition sign behind it. -/
def Items.WellFormed : Items → Prop
  | .nil => True
  | .cons atom kind? rest =>
      atom.WellFormed ∧ rest.WellFormed ∧
        (kind? = none →
          ∀ kind : RepeatKind, rest.text.head? ≠ some kind.sign)

/-- No branch behind a bar is empty. -/
def Branches.WellFormed : Branches → Prop
  | .nil => True
  | .cons branch rest =>
      branch ≠ .nil ∧ branch.WellFormed ∧ rest.WellFormed

/-- The first branch may be empty only when it is the only one. -/
def Alternation.WellFormed : Alternation → Prop
  | .of first further =>
      first.WellFormed ∧ further.WellFormed ∧
        (further ≠ .nil → first ≠ .nil)

end

instance (holds : RepeatKind → Prop) [DecidablePred holds] :
    Decidable (∀ kind, holds kind) :=
  decidable_of_iff
    (holds .zeroOrOne ∧ holds .zeroOrMore ∧ holds .oneOrMore)
    ⟨fun ⟨one, more, atLeast⟩ kind =>
        match kind with
        | .zeroOrOne => one
        | .zeroOrMore => more
        | .oneOrMore => atLeast,
      fun all => ⟨all _, all _, all _⟩⟩

instance : (items : Items) → Decidable (items = .nil)
  | .nil => .isTrue rfl
  | .cons _ _ _ => .isFalse nofun

instance : (branches : Branches) → Decidable (branches = .nil)
  | .nil => .isTrue rfl
  | .cons _ _ => .isFalse nofun

mutual

instance Atom.decidableWellFormed :
    (atom : Atom) → Decidable atom.WellFormed
  | .plain char => inferInstanceAs (Decidable (char ∉ _))
  | .escape _ => .isTrue trivial
  | .set _ _ => inferInstanceAs (Decidable (_ ∧ (_ → _)))
  | .group body => body.decidableWellFormed

instance Items.decidableWellFormed :
    (items : Items) → Decidable items.WellFormed
  | .nil => .isTrue trivial
  | .cons atom _ rest =>
      have := atom.decidableWellFormed
      have := rest.decidableWellFormed
      inferInstanceAs (Decidable (_ ∧ _ ∧ (_ → ∀ _ : RepeatKind, _)))

instance Branches.decidableWellFormed :
    (branches : Branches) → Decidable branches.WellFormed
  | .nil => .isTrue trivial
  | .cons branch rest =>
      have := branch.decidableWellFormed
      have := rest.decidableWellFormed
      inferInstanceAs (Decidable (branch ≠ .nil ∧ _ ∧ _))

instance Alternation.decidableWellFormed :
    (spelling : Alternation) → Decidable spelling.WellFormed
  | .of first further =>
      have := first.decidableWellFormed
      have := further.decidableWellFormed
      inferInstanceAs (Decidable (_ ∧ _ ∧ (further ≠ .nil → first ≠ .nil)))

end

/-- This is a well-formed way to mean the characters of the text. -/
def Alternation.Spells
    (spelling : Alternation)
    (text : String) : Prop :=
  spelling.WellFormed ∧ spelling.text = text.toList

instance
    (spelling : Alternation)
    (text : String) :
    Decidable (spelling.Spells text) :=
  inferInstanceAs (Decidable (_ ∧ _))

/-- The pattern that a spelling of this text denotes. -/
def Alternation.pattern
    (spelling : Alternation)
    (source : String) :
    Pattern where
  root := spelling.node 0
  groupCount := spelling.groups
  anchoredStart := source.toList.head? = some '^'
  source := source

end Spelling

end LineSearch
