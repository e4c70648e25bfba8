import LineSearch.Pattern.CharClass
import LineSearch.Pattern.Error

namespace LineSearch

/-!
# Reading pattern texts

A pattern text is read from left to right, one function per construct:

* an alternation is one concatenation, or several non-empty ones between bars;
* a concatenation is any number of items, up to a bar, a closing parenthesis or the end;
* an item is an atom, followed by at most one of `?`, `*` and `+`;
* an atom is a group, a set, an escape, a dot, an anchor or a plain character.

Every reader takes a cursor and returns what it read with the cursor behind it.
The result carries the fact that no more text is left than before, and that is
why the mutual recursion ends: it goes down in the length of what is left, and
at equal length from the larger construct to the smaller one.
-/

/-- A place in a pattern text: what is left of it, its offset, and the groups opened so far. -/
structure Cursor where
  rest : List Char
  position : Nat
  groups : Nat
  deriving Repr, DecidableEq

namespace Cursor

/-- The place at which the reading of a text begins. -/
def ofText (text : String) : Cursor :=
  ⟨text.toList, 0, 0⟩

/-- The place behind this many characters. -/
def skip (cursor : Cursor) (count : Nat) : Cursor :=
  ⟨cursor.rest.drop count, cursor.position + count, cursor.groups⟩

/-- The same place with one more group opened. -/
def openGroup (cursor : Cursor) : Cursor :=
  ⟨cursor.rest, cursor.position, cursor.groups + 1⟩

theorem skip_rest_le
    (cursor : Cursor)
    (count : Nat) :
    (cursor.skip count).rest.length ≤ cursor.rest.length := by
  simp [skip]

end Cursor

/-- What a reader found between one cursor and the next. -/
structure Parsed (α : Type) (start : Cursor) where
  value : α
  next : Cursor
  rest_le : next.rest.length ≤ start.rest.length

namespace RepeatKind

/-- The repetition that this character asks for, if any. -/
def ofChar? : Char → Option RepeatKind
  | '?' => some .zeroOrOne
  | '*' => some .zeroOrMore
  | '+' => some .oneOrMore
  | _ => none

end RepeatKind

namespace Pattern

/-- Repeat the node as the character under the cursor asks, and step over that character. -/
def quantify (node : Node) (cursor : Cursor) : Parsed Node cursor :=
  match cursor.rest.head?.bind RepeatKind.ofChar? with
  | some kind =>
      ⟨.repetition node kind true, cursor.skip 1, cursor.skip_rest_le 1⟩
  | none =>
      ⟨node, cursor, Nat.le_refl _⟩

/-- Step over one demanded character. -/
def expect
    (char : Char)
    (cursor : Cursor) :
    Except PatternError (Parsed Unit cursor) :=
  if cursor.rest.head? = some char then
    .ok ⟨(), cursor.skip 1, cursor.skip_rest_le 1⟩
  else
    .error (.expected char cursor.rest.head? cursor.position)

/--
Read a set from behind its opening bracket to its first closing one.

Nothing inside is special, apart from a `^` directly after the opening bracket.
-/
def parseSet (cursor : Cursor) : Except PatternError (Parsed Node cursor) :=
  let negated := cursor.rest.head? == some '^'
  let start := if negated then cursor.skip 1 else cursor
  let body := start.rest.takeWhile (· != ']')
  if body.length < start.rest.length then
    .ok {
      value := .set ⟨body.eraseDups, negated⟩
      next := start.skip (body.length + 1)
      rest_le := by
        apply Nat.le_trans (start.skip_rest_le _)
        unfold start
        split
        · exact cursor.skip_rest_le 1
        · exact Nat.le_refl _
    }
  else
    .error (.unclosedSet (cursor.position - 1))

/-- The node that the character after a backslash stands for. -/
def escaped (char : Char) : Node :=
  match CharClass.ofLetter? char with
  | some kind => .charClass kind
  | none =>
      if char.isDigit && char != '0' then
        .backref (char.toNat - '0'.toNat)
      else
        .literal char

/-- Read an escape from behind its backslash. -/
def parseEscape (cursor : Cursor) : Except PatternError (Parsed Node cursor) :=
  match cursor.rest.head? with
  | none => .error .incompleteEscape
  | some char => .ok ⟨escaped char, cursor.skip 1, cursor.skip_rest_le 1⟩

/-- A concatenation of no items is no node at all, and of one item that item. -/
def collapse : List Node → Option Node
  | [] => none
  | [item] => some item
  | items => some (.concat items)

mutual

/-- Read items up to a bar, a closing parenthesis or the end of the text. -/
def parseItems : (cursor : Cursor) → Except PatternError (Parsed (List Node) cursor)
  | ⟨[], position, groups⟩ =>
      .ok ⟨[], ⟨[], position, groups⟩, Nat.le_refl _⟩
  | ⟨char :: rest, position, groups⟩ =>
      if char = '|' ∨ char = ')' then
        .ok ⟨[], ⟨char :: rest, position, groups⟩, Nat.le_refl _⟩
      else
        match parseQuantified char ⟨rest, position + 1, groups⟩ with
        | .error reason => .error reason
        | .ok ⟨item, next, itemLe⟩ =>
            match parseItems next with
            | .error reason => .error reason
            | .ok ⟨items, last, itemsLe⟩ =>
                .ok ⟨item :: items, last,
                  Nat.le_succ_of_le (Nat.le_trans itemsLe itemLe)⟩
  termination_by cursor => (cursor.rest.length, 0)
  decreasing_by
    · exact Prod.Lex.left _ _ (Nat.lt_succ_self _)
    · exact Prod.Lex.left _ _ (Nat.lt_succ_of_le itemLe)

/-- Read a concatenation; there is no node when it has no items. -/
def parseConcatenation
    (cursor : Cursor) :
    Except PatternError (Parsed (Option Node) cursor) :=
  match parseItems cursor with
  | .error reason => .error reason
  | .ok ⟨items, next, itemsLe⟩ => .ok ⟨collapse items, next, itemsLe⟩
  termination_by (cursor.rest.length, 1)
  decreasing_by exact Prod.Lex.right _ (Nat.lt_succ_self _)

/-- Read the further branches of an alternation, each from its bar on. -/
def parseBranches : (cursor : Cursor) → Except PatternError (Parsed (List Node) cursor)
  | ⟨[], position, groups⟩ =>
      .ok ⟨[], ⟨[], position, groups⟩, Nat.le_refl _⟩
  | ⟨char :: rest, position, groups⟩ =>
      if char = '|' then
        match parseConcatenation ⟨rest, position + 1, groups⟩ with
        | .error reason => .error reason
        | .ok ⟨none, next, _⟩ =>
            if next.rest = [] then
              .error .incompleteAlternation
            else
              .error (.emptyAlternative next.position)
        | .ok ⟨some branch, next, branchLe⟩ =>
            match parseBranches next with
            | .error reason => .error reason
            | .ok ⟨branches, last, branchesLe⟩ =>
                .ok ⟨branch :: branches, last,
                  Nat.le_succ_of_le (Nat.le_trans branchesLe branchLe)⟩
      else
        .ok ⟨[], ⟨char :: rest, position, groups⟩, Nat.le_refl _⟩
  termination_by cursor => (cursor.rest.length, 2)
  decreasing_by
    · exact Prod.Lex.left _ _ (Nat.lt_succ_self _)
    · exact Prod.Lex.left _ _ (Nat.lt_succ_of_le branchLe)

/--
Read an alternation; there is no node only when its single branch is empty.

A branch beside a bar must not be empty.
-/
def parseAlternation
    (cursor : Cursor) :
    Except PatternError (Parsed (Option Node) cursor) :=
  match parseConcatenation cursor with
  | .error reason => .error reason
  | .ok ⟨first, next, firstLe⟩ =>
      if next.rest.head? = some '|' then
        match first with
        | none => .error (.emptyAlternative next.position)
        | some branch =>
            match parseBranches next with
            | .error reason => .error reason
            | .ok ⟨branches, last, branchesLe⟩ =>
                .ok ⟨some (.alternation (branch :: branches)), last,
                  Nat.le_trans branchesLe firstLe⟩
      else
        .ok ⟨first, next, firstLe⟩
  termination_by (cursor.rest.length, 3)
  decreasing_by
    · exact Prod.Lex.right _ (by decide)
    · exact Prod.lex_def.mpr
        ((Nat.lt_or_eq_of_le firstLe).imp_right fun same => ⟨same, Nat.lt_succ_self 2⟩)

/-- Read a group from behind its opening parenthesis; its index counts opening parentheses. -/
def parseGroup (cursor : Cursor) : Except PatternError (Parsed Node cursor) :=
  match parseAlternation cursor.openGroup with
  | .error reason => .error reason
  | .ok ⟨body, next, bodyLe⟩ =>
      match expect ')' next with
      | .error reason => .error reason
      | .ok ⟨_, last, closeLe⟩ =>
          .ok ⟨.group (cursor.groups + 1) (body.getD .empty), last,
            Nat.le_trans closeLe bodyLe⟩
  termination_by (cursor.rest.length, 4)
  decreasing_by exact Prod.Lex.right _ (by decide)

/-- Read the atom that begins with this character; the cursor is behind it. -/
def parseAtom
    (char : Char)
    (cursor : Cursor) :
    Except PatternError (Parsed Node cursor) :=
  match char with
  | '(' => parseGroup cursor
  | '[' => parseSet cursor
  | '\\' => parseEscape cursor
  | '.' => .ok ⟨.dot, cursor, Nat.le_refl _⟩
  | '^' => .ok ⟨.anchor .lineStart, cursor, Nat.le_refl _⟩
  | '$' => .ok ⟨.anchor .lineEnd, cursor, Nat.le_refl _⟩
  | plain => .ok ⟨.literal plain, cursor, Nat.le_refl _⟩
  termination_by (cursor.rest.length, 5)
  decreasing_by exact Prod.Lex.right _ (by decide)

/-- Read the item that begins with this character: an atom, and the repetition it is under. -/
def parseQuantified
    (char : Char)
    (cursor : Cursor) :
    Except PatternError (Parsed Node cursor) :=
  match parseAtom char cursor with
  | .error reason => .error reason
  | .ok ⟨atom, next, atomLe⟩ =>
      let item := quantify atom next
      .ok ⟨item.value, item.next, Nat.le_trans item.rest_le atomLe⟩
  termination_by (cursor.rest.length, 6)
  decreasing_by exact Prod.Lex.right _ (by decide)

end

/-- The pattern that a text denotes, or the reason why it denotes none. -/
def compile (text : String) : Except PatternError Pattern :=
  match parseAlternation (Cursor.ofText text) with
  | .error reason => .error reason
  | .ok ⟨root, ⟨[], _, groups⟩, _⟩ =>
      .ok {
        root := root.getD .empty
        groupCount := groups
        anchoredStart := text.toList.head? = some '^'
        source := text
      }
  | .ok ⟨_, ⟨rest, position, _⟩, _⟩ =>
      .error (.trailingCharacters position (String.ofList rest))

end Pattern

end LineSearch
