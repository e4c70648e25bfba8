import LineSearch.Proofs.ReportedMatch
import LineSearch.Proofs.WrittenTree

namespace LineSearch

/-!
# Searching for a text as it stands

A text in which every metacharacter stands behind a backslash compiles to the
literals of the text, one after the other.  From any offset these have one way
at most, and they have it where the text stands.  So the pattern finds the first
place in a line at which the text occurs.
-/

/-- The text with a backslash in front of each metacharacter. -/
def verbatim (text : String) : String :=
  String.ofList
    (text.toList.flatMap fun char =>
      if char ∈ Node.metacharacters then ['\\', char] else [char])

namespace Node

open Spelling

/-- The tree that matches these characters in a row and nothing else. -/
def ofChars (chars : List Char) : Node :=
  chained (chars.map .literal)

theorem written_chained (items : List Node) :
    (chained items).written = items.flatMap written := by
  match items with
  | [] => rfl
  | [item] => exact (List.append_nil item.written).symm
  | _ :: _ :: _ =>
      rw [chained, written, writtenAll_eq_map, List.flatMap_def]
      intro _ same
      cases same

/-- The tree of a text is written as the text with its backslashes. -/
theorem written_ofChars (text : String) :
    String.ofList (ofChars text.toList).written = verbatim text := by
  rw [ofChars, written_chained, List.flatMap_map, verbatim]
  simp only [written]

/-- Literals contain no groups. -/
theorem groupIndices_ofChars (chars : List Char) :
    (ofChars chars).groupIndices = [] := by
  rw [ofChars, groupIndices_chained]
  induction chars with
  | nil => rfl
  | cons char rest inductionHypothesis =>
      rw [List.map_cons, groupIndicesOfAll, inductionHypothesis]
      rfl

theorem canonical_ofChars (chars : List Char) :
    (ofChars chars).Canonical 0 := by
  have single :
      ∀ item ∈ chars.map Node.literal,
        item.isConcat = false ∧ item.isAlternation = false := by
    exact List.forall_mem_map.mpr fun _ _ => ⟨rfl, rfl⟩
  have throughout : (ofChars chars).RegularThroughout := by
    apply regularThroughout_chained single
    exact List.forall_mem_map.mpr fun _ _ => Regular.throughout trivial rfl
  exact ⟨groupIndices_ofChars chars, throughout, throughout.emptyAlone⟩

variable {chars : Line} {start way : Progress}

/-- An item by itself has the ways of a concatenation of it alone. -/
theorem mem_chained
    {items : List Node} :
    way ∈ possibilities chars (chained items) start ↔
      way ∈ possibilities chars (.concat items) start := by
  match items with
  | [] => exact Iff.rfl
  | [item] => simp [mem_concat_cons, mem_concat_nil, chained]
  | _ :: _ :: _ => exact Iff.rfl

/-- A character and what follows it stand where the character stands, in front of the rest. -/
theorem cons_prefix_drop_iff
    {char : Char}
    {rest text : List Char}
    {offset : Nat} :
    char :: rest <+: text.drop offset ↔
      text[offset]? = some char ∧ rest <+: text.drop (offset + 1) := by
  rw [← List.head?_drop, ← List.tail_drop]
  cases text.drop offset with
  | nil => simp
  | cons first later => simp [List.cons_prefix_cons, eq_comm]

/-- Literals in a row have one way where their characters stand, and none elsewhere. -/
theorem mem_ofChars
    {word : List Char} :
    way ∈ possibilities chars (ofChars word) start ↔
      word <+: chars.toList.drop start.offset ∧
        way = ⟨start.offset + word.length, start.captures⟩ := by
  rw [ofChars, mem_chained]
  induction word generalizing start with
  | nil =>
      rw [List.map_nil, mem_concat_nil]
      exact (and_iff_right (List.nil_prefix)).symm
  | cons char rest inductionHypothesis =>
      rw [List.map_cons, mem_concat_cons, cons_prefix_drop_iff,
        Array.getElem?_toList, List.length_cons]
      constructor
      · rintro ⟨middle, ofChar, ofRest⟩
        rw [possibilities_of_test? rfl] at ofChar
        obtain ⟨found, present, passes, rfl⟩ := Progress.mem_consume.mp ofChar
        obtain rfl : found = char := beq_iff_eq.mp passes
        obtain ⟨stands, rfl⟩ := inductionHypothesis.mp ofRest
        refine ⟨⟨present, stands⟩, ?_⟩
        rw [Nat.add_right_comm, Nat.add_assoc]
      · rintro ⟨⟨present, stands⟩, rfl⟩
        refine ⟨⟨start.offset + 1, start.captures⟩, ?_, ?_⟩
        · rw [possibilities_of_test? rfl]
          exact Progress.mem_consume.mpr ⟨char, present, beq_self_eq_true char, rfl⟩
        · refine inductionHypothesis.mpr ⟨stands, ?_⟩
          rw [Nat.add_right_comm, Nat.add_assoc]

end Node

/-- The word stands in the text at this position, and nowhere before it. -/
structure OccursFirst
    (word text : List Char)
    (position : Nat) : Prop where
  here : word <+: text.drop position
  notBefore :
    ∀ earlier, earlier < position → ¬ word <+: text.drop earlier

/-- There is one place at most at which a word occurs first. -/
theorem OccursFirst.unique
    {word text : List Char}
    {position other : Nat}
    (occurs : OccursFirst word text position)
    (otherOccurs : OccursFirst word text other) :
    position = other := by
  apply Nat.le_antisymm
  · apply Nat.le_of_not_lt
    exact fun before => occurs.notBefore other before otherOccurs.here
  · apply Nat.le_of_not_lt
    exact fun before => otherOccurs.notBefore position before occurs.here

namespace Pattern

open Node

/-- A pattern of literals matches at the offsets at which its characters stand. -/
theorem matchAt?_ofChars
    {pattern : Pattern}
    {word : List Char}
    (root : pattern.root = ofChars word)
    (chars : Line)
    (offset : Nat) :
    pattern.matchAt? chars offset =
      if word <+: chars.toList.drop offset then
        some ⟨offset + word.length, Captures.unset pattern.groupCount⟩
      else
        none := by
  split
  · next stands =>
      cases preferred : pattern.matchAt? chars offset with
      | none =>
          have nothing := matchAt?_eq_none_iff.mp preferred
          rw [root] at nothing
          exact (nothing _ (mem_ofChars.mpr ⟨stands, rfl⟩)).elim
      | some final =>
          have member := mem_of_matchAt? preferred
          rw [root] at member
          rw [(mem_ofChars.mp member).2]
          rfl
  · next absent =>
      apply matchAt?_eq_none_iff.mpr
      intro way member
      rw [root] at member
      exact absent (mem_ofChars.mp member).1

/-- What is found of a pattern of literals is where its characters occur first. -/
theorem occursFirst_of_find?
    {pattern : Pattern}
    {word : List Char}
    (root : pattern.root = ofChars word)
    {chars : Line}
    {found : Found}
    (isFound : pattern.find? chars = some found) :
    OccursFirst word chars.toList found.start ∧
      found.final =
        ⟨found.start + word.length, Captures.unset pattern.groupCount⟩ := by
  obtain ⟨-, preferred, nothing⟩ := find?_eq_some_iff.mp isFound
  simp only [matchAt?_ofChars root, ite_eq_right_iff, reduceCtorEq,
    imp_false] at nothing
  rw [matchAt?_ofChars root] at preferred
  split at preferred
  · next stands =>
      exact ⟨⟨stands, nothing⟩, (Option.some.inj preferred).symm⟩
  · cases preferred

/-- A pattern of literals is found in the lines in which its characters occur. -/
theorem isMatch_ofChars_iff
    {pattern : Pattern}
    {word : List Char}
    (root : pattern.root = ofChars word)
    (everywhere : pattern.anchoredStart = false)
    (line : String) :
    pattern.isMatch line = true ↔ word <:+: line.toList := by
  rw [isMatch_iff_find?]
  constructor
  · rintro ⟨found, isFound⟩
    obtain ⟨⟨stands, -⟩, -⟩ := occursFirst_of_find? root isFound
    apply stands.isInfix.trans
    exact (List.drop_suffix _ _).isInfix
  · rintro ⟨before, behind, shape⟩
    rw [← Option.isSome_iff_exists, Option.isSome_iff_ne_none]
    intro nothing
    have tried :
        before.length ≤ pattern.lastStart (Line.ofText line) := by
      rw [lastStart, everywhere, Line.size_ofText, ← String.length_toList,
        ← shape]
      simp
    have absent := find?_eq_none_iff.mp nothing before.length tried
    have stands :
        word <+: (Line.ofText line).toList.drop before.length := by
      rw [Line.ofText, ← shape, List.append_assoc, List.drop_left]
      exact List.prefix_append word behind
    rw [matchAt?_ofChars root, if_pos stands] at absent
    cases absent

/-- A backslash keeps the text from beginning with the sign of an anchor. -/
theorem head?_verbatim_ne (text : String) :
    (verbatim text).toList.head? ≠ some '^' := by
  rw [verbatim, String.toList_ofList]
  cases text.toList with
  | nil => exact nofun
  | cons char rest =>
      by_cases isMeta : char ∈ metacharacters
      · simp [isMeta]
      · rw [List.flatMap_cons, if_neg isMeta]
        rintro ⟨⟩
        exact isMeta (by decide)

/-- What a text with its backslashes compiles to. -/
theorem compile_verbatim (text : String) :
    ∃ pattern,
      compile (verbatim text) = .ok pattern ∧
        pattern.root = ofChars text.toList ∧
        pattern.groupCount = 0 ∧
        pattern.anchoredStart = false := by
  obtain ⟨pattern, compiled, root, groupCount⟩ :=
    compile_written (canonical_ofChars text.toList)
  rw [written_ofChars] at compiled
  refine ⟨pattern, compiled, root, groupCount, ?_⟩
  obtain ⟨spelling, -, rfl⟩ := spells_of_compile compiled
  exact decide_eq_false (head?_verbatim_ne text)

/--
With a backslash in front of each metacharacter, every text compiles to a pattern
without groups, which is tried at every offset.  It matches the lines in which
the text occurs, and reports the first place at which it does.
-/
theorem verbatim_text_is_found_where_it_occurs (text : String) :
    ∃ pattern,
      compile (verbatim text) = .ok pattern ∧
        pattern.groupCount = 0 ∧
        pattern.anchoredStart = false ∧
        ∀ line : String,
          let outcome := pattern.matchLine line
          (outcome.matched = true ↔ text.toList <:+: line.toList) ∧
            (outcome.matched = true →
              OccursFirst text.toList line.toList outcome.start ∧
                outcome.stop = outcome.start + text.length ∧
                outcome.captures = [""]) := by
  obtain ⟨pattern, compiled, root, groupCount, everywhere⟩ :=
    compile_verbatim text
  refine ⟨pattern, compiled, groupCount, everywhere, ?_⟩
  intro line outcome
  have matched : outcome.matched = pattern.isMatch line :=
    pattern.matched_eq_isMatch line
  refine ⟨matched ▸ isMatch_ofChars_iff root everywhere line, ?_⟩
  intro isMatched
  obtain ⟨found, isFound⟩ := isMatch_iff_find?.mp (matched ▸ isMatched)
  obtain ⟨occurs, final⟩ := occursFirst_of_find? root isFound
  have reported : outcome = _ := matchLine_of_find? isFound
  rw [reported, final, groupCount]
  exact ⟨occurs, by rw [← String.length_toList], rfl⟩

/-- The dot stands for itself, and of the two places at which the text occurs the first is found. -/
theorem verbatim_text_is_found_where_it_occurs_with_a_dot :
    verbatim "a.b*" = "a\\.b\\*" ∧
      ∃ pattern,
        compile "a\\.b\\*" = .ok pattern ∧
          (pattern.matchLine "axb*a.b*a.b*").matched = true ∧
          (pattern.matchLine "axb*a.b*a.b*").start = 4 ∧
          (pattern.matchLine "axb*a.b*a.b*").stop = 8 ∧
          (pattern.matchLine "axb*a.b*a.b*").captures = [""] := by
  have written : verbatim "a.b*" = "a\\.b\\*" := by
    decide
  obtain ⟨pattern, compiled, -, -, searched⟩ :=
    verbatim_text_is_found_where_it_occurs "a.b*"
  obtain ⟨matchedIff, reported⟩ := searched "axb*a.b*a.b*"
  have occurring : "a.b*".toList <:+: "axb*a.b*a.b*".toList :=
    ⟨"axb*".toList, "a.b*".toList, by decide⟩
  have matched := matchedIff.mpr occurring
  obtain ⟨occurs, stop, captures⟩ := reported matched
  have fourth :
      OccursFirst "a.b*".toList "axb*a.b*a.b*".toList 4 :=
    ⟨by decide, by decide⟩
  have start := occurs.unique fourth
  rw [written] at compiled
  rw [start] at stop
  exact ⟨written, pattern, compiled, matched, start, stop, captures⟩

end Pattern

end LineSearch
