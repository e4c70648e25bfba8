import LineSearch.Match.Progress

namespace LineSearch

/-!
# Staying inside the line

Matching begins inside the line with slots that hold nothing.  From there it can
only record stretches of the line it has already passed, so whatever a slot
holds can be read off the line.  This module states that condition and what the
two ways of changing a progress, moving on and recording, do to it.
-/

namespace Captures

/-- Slots that were never recorded hold nothing. -/
@[simp] theorem span?_unset
    (groupCount index : Nat) :
    (unset groupCount).span? index = none := by
  simp only [span?, unset, Array.getElem?_replicate]
  split <;> rfl

/-- Growing adds only slots that hold nothing. -/
@[simp] theorem span?_grow
    (captures : Captures)
    (index query : Nat) :
    (captures.grow index).span? query = captures.span? query := by
  simp only [span?, grow, Array.rightpad, Array.getElem?_append,
    Array.getElem?_replicate]
  split
  · rfl
  · next absent =>
      have noSlot : captures[query]? = none :=
        Array.getElem?_eq_none (Nat.le_of_not_lt absent)
      rw [noSlot]
      split <;> rfl

/-- Recording changes the slot it is about, and no other one. -/
theorem span?_record
    (captures : Captures)
    (index : Nat)
    (span : Span)
    (query : Nat) :
    (captures.record index span).span? query =
      if query = index then some span else captures.span? query := by
  by_cases same : query = index
  · subst same
    have present : query < (captures.grow query).size := by
      rw [size_grow]
      omega
    simp only [span?, record, Array.getElem?_setIfInBounds, present, ↓reduceIte]
    rfl
  · have kept :
        (captures.record index span).span? query =
          (captures.grow index).span? query := by
      simp [span?, record, Ne.symm same]
    rw [kept, span?_grow, if_neg same]

/-- Every stretch held lies in a line of this length. -/
def Inside (captures : Captures) (length : Nat) : Prop :=
  ∀ index span,
    captures.span? index = some span →
    span.start ≤ span.stop ∧ span.stop ≤ length

namespace Inside

theorem unset (groupCount length : Nat) :
    (unset groupCount).Inside length := by
  intro index span held
  simp at held

theorem record
    {captures : Captures}
    {length : Nat}
    (inside : captures.Inside length)
    (index : Nat)
    {span : Span}
    (ordered : span.start ≤ span.stop)
    (bounded : span.stop ≤ length) :
    (captures.record index span).Inside length := by
  intro query found held
  rw [span?_record] at held
  split at held
  · cases held
    exact ⟨ordered, bounded⟩
  · exact inside query found held

end Inside

end Captures

namespace Progress

/-- An offset of the line, or its end, with slots that hold stretches of the line. -/
structure Inside (chars : Line) (progress : Progress) : Prop where
  offset_le : progress.offset ≤ chars.size
  captures : progress.captures.Inside chars.size

end Progress

end LineSearch
