namespace LineSearch

/-!
# Cutting a list at its separators

A list with `n` separators has `n + 1` segments, some of which may be empty. The
separators themselves are in none of them.
-/

/-- Put one more item in front of a list that is cut already. -/
def prependToSegments [BEq α] (separator item : α) : List (List α) → List (List α)
  | [] => []
  | segment :: segments =>
      if item == separator then
        [] :: segment :: segments
      else
        (item :: segment) :: segments

/-- The segments of a list, in order. -/
def segments [BEq α] (separator : α) (items : List α) : List (List α) :=
  items.foldr (prependToSegments separator) [[]]

@[simp] theorem segments_nil [BEq α] (separator : α) : segments separator [] = [[]] :=
  rfl

theorem segments_cons
    [BEq α]
    (separator item : α)
    (items : List α) :
    segments separator (item :: items) =
      prependToSegments separator item (segments separator items) :=
  rfl

theorem segments_ne_nil
    [BEq α]
    (separator : α)
    (items : List α) :
    segments separator items ≠ [] := by
  induction items with
  | nil => simp
  | cons item rest inductionHypothesis =>
      rw [segments_cons]
      cases cut : segments separator rest with
      | nil => exact absurd cut inductionHypothesis
      | cons segment later =>
          by_cases same : item == separator <;>
            simp [prependToSegments, same]

/-- The segments of a list are what ends at its separators, and what is left behind them. -/
theorem segments_shape
    [BEq α]
    [LawfulBEq α]
    (separator : α)
    (items : List α) :
    ∃ ended last,
      segments separator items = ended ++ [last] ∧
        items = (ended.map (· ++ [separator])).flatten ++ last ∧
        (∀ segment ∈ ended, separator ∉ segment) ∧
        separator ∉ last := by
  induction items with
  | nil => exact ⟨[], [], rfl, rfl, by simp, by simp⟩
  | cons item rest inductionHypothesis =>
      obtain ⟨ended, last, cut, whole, free, lastFree⟩ := inductionHypothesis
      rw [segments_cons, cut]
      by_cases isSeparator : item = separator
      · subst isSeparator
        refine ⟨[] :: ended, last, ?_, ?_, ?_, lastFree⟩
        · cases ended <;> simp [prependToSegments]
        · simp [← whole]
        · simpa using free
      · have other : separator ≠ item := fun same => isSeparator same.symm
        cases ended with
        | nil =>
            refine ⟨[], item :: last, ?_, ?_, by simp, ?_⟩
            · simp [prependToSegments, isSeparator]
            · simp [whole]
            · simp [other, lastFree]
        | cons segment ended =>
            refine ⟨(item :: segment) :: ended, last, ?_, ?_, ?_, lastFree⟩
            · simp [prependToSegments, isSeparator]
            · simp [whole]
            · simpa [other] using free

/-- A segment is a part of the list, and has no separator in it. -/
theorem of_mem_segments
    [BEq α]
    [LawfulBEq α]
    {separator : α}
    {items segment : List α}
    (member : segment ∈ segments separator items) :
    separator ∉ segment ∧ segment ⊆ items := by
  obtain ⟨ended, last, cut, whole, free, lastFree⟩ :=
    segments_shape separator items
  rw [cut] at member
  rcases List.mem_append.mp member with isEnded | isLast
  · refine ⟨free segment isEnded, fun item isItem => ?_⟩
    rw [whole]
    refine List.mem_append_left _ (List.mem_flatten.mpr ⟨_, List.mem_map_of_mem isEnded, ?_⟩)
    exact List.mem_append_left _ isItem
  · obtain rfl := List.mem_singleton.mp isLast
    refine ⟨lastFree, fun item isItem => ?_⟩
    rw [whole]
    exact List.mem_append_right _ isItem

/-- A list without a separator is its only segment. -/
theorem segments_of_not_mem
    [BEq α]
    [LawfulBEq α]
    {separator : α}
    {items : List α}
    (free : separator ∉ items) :
    segments separator items = [items] := by
  obtain ⟨ended, last, cut, whole, -, -⟩ := segments_shape separator items
  cases ended with
  | nil =>
      rw [cut, whole]
      rfl
  | cons segment ended =>
      refine (free ?_).elim
      rw [whole]
      simp

/-- Cutting at a separator leaves what is before it and what is behind it cut as they are. -/
theorem segments_append_separator
    [BEq α]
    [LawfulBEq α]
    (separator : α)
    (left right : List α) :
    segments separator (left ++ separator :: right) =
      segments separator left ++ segments separator right := by
  induction left with
  | nil =>
      rw [List.nil_append, segments_cons]
      cases cut : segments separator right with
      | nil => exact absurd cut (segments_ne_nil separator right)
      | cons segment later => simp [prependToSegments]
  | cons item left inductionHypothesis =>
      rw [List.cons_append, segments_cons, segments_cons, inductionHypothesis]
      cases cut : segments separator left with
      | nil => exact absurd cut (segments_ne_nil separator left)
      | cons segment later =>
          by_cases same : item == separator <;>
            simp [prependToSegments, same]

end LineSearch
