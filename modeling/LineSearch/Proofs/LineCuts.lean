import LineSearch.Text.Lines
import LineSearch.Proofs.LossyText
import Mathlib.Data.List.Forall2

namespace LineSearch

/-!
# What the lines of a stream are

A stream is a number of finished lines, each with the newline that ends it, and
what follows the last newline.  That remainder is a line too when there is
something of it and the stream came to its end.  Without its ending, every line
means a text.

The lines of a stream are the same however it is cut into chunks.
-/

namespace Lines

/-- Bytes cut into finished lines, each with its newline, and an unfinished one. -/
structure Cut
    (bytes : List UInt8)
    (finished : List (List UInt8))
    (unfinished : List UInt8) : Prop where
  whole : bytes = finished.flatten ++ unfinished
  ended :
    ∀ line ∈ finished, ∃ text, newline ∉ text ∧ line = text ++ [newline]
  goesOn : newline ∉ unfinished

namespace Cut

theorem nil
    {underWay : List UInt8}
    (goesOn : newline ∉ underWay) :
    Cut underWay [] underWay :=
  ⟨rfl, by simp, goesOn⟩

/-- Bytes that arrive later go on with the line that is under way. -/
theorem append
    {bytes later unfinished last : List UInt8}
    {finished further : List (List UInt8)}
    (before : Cut bytes finished unfinished)
    (after : Cut (unfinished ++ later) further last) :
    Cut (bytes ++ later) (finished ++ further) last where
  whole := by
    rw [before.whole, List.flatten_append, List.append_assoc, after.whole,
      List.append_assoc]
  ended line member :=
    (List.mem_append.mp member).elim (before.ended line) (after.ended line)
  goesOn := after.goesOn

/-- A first line ends at the first newline. -/
private theorem first_inj
    {left right rest others : List UInt8}
    (leftFree : newline ∉ left)
    (rightFree : newline ∉ right)
    (same : left ++ newline :: rest = right ++ newline :: others) :
    left = right ∧ rest = others := by
  induction left generalizing right with
  | nil =>
      cases right with
      | nil => exact ⟨rfl, List.tail_eq_of_cons_eq same⟩
      | cons byte right =>
          obtain ⟨rfl, _⟩ := List.cons.inj same
          exact (rightFree List.mem_cons_self).elim
  | cons byte left inductionHypothesis =>
      cases right with
      | nil =>
          obtain ⟨rfl, _⟩ := List.cons.inj same
          exact (leftFree List.mem_cons_self).elim
      | cons other right =>
          obtain ⟨rfl, behind⟩ := List.cons.inj same
          obtain ⟨rfl, sameRest⟩ :=
            inductionHypothesis
              (fun member => leftFree (List.mem_cons_of_mem _ member))
              (fun member => rightFree (List.mem_cons_of_mem _ member))
              behind
          exact ⟨rfl, sameRest⟩

/-- Bytes can be cut into lines in one way only. -/
theorem unique
    {bytes unfinished otherUnfinished : List UInt8}
    {finished otherFinished : List (List UInt8)}
    (cut : Cut bytes finished unfinished)
    (other : Cut bytes otherFinished otherUnfinished) :
    finished = otherFinished ∧ unfinished = otherUnfinished := by
  induction finished generalizing bytes otherFinished with
  | nil =>
      cases otherFinished with
      | nil => exact ⟨rfl, cut.whole.symm.trans other.whole⟩
      | cons line rest =>
          obtain ⟨text, -, rfl⟩ := other.ended line List.mem_cons_self
          refine (cut.goesOn ?_).elim
          have whole : unfinished = bytes := cut.whole.symm
          rw [whole, other.whole]
          simp
  | cons line rest inductionHypothesis =>
      obtain ⟨text, textFree, rfl⟩ := cut.ended line List.mem_cons_self
      cases otherFinished with
      | nil =>
          refine (other.goesOn ?_).elim
          have whole : otherUnfinished = bytes := other.whole.symm
          rw [whole, cut.whole]
          simp
      | cons otherLine otherRest =>
          obtain ⟨otherText, otherFree, rfl⟩ :=
            other.ended otherLine List.mem_cons_self
          have same := cut.whole.symm.trans other.whole
          simp only [List.flatten_cons, List.append_assoc,
            List.singleton_append] at same
          obtain ⟨rfl, behind⟩ := first_inj textFree otherFree same
          obtain ⟨rfl, rfl⟩ :=
            inductionHypothesis
              ⟨rfl, fun line member => cut.ended line (List.mem_cons_of_mem _ member),
                cut.goesOn⟩
              ⟨behind,
                fun line member => other.ended line (List.mem_cons_of_mem _ member),
                other.goesOn⟩
          exact ⟨rfl, rfl⟩

end Cut

/-- One more chunk finishes the lines that end in it. -/
theorem takeChunk_cut
    {underWay : List UInt8}
    (goesOn : newline ∉ underWay)
    (chunk : List UInt8) :
    Cut (underWay ++ chunk)
        ((takeChunk underWay chunk).1.map (· ++ [newline]))
        (takeChunk underWay chunk).2 ∧
      ∀ text ∈ (takeChunk underWay chunk).1, newline ∉ text := by
  obtain ⟨ended, last, cut, whole, free, lastFree⟩ :=
    segments_shape newline chunk
  cases ended with
  | nil =>
      simp only [List.nil_append] at cut
      have taken : takeChunk underWay chunk = ([], underWay ++ last) := by
        simp [takeChunk, cut]
      rw [taken]
      refine ⟨⟨?_, by simp, ?_⟩, by simp⟩
      · simp [whole]
      · simp [goesOn, lastFree]
  | cons first rest =>
      have taken :
          takeChunk underWay chunk = ((underWay ++ first) :: rest, last) := by
        simp [takeChunk, cut, List.dropLast_cons_of_ne_nil, List.getLast_cons]
      have allFree : ∀ text ∈ (underWay ++ first) :: rest, newline ∉ text := by
        simpa [goesOn] using free
      rw [taken]
      refine ⟨⟨?_, ?_, lastFree⟩, allFree⟩
      · simp [whole]
      · intro line member
        obtain ⟨text, isEnded, rfl⟩ := List.mem_map.mp member
        exact ⟨text, allFree text isEnded, rfl⟩

/-- The lines that there are: the finished ones, and the other one unless it is lost or empty. -/
def kept
    (brokeOff : Bool)
    (finished : List (List UInt8))
    (unfinished : List UInt8) :
    List (List UInt8) :=
  finished ++
    if brokeOff = true ∨ unfinished = [] then [] else [unfinished]

/-- A list without this item at its end. -/
def dropAtEnd (item : UInt8) (line : List UInt8) : List UInt8 :=
  if line.getLast? = some item then line.dropLast else line

/-- A line without its newline, and then without one carriage return. -/
def withoutEnding (line : List UInt8) : List UInt8 :=
  dropAtEnd carriageReturn (dropAtEnd newline line)

theorem withoutEnding_finished (text : List UInt8) :
    withoutEnding (text ++ [newline]) = dropCarriageReturn text := by
  simp [withoutEnding, dropAtEnd, dropCarriageReturn]

theorem withoutEnding_unfinished
    {text : List UInt8}
    (goesOn : newline ∉ text) :
    withoutEnding text = dropCarriageReturn text := by
  have noEnd : text.getLast? ≠ some newline :=
    fun ends => goesOn (List.mem_of_getLast? ends)
  simp [withoutEnding, dropAtEnd, dropCarriageReturn, noEnd]

/-- However a stream is cut into chunks, its lines are those of all its bytes. -/
theorem continueWith_cut
    (brokeOff : Bool)
    {underWay : List UInt8}
    (goesOn : newline ∉ underWay)
    (chunks : List (List UInt8)) :
    ∃ finished unfinished,
      Cut (underWay ++ chunks.flatten) finished unfinished ∧
        (continueWith brokeOff underWay chunks).map dropCarriageReturn =
          (kept brokeOff finished unfinished).map withoutEnding := by
  induction chunks generalizing underWay with
  | nil =>
      refine ⟨[], underWay, by simpa using Cut.nil goesOn, ?_⟩
      by_cases none : brokeOff = true ∨ underWay = []
      · simp [continueWith, kept, none]
      · simp [continueWith, kept, none, withoutEnding_unfinished goesOn]
  | cons chunk rest inductionHypothesis =>
      obtain ⟨cut, free⟩ := takeChunk_cut goesOn chunk
      obtain ⟨further, last, after, texts⟩ := inductionHypothesis cut.goesOn
      have whole := cut.append after
      rw [List.append_assoc] at whole
      refine ⟨_, last, whole, ?_⟩
      rw [continueWith]
      simp only [List.map_append, texts, kept, List.append_assoc,
        List.map_map, Function.comp_def, withoutEnding_finished]

/-- The lines of a stream are those its bytes are cut into, without their endings. -/
theorem ofChunks_cut
    (chunks : List (List UInt8))
    (brokeOff : Bool) :
    ∃ finished unfinished,
      Cut chunks.flatten finished unfinished ∧
        ofChunks chunks brokeOff =
          (kept brokeOff finished unfinished).map withoutEnding :=
  continueWith_cut brokeOff List.not_mem_nil chunks

/-- These are the texts of the lines of a stream of these bytes. -/
def Reads
    (bytes : List UInt8)
    (brokeOff : Bool)
    (read : List String) : Prop :=
  ∃ finished unfinished,
    Cut bytes finished unfinished ∧
      List.Forall₂
        (fun line text => Utf8.Decodes (withoutEnding line) text.toList)
        (kept brokeOff finished unfinished)
        read

/-- What lines mean is what the decoder makes of them. -/
theorem forall₂_decodes_iff
    {lines : List (List UInt8)}
    {read : List String} :
    List.Forall₂
        (fun line text => Utf8.Decodes (withoutEnding line) text.toList)
        lines read ↔
      (lines.map withoutEnding).map Utf8.decode = read := by
  simp only [Utf8.decodes_iff, String.toList_inj]
  rw [← List.forall₂_map_left_iff, List.forall₂_eq_eq_eq, List.map_map]
  rfl

/--
The texts of the lines of a stream are those that its bytes mean, in whatever
chunks they arrive.
-/
theorem reads_iff
    {chunks : List (List UInt8)}
    {brokeOff : Bool}
    {read : List String} :
    Reads chunks.flatten brokeOff read ↔ texts chunks brokeOff = read := by
  obtain ⟨finished, unfinished, cut, lines⟩ := ofChunks_cut chunks brokeOff
  constructor
  · rintro ⟨otherFinished, otherUnfinished, otherCut, means⟩
    obtain ⟨rfl, rfl⟩ := cut.unique otherCut
    rw [texts, lines]
    exact forall₂_decodes_iff.mp means
  · rintro rfl
    refine ⟨finished, unfinished, cut, forall₂_decodes_iff.mpr ?_⟩
    rw [texts, lines]

end Lines

end LineSearch
