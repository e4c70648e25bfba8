import LineSearch.Proofs.LineFilter

namespace LineSearch

/-!
# Lines behind a label

No line of a stream has a newline in it, neither as bytes nor as text, since a byte
of a character is a newline only when the character is one.  So what is printed of
a source falls into the lines that were printed, one for each text, and with a
label the same lines are printed, each behind the label.  A label may be any
bytes; it is not looked at for line ends.
-/

namespace Utf8

/-- Each byte of what is left of a character tells that it is no character by itself. -/
theorem Completes.high_bytes
    {bits more low high : Nat}
    {tail : List UInt8}
    {char : Char}
    (completes : Completes (.inside bits more low high) tail char)
    (least : 0x80 ≤ low) :
    ∀ byte ∈ tail, 0x80 ≤ byte.toNat := by
  generalize inside : State.inside bits more low high = state at completes
  induction completes generalizing bits more low high with
  | last low_le _ =>
      cases inside
      simpa using Nat.le_trans least low_le
  | more low_le _ _ inductionHypothesis =>
      cases inside
      intro byte member
      rcases List.mem_cons.mp member with rfl | behind
      · exact Nat.le_trans least low_le
      · exact inductionHypothesis (Nat.le_refl 0x80) rfl byte behind

/-- No byte of a character that has more than one is below 0x80. -/
theorem Leads.high_bytes
    {first : UInt8}
    {state : State}
    {tail : List UInt8}
    {char : Char}
    (leads : Leads first.toNat state)
    (completes : Completes state tail char) :
    ∀ byte ∈ first :: tail, 0x80 ≤ byte.toNat := by
  intro byte member
  cases leads with
  | two least greatest =>
      rcases List.mem_cons.mp member with rfl | behind
      · omega
      · exact completes.high_bytes (Nat.le_refl 0x80) byte behind
  | three least greatest lowest highest =>
      rcases List.mem_cons.mp member with rfl | behind
      · omega
      · exact completes.high_bytes (by omega) byte behind
  | four least greatest lowest highest =>
      rcases List.mem_cons.mp member with rfl | behind
      · omega
      · exact completes.high_bytes (by omega) byte behind

/-- A byte below 0x80 stands for itself, and in no other character. -/
theorem eq_ofNat_of_mem_utf8EncodeChar
    {char : Char}
    {byte : UInt8}
    (member : byte ∈ String.utf8EncodeChar char)
    (small : byte.toNat < 0x80) :
    char = Char.ofNat byte.toNat := by
  obtain ⟨first, tail, bytes⟩ :=
    List.exists_cons_of_ne_nil (String.utf8EncodeChar_ne_nil (c := char))
  rw [bytes] at member
  rcases completes_of_encode bytes with
    ⟨rfl, isChar⟩ | ⟨state, leads, completes⟩
  · obtain rfl := List.mem_singleton.mp member
    rw [lead, if_pos small] at isChar
    simpa using isChar.symm
  · exact absurd (leads.high_bytes completes byte member) (Nat.not_le.mpr small)

/-- A text has a newline among its bytes when it has one among its characters. -/
theorem newline_mem_encode_iff
    {text : String} :
    Lines.newline ∈ encode text ↔ '\n' ∈ text.toList := by
  rw [encode, List.mem_flatMap]
  constructor
  · rintro ⟨char, member, isByte⟩
    obtain rfl : char = '\n' := eq_ofNat_of_mem_utf8EncodeChar isByte (by decide)
    exact member
  · intro member
    exact ⟨'\n', member, by decide⟩

/-- Bytes without a newline mean no newline. -/
theorem newline_not_mem_of_decodes
    {bytes : List UInt8}
    {chars : List Char}
    (decodes : Decodes bytes chars)
    (free : Lines.newline ∉ bytes) :
    '\n' ∉ chars := by
  induction decodes with
  | nil => exact List.not_mem_nil
  | char char later inductionHypothesis =>
      rw [List.mem_append, not_or] at free
      intro member
      rcases List.mem_cons.mp member with rfl | behind
      · exact free.1 (by decide)
      · exact inductionHypothesis free.2 behind
  | replaced illFormed later inductionHypothesis =>
      rw [List.mem_append, not_or] at free
      intro member
      rcases List.mem_cons.mp member with same | behind
      · exact absurd same (by decide)
      · exact inductionHypothesis free.2 behind

end Utf8

namespace Lines

theorem newline_not_mem_of_mem_continueWith
    {brokeOff : Bool}
    {underWay : List UInt8}
    {chunks : List (List UInt8)}
    (goesOn : newline ∉ underWay) :
    ∀ line ∈ continueWith brokeOff underWay chunks, newline ∉ line := by
  induction chunks generalizing underWay with
  | nil =>
      intro line member
      by_cases nothing : (brokeOff || underWay.isEmpty) = true
      · simp [continueWith, nothing] at member
      · simp only [continueWith, nothing] at member
        obtain rfl := List.mem_singleton.mp member
        exact goesOn
  | cons chunk rest inductionHypothesis =>
      obtain ⟨cut, free⟩ := takeChunk_cut goesOn chunk
      intro line member
      rcases List.mem_append.mp member with finished | later
      · exact free line finished
      · exact inductionHypothesis cut.goesOn line later

/-- The texts of lines are free of newlines. -/
theorem newline_not_mem_of_mem_texts
    {chunks : List (List UInt8)}
    {brokeOff : Bool}
    {text : String}
    (member : text ∈ texts chunks brokeOff) :
    '\n' ∉ text.toList := by
  obtain ⟨bytes, isLine, rfl⟩ := List.mem_map.mp member
  obtain ⟨line, isCut, rfl⟩ := List.mem_map.mp isLine
  have free : newline ∉ line :=
    newline_not_mem_of_mem_continueWith List.not_mem_nil line isCut
  have kept : newline ∉ dropCarriageReturn line := by
    unfold dropCarriageReturn
    split
    · exact fun within => free (line.dropLast_subset within)
    · exact free
  exact Utf8.newline_not_mem_of_decodes (Utf8.decodes_iff.mpr rfl) kept

/-- Printed one after the other, texts without newlines are the lines of what is printed. -/
theorem cut_texts
    {read : List String}
    (free : ∀ text ∈ read, '\n' ∉ text.toList) :
    Cut (read.flatMap fun text => Utf8.encode (text ++ "\n"))
      (read.map fun text => Utf8.encode (text ++ "\n")) [] where
  whole := by
    rw [List.append_nil]
    rfl
  ended line member := by
    obtain ⟨text, isRead, rfl⟩ := List.mem_map.mp member
    refine ⟨Utf8.encode text, ?_, Utf8.encode_append text "\n"⟩
    exact mt Utf8.newline_mem_encode_iff.mp (free text isRead)
  goesOn := List.not_mem_nil

/-- These bytes are the lines of others, all of them finished, each behind a label. -/
def Labelled (label plain labelled : List UInt8) : Prop :=
  ∃ lines, Cut plain lines [] ∧ labelled = lines.flatMap (label ++ ·)

/-- There is something behind labels when there is something without them. -/
theorem Labelled.eq_nil_iff
    {label plain labelled : List UInt8}
    (behind : Labelled label plain labelled) :
    labelled = [] ↔ plain = [] := by
  obtain ⟨lines, cut, rfl⟩ := behind
  have nonempty (line : List UInt8) (member : line ∈ lines) : line ≠ [] := by
    obtain ⟨text, -, rfl⟩ := cut.ended line member
    simp
  rw [cut.whole, List.append_nil, List.flatMap_eq_nil_iff,
    List.flatten_eq_nil_iff]
  constructor
  · intro nothing line member
    exact (List.append_eq_nil_iff.mp (nothing line member)).2
  · intro nothing line member
    exact absurd (nothing line member) (nonempty line member)

end Lines

namespace Source

/-- The lines of a source are the same in whatever chunks its bytes arrive. -/
theorem lines_eq_of_same_bytes
    {source other : Source}
    (sameBytes : source.chunks.flatten = other.chunks.flatten)
    (sameEnd : source.failure?.isSome = other.failure?.isSome) :
    source.lines = other.lines := by
  have reads := Lines.reads_iff.mpr (rfl : source.lines = source.lines)
  rw [sameBytes, sameEnd] at reads
  exact (Lines.reads_iff.mp reads).symm

end Source

namespace Search

open Output

/-- With labels, a source prints its lines as it does without, each behind the label. -/
theorem printed_source_labelled
    {search plain : Search}
    (samePattern : search.pattern = plain.pattern)
    (shows : search.settings.printPaths = true)
    (label : String)
    (source : Source) :
    Lines.Labelled (Utf8.encode (label ++ ":"))
      (printed (plain.events (.source none source)))
      (printed (search.events (.source (some label) source))) := by
  have free (text : String)
      (member : text ∈ source.lines.filter plain.pattern.isMatch) :
      '\n' ∉ text.toList :=
    Lines.newline_not_mem_of_mem_texts (List.mem_of_mem_filter member)
  have behind (text : String) :
      search.settings.shownLine (some label) text =
        label ++ ":" ++ (text ++ "\n") := by
    simp [Settings.shownLine, shows, String.append_assoc]
  have cut := Lines.cut_texts free
  rw [printed_source, printed_source, samePattern]
  refine ⟨_, cut, ?_⟩
  rw [List.flatMap_map]
  simp only [behind, Utf8.encode_append (label ++ ":")]

end Search

end LineSearch
