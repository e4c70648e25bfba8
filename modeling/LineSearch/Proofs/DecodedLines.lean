import LineSearch.Proofs.LabelledLines

namespace LineSearch

/-!
# Cutting before or after decoding

The lines of a stream are cut from its bytes and then decoded.  Decoding all of
its bytes first and cutting the text gives the same lines: a byte below 0x80 ends
whatever stands unfinished in front of it, so that what is in front of such a byte
and what is behind it are decoded on their own.
-/

namespace Utf8

/-- These bytes are those of a text. -/
def Valid (bytes : List UInt8) : Prop :=
  ∃ text, bytes = encode text

theorem Valid.append
    {first second : List UInt8} :
    Valid first → Valid second → Valid (first ++ second) := by
  rintro ⟨text, rfl⟩ ⟨other, rfl⟩
  exact ⟨text ++ other, (encode_append text other).symm⟩

theorem Valid.flatMap
    {items : List α}
    {bytes : α → List UInt8}
    (ofEach : ∀ item ∈ items, Valid (bytes item)) :
    Valid (items.flatMap bytes) := by
  induction items with
  | nil => exact ⟨"", rfl⟩
  | cons item rest inductionHypothesis =>
      obtain ⟨here, behind⟩ := List.forall_mem_cons.mp ofEach
      exact here.append (inductionHypothesis behind)

/-- The bytes of characters mean these characters. -/
theorem decodes_flatMap_utf8EncodeChar (chars : List Char) :
    Decodes (chars.flatMap String.utf8EncodeChar) chars := by
  induction chars with
  | nil => exact .nil
  | cons char rest inductionHypothesis => exact .char char inductionHypothesis

theorem decode_encode (text : String) :
    decode (encode text) = text := by
  apply String.toList_injective
  exact decodes_iff.mp (decodes_flatMap_utf8EncodeChar text.toList)

/-- What is valid is decoded to the text whose bytes it is. -/
theorem Valid.encode_decode
    {bytes : List UInt8}
    (valid : Valid bytes) :
    encode (decode bytes) = bytes := by
  obtain ⟨text, rfl⟩ := valid
  rw [decode_encode]

/-- No bytes but none mean no characters. -/
theorem Decodes.eq_nil
    {bytes : List UInt8}
    (decodes : Decodes bytes []) :
    bytes = [] := by
  generalize isNil : [] = chars at decodes
  cases decodes with
  | nil => rfl
  | char | replaced => cases isNil

variable {byte : UInt8}

/-- A byte below 0x80 is all of the character it belongs to. -/
theorem utf8EncodeChar_eq_singleton
    {char : Char}
    (small : byte.toNat < 0x80)
    (member : byte ∈ String.utf8EncodeChar char) :
    String.utf8EncodeChar char = [byte] := by
  rw [eq_ofNat_of_mem_utf8EncodeChar member small]
  exact encode_one small rfl

/-- What begins a character does not reach over a byte below 0x80. -/
theorem Begins.prefix_of_prefix_append
    {piece bytes later : List UInt8}
    (begins : Begins piece)
    (small : byte.toNat < 0x80)
    (nonempty : bytes ≠ [])
    (stands : piece <+: bytes ++ byte :: later) :
    piece <+: bytes := by
  obtain ⟨char, begun⟩ := begins
  -- A character with the byte in it would have no room for what is in front of the byte.
  have notBeyond : ¬ bytes ++ [byte] <+: piece := by
    intro beyond
    have whole := beyond.trans begun
    have member : byte ∈ String.utf8EncodeChar char :=
      whole.subset (by simp)
    rw [utf8EncodeChar_eq_singleton small member] at whole
    have size := whole.length_le
    rw [List.length_append] at size
    have noSize := Nat.le_zero.mp (Nat.le_of_succ_le_succ size)
    exact nonempty (List.length_eq_zero_iff.mp noSize)
  have front : bytes ++ [byte] <+: bytes ++ byte :: later :=
    ⟨later, by simp⟩
  rcases List.prefix_or_prefix_of_prefix stands front with within | beyond
  · rcases List.prefix_concat_iff.mp within with rfl | stays
    · exact (notBeyond (List.prefix_refl _)).elim
    · exact stays
  · exact (notBeyond beyond).elim

/-- What is ill-formed at the end of some bytes is so in front of a byte below 0x80. -/
theorem IllFormed.append
    {piece rest : List UInt8}
    (illFormed : IllFormed piece rest)
    (small : byte.toNat < 0x80)
    (later : List UInt8) :
    IllFormed piece (rest ++ byte :: later) := by
  have nonempty : piece ++ rest ≠ [] :=
    fun nothing => illFormed.nonempty (List.append_eq_nil_iff.mp nothing).1
  refine ⟨illFormed.nonempty, ?_, illFormed.begun, ?_⟩
  · intro char stands
    rw [← List.append_assoc] at stands
    have begins : Begins (String.utf8EncodeChar char) :=
      ⟨char, List.prefix_refl _⟩
    apply illFormed.noChar char
    exact begins.prefix_of_prefix_append small nonempty stands
  · intro longer begins stands
    rw [← List.append_assoc] at stands
    apply illFormed.longest longer begins
    exact begins.prefix_of_prefix_append small nonempty stands

/-- A byte below 0x80 is a character, and the bytes on both sides keep their meaning. -/
theorem Decodes.append
    {bytes later : List UInt8}
    {chars others : List Char}
    (decodes : Decodes bytes chars)
    (small : byte.toNat < 0x80)
    (laterDecodes : Decodes later others) :
    Decodes (bytes ++ byte :: later)
      (chars ++ Char.ofNat byte.toNat :: others) := by
  induction decodes with
  | nil =>
      have decoded := Decodes.char (Char.ofNat byte.toNat) laterDecodes
      rwa [encode_one small rfl] at decoded
  | char char _ inductionHypothesis =>
      rw [List.append_assoc]
      exact .char char inductionHypothesis
  | replaced illFormed _ inductionHypothesis =>
      rw [List.append_assoc]
      exact .replaced (illFormed.append small later) inductionHypothesis

/-- Decoding is done on either side of a byte below 0x80 by itself. -/
theorem toList_decode_append
    (small : byte.toNat < 0x80)
    (bytes later : List UInt8) :
    (decode (bytes ++ byte :: later)).toList =
      (decode bytes).toList ++
        Char.ofNat byte.toNat :: (decode later).toList := by
  apply decodes_iff.mp
  exact (decodes_iff.mpr rfl).append small (decodes_iff.mpr rfl)

theorem toList_decode_eq_nil_iff
    {bytes : List UInt8} :
    (decode bytes).toList = [] ↔ bytes = [] := by
  constructor
  · exact fun nothing => (decodes_iff.mpr nothing).eq_nil
  · rintro rfl
    rfl

theorem replacement_ne_ofNat
    (small : byte.toNat < 0x80) :
    replacement ≠ Char.ofNat byte.toNat := by
  intro same
  have valid : byte.toNat.isValidChar := Or.inl (Nat.lt_trans small (by decide))
  have codes := congrArg Char.toNat same
  rw [Char.toNat_ofNat, if_pos valid] at codes
  rw [← codes] at small
  exact absurd small (by decide)

/-- A text ends with a character below U+0080 only if its bytes end with that byte. -/
theorem Decodes.getLast?_bytes
    {bytes : List UInt8}
    {chars : List Char}
    (decodes : Decodes bytes chars)
    (small : byte.toNat < 0x80)
    (ends : chars.getLast? = some (Char.ofNat byte.toNat)) :
    bytes.getLast? = some byte := by
  induction decodes with
  | nil => cases ends
  | @char rest chars char later inductionHypothesis =>
      cases chars with
      | nil =>
          obtain rfl : char = Char.ofNat byte.toNat := Option.some.inj ends
          rw [later.eq_nil, encode_one small rfl]
          rfl
      | cons next others =>
          rw [List.getLast?_append, inductionHypothesis ends]
          rfl
  | @replaced piece rest chars illFormed later inductionHypothesis =>
      cases chars with
      | nil => exact (replacement_ne_ofNat small (Option.some.inj ends)).elim
      | cons next others =>
          rw [List.getLast?_append, inductionHypothesis ends]
          rfl

end Utf8

namespace Lines

open Utf8

theorem toList_decode_newline
    (bytes later : List UInt8) :
    (decode (bytes ++ newline :: later)).toList =
      (decode bytes).toList ++ '\n' :: (decode later).toList := by
  have small : newline.toNat < 0x80 := by
    decide
  exact toList_decode_append small bytes later

/-- A text has the segments of its bytes, each decoded by itself. -/
theorem segments_decode (bytes : List UInt8) :
    segments '\n' (decode bytes).toList =
      (segments newline bytes).map fun segment => (decode segment).toList := by
  by_cases free : newline ∉ bytes
  · have textFree : '\n' ∉ (decode bytes).toList :=
      newline_not_mem_of_decodes (decodes_iff.mpr rfl) free
    rw [segments_of_not_mem free, segments_of_not_mem textFree]
    rfl
  · obtain ⟨before, later, shape⟩ :=
      List.append_of_mem (Decidable.not_not.mp free)
    have size : bytes.length = before.length + (later.length + 1) := by
      rw [shape, List.length_append, List.length_cons]
    have ofBefore := segments_decode before
    have ofLater := segments_decode later
    rw [shape, toList_decode_newline, segments_append_separator,
      segments_append_separator, List.map_append, ofBefore, ofLater]
termination_by bytes.length
decreasing_by
  · exact size ▸ Nat.lt_add_of_pos_right (Nat.succ_pos _)
  · exact size ▸ Nat.lt_of_lt_of_le (Nat.lt_succ_self _) (Nat.le_add_left _ _)

/-- What each separator of a list ends, and what is left behind the last one if anything is. -/
def pieces [BEq α] (separator : α) (items : List α) : List (List α) :=
  let cut := segments separator items
  if cut.getLast?.any List.isEmpty then cut.dropLast else cut

theorem pieces_of_segments
    [BEq α]
    {separator : α}
    {items : List α}
    {ended : List (List α)}
    {last : List α}
    (cut : segments separator items = ended ++ [last]) :
    pieces separator items =
      ended ++ if last.isEmpty then [] else [last] := by
  rw [pieces, cut]
  cases last with
  | nil => simp
  | cons item rest => simp

/-- A text has the pieces of its bytes, each decoded by itself. -/
theorem pieces_decode (bytes : List UInt8) :
    pieces '\n' (decode bytes).toList =
      (pieces newline bytes).map fun piece => (decode piece).toList := by
  obtain ⟨ended, last, cut, -⟩ := segments_shape newline bytes
  have decoded := segments_decode bytes
  rw [cut, List.map_append] at decoded
  rw [pieces_of_segments cut, pieces_of_segments decoded, List.map_append]
  have sameEmpty : (decode last).toList.isEmpty = last.isEmpty := by
    rw [Bool.eq_iff_iff, List.isEmpty_iff, List.isEmpty_iff]
    exact toList_decode_eq_nil_iff
  rw [sameEmpty]
  cases last.isEmpty <;> rfl

/-- A text without one carriage return at its end. -/
def dropReturn (chars : List Char) : List Char :=
  if chars.getLast? = some '\r' then chars.dropLast else chars

/-- The carriage return at the end of a line is dropped before decoding or behind it. -/
theorem toList_decode_dropCarriageReturn (line : List UInt8) :
    (decode (dropCarriageReturn line)).toList =
      dropReturn (decode line).toList := by
  have small : carriageReturn.toNat < 0x80 := by
    decide
  unfold dropCarriageReturn dropReturn
  by_cases ends : line.getLast? = some carriageReturn
  · obtain ⟨text, rfl⟩ := List.getLast?_eq_some_iff.mp ends
    have decoded :
        (decode (text ++ [carriageReturn])).toList =
          (decode text).toList ++ ['\r'] :=
      toList_decode_append small text []
    rw [decoded]
    simp
  · have textEnds : (decode line).toList.getLast? ≠ some '\r' :=
      fun isReturn =>
        ends ((decodes_iff.mpr rfl).getLast?_bytes small isReturn)
    rw [if_neg ends, if_neg textEnds]

/-- The lines of a text, without their endings. -/
def ofText (text : String) : List String :=
  ((pieces '\n' text.toList).map dropReturn).map String.ofList

/-- The lines of a stream that came to its end are the pieces of its bytes. -/
theorem ofChunks_eq_pieces (chunks : List (List UInt8)) :
    ofChunks chunks false =
      (pieces newline chunks.flatten).map dropCarriageReturn := by
  obtain ⟨finished, unfinished, cut, lines⟩ := ofChunks_cut chunks false
  obtain ⟨ended, last, shape, whole, free, lastFree⟩ :=
    segments_shape newline chunks.flatten
  have other :
      Cut chunks.flatten (ended.map (· ++ [newline])) last := by
    refine ⟨whole, ?_, lastFree⟩
    intro line member
    obtain ⟨text, isEnded, rfl⟩ := List.mem_map.mp member
    exact ⟨text, free text isEnded, rfl⟩
  obtain ⟨rfl, rfl⟩ := cut.unique other
  rw [lines, pieces_of_segments shape, kept]
  simp only [List.map_append, List.map_map, Function.comp_def,
    withoutEnding_finished]
  by_cases nothing : unfinished = []
  · simp [nothing]
  · simp [nothing, withoutEnding_unfinished lastFree]

/-- Decoding all bytes of a stream and cutting the text gives the texts of its lines. -/
theorem texts_eq_ofText_decode (chunks : List (List UInt8)) :
    texts chunks false = ofText (decode chunks.flatten) := by
  rw [texts, ofChunks_eq_pieces, ofText, pieces_decode]
  simp only [List.map_map]
  apply List.map_congr_left
  intro piece _
  simp [← toList_decode_dropCarriageReturn]

/-- A valid line is valid without its last byte if that is below 0x80. -/
theorem valid_of_valid_append
    {bytes : List UInt8}
    {byte : UInt8}
    (small : byte.toNat < 0x80)
    (valid : Valid (bytes ++ [byte])) :
    Valid bytes := by
  obtain ⟨text, whole⟩ := valid
  have decoded :
      (decode (bytes ++ [byte])).toList =
        (decode bytes).toList ++ [Char.ofNat byte.toNat] :=
    toList_decode_append small bytes []
  have encoded :
      encode text = encode (decode bytes) ++ [byte] := by
    rw [whole, decode_encode] at decoded
    rw [encode, decoded, List.flatMap_append, List.flatMap_singleton,
      encode_one small rfl]
    rfl
  exact ⟨decode bytes, List.append_cancel_right (whole.trans encoded)⟩

theorem valid_dropAtEnd
    {item : UInt8}
    {line : List UInt8}
    (small : item.toNat < 0x80)
    (valid : Valid line) :
    Valid (dropAtEnd item line) := by
  unfold dropAtEnd
  split
  · next ends =>
      obtain ⟨text, rfl⟩ := List.getLast?_eq_some_iff.mp ends
      rw [List.dropLast_concat]
      exact valid_of_valid_append small valid
  · exact valid

/-- Both bytes of an ending are characters, so a valid line is valid without them. -/
theorem valid_withoutEnding
    {line : List UInt8}
    (valid : Valid line) :
    Valid (withoutEnding line) := by
  apply valid_dropAtEnd (by decide)
  exact valid_dropAtEnd (by decide) valid

end Lines

namespace Settings

/-- What is shown in front of the lines of a source with this label, or with none. -/
def front (settings : Settings) : Option String → String
  | some label => if settings.printPaths then label ++ ":" else ""
  | none => ""

theorem shownLine_eq
    (settings : Settings)
    (label? : Option String)
    (text : String) :
    settings.shownLine label? text = settings.front label? ++ text ++ "\n" := by
  cases label? with
  | none => simp [shownLine, front]
  | some label =>
      by_cases shown : settings.printPaths = true <;>
        simp [shownLine, front, shown]

end Settings

namespace Search

open Output

/--
A source that comes to its end, searched with an output that takes everything.
The texts that are matched are the lines of its bytes decoded as a whole.  What is
printed is valid: for each line whose text matches, the label if it is shown, the
bytes of that text and a newline; and where the bytes of the line are valid, the
bytes of the text are these without the ending of the line.
-/
theorem lines_are_those_of_the_decoded_text
    (search : Search)
    (label? : Option String)
    (source : Source)
    {device : Device}
    (accepts : device.room? = none)
    (ends : source.failure? = none) :
    let bytes := source.chunks.flatten
    let delivery := search.perform (.direct device) (.source label? source)
    let text (line : List UInt8) : String :=
      Utf8.decode (Lines.withoutEnding line)
    source.lines = Lines.ofText (Utf8.decode bytes) ∧
      ∃ finished unfinished written,
        Lines.Cut bytes finished unfinished ∧
          delivery.channel.device.taken.toList =
            device.taken.toList ++ written ∧
          Utf8.Valid written ∧
          written =
            (((Lines.kept false finished unfinished).filter
              (search.pattern.isMatch ∘ text)).flatMap fun line =>
                Utf8.encode (search.settings.front label?) ++
                  Utf8.encode (text line) ++ [Lines.newline]) ∧
          ∀ line ∈ Lines.kept false finished unfinished,
            Utf8.Valid line →
              Utf8.encode (text line) = Lines.withoutEnding line := by
  intro bytes delivery text
  have brokeOff : source.failure?.isSome = false := by
    rw [ends]
    rfl
  have lines : source.lines = Lines.texts source.chunks false := by
    rw [Source.lines, brokeOff]
  obtain ⟨finished, unfinished, cut, kept⟩ :=
    Lines.ofChunks_cut source.chunks false
  have texts :
      source.lines = (Lines.kept false finished unfinished).map text := by
    rw [lines, Lines.texts, kept, List.map_map]
    rfl
  obtain ⟨-, taken, -⟩ :=
    search.perform_unlimited accepts (.source label? source)
  have printed := search.printed_source label? source
  rw [texts, List.filter_map, List.flatMap_map] at printed
  refine
    ⟨lines.trans (Lines.texts_eq_ofText_decode source.chunks), finished,
      unfinished, _, cut, taken, ?_, ?_, ?_⟩
  · rw [printed]
    exact Utf8.Valid.flatMap fun line _ => ⟨_, rfl⟩
  · rw [printed]
    simp only [Settings.shownLine_eq, Utf8.encode_append]
    rfl
  · intro line _ valid
    exact (Lines.valid_withoutEnding valid).encode_decode

/-- Characters broken off by a newline, by a carriage return and by the end of the source. -/
theorem lines_are_those_of_the_decoded_text_with_broken_characters :
    let pattern : Pattern := ⟨.dot, 0, false, "."⟩
    let search : Search := ⟨pattern, ⟨false, true⟩, .bare []⟩
    let source : Source :=
      ⟨[[0xE2, 0x82], [10, 97, 0xF0, 0x9F, 13], [10, 0xC3]], none⟩
    let delivery := search.perform (.direct .unlimited) (.source (some "in") source)
    Device.unlimited.room? = none ∧
      source.failure? = none ∧
      source.lines = Lines.ofText (Utf8.decode source.chunks.flatten) ∧
      source.lines = ["\uFFFD", "a\uFFFD", "\uFFFD"] ∧
      Utf8.Valid delivery.channel.device.taken.toList := by
  intro pattern search source delivery
  have unlimited : Device.unlimited.room? = none := rfl
  have ends : source.failure? = none := rfl
  obtain ⟨lines, finished, unfinished, written, -, taken, valid, -⟩ :=
    search.lines_are_those_of_the_decoded_text (some "in") source unlimited ends
  refine ⟨unlimited, ends, lines, by cbv, ?_⟩
  rw [taken]
  exact valid

end Search

end LineSearch
