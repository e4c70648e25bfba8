import LineSearch.Proofs.CharacterBytes
import Mathlib.Data.Nat.Find

namespace LineSearch.Utf8

/-!
# What decoding means

Decoded bytes are cut into the bytes of characters and into ill-formed pieces.
An ill-formed piece stands where no character begins: it is the longest beginning
of a character that stands there, or one byte if no character begins with that
byte.  Each such piece becomes one replacement character.

Bytes can be cut so in exactly one way, and the decoder finds it.
-/

/-- Some character begins with these bytes. -/
def Begins (piece : List UInt8) : Prop :=
  ∃ char, piece <+: String.utf8EncodeChar char

/-- This piece in front of these bytes is as much as belongs to no character. -/
structure IllFormed (piece rest : List UInt8) : Prop where
  nonempty : piece ≠ []
  noChar : ∀ char, ¬ String.utf8EncodeChar char <+: piece ++ rest
  begun : Begins piece ∨ piece.length = 1
  longest :
    ∀ longer, Begins longer → longer <+: piece ++ rest →
      longer.length ≤ piece.length

/-- These bytes mean these characters. -/
inductive Decodes : List UInt8 → List Char → Prop where
  | nil : Decodes [] []
  | char
      {rest : List UInt8}
      {chars : List Char}
      (char : Char)
      (later : Decodes rest chars) :
      Decodes (String.utf8EncodeChar char ++ rest) (char :: chars)
  | replaced
      {piece rest : List UInt8}
      {chars : List Char}
      (illFormed : IllFormed piece rest)
      (later : Decodes rest chars) :
      Decodes (piece ++ rest) (replacement :: chars)

/-- The characters still to come from these bytes in a state. -/
def read : State → List UInt8 → List Char
  | state, [] => finish state
  | state, byte :: rest =>
      (feed state byte).1 ++ read (feed state byte).2 rest

theorem foldl_take
    (decoder : Decoder)
    (bytes : List UInt8) :
    let last := bytes.foldl Decoder.take decoder
    (last.chars ++ finish last.state).toList =
      decoder.chars.toList ++ read decoder.state bytes := by
  induction bytes generalizing decoder with
  | nil => simp [read]
  | cons byte rest inductionHypothesis =>
      have later := inductionHypothesis (decoder.take byte)
      simp only [List.foldl_cons, later]
      simp [Decoder.take, read]

theorem toList_decode (bytes : List UInt8) :
    (decode bytes).toList = read .start bytes := by
  rw [decode, String.toList_ofList]
  exact foldl_take .fresh bytes

/-- What is left of a character is read up to that character. -/
theorem read_of_completes
    {state : State}
    {tail : List UInt8}
    {char : Char}
    (completes : Completes state tail char)
    (rest : List UInt8) :
    read state (tail ++ rest) = char :: read .start rest := by
  induction completes with
  | last low_le le_high => simp [read, feed, low_le, le_high]
  | more low_le le_high behind inductionHypothesis =>
      simpa [read, feed, low_le, le_high] using inductionHypothesis

/-- In the middle of what is left of a character nothing is read yet. -/
theorem Completes.split
    {piece tail : List UInt8}
    {char : Char}
    (nonempty : tail ≠ []) :
    {state : State} →
    Completes state (piece ++ tail) char →
    ∃ bits more low high,
      (∀ rest,
        read state (piece ++ rest) =
          read (.inside bits more low high) rest) ∧
        ∀ other otherChar,
          Completes (.inside bits more low high) other otherChar →
          Completes state (piece ++ other) otherChar := by
  induction piece with
  | nil =>
      intro state completes
      cases completes <;> exact ⟨_, _, _, _, fun _ => rfl, fun _ _ same => same⟩
  | cons byte piece inductionHypothesis =>
      intro state completes
      rw [List.cons_append] at completes
      generalize whole : byte :: (piece ++ tail) = bytes at completes
      cases completes with
      | last low_le le_high =>
          obtain ⟨-, behind⟩ := List.cons.inj whole
          exact (nonempty (List.append_eq_nil_iff.mp behind).2).elim
      | more low_le le_high behind =>
          obtain ⟨rfl, rfl⟩ := List.cons.inj whole
          obtain ⟨bits, more, low, high, reads, resumes⟩ :=
            inductionHypothesis behind
          refine ⟨bits, more, low, high, fun rest => ?_, fun other char done => ?_⟩
          · simpa [read, feed, low_le, le_high] using reads rest
          · exact .more low_le le_high (resumes other char done)

/-- A byte with which no character begins is replaced at once. -/
theorem lead_eq_replaced
    {byte : UInt8}
    (alone : ¬ Begins [byte]) :
    lead byte.toNat = ([replacement], .start) := by
  rcases lead_cases byte.toNat with ⟨isChar, _⟩ | replaced | ⟨state, leads⟩
  · have whole : String.utf8EncodeChar (Char.ofNat byte.toNat) = [byte] :=
      encode_one isChar rfl
    exact (alone ⟨_, [], by rw [whole]; rfl⟩).elim
  · exact replaced
  · obtain ⟨bits, more, low, high, rfl, second, low_le, le_high⟩ :=
      leads.exists_second
    obtain ⟨tail, char, completes⟩ := exists_completes bits more low_le le_high
    have whole := encode_of_completes leads completes
    exact (alone ⟨char, whole ▸ ⟨second :: tail, rfl⟩⟩).elim

theorem read_start_cons
    {byte : UInt8}
    {chars : List Char}
    {state : State}
    (leads : lead byte.toNat = (chars, state))
    (rest : List UInt8) :
    read .start (byte :: rest) = chars ++ read state rest := by
  simp [read, feed, leads]

/-- The bytes of a character are read as that character. -/
theorem read_encode
    (char : Char)
    (rest : List UInt8) :
    read .start (String.utf8EncodeChar char ++ rest) =
      char :: read .start rest := by
  obtain ⟨byte, tail, bytes⟩ :=
    List.exists_cons_of_ne_nil (String.utf8EncodeChar_ne_nil (c := char))
  rw [bytes, List.cons_append]
  rcases completes_of_encode bytes with
    ⟨rfl, isChar⟩ | ⟨state, leads, completes⟩
  · exact read_start_cons isChar rest
  · rw [read_start_cons (lead_of_leads leads), read_of_completes completes]
    rfl

/-- A beginning of a character that cannot be followed up is replaced. -/
theorem read_stuck
    {bits more low high : Nat}
    {rest : List UInt8}
    (stuck :
      ∀ byte later,
        rest = byte :: later →
          ¬ (low ≤ byte.toNat ∧ byte.toNat ≤ high)) :
    read (.inside bits more low high) rest =
      replacement :: read .start rest := by
  cases rest with
  | nil => rfl
  | cons byte later => simp [read, feed, stuck byte later rfl]

/-- What is ill-formed becomes one replacement character. -/
theorem read_illFormed
    {piece rest : List UInt8}
    (illFormed : IllFormed piece rest) :
    read .start (piece ++ rest) = replacement :: read .start rest := by
  obtain ⟨nonempty, noChar, begun, longest⟩ := illFormed
  obtain ⟨byte, behind, rfl⟩ := List.exists_cons_of_ne_nil nonempty
  by_cases begins : Begins (byte :: behind)
  · obtain ⟨char, tail, bytes⟩ := begins
    have goesOn : tail ≠ [] := by
      rintro rfl
      exact noChar char ⟨rest, by rw [← bytes, List.append_nil]⟩
    have first :
        String.utf8EncodeChar char = byte :: (behind ++ tail) :=
      bytes.symm
    rcases completes_of_encode first with
      ⟨nothing, _⟩ | ⟨state, leads, completes⟩
    · exact (goesOn (List.append_eq_nil_iff.mp nothing).2).elim
    obtain ⟨bits, more, low, high, reads, resumes⟩ :=
      completes.split goesOn
    rw [List.cons_append, read_start_cons (lead_of_leads leads), reads,
      List.nil_append]
    apply read_stuck
    rintro next later rfl ⟨low_le, le_high⟩
    -- A byte within the bounds would make the piece longer.
    obtain ⟨others, otherChar, done⟩ :=
      exists_completes bits more low_le le_high
    have other := encode_of_completes leads (resumes _ _ done)
    have longer := longest (byte :: (behind ++ [next]))
      ⟨otherChar, others, by rw [other]; simp⟩ ⟨later, by simp⟩
    simp only [List.length_cons, List.length_append, List.length_nil] at longer
    omega
  · have single := begun.resolve_left begins
    obtain rfl : behind = [] := by
      simpa using single
    rw [List.singleton_append, read_start_cons (lead_eq_replaced begins)]
    rfl

/-- The decoder finds the meaning of bytes. -/
theorem read_of_decodes
    {bytes : List UInt8}
    {chars : List Char}
    (decodes : Decodes bytes chars) :
    read .start bytes = chars := by
  induction decodes with
  | nil => rfl
  | char char later inductionHypothesis =>
      rw [read_encode, inductionHypothesis]
  | replaced illFormed later inductionHypothesis =>
      rw [read_illFormed illFormed, inductionHypothesis]

/-- Where no character begins, a longest beginning of one can be cut off. -/
theorem exists_illFormed
    {bytes : List UInt8}
    (nonempty : bytes ≠ [])
    (noChar : ∀ char, ¬ String.utf8EncodeChar char <+: bytes) :
    ∃ piece rest, bytes = piece ++ rest ∧ IllFormed piece rest := by
  classical
  let size := Nat.findGreatest (Begins <| bytes.take ·) bytes.length
  have begins : Begins (bytes.take size) :=
    Nat.findGreatest_spec (P := (Begins <| bytes.take ·)) (Nat.zero_le _)
      ⟨default, by simp⟩
  have greatest (longer : List UInt8) (begun : Begins longer)
      (stands : longer <+: bytes) : longer.length ≤ size := by
    apply Nat.le_findGreatest stands.length_le
    rwa [← List.prefix_iff_eq_take.mp stands]
  have sizeLe : size ≤ bytes.length := Nat.findGreatest_le bytes.length
  have pos : 0 < bytes.length := List.length_pos_iff.mpr nonempty
  -- At least one byte is cut off, even when no character begins with it.
  have whole := List.take_append_drop (max size 1) bytes
  have length : (bytes.take (max size 1)).length = max size 1 := by
    rw [List.length_take]
    omega
  refine ⟨_, _, whole.symm, ?_, ?_, ?_, ?_⟩
  · rw [← List.length_pos_iff, length]
    omega
  · rw [whole]
    exact noChar
  · by_cases isSize : 1 ≤ size
    · rw [max_eq_left isSize]
      exact Or.inl begins
    · exact Or.inr (by omega)
  · intro longer begun stands
    rw [whole] at stands
    have least := greatest longer begun stands
    omega

/-- All bytes have a meaning. -/
theorem exists_decodes (bytes : List UInt8) :
    ∃ chars, Decodes bytes chars := by
  by_cases nonempty : bytes = []
  · subst nonempty
    exact ⟨[], .nil⟩
  by_cases noChar : ∀ char, ¬ String.utf8EncodeChar char <+: bytes
  · obtain ⟨piece, rest, shape, illFormed⟩ := exists_illFormed nonempty noChar
    have shorter : rest.length < bytes.length := by
      rw [shape, List.length_append]
      exact Nat.lt_add_of_pos_left
        (List.length_pos_iff.mpr illFormed.nonempty)
    obtain ⟨chars, later⟩ := exists_decodes rest
    rw [shape]
    exact ⟨_, .replaced illFormed later⟩
  · simp only [not_forall, not_not] at noChar
    obtain ⟨char, rest, rfl⟩ := noChar
    have shorter :
        rest.length < (String.utf8EncodeChar char ++ rest).length := by
      rw [List.length_append]
      exact Nat.lt_add_of_pos_left
        (List.length_pos_iff.mpr String.utf8EncodeChar_ne_nil)
    obtain ⟨chars, later⟩ := exists_decodes rest
    exact ⟨_, .char char later⟩
termination_by bytes.length

/-- The meaning of bytes is what the decoder makes of them, and nothing else. -/
theorem decodes_iff
    {bytes : List UInt8}
    {chars : List Char} :
    Decodes bytes chars ↔ (decode bytes).toList = chars := by
  rw [toList_decode]
  constructor
  · exact read_of_decodes
  · rintro rfl
    obtain ⟨chars, decodes⟩ := exists_decodes bytes
    rw [read_of_decodes decodes]
    exact decodes

end LineSearch.Utf8
