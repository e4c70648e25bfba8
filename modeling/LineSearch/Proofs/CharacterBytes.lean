import LineSearch.Text.Utf8
import Mathlib

namespace LineSearch.Utf8

/-!
# The bytes of one character

A character that takes more than one byte begins with one that tells how many are
to follow.  The state of the decoder says what is left of such a character: what
completes the state behind a first byte makes that byte the beginning of the
character's bytes, and every character's bytes come about so.
-/

/-- Inside a character, these bytes are what is left of it. -/
inductive Completes : State → List UInt8 → Char → Prop where
  | last
      {bits low high : Nat}
      {byte : UInt8}
      (low_le : low ≤ byte.toNat)
      (le_high : byte.toNat ≤ high) :
      Completes (.inside bits 0 low high) [byte]
        (Char.ofNat (bits * 0x40 + (byte.toNat - 0x80)))
  | more
      {bits later low high : Nat}
      {byte : UInt8}
      {rest : List UInt8}
      {char : Char}
      (low_le : low ≤ byte.toNat)
      (le_high : byte.toNat ≤ high)
      (behind :
        Completes
          (.inside (bits * 0x40 + (byte.toNat - 0x80)) later 0x80 0xBF)
          rest char) :
      Completes (.inside bits (later + 1) low high) (byte :: rest) char

/-- The last byte of a character is within its bounds. -/
theorem Completes.of_last
    {bits low high : Nat}
    {tail : List UInt8}
    {char : Char}
    (completes : Completes (.inside bits 0 low high) tail char) :
    ∃ byte,
      (low ≤ byte.toNat ∧ byte.toNat ≤ high) ∧
        tail = [byte] ∧
        char = Char.ofNat (bits * 0x40 + (byte.toNat - 0x80)) := by
  cases completes with
  | last low_le le_high => exact ⟨_, ⟨low_le, le_high⟩, rfl, rfl⟩

/-- A byte before the last one is within its bounds. -/
theorem Completes.of_more
    {bits later low high : Nat}
    {tail : List UInt8}
    {char : Char}
    (completes : Completes (.inside bits (later + 1) low high) tail char) :
    ∃ byte rest,
      (low ≤ byte.toNat ∧ byte.toNat ≤ high) ∧
        tail = byte :: rest ∧
        Completes
          (.inside (bits * 0x40 + (byte.toNat - 0x80)) later 0x80 0xBF)
          rest char := by
  cases completes with
  | more low_le le_high behind =>
      exact ⟨_, _, ⟨low_le, le_high⟩, rfl, behind⟩

/-- Inside a character, a byte within the bounds can always be followed up. -/
theorem exists_completes
    (bits more : Nat)
    {low high : Nat}
    {byte : UInt8}
    (low_le : low ≤ byte.toNat)
    (le_high : byte.toNat ≤ high) :
    ∃ tail char,
      Completes (.inside bits more low high) (byte :: tail) char := by
  induction more generalizing bits low high byte with
  | zero => exact ⟨[], _, .last low_le le_high⟩
  | succ later inductionHypothesis =>
      have least : 0x80 ≤ (0x80 : UInt8).toNat := by decide
      have greatest : (0x80 : UInt8).toNat ≤ 0xBF := by decide
      obtain ⟨tail, char, behind⟩ :=
        inductionHypothesis (bits * 0x40 + (byte.toNat - 0x80)) least greatest
      exact ⟨_, char, .more low_le le_high behind⟩

section Encoding

variable {code : Nat}
variable {first second third fourth : UInt8}

private theorem toNat_ofNat
    (valid : code < 0xD800 ∨ 0xDFFF < code ∧ code < 0x110000) :
    (Char.ofNat code).val.toNat = code := by
  have isValid : code.isValidChar := valid
  simp [Char.ofNat, isValid, Char.ofNatAux]

private theorem ofNat_eq
    (byte : UInt8)
    {number : Nat}
    (same : byte.toNat = number) :
    UInt8.ofNat number = byte := by
  rw [← same, UInt8.ofNat_toNat]

/-- One byte stands for a code below 0x80. -/
theorem encode_one
    (least : code < 0x80)
    (here : first.toNat = code) :
    String.utf8EncodeChar (Char.ofNat code) = [first] := by
  rw [String.utf8EncodeChar, toNat_ofNat (by omega), if_pos (by omega),
    ofNat_eq first here]

/-- Two bytes stand for a code below 0x800. -/
theorem encode_two
    (least : 0x80 ≤ code)
    (greatest : code < 0x800)
    (here : first.toNat = code / 0x40 + 0xC0)
    (next : second.toNat = code % 0x40 + 0x80) :
    String.utf8EncodeChar (Char.ofNat code) = [first, second] := by
  rw [String.utf8EncodeChar, toNat_ofNat (by omega), if_neg (by omega),
    if_pos (by omega), ofNat_eq first (by omega),
    ofNat_eq second (by omega)]

/-- Three bytes stand for a code below 0x10000 that is no surrogate. -/
theorem encode_three
    (least : 0x800 ≤ code)
    (valid : code < 0xD800 ∨ 0xDFFF < code ∧ code < 0x10000)
    (here : first.toNat = code / 0x1000 + 0xE0)
    (next : second.toNat = code / 0x40 % 0x40 + 0x80)
    (last : third.toNat = code % 0x40 + 0x80) :
    String.utf8EncodeChar (Char.ofNat code) = [first, second, third] := by
  rw [String.utf8EncodeChar, toNat_ofNat (by omega), if_neg (by omega),
    if_neg (by omega), if_pos (by omega), ofNat_eq first (by omega),
    ofNat_eq second (by omega), ofNat_eq third (by omega)]

/-- Four bytes stand for the other codes. -/
theorem encode_four
    (least : 0x10000 ≤ code)
    (greatest : code < 0x110000)
    (here : first.toNat = code / 0x40000 + 0xF0)
    (next : second.toNat = code / 0x1000 % 0x40 + 0x80)
    (later : third.toNat = code / 0x40 % 0x40 + 0x80)
    (last : fourth.toNat = code % 0x40 + 0x80) :
    String.utf8EncodeChar (Char.ofNat code) =
      [first, second, third, fourth] := by
  rw [String.utf8EncodeChar, toNat_ofNat (by omega), if_neg (by omega),
    if_neg (by omega), if_neg (by omega), ofNat_eq first (by omega),
    ofNat_eq second (by omega), ofNat_eq third (by omega),
    ofNat_eq fourth (by omega)]

end Encoding

/--
A first byte that more bytes have to follow.  The next one is bounded more closely
where otherwise fewer bytes would do, or where no character would be meant.
-/
inductive Leads : Nat → State → Prop where
  | two
      {byte : Nat}
      (least : 0xC2 ≤ byte)
      (greatest : byte < 0xE0) :
      Leads byte (.inside (byte - 0xC0) 0 0x80 0xBF)
  | three
      {byte low high : Nat}
      (least : 0xE0 ≤ byte)
      (greatest : byte < 0xF0)
      (lowest : low = 0xA0 ∧ byte = 0xE0 ∨ low = 0x80 ∧ byte ≠ 0xE0)
      (highest : high = 0x9F ∧ byte = 0xED ∨ high = 0xBF ∧ byte ≠ 0xED) :
      Leads byte (.inside (byte - 0xE0) 1 low high)
  | four
      {byte low high : Nat}
      (least : 0xF0 ≤ byte)
      (greatest : byte < 0xF5)
      (lowest : low = 0x90 ∧ byte = 0xF0 ∨ low = 0x80 ∧ byte ≠ 0xF0)
      (highest : high = 0x8F ∧ byte = 0xF4 ∨ high = 0xBF ∧ byte ≠ 0xF4) :
      Leads byte (.inside (byte - 0xF0) 2 low high)

theorem lead_of_leads
    {byte : Nat}
    {state : State}
    (leads : Leads byte state) :
    lead byte = ([], state) := by
  cases leads with
  | two least greatest =>
      rw [lead, if_neg (by omega), if_neg (by omega), if_pos greatest]
  | three least greatest lowest highest =>
      rw [lead, if_neg (by omega), if_neg (by omega), if_neg (by omega)]
      rcases lowest with ⟨rfl, rfl⟩ | ⟨rfl, notLeast⟩
      · obtain ⟨rfl, _⟩ := highest.resolve_left (by omega)
        rfl
      rw [if_neg notLeast]
      rcases highest with ⟨rfl, rfl⟩ | ⟨rfl, notSurrogate⟩
      · rfl
      · rw [if_neg notSurrogate, if_pos greatest]
  | four least greatest lowest highest =>
      rw [lead, if_neg (by omega), if_neg (by omega), if_neg (by omega),
        if_neg (by omega), if_neg (by omega), if_neg (by omega)]
      rcases lowest with ⟨rfl, rfl⟩ | ⟨rfl, notLeast⟩
      · obtain ⟨rfl, _⟩ := highest.resolve_left (by omega)
        rfl
      rw [if_neg notLeast]
      rcases highest with ⟨rfl, rfl⟩ | ⟨rfl, notGreatest⟩
      · rfl
      · rw [if_pos (by omega)]

/-- There is a bound of its own for one byte. -/
private theorem exists_bound
    (edge : Prop)
    (atEdge other : Nat) :
    ∃ bound, bound = atEdge ∧ edge ∨ bound = other ∧ ¬ edge :=
  (Classical.em edge).elim
    (fun isEdge => ⟨atEdge, Or.inl ⟨rfl, isEdge⟩⟩)
    (fun isOther => ⟨other, Or.inr ⟨rfl, isOther⟩⟩)

/-- A first byte is a character, or is replaced, or more bytes have to follow it. -/
theorem lead_cases (byte : Nat) :
    byte < 0x80 ∧ lead byte = ([Char.ofNat byte], .start) ∨
      lead byte = ([replacement], .start) ∨
      ∃ state, Leads byte state := by
  by_cases isChar : byte < 0x80
  · exact Or.inl ⟨isChar, by rw [lead, if_pos isChar]⟩
  right
  by_cases belongsBehind : byte < 0xC2
  · exact Or.inl (by rw [lead, if_neg isChar, if_pos belongsBehind])
  by_cases isTwo : byte < 0xE0
  · exact Or.inr ⟨_, .two (by omega) isTwo⟩
  by_cases isThree : byte < 0xF0
  · obtain ⟨low, lowest⟩ := exists_bound (byte = 0xE0) 0xA0 0x80
    obtain ⟨high, highest⟩ := exists_bound (byte = 0xED) 0x9F 0xBF
    exact Or.inr ⟨_, .three (by omega) isThree lowest highest⟩
  by_cases isFour : byte < 0xF5
  · obtain ⟨low, lowest⟩ := exists_bound (byte = 0xF0) 0x90 0x80
    obtain ⟨high, highest⟩ := exists_bound (byte = 0xF4) 0x8F 0xBF
    exact Or.inr ⟨_, .four (by omega) isFour lowest highest⟩
  · left
    unfold lead
    iterate 9 rw [if_neg (by omega)]

/-- Behind a first byte there is always one within the bounds. -/
theorem Leads.exists_second
    {byte : Nat}
    {state : State}
    (leads : Leads byte state) :
    ∃ bits more low high,
      state = .inside bits more low high ∧
        ∃ second : UInt8, low ≤ second.toNat ∧ second.toNat ≤ high := by
  have within (low high : Nat) (ordered : low ≤ high) (small : high < 0x100) :
      ∃ second : UInt8, low ≤ second.toNat ∧ second.toNat ≤ high := by
    refine ⟨UInt8.ofNat low, ?_⟩
    rw [UInt8.toNat_ofNat_of_lt' (Nat.lt_of_le_of_lt ordered small)]
    exact ⟨Nat.le_refl low, ordered⟩
  cases leads with
  | two => exact ⟨_, _, _, _, rfl, within _ _ (by omega) (by omega)⟩
  | three _ _ lowest highest =>
      exact ⟨_, _, _, _, rfl, within _ _ (by omega) (by omega)⟩
  | four _ _ lowest highest =>
      exact ⟨_, _, _, _, rfl, within _ _ (by omega) (by omega)⟩

/-- A first byte and what completes it are the bytes of the character. -/
theorem encode_of_completes
    {byte : UInt8}
    {state : State}
    {tail : List UInt8}
    {char : Char}
    (leads : Leads byte.toNat state)
    (completes : Completes state tail char) :
    String.utf8EncodeChar char = byte :: tail := by
  cases leads with
  | two least greatest =>
      obtain ⟨second, _, shape, same⟩ := completes.of_last
      rw [same, shape]
      apply encode_two <;> omega
  | three least greatest lowest highest =>
      obtain ⟨second, _, _, shape, behind⟩ := completes.of_more
      obtain ⟨third, _, ends, same⟩ := behind.of_last
      rw [same, shape, ends]
      apply encode_three <;> omega
  | four least greatest lowest highest =>
      obtain ⟨second, _, _, shape, behind⟩ := completes.of_more
      obtain ⟨third, _, _, goesOn, last⟩ := behind.of_more
      obtain ⟨fourth, _, ends, same⟩ := last.of_last
      rw [same, shape, goesOn, ends]
      apply encode_four <;> omega

/-- The last byte of a character completes it, whatever name the character has. -/
theorem completes_last
    {bits low high : Nat}
    {byte : UInt8}
    {char : Char}
    (bounds : low ≤ byte.toNat ∧ byte.toNat ≤ high)
    (same : char.val.toNat = bits * 0x40 + (byte.toNat - 0x80)) :
    Completes (.inside bits 0 low high) [byte] char := by
  rw [← Char.ofNat_toNat char, Char.toNat, same]
  exact .last bounds.1 bounds.2

/-- The first byte of a character is all of it, or the rest completes it. -/
theorem completes_of_encode
    {char : Char}
    {byte : UInt8}
    {tail : List UInt8}
    (bytes : String.utf8EncodeChar char = byte :: tail) :
    tail = [] ∧ lead byte.toNat = ([char], .start) ∨
      ∃ state, Leads byte.toNat state ∧ Completes state tail char := by
  have valid :
      char.val.toNat < 0xD800 ∨
        0xDFFF < char.val.toNat ∧ char.val.toNat < 0x110000 :=
    char.valid
  have number (small : Nat) (bound : small < 0x100) :
      (UInt8.ofNat small).toNat = small :=
    UInt8.toNat_ofNat_of_lt' bound
  unfold String.utf8EncodeChar at bytes
  simp only at bytes
  split at bytes
  · obtain ⟨rfl, rfl⟩ := List.cons.inj bytes
    refine Or.inl ⟨rfl, ?_⟩
    rw [number _ (by omega), lead, if_pos (by omega)]
    exact congrArg (([·], State.start)) (Char.ofNat_toNat char)
  right
  split at bytes
  · obtain ⟨rfl, rfl⟩ := List.cons.inj bytes
    have next := number (char.val.toNat % 64 + 128) (by omega)
    rw [number _ (by omega)]
    exact
      ⟨_, .two (by omega) (by omega),
        completes_last (by omega) (by omega)⟩
  split at bytes
  · obtain ⟨rfl, rfl⟩ := List.cons.inj bytes
    have next := number (char.val.toNat / 64 % 64 + 128) (by omega)
    have last := number (char.val.toNat % 64 + 128) (by omega)
    rw [number _ (by omega)]
    obtain ⟨low, lowest⟩ :=
      exists_bound (char.val.toNat / 4096 % 16 + 224 = 0xE0) 0xA0 0x80
    obtain ⟨high, highest⟩ :=
      exists_bound (char.val.toNat / 4096 % 16 + 224 = 0xED) 0x9F 0xBF
    exact
      ⟨_, .three (by omega) (by omega) lowest highest,
        .more (by omega) (by omega)
          (completes_last (by omega) (by omega))⟩
  · obtain ⟨rfl, rfl⟩ := List.cons.inj bytes
    have next := number (char.val.toNat / 4096 % 64 + 128) (by omega)
    have later := number (char.val.toNat / 64 % 64 + 128) (by omega)
    have last := number (char.val.toNat % 64 + 128) (by omega)
    rw [number _ (by omega)]
    obtain ⟨low, lowest⟩ :=
      exists_bound (char.val.toNat / 262144 % 8 + 240 = 0xF0) 0x90 0x80
    obtain ⟨high, highest⟩ :=
      exists_bound (char.val.toNat / 262144 % 8 + 240 = 0xF4) 0x8F 0xBF
    exact
      ⟨_, .four (by omega) (by omega) lowest highest,
        .more (by omega) (by omega)
          (.more (by omega) (by omega)
            (completes_last (by omega) (by omega)))⟩

end LineSearch.Utf8
