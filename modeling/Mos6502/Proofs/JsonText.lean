/-
This file proves that a JSON value is read back from the text in which it is written. The value may
be nested to any depth, and the text may go on behind it, unless it goes on in a way that would make
a number longer. Left out are the values that no writer here makes: numbers that are not written as
plain digits, and strings with control characters that have no short escape. Fuel of twice the
length of the text is enough, since on the way into a value every second step takes a character
away.
-/

import Mathlib.Data.List.TakeDrop
import Mathlib.Data.Option.Basic
import Mos6502.Json.Reader
import Mos6502.Proofs.Digits

namespace Mos6502.Json

/-! ### Strings -/

namespace Piece

/-- A piece that is read as it was written. -/
def Plain : Piece → Prop
  | literal char => ' ' ≤ char ∨ char ∈ ['\x08', '\x0c', '\n', '\r', '\t']
  | escaped _ => True

section

variable {text rest : List Char} {pieces : List Piece} (later : read text = some (pieces, rest))

include later

theorem read_writeChar_append {char : Char} (plain : (literal char).Plain) :
    read (writeChar char ++ text) = some (literal char :: pieces, rest) := by
  unfold writeChar
  split
  iterate 7
    next =>
      show ((read text).bind fun result => some (literal _ :: result.1, result.2)) = _
      rw [later]
      rfl
  next noQuote noBackslash noBackspace noFeed noLine noReturn noTab =>
    have visible : ' ' ≤ char := by
      rcases plain with visible | control
      · exact visible
      · simp_all
    have passes : char ≠ '\\' ∧ ' ' ≤ char := ⟨noBackslash, visible⟩
    rw [if_neg (Char.not_lt.mpr visible), List.singleton_append, read]
    · rw [guard, if_pos passes, later]
      rfl
    · exact noQuote
    · exact fun _ _ _ _ _ same => absurd same noBackslash
    · exact fun _ _ same => absurd same noBackslash

theorem read_unit_append (unit : UInt16) :
    read ('\\' :: 'u' :: Text.wordDigits unit ++ text) =
      some (escaped unit :: pieces, rest) := by
  have high (byte : UInt8) := Text.digitValue?_digitChar (Text.highDigit_lt byte)
    (Text.highDigit_lt byte)
  have low (byte : UInt8) := Text.digitValue?_digitChar (Text.lowDigit_lt byte)
    (Text.lowDigit_lt byte)
  have sum : (((highByte unit).toNat / 16 * 16 + (highByte unit).toNat % 16) * 16 +
      (lowByte unit).toNat / 16) * 16 + (lowByte unit).toNat % 16 = unit.toNat := by
    rw [toNat_highByte, toNat_lowByte]
    omega
  have digits : unit? (Text.digitChar ((highByte unit).toNat / 16))
      (Text.digitChar ((highByte unit).toNat % 16)) (Text.digitChar ((lowByte unit).toNat / 16))
      (Text.digitChar ((lowByte unit).toNat % 16)) = some unit := by
    rw [unit?, high, low, high, low]
    show some (UInt16.ofNat _) = some unit
    rw [sum, UInt16.ofNat_toNat]
  show ((unit? _ _ _ _).bind fun unit => (read text).bind fun result =>
    some (escaped unit :: result.1, result.2)) = _
  rw [digits, later]
  rfl

end

/-- A string is read up to its closing quote. -/
theorem read_write {pieces : List Piece} (plain : ∀ piece ∈ pieces, piece.Plain)
    (rest : List Char) : read (pieces.flatMap write ++ '"' :: rest) = some (pieces, rest) := by
  induction pieces with
  | nil => rfl
  | cons piece pieces inductionHypothesis =>
    have later := inductionHypothesis fun other member =>
      plain other (List.mem_cons_of_mem _ member)
    rw [List.flatMap_cons, List.append_assoc]
    cases piece with
    | literal char => exact read_writeChar_append later (plain _ List.mem_cons_self)
    | escaped unit => exact read_unit_append later unit

end Piece

namespace Value

/-! ### Numbers -/

/-- A text that does not go on with the number in front of it. -/
def Ends (text : List Char) : Prop :=
  ∀ char ∈ text.head?, char.isDigit = false ∧ char ≠ '.' ∧ char ≠ 'e' ∧ char ≠ 'E'

theorem ends_nil : Ends [] :=
  nofun

theorem ends_cons {char : Char}
    (ends : char.isDigit = false ∧ char ≠ '.' ∧ char ≠ 'e' ∧ char ≠ 'E') (rest : List Char) :
    Ends (char :: rest) := by
  rintro _ ⟨⟩
  exact ends

theorem readFraction_of_ends {rest : List Char} (ends : Ends rest) :
    readFraction rest = some ([], rest) := by
  unfold readFraction
  split
  · exact absurd rfl (ends _ rfl).2.1
  · rfl

theorem readExponent_of_ends {rest : List Char} (ends : Ends rest) :
    readExponent rest = some ([], rest) := by
  unfold readExponent
  split
  · exact absurd rfl (ends _ rfl).2.2.1
  · exact absurd rfl (ends _ rfl).2.2.2
  · rfl

/-- A number begins with a digit. -/
theorem exists_toDigits_eq_cons (number : Nat) :
    ∃ char digits, Nat.toDigits 10 number = char :: digits ∧ char.isDigit = true := by
  obtain ⟨char, digits, same⟩ :=
    List.exists_cons_of_ne_nil (Nat.toDigits_ne_nil : Nat.toDigits 10 number ≠ [])
  refine ⟨char, digits, same, Text.isDigit_of_mem_toDigits number char ?_⟩
  rw [same]
  exact List.mem_cons_self

/-- Plain digits are read as a natural number, and as another number behind a sign. -/
theorem readNumber_of_sign {sign rest : List Char} (signed : sign ∈ [[], ['-']]) (value : Nat)
    (ends : Ends rest) :
    readNumber (sign ++ (Nat.toDigits 10 value ++ rest)) =
      some (if sign.isEmpty then natural value else number (sign ++ Nat.toDigits 10 value),
        rest) := by
  obtain ⟨char, digits, begins, isDigit⟩ := exists_toDigits_eq_cons value
  have minus : readMinus (sign ++ (Nat.toDigits 10 value ++ rest)) =
      (sign, Nat.toDigits 10 value ++ rest) := by
    simp only [List.mem_cons, List.not_mem_nil, or_false] at signed
    rcases signed with rfl | rfl
    · rw [begins]
      unfold readMinus
      split
      next same =>
        cases same
        cases isDigit
      next => rfl
    · rfl
  have noDigit : ∀ char ∈ rest.head?, char.isDigit = false := fun char first => (ends char first).1
  have span :
      (Nat.toDigits 10 value ++ rest).span Char.isDigit = (Nat.toDigits 10 value, rest) := by
    obtain ⟨whole, others⟩ := Text.span_append (Text.isDigit_of_mem_toDigits value) noDigit
    rw [List.span_eq_takeWhile_dropWhile, whole, others]
  have proper : Nat.toDigits 10 value ≠ [] ∧
      ((Nat.toDigits 10 value).head? = some '0' → (Nat.toDigits 10 value).length = 1) :=
    ⟨Nat.toDigits_ne_nil, Text.length_toDigits_of_head?⟩
  rw [readNumber, minus]
  dsimp only
  rw [span]
  dsimp only
  rw [guard, if_pos proper, readFraction_of_ends ends]
  show ((readExponent rest).bind _) = _
  rw [readExponent_of_ends ends, Nat.ofDigitChars_ten_toDigits]
  simp only [Option.bind_some, List.isEmpty_nil, Bool.and_true, List.append_nil]
  split <;> rfl

/-! ### Values -/

/-- A value that is read as it was written. -/
inductive Plain : Value → Prop where
  | null : Plain null
  | bool (value : Bool) : Plain (bool value)
  | natural (value : Nat) : Plain (natural value)
  | string {pieces : List Piece} (plain : ∀ piece ∈ pieces, piece.Plain) : Plain (string pieces)
  | array {items : List Value} (plain : ∀ item ∈ items, Plain item) : Plain (array items)
  | object {members : List (List Piece × Value)}
    (names : ∀ member ∈ members, ∀ piece ∈ member.1, piece.Plain)
    (values : ∀ member ∈ members, Plain member.2) : Plain (object members)

/-- A value is read back from its text, whatever follows. -/
def ReadBack (value : Value) : Prop :=
  ∀ (fuel : Nat) (rest : List Char), 2 * value.writeCompact.length ≤ fuel → Ends rest →
    read fuel (value.writeCompact ++ rest) = some (value, rest)

theorem skipBlanks_cons {char : Char} (solid : isBlank char = false) (rest : List Char) :
    skipBlanks (char :: rest) = char :: rest :=
  List.dropWhile_cons_of_neg (Bool.eq_false_iff.mp solid)

theorem isBlank_of_isDigit {char : Char} (isDigit : char.isDigit = true) :
    isBlank char = false := by
  refine Bool.eq_false_iff.mpr fun blank => ?_
  simp only [isBlank, Bool.or_eq_true, beq_iff_eq] at blank
  rcases blank with ((rfl | rfl) | rfl) | rfl <;> cases isDigit

/-- A written value begins with neither a blank nor a closing bracket. -/
theorem exists_writeCompact_eq_cons {value : Value} (plain : value.Plain) :
    ∃ char rest, value.writeCompact = char :: rest ∧ isBlank char = false ∧ char ≠ ']' := by
  cases plain with
  | null => exact ⟨_, _, rfl, by decide⟩
  | bool value => cases value <;> exact ⟨_, _, rfl, by decide⟩
  | natural value =>
    obtain ⟨char, digits, begins, isDigit⟩ := exists_toDigits_eq_cons value
    refine ⟨char, digits, begins, isBlank_of_isDigit isDigit, ?_⟩
    rintro rfl
    cases isDigit
  | string plain => exact ⟨_, _, rfl, by decide⟩
  | array plain => exact ⟨_, _, rfl, by decide⟩
  | object names values => exact ⟨_, _, rfl, by decide⟩

/-- What begins with a digit is read as a number. -/
theorem read_of_digit {char : Char} (isDigit : char.isDigit = true) (fuel : Nat)
    (rest : List Char) : read (fuel + 1) (char :: rest) = readNumber (char :: rest) := by
  rw [read, skipBlanks_cons (isBlank_of_isDigit isDigit)]
  split
  iterate 6
    next same =>
      cases same
      cases isDigit
  next => rfl

/-- What begins with a minus sign is read as a number. -/
theorem read_minus (fuel : Nat) (rest : List Char) :
    read (fuel + 1) ('-' :: rest) = readNumber ('-' :: rest) := by
  rw [read, skipBlanks_cons (by decide)]
  rfl

/-- What begins with a bracket is read as an array. -/
theorem read_bracket (fuel : Nat) (text : List Char) :
    read (fuel + 1) ('[' :: text) =
      match skipBlanks text with
      | ']' :: rest => some (array [], rest)
      | rest => (readItems fuel rest).map fun (items, rest) => (array items, rest) := by
  rw [read, skipBlanks_cons (by decide)]
  rfl

/-- What begins with a brace is read as an object. -/
theorem read_brace (fuel : Nat) (text : List Char) :
    read (fuel + 1) ('\x7b' :: text) =
      match skipBlanks text with
      | '\x7d' :: rest => some (object [], rest)
      | rest => (readMembers fuel rest).map fun (members, rest) => (object members, rest) := by
  rw [read, skipBlanks_cons (by decide)]
  rfl

/-! ### Items and members -/

theorem writeItems_cons_cons (item next : Value) (items : List Value) :
    writeItems (item :: next :: items) =
      item.writeCompact ++ ',' :: writeItems (next :: items) := by
  rw [writeItems]
  exact nofun

theorem writeMembers_cons_cons (name : List Piece) (value : Value) (next : List Piece × Value)
    (members : List (List Piece × Value)) :
    writeMembers ((name, value) :: next :: members) =
      Piece.writeAll name ++ ':' :: value.writeCompact ++
        ',' :: writeMembers (next :: members) := by
  rw [writeMembers]
  exact nofun

theorem exists_writeItems_eq_cons {item : Value} (items : List Value) (plain : item.Plain) :
    ∃ char rest, writeItems (item :: items) = char :: rest ∧ isBlank char = false ∧
      char ≠ ']' := by
  obtain ⟨char, rest, begins, proper⟩ := exists_writeCompact_eq_cons plain
  cases items with
  | nil =>
    rw [writeItems]
    exact ⟨char, rest, begins, proper⟩
  | cons next items =>
    rw [writeItems_cons_cons, begins]
    exact ⟨char, _, rfl, proper⟩

theorem exists_writeMembers_eq_cons (member : List Piece × Value)
    (members : List (List Piece × Value)) :
    ∃ rest, writeMembers (member :: members) = '"' :: rest := by
  obtain ⟨name, value⟩ := member
  cases members with
  | nil =>
    rw [writeMembers]
    exact ⟨_, rfl⟩
  | cons next members =>
    rw [writeMembers_cons_cons]
    exact ⟨_, rfl⟩

/-- Items are read back up to the closing bracket. -/
theorem readItems_writeItems {items : List Value} (nonempty : items ≠ [])
    (back : ∀ item ∈ items, item.ReadBack) {fuel : Nat} (rest : List Char)
    (enough : 2 * (writeItems items).length ≤ fuel) :
    readItems (fuel + 1) (writeItems items ++ ']' :: rest) = some (items, rest) := by
  induction items generalizing fuel with
  | nil => exact absurd rfl nonempty
  | cons item items inductionHypothesis =>
    have first := back item List.mem_cons_self fuel
    cases items with
    | nil =>
      rw [writeItems] at enough ⊢
      rw [readItems, first _ enough (ends_cons (by decide) _)]
      rfl
    | cons next items =>
      rw [writeItems_cons_cons] at enough ⊢
      rw [List.length_append, List.length_cons] at enough
      have others : ∀ other ∈ next :: items, other.ReadBack :=
        fun other member => back other (List.mem_cons_of_mem _ member)
      obtain ⟨fuel, rfl⟩ : ∃ less, fuel = less + 1 := ⟨fuel - 1, by omega⟩
      have later : readItems (fuel + 1) (writeItems (next :: items) ++ ']' :: rest) =
          some (next :: items, rest) :=
        inductionHypothesis (List.cons_ne_nil _ _) others (by omega)
      rw [readItems, List.append_assoc, List.cons_append,
        first _ (by omega) (ends_cons (by decide) _)]
      show ((readItems (fuel + 1) _).bind fun result => some (item :: result.1, result.2)) = _
      rw [later]
      rfl

/-- The first member is read back, and what follows decides how to go on. -/
theorem readMembers_of_first {name : List Piece} {value : Value} {fuel : Nat} {rest : List Char}
    (plain : ∀ piece ∈ name, piece.Plain)
    (back : read fuel (value.writeCompact ++ rest) = some (value, rest)) :
    readMembers (fuel + 1) (Piece.writeAll name ++ ':' :: value.writeCompact ++ rest) =
      match skipBlanks rest with
      | '\x7d' :: rest => some ([(name, value)], rest)
      | ',' :: rest => do
        let (members, rest) ← readMembers fuel rest
        return ((name, value) :: members, rest)
      | _ => none := by
  have text : Piece.writeAll name ++ ':' :: value.writeCompact ++ rest =
      '"' :: (name.flatMap Piece.write ++ '"' :: ':' :: (value.writeCompact ++ rest)) := by
    simp [Piece.writeAll]
  have colon (text : List Char) : skipBlanks (':' :: text) = ':' :: text := rfl
  rw [text, readMembers, skipBlanks_cons (by decide)]
  simp only [Piece.read_write plain, Option.bind_eq_bind, Option.bind_some, colon, back]
  rfl

/-- Members are read back up to the closing brace. -/
theorem readMembers_writeMembers {members : List (List Piece × Value)} (nonempty : members ≠ [])
    (names : ∀ member ∈ members, ∀ piece ∈ member.1, piece.Plain)
    (back : ∀ member ∈ members, member.2.ReadBack) {fuel : Nat} (rest : List Char)
    (enough : 2 * (writeMembers members).length ≤ fuel) :
    readMembers (fuel + 1) (writeMembers members ++ '\x7d' :: rest) = some (members, rest) := by
  induction members generalizing fuel with
  | nil => exact absurd rfl nonempty
  | cons member members inductionHypothesis =>
    obtain ⟨name, value⟩ := member
    have plain := names _ List.mem_cons_self
    have first : ∀ rest, 2 * value.writeCompact.length ≤ fuel → Ends rest →
        read fuel (value.writeCompact ++ rest) = some (value, rest) :=
      back _ List.mem_cons_self fuel
    cases members with
    | nil =>
      rw [writeMembers] at enough ⊢
      simp only [List.length_append, List.length_cons] at enough
      rw [readMembers_of_first plain (first _ (by omega) (ends_cons (by decide) _))]
      rfl
    | cons next members =>
      rw [writeMembers_cons_cons] at enough ⊢
      simp only [List.length_append, List.length_cons] at enough
      obtain ⟨fuel, rfl⟩ : ∃ less, fuel = less + 1 := ⟨fuel - 1, by omega⟩
      have later : readMembers (fuel + 1) (writeMembers (next :: members) ++ '\x7d' :: rest) =
          some (next :: members, rest) :=
        inductionHypothesis (List.cons_ne_nil _ _)
          (fun other member => names other (List.mem_cons_of_mem _ member))
          (fun other member => back other (List.mem_cons_of_mem _ member)) (by omega)
      rw [List.append_assoc, List.cons_append,
        readMembers_of_first plain (first _ (by omega) (ends_cons (by decide) _))]
      show ((readMembers (fuel + 1) _).bind fun result =>
        some ((name, value) :: result.1, result.2)) = _
      rw [later]
      rfl

/-! ### Values as a whole -/

theorem readBack_natural (value : Nat) : ReadBack (natural value) := by
  intro fuel rest enough ends
  obtain ⟨char, digits, begins, isDigit⟩ := exists_toDigits_eq_cons value
  have back := readNumber_of_sign List.mem_cons_self value ends
  rw [List.nil_append, begins, List.cons_append] at back
  rw [writeCompact, begins] at enough ⊢
  rw [List.length_cons] at enough
  obtain ⟨fuel, rfl⟩ : ∃ less, fuel = less + 1 := ⟨fuel - 1, by omega⟩
  rw [List.cons_append, read_of_digit isDigit]
  exact back

theorem readBack_array {items : List Value} (plain : ∀ item ∈ items, item.Plain)
    (back : ∀ item ∈ items, item.ReadBack) : ReadBack (array items) := by
  intro fuel rest enough _
  rw [writeCompact, List.length_append, List.length_cons, List.length_singleton] at enough
  obtain ⟨fuel, rfl⟩ : ∃ less, fuel = less + 2 := ⟨fuel - 2, by omega⟩
  rw [writeCompact, List.append_assoc, List.cons_append, List.singleton_append, read_bracket]
  cases items with
  | nil => rfl
  | cons item items =>
    have inside := readItems_writeItems (List.cons_ne_nil _ _) back rest
      (show 2 * (writeItems (item :: items)).length ≤ fuel by omega)
    obtain ⟨char, text, begins, solid, noBracket⟩ :=
      exists_writeItems_eq_cons items (plain item List.mem_cons_self)
    rw [begins, List.cons_append] at inside ⊢
    rw [skipBlanks_cons solid]
    split
    next same =>
      cases same
      exact absurd rfl noBracket
    next =>
      rw [inside]
      rfl

theorem readBack_object {members : List (List Piece × Value)}
    (names : ∀ member ∈ members, ∀ piece ∈ member.1, piece.Plain)
    (back : ∀ member ∈ members, member.2.ReadBack) : ReadBack (object members) := by
  intro fuel rest enough _
  rw [writeCompact, List.length_append, List.length_cons, List.length_singleton] at enough
  obtain ⟨fuel, rfl⟩ : ∃ less, fuel = less + 2 := ⟨fuel - 2, by omega⟩
  rw [writeCompact, List.append_assoc, List.cons_append, List.singleton_append, read_brace]
  cases members with
  | nil => rfl
  | cons member members =>
    have inside := readMembers_writeMembers (List.cons_ne_nil _ _) names back rest
      (show 2 * (writeMembers (member :: members)).length ≤ fuel by omega)
    obtain ⟨text, begins⟩ := exists_writeMembers_eq_cons member members
    rw [begins, List.cons_append] at inside ⊢
    show (readMembers (fuel + 1) _).map _ = _
    rw [inside]
    rfl

/-- What is plain is read back from its text, also in front of other text. -/
theorem readBack_of_plain {value : Value} (plain : value.Plain) : value.ReadBack := by
  induction plain with
  | null =>
    intro fuel rest enough _
    cases fuel with
    | zero => cases enough
    | succ fuel => rfl
  | bool value =>
    intro fuel rest enough _
    cases fuel with
    | zero => cases value <;> cases enough
    | succ fuel => cases value <;> rfl
  | natural value => exact readBack_natural value
  | @string pieces plain =>
    intro fuel rest enough _
    cases fuel with
    | zero => cases enough
    | succ fuel =>
      have text : (string pieces).writeCompact ++ rest =
          '"' :: (pieces.flatMap Piece.write ++ '"' :: rest) := by
        simp [writeCompact, Piece.writeAll]
      rw [text, read, skipBlanks_cons (by decide)]
      simp only [Piece.read_write plain, Option.map_some]
  | array plain inductionHypothesis => exact readBack_array plain inductionHypothesis
  | object names values inductionHypothesis => exact readBack_object names inductionHypothesis

/-- A text holds the value that is read from all of it. -/
theorem parse?_of_read {text : List Char} {value : Value}
    (all : read (2 * text.length + 1) text = some (value, [])) :
    parse? (String.ofList text) = some value := by
  rw [parse?, String.toList_ofList]
  show ((read (2 * text.length + 1) text).bind fun result =>
    (guard (skipBlanks result.2).isEmpty : Option Unit).bind fun _ => some result.1) = _
  rw [all]
  rfl

/-- A value is read back from the text that is written for it. -/
theorem parse?_compact {value : Value} (plain : value.Plain) :
    parse? value.compact = some value := by
  have back := readBack_of_plain plain (2 * value.writeCompact.length + 1) [] (Nat.le_succ _)
    ends_nil
  rw [List.append_nil] at back
  exact parse?_of_read back

/-- Plain digits behind a minus sign are a number, but no natural one. -/
theorem parse?_minus (value : Nat) :
    parse? (String.ofList ('-' :: Nat.toDigits 10 value)) =
      some (number ('-' :: Nat.toDigits 10 value)) := by
  have number := readNumber_of_sign (show ['-'] ∈ [[], ['-']] by decide) value ends_nil
  rw [List.append_nil, List.singleton_append] at number
  refine parse?_of_read ?_
  rw [read_minus, number]
  rfl

end Value

end Mos6502.Json
