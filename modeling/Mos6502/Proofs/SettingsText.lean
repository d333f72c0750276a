/-
This file proves that settings survive being written as JSON and read back: every configuration, and
every status register that a session can reach. Reading takes numbers by value. What is accepted for
a numeric field is the number that stands there, so a number that does not fit is refused and never
reduced; a status register takes the numbers of a byte and sets the reserved bit whatever they say.
-/

import Mos6502.Json.Settings
import Mos6502.Proofs.JsonText
import Mos6502.Proofs.StatusInvariant

namespace Mos6502

namespace Json.Value

/-- What a text holds as JSON, read as data of one kind. -/
def readAs? {α : Type} (ofJson? : Value → Option α) (text : String) : Option α :=
  parse? text >>= ofJson?

/-- What is written from plain data is read as whatever the value holds. -/
theorem readAs?_compact {α : Type} (ofJson? : Value → Option α) {value : Value}
    (plain : value.Plain) : readAs? ofJson? value.compact = ofJson? value := by
  rw [readAs?, parse?_compact plain]
  rfl

/-! ### Single values -/

theorem below?_eq_some_iff {limit number : Nat} {value : Value} :
    value.below? limit = some number ↔ value = natural number ∧ number < limit := by
  cases value with
  | natural held =>
    rw [below?, Option.ite_none_right_eq_some, natural.injEq, and_comm, Option.some_inj]
    exact and_congr_right fun same => same ▸ Iff.rfl
  | _ => simp [below?]

/-- Data that is numbered below a limit is read from its own number alone. -/
theorem map_below?_eq_some_iff {α : Type} {limit : Nat} {ofNat : Nat → α} {toNat : α → Nat}
    (numbered : ∀ number < limit, toNat (ofNat number) = number)
    (fits : ∀ result, toNat result < limit) (named : ∀ result, ofNat (toNat result) = result)
    {value : Value} {result : α} :
    (value.below? limit).map ofNat = some result ↔ value = natural (toNat result) := by
  rw [Option.map_eq_some_iff]
  constructor
  · rintro ⟨number, found, rfl⟩
    obtain ⟨rfl, small⟩ := below?_eq_some_iff.mp found
    rw [numbered number small]
  · rintro rfl
    exact ⟨toNat result, below?_eq_some_iff.mpr ⟨rfl, fits result⟩, named result⟩

theorem word?_eq_some_iff {value : Value} {word : UInt16} :
    value.word? = some word ↔ value = natural word.toNat :=
  map_below?_eq_some_iff (fun _ small => UInt16.toNat_ofNat_of_lt' small) UInt16.toNat_lt
    fun _ => UInt16.ofNat_toNat

theorem byte?_eq_some_iff {value : Value} {byte : UInt8} :
    value.byte? = some byte ↔ value = natural byte.toNat :=
  map_below?_eq_some_iff (fun _ small => UInt8.toNat_ofNat_of_lt' small) UInt8.toNat_lt
    fun _ => UInt8.ofNat_toNat

/-- What is read from its own number alone is read from null too, and from nothing else. -/
theorem optional?_eq_some_iff {α : Type} {read : Value → Option α} {toNat : α → Nat}
    (byValue : ∀ value result, read value = some result ↔ value = natural (toNat result))
    {value : Value} {result : Option α} :
    value.optional? read = some result ↔ value = ofOptional (result.map toNat) := by
  have present : value ≠ null → value.optional? read = (read value).map some := by
    intro notNull
    rw [optional?]
    exact notNull
  by_cases absent : value = null
  · subst absent
    cases result with
    | none => exact iff_of_true rfl rfl
    | some held => exact iff_of_false nofun nofun
  · rw [present absent, Option.map_eq_some_iff]
    cases result with
    | none => simp [ofOptional, absent]
    | some held => simp [byValue, ofOptional]

theorem eq_some_of_natural {number : Nat} {optional : Option Nat}
    (same : natural number = ofOptional optional) : optional = some number := by
  cases optional with
  | none => cases same
  | some held =>
    cases same
    rfl

/-! ### Records -/

theorem named?_ofText (members : List (String × Value)) :
    named? (members.map fun member => (Piece.ofText member.1, member.2)) = some members := by
  induction members with
  | nil => rfl
  | cons member members inductionHypothesis =>
    rw [named?] at inductionHypothesis ⊢
    simp [Piece.text?_ofText, inductionHypothesis]

/-- A member whose name is a text is found under that text. -/
theorem mem_of_named? {members : List (List Piece × Value)} {found : List (String × Value)}
    (named : named? members = some found) {pieces : List Piece} {value : Value} {name : String}
    (member : (pieces, value) ∈ members) (text : Piece.text? pieces = some name) :
    (name, value) ∈ found := by
  induction members generalizing found with
  | nil => cases member
  | cons first members inductionHypothesis =>
    rw [named?, List.mapM_cons] at named
    simp only [Option.bind_eq_bind, Option.bind_eq_some_iff, Option.map_eq_some_iff] at named
    obtain ⟨head, ⟨headName, headText, rfl⟩, rest, later, same⟩ := named
    cases same
    rcases List.mem_cons.mp member with rfl | deeper
    · cases headText.symm.trans text
      exact List.mem_cons_self
    · exact List.mem_cons_of_mem _ (inductionHypothesis later deeper)

/-- What is read for a field is read from any member with the field's name, since there is only
one. -/
theorem read_of_field? {α : Type} {members : List (String × Value)} {name : String} {fallback : α}
    {read : Value → Option α} {result : α} (found : field? members name fallback read = some result)
    {value : Value} (member : (name, value) ∈ members) : read value = some result := by
  have kept : (name, value) ∈ members.filter (·.1 == name) :=
    List.mem_filter.mpr ⟨member, beq_self_eq_true name⟩
  rw [field?] at found
  split at found
  next empty =>
    rw [empty] at kept
    cases kept
  next single =>
    rw [single, List.mem_singleton] at kept
    cases kept
    exact found
  next => cases found

theorem read_of_item? {α : Type} {items : List Value} {place : Nat} {fallback : α}
    {read : Value → Option α} {result : α} (found : item? items place fallback read = some result)
    {value : Value} (stands : items[place]? = some value) : read value = some result := by
  rw [item?, stands] at found
  exact found

/-- A text of visible characters is plain. -/
theorem plain_ofText {text : String} (visible : text.toList.all (' ' ≤ ·)) :
    ∀ piece ∈ Piece.ofText text, piece.Plain := by
  intro piece member
  obtain ⟨char, inside, rfl⟩ := List.mem_map.mp member
  exact Or.inl (of_decide_eq_true (List.all_eq_true.mp visible char inside))

theorem plain_ofOptional (number : Option Nat) : (ofOptional number).Plain := by
  cases number with
  | none => exact .null
  | some number => exact .natural number

/-- An object whose names are visible is plain if its values are. -/
theorem plain_ofMembers {members : List (String × Value)}
    (visible : ∀ member ∈ members, member.1.toList.all (' ' ≤ ·))
    (plain : ∀ member ∈ members, member.2.Plain) : (ofMembers members).Plain := by
  refine .object ?_ ?_
  · intro written member
    obtain ⟨source, inside, rfl⟩ := List.mem_map.mp member
    exact plain_ofText (visible source inside)
  · intro written member
    obtain ⟨source, inside, rfl⟩ := List.mem_map.mp member
    exact plain source inside

end Json.Value

open Json

/-! ### Status registers -/

namespace Status

theorem ofJson?_eq_some_iff {value : Value} {status : Status} :
    ofJson? value = some status ↔ ∃ byte : UInt8, value = .natural byte.toNat ∧
      status = ofBits byte := by
  rw [ofJson?, Option.map_eq_some_iff]
  constructor
  · rintro ⟨byte, found, rfl⟩
    exact ⟨byte, Value.byte?_eq_some_iff.mp found, rfl⟩
  · rintro ⟨byte, number, rfl⟩
    exact ⟨byte, Value.byte?_eq_some_iff.mpr number, rfl⟩

/-- A written number is read as a register if it is a byte, with the reserved bit set. -/
theorem readAs?_repr (number : Int) : Value.readAs? ofJson? number.repr =
    if 0 ≤ number ∧ number ≤ 255 then some ⟨.ofNat number.toNat ||| 0x20⟩ else none := by
  cases number with
  | ofNat number =>
    rw [Int.ofNat_eq_natCast]
    show Value.readAs? ofJson? (Value.natural number).compact = _
    rw [Value.readAs?_compact _ (.natural number)]
    split
    next range =>
      have small : number < 0x100 := by omega
      exact ofJson?_eq_some_iff.mpr
        ⟨.ofNat number, by rw [UInt8.toNat_ofNat_of_lt' small], rfl⟩
    next range =>
      refine Option.eq_none_iff_forall_not_mem.mpr fun status read => ?_
      obtain ⟨byte, same, -⟩ := ofJson?_eq_some_iff.mp read
      cases same
      have small := byte.toNat_lt
      omega
  | negSucc number =>
    have text : (Int.negSucc number).repr =
        String.ofList ('-' :: Nat.toDigits 10 (number + 1)) :=
      (String.ofList_append : String.ofList (['-'] ++ _) = _).symm
    rw [text, Value.readAs?, Value.parse?_minus, if_neg (by omega)]
    rfl

end Status

/-! ### Configurations -/

theorem Timing.ofJson?_toJson (timing : Timing) : ofJson? timing.toJson = some timing := by
  rw [ofJson?, toJson, Value.ofString, Value.choice?, Piece.text?_ofText]
  cases timing <;> decide

/-- A setting that is a number. -/
inductive NumericField where
  | loadAddress
  | entryPoint
  | stackPointer

namespace NumericField

/-- The name of the field in an object. -/
def name : NumericField → String
  | loadAddress => "load_address"
  | entryPoint => "entry_point"
  | stackPointer => "stack_pointer"

/-- The place of the field in an array. -/
def place : NumericField → Nat
  | loadAddress => 0
  | entryPoint => 1
  | stackPointer => 2

/-- The first number that is too large for the field. -/
def limit : NumericField → Nat
  | loadAddress | entryPoint => 0x10000
  | stackPointer => 0x100

/-- The number that a configuration holds in the field, if it holds one. -/
def number? (config : Config) : NumericField → Option Nat
  | loadAddress => some config.loadAddress.toNat
  | entryPoint => config.entryPoint.map (·.toNat)
  | stackPointer => config.stackPointer.map (·.toNat)

/-- The configuration with a number in the field and defaults elsewhere. -/
def setting (number : Nat) : NumericField → Config
  | loadAddress => { loadAddress := .ofNat number }
  | entryPoint => { entryPoint := some (.ofNat number) }
  | stackPointer => { stackPointer := some (.ofNat number) }

/-- The number in a field is below its limit. -/
theorem number?_lt (field : NumericField) (config : Config) :
    ∀ number ∈ field.number? config, number < field.limit := by
  intro number held
  cases field with
  | loadAddress =>
    cases held
    exact config.loadAddress.toNat_lt
  | entryPoint =>
    obtain ⟨word, _, rfl⟩ := Option.map_eq_some_iff.mp held
    exact word.toNat_lt
  | stackPointer =>
    obtain ⟨byte, _, rfl⟩ := Option.map_eq_some_iff.mp held
    exact byte.toNat_lt

/-- A value stands for a field in a record, by its name or by its place. -/
inductive StandsIn (field : NumericField) (value : Value) : Value → Prop where
  | named {members : List (List Piece × Value)} {pieces : List Piece}
    (member : (pieces, value) ∈ members) (text : Piece.text? pieces = some field.name) :
    field.StandsIn value (.object members)
  | placed {items : List Value} (item : items[field.place]? = some value) :
    field.StandsIn value (.array items)

end NumericField

namespace Config

theorem optionalWord_iff {value : Value} {result : Option UInt16} :
    value.optional? Value.word? = some result ↔ value = .ofOptional (result.map (·.toNat)) :=
  Value.optional?_eq_some_iff fun _ _ => Value.word?_eq_some_iff

theorem optionalByte_iff {value : Value} {result : Option UInt8} :
    value.optional? Value.byte? = some result ↔ value = .ofOptional (result.map (·.toNat)) :=
  Value.optional?_eq_some_iff fun _ _ => Value.byte?_eq_some_iff

/-- What stands for a numeric field is the number that is read for it. -/
theorem value_of_ofJson? {record value : Value} {config : Config} {field : NumericField}
    (stands : field.StandsIn value record) (read : ofJson? record = some config) :
    value = .ofOptional (field.number? config) := by
  cases stands with
  | @named members pieces member text =>
    simp only [ofJson?, Option.bind_eq_bind, Option.bind_eq_some_iff, Option.pure_def] at read
    obtain ⟨found, named, loadAddress, atLoad, entryPoint, atEntry, stackPointer, atStack, timing,
      -, same⟩ := read
    cases same
    have inside := Value.mem_of_named? named member text
    cases field with
    | loadAddress => exact Value.word?_eq_some_iff.mp (Value.read_of_field? atLoad inside)
    | entryPoint => exact optionalWord_iff.mp (Value.read_of_field? atEntry inside)
    | stackPointer => exact optionalByte_iff.mp (Value.read_of_field? atStack inside)
  | @placed items item =>
    obtain ⟨_, -, later⟩ := Option.bind_eq_some_iff.mp read
    simp only [Option.bind_eq_bind, Option.bind_eq_some_iff, Option.pure_def] at later
    obtain ⟨loadAddress, atLoad, entryPoint, atEntry, stackPointer, atStack, timing, -,
      same⟩ := later
    cases same
    cases field with
    | loadAddress => exact Value.word?_eq_some_iff.mp (Value.read_of_item? atLoad item)
    | entryPoint => exact optionalWord_iff.mp (Value.read_of_item? atEntry item)
    | stackPointer => exact optionalByte_iff.mp (Value.read_of_item? atStack item)

theorem plain_toJson (config : Config) : config.toJson.Plain := by
  refine Value.plain_ofMembers ?_ ?_
  · simp only [List.forall_mem_cons]
    decide
  · simp only [List.forall_mem_cons]
    refine ⟨.natural _, Value.plain_ofOptional _, Value.plain_ofOptional _, ?_, nofun⟩
    exact .string (Value.plain_ofText (by cases config.timing <;> decide))

/-- A configuration is read from its own value. -/
theorem ofJson?_toJson (config : Config) : ofJson? config.toJson = some config := by
  have loadAddress := Value.word?_eq_some_iff.mpr (rfl : Value.natural config.loadAddress.toNat = _)
  have entryPoint := optionalWord_iff.mpr
    (rfl : Value.ofOptional (config.entryPoint.map (·.toNat)) = _)
  have stackPointer := optionalByte_iff.mpr
    (rfl : Value.ofOptional (config.stackPointer.map (·.toNat)) = _)
  have timing := config.timing.ofJson?_toJson
  rw [toJson, Value.ofMembers, ofJson?, Value.named?_ofText]
  simp [Value.field?, loadAddress, entryPoint, stackPointer, timing]

end Config

theorem NumericField.plain_ofMembers (field : NumericField) (number : Nat) :
    (Value.ofMembers [(field.name, .natural number)]).Plain := by
  refine Value.plain_ofMembers ?_ ?_
  · simp only [List.forall_mem_cons]
    cases field <;> decide
  · simp only [List.forall_mem_cons]
    exact ⟨.natural number, nofun⟩

/-- A number alone is read for its field if it fits. -/
theorem Config.ofJson?_setting (field : NumericField) (number : Nat) :
    ofJson? (Value.ofMembers [(field.name, .natural number)]) =
      if number < field.limit then some (field.setting number) else none := by
  rw [Value.ofMembers, ofJson?, Value.named?_ofText]
  cases field <;>
    simp [Value.field?, NumericField.name, NumericField.limit, NumericField.setting,
      Value.optional?, Value.word?, Value.byte?, Value.below?] <;>
    split <;> next fits => simp [fits]

/-! ### Reading back -/

/-- Settings survive being written and read back: every configuration, and the status register of
every state of a session. A status register is read from the numbers of a byte alone, with the
reserved bit set. A numeric field of a configuration holds the very number that stands for it, so
one that does not fit is refused. -/
theorem settings_survive_json :
    (∀ config : Config,
      Value.readAs? Config.ofJson? config.toJson.compact = some config) ∧
    (∀ origin, Machine.Built origin → ∀ calls : List Call,
      let status := (origin.afterCalls calls).status
      Value.readAs? Status.ofJson? status.toJson.compact = some status) ∧
    (∀ number : Int, Value.readAs? Status.ofJson? number.repr =
      if 0 ≤ number ∧ number ≤ 255 then some ⟨.ofNat number.toNat ||| 0x20⟩ else none) ∧
    (∀ (text : String) (status : Status), Value.readAs? Status.ofJson? text = some status ↔
      ∃ byte : UInt8, Value.parse? text = some (.natural byte.toNat) ∧
        status = ⟨byte ||| 0x20⟩) ∧
    (∀ (field : NumericField) (number : Nat), Value.readAs? Config.ofJson?
        (Value.ofMembers [(field.name, .natural number)]).compact =
      if number < field.limit then some (field.setting number) else none) ∧
    ∀ (text : String) (record value : Value) (field : NumericField),
      Value.parse? text = some record → field.StandsIn value record →
      (∀ config, Value.readAs? Config.ofJson? text = some config →
        value = .ofOptional (field.number? config)) ∧
      (∀ number, value = .natural number → field.limit ≤ number →
        Value.readAs? Config.ofJson? text = none) ∧
      ∀ digits, value = .number digits → Value.readAs? Config.ofJson? text = none := by
  refine ⟨?_, ?_, Status.readAs?_repr, ?_, ?_, ?_⟩
  · intro config
    rw [Value.readAs?_compact _ config.plain_toJson, config.ofJson?_toJson]
  · intro origin built calls status
    have held := Machine.reserved_afterCalls built calls
    rw [Status.toJson, Value.readAs?_compact _ (.natural status.bits.toNat)]
    exact Status.ofJson?_eq_some_iff.mpr ⟨status.bits, rfl, (Status.ofBits_bits held).symm⟩
  · intro text status
    rw [Value.readAs?, Option.bind_eq_bind, Option.bind_eq_some_iff]
    constructor
    · rintro ⟨value, parsed, read⟩
      obtain ⟨byte, rfl, same⟩ := Status.ofJson?_eq_some_iff.mp read
      exact ⟨byte, parsed, same⟩
    · rintro ⟨byte, parsed, same⟩
      exact ⟨_, parsed, Status.ofJson?_eq_some_iff.mpr ⟨byte, rfl, same⟩⟩
  · intro field number
    rw [Value.readAs?_compact _ (field.plain_ofMembers number), Config.ofJson?_setting]
  · intro text record value field parsed stands
    have held {config : Config} (read : Value.readAs? Config.ofJson? text = some config) :
        value = .ofOptional (field.number? config) := by
      rw [Value.readAs?, parsed] at read
      exact Config.value_of_ofJson? stands read
    refine ⟨fun _ => held, ?_, ?_⟩
    · rintro number rfl large
      refine Option.eq_none_iff_forall_not_mem.mpr fun config read => ?_
      have small := field.number?_lt config number (Value.eq_some_of_natural (held read))
      exact absurd small (Nat.not_lt.mpr large)
    · rintro digits rfl
      refine Option.eq_none_iff_forall_not_mem.mpr fun config read => ?_
      have other := held read
      generalize field.number? config = optional at other
      cases optional <;> cases other

/-- A register that the host has written, a stack pointer by its place, an entry point that is too
large by one and a negative load address. -/
theorem settings_survive_json_at_limits :
    (∃ origin, Machine.Built origin ∧
      let status := (origin.afterCalls [.setStatus 0xD1]).status
      status.bits = 0xF1 ∧ Value.readAs? Status.ofJson? status.toJson.compact = some status) ∧
    Value.readAs? Config.ofJson? "[1,null,255]" =
      some { loadAddress := 1, stackPointer := some 255 } ∧
    Value.natural 255 = .ofOptional (some (255 : UInt8).toNat) ∧
    Value.readAs? Config.ofJson? "\x7b\"entry_point\":65536\x7d" = none ∧
    Value.readAs? Config.ofJson? "[-1]" = none := by
  have small : Value.parse? "[1,null,255]" =
      some (.array [.natural 1, .null, .natural 255]) := by
    rw [show "[1,null,255]" = (Value.array [.natural 1, .null, .natural 255]).compact from rfl]
    refine Value.parse?_compact (.array ?_)
    simp only [List.forall_mem_cons]
    exact ⟨.natural 1, .null, .natural 255, nofun⟩
  have accepted : Value.readAs? Config.ofJson? "[1,null,255]" =
      some { loadAddress := 1, stackPointer := some 255 } := by
    rw [Value.readAs?, small]
    rfl
  have large : Value.parse? "\x7b\"entry_point\":65536\x7d" =
      some (Value.ofMembers [("entry_point", .natural 65536)]) := by
    rw [show "\x7b\"entry_point\":65536\x7d" =
      (Value.ofMembers [("entry_point", .natural 65536)]).compact from rfl]
    exact Value.parse?_compact (NumericField.entryPoint.plain_ofMembers 65536)
  have negative : Value.parse? "[-1]" = some (.array [.number ['-', '1']]) :=
    Value.parse?_of_read (show Value.read 9 ['[', '-', '1', ']'] = _ from rfl)
  obtain ⟨_, session, _, _, _, fields⟩ := settings_survive_json
  have built : Machine.Built { memory := Memory.empty.writeRange 0 [] } :=
    .ofImage (show Machine.ofImage [] 0 = .ok _ from rfl)
  refine ⟨⟨_, built, rfl, ?_⟩, accepted, ?_, ?_, ?_⟩
  · exact session _ built [.setStatus 0xD1]
  · exact (fields _ _ _ .stackPointer small (.placed rfl)).1 _ accepted
  · exact (fields _ _ _ .entryPoint large
      (.named List.mem_cons_self (Piece.text?_ofText _))).2.1 65536 rfl (Nat.le_refl _)
  · exact (fields _ _ _ .loadAddress negative (.placed rfl)).2.2 _ rfl

end Mos6502
