/-
Comproject.Db.CommandTheorems — which requests reach Redis as written.

The vector always has the command name first and one entry per argument
in order (`commandVector_eq`). A string entry is the string, and an
integer of sixteen bits or more is its canonical decimal text
(`appearsAs_of_not_byte`). An `int8` or `uint8` entry is one raw byte,
which is never the decimal text of its value (`not_appearsAs_byte`). So
the encoding is faithful exactly when no argument has an eight-bit
integer type, and on such requests the arguments can be read back.
-/
import Comproject.Db.Command

namespace Comproject.Db

open Decimal

/-! ## The shape of the vector -/

theorem args_foldl_call (args : List Arg) (c : Command) :
    (args.foldl Command.call c).args_ = c.args_ ++ args.map convertToString := by
  induction args generalizing c with
  | nil => simp
  | cons a args ih =>
    rw [List.foldl_cons, ih]
    simp [Command.call]

theorem commandVector_eq (name : List UInt8) (args : List Arg) :
    commandVector name args = name :: args.map convertToString := by
  simp [commandVector, args_foldl_call, Command.ofName]

/-! ## One argument -/

/-- A faithful integer entry is the text of its number, whatever the type
that carries it. -/
theorem convertToString_of_intValue {a : Arg} {v : Int} (hbyte : ¬ a.IsByteInteger)
    (hv : a.intValue = some v) : convertToString a = intText v := by
  cases a with
  | string s => simp [Arg.intValue] at hv
  | int8 w => exact absurd trivial hbyte
  | uint8 w => exact absurd trivial hbyte
  | _ => simp_all [Arg.intValue, convertToString, insertArg]

theorem appearsAs_of_intValue {a : Arg} {bs : List UInt8} {v : Int}
    (hv : a.intValue = some v) : a.AppearsAs bs ↔ IsDecimal bs v := by
  cases a with
  | string s => simp [Arg.intValue] at hv
  | _ => simp_all [Arg.AppearsAs, Arg.intValue]

theorem appearsAs_of_not_byte {a : Arg} (hbyte : ¬ a.IsByteInteger) :
    a.AppearsAs (convertToString a) := by
  cases hv : a.intValue with
  | none => cases a <;> simp_all [Arg.intValue, Arg.AppearsAs, convertToString, insertArg]
  | some v =>
    rw [appearsAs_of_intValue hv, convertToString_of_intValue hbyte hv]
    exact isDecimal_intText v

/-- The character overload never writes the decimal text. -/
theorem not_appearsAs_byte {a : Arg} (hbyte : a.IsByteInteger) :
    ¬ a.AppearsAs (convertToString a) := by
  cases a with
  | int8 v =>
    rw [appearsAs_of_intValue (v := v.toInt) rfl]
    -- a non-negative `int8` keeps its value when its byte is read unsigned
    refine not_isDecimal_singleton (b := v.toUInt8) (fun hv => ?_)
    have hsigned : v.toInt = (v.toUInt8.toNat : Int).bmod (2 ^ 8) := by
      rw [Int8.toInt, BitVec.toInt_eq_toNat_bmod]
      rfl
    have hlt := v.toUInt8.toNat_lt
    rw [Int.bmod] at hsigned
    split at hsigned <;> omega
  | uint8 v =>
    rw [appearsAs_of_intValue (v := v.toNat) rfl]
    exact not_isDecimal_singleton (b := v) (fun _ => rfl)
  | _ => exact absurd hbyte id

theorem appearsAs_iff (a : Arg) : a.AppearsAs (convertToString a) ↔ ¬ a.IsByteInteger :=
  ⟨fun happ hbyte => not_appearsAs_byte hbyte happ, appearsAs_of_not_byte⟩

/-! ## The whole request -/

theorem faithfulVector_iff (name : List UInt8) (args : List Arg) :
    FaithfulVector name args (commandVector name args)
      ↔ ∀ a ∈ args, ¬ a.IsByteInteger := by
  rw [commandVector_eq]
  constructor
  · intro h a ha
    obtain ⟨i, hi⟩ := List.mem_iff_getElem?.mp ha
    obtain ⟨bs, hbs, happ⟩ := h.arg_appears i a hi
    rw [List.getElem?_cons_succ, List.getElem?_map, hi, Option.map_some,
      Option.some.injEq] at hbs
    exact (appearsAs_iff a).mp (hbs ▸ happ)
  · intro h
    refine ⟨by simp, by simp, fun i a hi => ⟨convertToString a, ?_, ?_⟩⟩
    · rw [List.getElem?_cons_succ, List.getElem?_map, hi, Option.map_some]
    · exact (appearsAs_iff a).mpr (h a (List.mem_of_getElem? hi))

/-- One argument of a faithful request is read back from its text. -/
theorem readBack_one {a : Arg} (hbyte : ¬ a.IsByteInteger) :
    (if a.intValue.isSome then ArgValue.number (readInt (convertToString a))
      else ArgValue.bytes (convertToString a)) = a.toValue := by
  cases hv : a.intValue with
  | none => cases a <;> simp_all [Arg.intValue, Arg.toValue, convertToString, insertArg]
  | some v =>
    rw [convertToString_of_intValue hbyte hv, readInt_of_isDecimal (isDecimal_intText v)]
    cases a <;> simp_all [Arg.intValue, Arg.toValue]

theorem readBack_commandVector (name : List UInt8) (args : List Arg)
    (h : ∀ a ∈ args, ¬ a.IsByteInteger) :
    readBack (args.map (fun a => a.intValue.isSome)) (commandVector name args)
      = args.map Arg.toValue := by
  rw [commandVector_eq, readBack, List.tail_cons, List.zipWith_map, List.zipWith_self]
  exact List.map_congr_left (fun a ha => readBack_one (h a ha))

/-- **The request encoding.** A request is encoded faithfully if and only
if none of its arguments is an `int8` or a `uint8`. Away from these two
types equal numbers have equal texts, and the arguments of a request can
be read back from its vector. -/
theorem command_faithful_iff_no_byte_integer (name : List UInt8) (args : List Arg) :
    (FaithfulVector name args (commandVector name args) ↔ ∀ a ∈ args, ¬ a.IsByteInteger)
    ∧ (∀ (a b : Arg) (v : Int), ¬ a.IsByteInteger → ¬ b.IsByteInteger →
        a.intValue = some v → b.intValue = some v → convertToString a = convertToString b)
    ∧ ((∀ a ∈ args, ¬ a.IsByteInteger) →
        readBack (args.map (fun a => a.intValue.isSome)) (commandVector name args)
          = args.map Arg.toValue) := by
  refine ⟨faithfulVector_iff name args, ?_, readBack_commandVector name args⟩
  intro a b v ha hb hva hvb
  rw [convertToString_of_intValue ha hva, convertToString_of_intValue hb hvb]

/-- The request `SET test 123` with the value in an `int32`. -/
theorem command_faithful_set_int32 :
    FaithfulVector [83, 69, 84] [.string [116, 101, 115, 116], .int32 123]
        (commandVector [83, 69, 84] [.string [116, 101, 115, 116], .int32 123])
    ∧ convertToString (.int32 123) = convertToString (.uint64 123)
    ∧ readBack [false, true]
        (commandVector [83, 69, 84] [.string [116, 101, 115, 116], .int32 123])
        = [.bytes [116, 101, 115, 116], .number 123] := by
  have hno : ∀ a ∈ [Arg.string [116, 101, 115, 116], Arg.int32 123], ¬ a.IsByteInteger := by
    simp [Arg.IsByteInteger]
  obtain ⟨hfaithful, hsame, hread⟩ := command_faithful_iff_no_byte_integer [83, 69, 84]
    [.string [116, 101, 115, 116], .int32 123]
  refine ⟨hfaithful.mpr hno, ?_, hread hno⟩
  exact hsame (.int32 123) (.uint64 123) 123 (by simp [Arg.IsByteInteger])
    (by simp [Arg.IsByteInteger]) rfl rfl

/-- The number five as an `int8` is pushed as the byte five. It is not
the decimal text, and a key written so is not found through an `int32`. -/
theorem command_int8_is_a_character :
    ¬ FaithfulVector [71, 69, 84] [.int8 5] (commandVector [71, 69, 84] [.int8 5])
    ∧ (Arg.int8 5).intValue = (Arg.int32 5).intValue
    ∧ convertToString (.int8 5) ≠ convertToString (.int32 5) := by
  refine ⟨fun h => ?_, rfl, by decide⟩
  exact (faithfulVector_iff _ _).mp h (.int8 5) (by simp) trivial

end Comproject.Db
