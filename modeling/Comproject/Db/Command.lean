/-
Comproject.Db.Command — the request half of the Redis wrapper:
`ConvertToString` and `db::Command` of `include/db/cache_handle.h`.

A request is written `Command(name)(a1)...(an)`. Every call pushes the
text of its argument, and the conversion operator hands the finished
vector to `Connection::Run`. One template serves every argument type, so
what is pushed is decided by the `operator<<` that overload resolution
picks for that type. The integer types are the typedefs of
`include/base/define.h`; two of them, `int8` and `uint8`, are character
types in C++.
-/
import Comproject.Lib.Decimal

namespace Comproject.Db

/-- An argument of a request, by its C++ type. -/
inductive Arg where
  | string (s : List UInt8)
  | int8 (v : Int8)
  | int16 (v : Int16)
  | int32 (v : Int32)
  | int64 (v : Int64)
  | uint8 (v : UInt8)
  | uint16 (v : UInt16)
  | uint32 (v : UInt32)
  | uint64 (v : UInt64)
  deriving DecidableEq

/-- `ss << v` in the default locale, with the overload each type selects.
For `signed char` and `unsigned char` that is the overload that writes a
character; `short` is written as the number it is. -/
def insertArg (ss : List UInt8) : Arg → List UInt8
  | .string s => ss ++ s
  | .int8 v => ss ++ [v.toUInt8]
  | .int16 v => ss ++ Decimal.intText v.toInt
  | .int32 v => ss ++ Decimal.intText v.toInt
  | .int64 v => ss ++ Decimal.intText v.toInt
  | .uint8 v => ss ++ [v]
  | .uint16 v => ss ++ Decimal.intText v.toNat
  | .uint32 v => ss ++ Decimal.intText v.toNat
  | .uint64 v => ss ++ Decimal.intText v.toNat

/-- `ConvertToString(const T v)`: through a fresh `std::stringstream`. -/
def convertToString (v : Arg) : List UInt8 := insertArg [] v

/-- `db::Command`. -/
structure Command where
  args_ : List (List UInt8)

/-- `Command(const std::string &cmd)`. -/
def Command.ofName (cmd : List UInt8) : Command := ⟨[cmd]⟩

/-- `Command &operator()(const T &cmd)`. -/
def Command.call (c : Command) (cmd : Arg) : Command :=
  ⟨c.args_ ++ [convertToString cmd]⟩

/-- The vector that `Command(name)(a1)...(an)` converts to. -/
def commandVector (name : List UInt8) (args : List Arg) : List (List UInt8) :=
  (args.foldl Command.call (Command.ofName name)).args_

/-! ## What the vector should say -/

/-- The number an integer argument carries. -/
def Arg.intValue : Arg → Option Int
  | .string _ => none
  | .int8 v => some v.toInt
  | .int16 v => some v.toInt
  | .int32 v => some v.toInt
  | .int64 v => some v.toInt
  | .uint8 v => some v.toNat
  | .uint16 v => some v.toNat
  | .uint32 v => some v.toNat
  | .uint64 v => some v.toNat

/-- An argument of one of the two eight-bit integer types. -/
def Arg.IsByteInteger : Arg → Prop
  | .int8 _ => True
  | .uint8 _ => True
  | _ => False

/-- The text an argument should appear as: a string byte for byte, an
integer as its canonical decimal text. -/
def Arg.AppearsAs : Arg → List UInt8 → Prop
  | .string s, bs => bs = s
  | a, bs => ∃ v, a.intValue = some v ∧ Decimal.IsDecimal bs v

/-- The vector is a faithful encoding of the request. -/
structure FaithfulVector (name : List UInt8) (args : List Arg)
    (vec : List (List UInt8)) : Prop where
  length_eq : vec.length = args.length + 1
  name_eq : vec[0]? = some name
  arg_appears : ∀ (i : Nat) (a : Arg), args[i]? = some a →
    ∃ bs, vec[i + 1]? = some bs ∧ a.AppearsAs bs

/-- What an argument means to the server: bytes, or a number. -/
inductive ArgValue where
  | bytes (s : List UInt8)
  | number (v : Int)
  deriving DecidableEq

def Arg.toValue : Arg → ArgValue
  | .string s => .bytes s
  | .int8 v => .number v.toInt
  | .int16 v => .number v.toInt
  | .int32 v => .number v.toInt
  | .int64 v => .number v.toInt
  | .uint8 v => .number v.toNat
  | .uint16 v => .number v.toNat
  | .uint32 v => .number v.toNat
  | .uint64 v => .number v.toNat

/-- Reading the arguments back from a vector, given which positions hold
integers. -/
def readBack (isInteger : List Bool) (vec : List (List UInt8)) : List ArgValue :=
  List.zipWith (fun b bs => if b then .number (Decimal.readInt bs) else .bytes bs)
    isInteger vec.tail

end Comproject.Db
