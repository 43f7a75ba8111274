/-
Comproject.Json.Value — the part of jsoncpp's `Json::Value` that the record
codec of `test/json_test.cpp` uses, after `include/json/value.h`.

A value is one of the eight kinds of `ValueType`. An object is a list of
members in key order, as the `std::map` behind it keeps them. The
subscript operators on a non-const value are state-passing: `v["k"]` on a
null value or on an object without that member CREATES a null member, so
the read is also a write.

The library is not part of the repository. What its parser, its writer and
its two conversions do is a parameter, `JsonLib`.
-/
import Mathlib.Data.List.Basic
import Mathlib.Tactic.Common

namespace Comproject.Json

/-- `what()` of a `std::exception`. -/
abbrev Exn := String

/-- `Json::Value`. -/
inductive Value where
  | nullValue
  | intValue (n : Int64)
  | uintValue (n : UInt64)
  | realValue (bits : UInt64)
  | stringValue (s : List UInt8)
  | booleanValue (b : Bool)
  | arrayValue (vs : List Value)
  | objectValue (ms : List (List UInt8 × Value))

/-- The bytes of an ASCII literal. -/
def ascii (s : String) : List UInt8 := s.toList.map (fun c => c.toNat.toUInt8)

/-- jsoncpp itself. `parse` is `Reader::parse`, which fails, throws, or
gives a value. The last two fields are thrown by the subscript operators
on a value of the wrong kind. -/
structure JsonLib where
  parse : List UInt8 → Except Exn (Option Value)
  toStyledString : Value → List UInt8
  asInt : Value → Except Exn Int32
  asString : Value → Except Exn (List UInt8)
  notObject : Exn
  notArray : Exn

/-! ## Size -/

/-- `size()`, the number of values in an array or object. -/
def Value.size : Value → UInt32
  | .arrayValue vs => UInt32.ofNat vs.length
  | .objectValue ms => UInt32.ofNat ms.length
  | _ => 0

/-- `empty()`. -/
def Value.empty : Value → Bool
  | .nullValue => true
  | .arrayValue vs => vs.isEmpty
  | .objectValue ms => ms.isEmpty
  | _ => false

/-! ## Members -/

/-- Set a member, in key order. -/
def put (key : List UInt8) (x : Value) : List (List UInt8 × Value) → List (List UInt8 × Value)
  | [] => [(key, x)]
  | (k, v) :: ms =>
    if key = k then (key, x) :: ms
    else if key < k then (key, x) :: (k, v) :: ms
    else (k, v) :: put key x ms

/-- The member of that name, null if there is none. -/
def Value.member (lib : JsonLib) (v : Value) (key : List UInt8) : Except Exn Value :=
  match v with
  | .nullValue => .ok .nullValue
  | .objectValue ms => .ok ((ms.lookup key).getD .nullValue)
  | _ => .error lib.notObject

/-- What `v["key"]` leaves behind. -/
def Value.touch (v : Value) (key : List UInt8) : Value :=
  match v with
  | .nullValue => .objectValue [(key, .nullValue)]
  | .objectValue ms =>
    match ms.lookup key with
    | some _ => .objectValue ms
    | none => .objectValue (put key .nullValue ms)
  | v => v

/-- `Value& operator[](const char* key)`, read: the value afterwards, and
the member. -/
def Value.subscript (lib : JsonLib) (v : Value) (key : List UInt8) : Except Exn (Value × Value) :=
  (v.member lib key).map (fun m => (v.touch key, m))

/-- `v["key"] = x`. -/
def Value.assign (lib : JsonLib) (v : Value) (key : List UInt8) (x : Value) : Except Exn Value :=
  match v with
  | .nullValue => .ok (.objectValue [(key, x)])
  | .objectValue ms => .ok (.objectValue (put key x ms))
  | _ => .error lib.notObject

theorem lookup_put_self (key : List UInt8) (x : Value) (ms : List (List UInt8 × Value)) :
    (put key x ms).lookup key = some x := by
  induction ms with
  | nil => simp [put]
  | cons m ms ih =>
    obtain ⟨k, v⟩ := m
    unfold put
    by_cases hk : key = k
    · simp [hk]
    · by_cases hlt : key < k
      · simp [hk, hlt]
      · have hne : (key == k) = false := by simpa using hk
        simp [hk, hlt, hne, List.lookup_cons, ih]

theorem lookup_put_of_ne {key key' : List UInt8} (h : key' ≠ key) (x : Value)
    (ms : List (List UInt8 × Value)) : (put key x ms).lookup key' = ms.lookup key' := by
  have hne : (key' == key) = false := by simpa using h
  induction ms with
  | nil => simp [put, List.lookup_cons, hne]
  | cons m ms ih =>
    obtain ⟨k, v⟩ := m
    unfold put
    by_cases hk : key = k
    · subst hk
      simp [List.lookup_cons, hne]
    · by_cases hlt : key < k
      · simp [hk, hlt, List.lookup_cons, hne]
      · simp [hk, hlt, List.lookup_cons, ih]

/-- A subscript creates null members only, so no later read sees it. -/
@[simp] theorem member_touch (lib : JsonLib) (v : Value) (key key' : List UInt8) :
    (v.touch key).member lib key' = v.member lib key' := by
  cases v with
  | nullValue =>
    by_cases h : key' = key
    · simp [Value.touch, Value.member, h]
    · have hne : (key' == key) = false := by simpa using h
      simp [Value.touch, Value.member, List.lookup_cons, hne]
  | objectValue ms =>
    unfold Value.touch
    cases hl : ms.lookup key with
    | some x => simp only [hl]
    | none =>
      simp only [hl, Value.member]
      by_cases h : key' = key
      · subst h
        simp [lookup_put_self, hl]
      · rw [lookup_put_of_ne h]
  | intValue | uintValue | realValue | stringValue | booleanValue | arrayValue => rfl

/-! ## Elements -/

/-- `Value& operator[](int index)`, read. -/
def Value.element (lib : JsonLib) (v : Value) (i : Nat) : Except Exn (Value × Value) :=
  match v with
  | .nullValue => .ok (.arrayValue (List.replicate (i + 1) .nullValue), .nullValue)
  | .arrayValue vs =>
    match vs[i]? with
    | some x => .ok (.arrayValue vs, x)
    | none => .ok (.arrayValue (vs ++ List.replicate (i + 1 - vs.length) .nullValue), .nullValue)
  | _ => .error lib.notArray

/-- `append(value)`. -/
def Value.append (lib : JsonLib) (v x : Value) : Except Exn Value :=
  match v with
  | .nullValue => .ok (.arrayValue [x])
  | .arrayValue vs => .ok (.arrayValue (vs ++ [x]))
  | _ => .error lib.notArray

/-- Below the size an element is read without any change. -/
theorem element_of_lt_size (lib : JsonLib) {v : Value} {i : Nat} (h : i < v.size.toNat) :
    v.element lib i = .error lib.notArray ∨ ∃ x, v.element lib i = .ok (v, x) := by
  cases v with
  | arrayValue vs =>
    have hlen : i < vs.length := by
      have : vs.length % 2 ^ 32 ≤ vs.length := Nat.mod_le _ _
      simp only [Value.size, UInt32.toNat_ofNat'] at h
      omega
    right
    refine ⟨vs[i], ?_⟩
    simp only [Value.element, List.getElem?_eq_getElem hlen]
  | objectValue ms => exact .inl rfl
  | nullValue => simp [Value.size] at h
  | intValue | uintValue | realValue | stringValue | booleanValue => exact .inl rfl

end Comproject.Json
