/-
Comproject.Json.Record — the record codec of `test/json_test.cpp`.

`StructDataToJsonString` writes a `TEST_ST_FILE_LIST` as JSON text and
`JsonStringToStructData` reads one back, field by field, into a record
that the caller owns. Both are one `try` block. An exception that leaves
the decoder midway leaves the fields stored so far, so the record is in
the result of every exit.

Two things are outside the language and are results of their own: a store
to `szFileList[i]` with `i ≥ 5`, and the read of a `char` array that has
no terminator.
-/
import Comproject.Json.Value
import Comproject.Lib.CString
import Comproject.Lib.Decimal

namespace Comproject.Json

/-! ## The record -/

/-- `TEST_ST_FILE` -/
structure TestStFile where
  nNum : Int32
  szFile : Vector UInt8 20
  deriving DecidableEq

/-- `TEST_ST_FILE_LIST` -/
structure TestStFileList where
  szMemo : Vector UInt8 20
  nCount : Int32
  szFileList : Vector TestStFile 5
  deriving DecidableEq

/-- `szFileList[i]` -/
def TestStFileList.file (st : TestStFileList) (i : Fin 5) : TestStFile := st.szFileList[i]

/-- The count is within the array, and the strings that the count covers
are terminated. -/
structure TestStFileList.WellFormed (st : TestStFileList) : Prop where
  count_nonneg : 0 ≤ st.nCount.toInt
  count_le : st.nCount.toInt ≤ 5
  memo : 0 ∈ st.szMemo
  files : ∀ i : Fin 5, (i : Int) < st.nCount.toInt → 0 ∈ (st.file i).szFile

instance (st : TestStFileList) : Decidable st.WellFormed :=
  decidable_of_iff
    (0 ≤ st.nCount.toInt ∧ st.nCount.toInt ≤ 5 ∧ 0 ∈ st.szMemo.toList ∧
      ∀ i : Fin 5, (i : Int) < st.nCount.toInt → 0 ∈ (st.file i).szFile.toList)
    ⟨fun ⟨h0, h5, hm, hf⟩ =>
      ⟨h0, h5, Vector.mem_toList_iff.mp hm, fun i hi => Vector.mem_toList_iff.mp (hf i hi)⟩,
    fun h => ⟨h.count_nonneg, h.count_le, Vector.mem_toList_iff.mpr h.memo,
      fun i hi => Vector.mem_toList_iff.mpr (h.files i hi)⟩⟩

def TestStFileList.setNum (st : TestStFileList) (i : Fin 5) (n : Int32) : TestStFileList :=
  { st with szFileList := st.szFileList.set i { st.file i with nNum := n } }

def TestStFileList.setFile (st : TestStFileList) (i : Fin 5) (s : Vector UInt8 20) :
    TestStFileList :=
  { st with szFileList := st.szFileList.set i { st.file i with szFile := s } }

/-! ## `StructDataToJsonString` -/

inductive Encoded where
  /-- the code, what was printed, and what was written to `pJsonData` -/
  | returned (code : Int) (printed : String) (pJsonData : Option (List UInt8))
  /-- a read outside an array -/
  | undefined

/-- The `catch` block. -/
def Encoded.caught (ex : Exn) : Encoded :=
  .returned (-1) ("StructDataToJsonString exception " ++ ex ++ ".\n") none

/-- The loop that fills `arrayObj`. `item` is declared outside the loop
and reused. -/
def encodeFiles (lib : JsonLib) (st : TestStFileList) :
    Nat → Nat → Value → Value → Option (Except Exn Value)
  | 0, _, _, arrayObj => some (.ok arrayObj)
  | n + 1, i, item, arrayObj =>
    if h : i < 5 then
      let entry := st.file ⟨i, h⟩
      match CString.read? entry.szFile.toList with
      | none => none
      | some file =>
        match item.assign lib (ascii "num") (.intValue entry.nNum.toInt64) with
        | .error ex => some (.error ex)
        | .ok item =>
          match item.assign lib (ascii "file") (.stringValue file) with
          | .error ex => some (.error ex)
          | .ok item =>
            match arrayObj.append lib item with
            | .error ex => some (.error ex)
            | .ok arrayObj => encodeFiles lib st n (i + 1) item arrayObj
    else none

/-- The members of `root` before the loop. -/
def encodeHead (lib : JsonLib) (st : TestStFileList) (memo : List UInt8) : Except Exn Value := do
  let root ← Value.nullValue.assign lib (ascii "memo") (.stringValue memo)
  root.assign lib (ascii "file_count") (.intValue st.nCount.toInt64)

def structDataToJsonString (lib : JsonLib) (st : TestStFileList) : Encoded :=
  match CString.read? st.szMemo.toList with
  | none => .undefined
  | some memo =>
    match encodeHead lib st memo with
    | .error ex => .caught ex
    | .ok root =>
      match encodeFiles lib st st.nCount.toInt.toNat 0 .nullValue .nullValue with
      | none => .undefined
      | some (.error ex) => .caught ex
      | some (.ok arrayObj) =>
        match root.assign lib (ascii "file_list") arrayObj with
        | .error ex => .caught ex
        -- `strcpy(pJsonData, strOut.c_str())`
        | .ok root => .returned 0 "" (some (CString.upToZero (lib.toStyledString root)))

/-! ## `JsonStringToStructData` -/

inductive Decoded where
  /-- the code, what was printed, and the record -/
  | returned (code : Int) (printed : String) (st : TestStFileList)
  /-- a store to `szFileList[i]` with `i ≥ 5`, and the record before it -/
  | outOfBounds (i : Nat) (st : TestStFileList)
  deriving DecidableEq

/-- The `catch` block. -/
def Decoded.caught (ex : Exn) (st : TestStFileList) : Decoded :=
  .returned (-1) ("JsonStringToStructData exception " ++ ex ++ ".\n") st

/-- The loop over `file_list`, with `n` rounds to go. -/
def decodeFiles (lib : JsonLib) : Nat → Nat → Value → TestStFileList → Decoded
  | 0, _, _, st => .returned 0 "" st
  | n + 1, nIdx, arrayObj, st =>
    match arrayObj.element lib nIdx with
    | .error ex => .caught ex st
    | .ok (arrayObj, item) =>
      -- num
      match item.subscript lib (ascii "num") with
      | .error ex => .caught ex st
      | .ok (item, num) =>
        match lib.asInt num with
        | .error ex => .caught ex st
        | .ok num =>
          if h : nIdx < 5 then
            let st := st.setNum ⟨nIdx, h⟩ num
            -- file
            match item.subscript lib (ascii "file") with
            | .error ex => .caught ex st
            | .ok (_, file) =>
              match lib.asString file with
              | .error ex => .caught ex st
              | .ok strTemp =>
                decodeFiles lib n (nIdx + 1) arrayObj
                  (st.setFile ⟨nIdx, h⟩ (CString.strncpy 20 strTemp))
          else .outOfBounds nIdx st

/-- From `arrayObj = value["file_list"]` on. -/
def decodeList (lib : JsonLib) (value : Value) (st : TestStFileList) : Decoded :=
  match value.subscript lib (ascii "file_list") with
  | .error ex => .caught ex st
  | .ok (_, arrayObj) =>
    let nCount := arrayObj.size.toInt32
    decodeFiles lib nCount.toInt.toNat 0 arrayObj { st with nCount := nCount }

/-- A member that has to be there: `value[key].empty()` is tested, and
the member is then read by a second subscript. -/
def decodeMember {α : Type} (lib : JsonLib) (key missing : String) (read : Value → Except Exn α)
    (next : Value → α → Decoded) (value : Value) (st : TestStFileList) : Decoded :=
  match value.subscript lib (ascii key) with
  | .error ex => .caught ex st
  | .ok (value, member) =>
    if member.empty then .returned (-1) missing st
    else
      match value.subscript lib (ascii key) with
      | .error ex => .caught ex st
      | .ok (value, member) =>
        match read member with
        | .error ex => .caught ex st
        | .ok x => next value x

/-- From `// file_count` on. -/
def decodeCount (lib : JsonLib) (value : Value) (st : TestStFileList) : Decoded :=
  decodeMember lib "file_count" "JsonStringToStructData file_count is not exist.\n" lib.asInt
    (fun value n => decodeList lib value { st with nCount := n }) value st

/-- From `// memo` on. -/
def decodeMemo (lib : JsonLib) (value : Value) (st : TestStFileList) : Decoded :=
  decodeMember lib "memo" "JsonStringToStructData memo is not exist.\n" lib.asString
    (fun value strTemp =>
      decodeCount lib value { st with szMemo := CString.strncpy 20 strTemp }) value st

/-- `pJsonData` is the text before its terminator. -/
def jsonStringToStructData (lib : JsonLib) (pJsonData : List UInt8) (st : TestStFileList) :
    Decoded :=
  match lib.parse pJsonData with
  | .error ex => .caught ex st
  | .ok none => .returned (-1) "JsonStringToStructData reader parse error.\n" st
  | .ok (some value) => decodeMemo lib value st

/-! ## `main` -/

/-- The loop `printf("num:%d file:%s.\n", …)` over the entries. A `%s` of
an array without a terminator reads past it. -/
def printFiles (st : TestStFileList) : Nat → Nat → Option (List UInt8)
  | 0, _ => some []
  | n + 1, i =>
    if h : i < 5 then do
      let file ← CString.read? (st.file ⟨i, h⟩).szFile.toList
      let rest ← printFiles st n (i + 1)
      return ascii "num:" ++ Decimal.intText (st.file ⟨i, h⟩).nNum.toInt ++ ascii " file:" ++ file
        ++ ascii ".\n" ++ rest
    else none

/-- What `main` prints of a record. -/
def printRecord (st : TestStFileList) : Option (List UInt8) := do
  let memo ← CString.read? st.szMemo.toList
  let files ← printFiles st st.nCount.toInt.toNat 0
  return ascii "memo:" ++ memo ++ ascii " count:" ++ Decimal.intText st.nCount.toInt
    ++ ascii ".\n" ++ files

/-- The record after `memset(&stFileList, 0, sizeof(TEST_ST_FILE_LIST))`. -/
def zeroRecord : TestStFileList :=
  ⟨Vector.replicate 20 0, 0, Vector.replicate 5 ⟨0, Vector.replicate 20 0⟩⟩

/-- `main` from its first report of the record `st` on: encode it, clear
it, decode it, report it again. Neither return code is looked at. -/
def mainReports (lib : JsonLib) (st : TestStFileList) : Option (List UInt8 × List UInt8) := do
  let before ← printRecord st
  let szJsonData ← match structDataToJsonString lib st with
    | .returned _ _ pJsonData => some (pJsonData.getD [])
    | .undefined => none
  let after ← match jsonStringToStructData lib szJsonData zeroRecord with
    | .returned _ _ st' => printRecord st'
    | .outOfBounds _ _ => none
  return (before, after)

/-! ## Well-formed results -/

/-- The call returned, and the record is well formed. -/
def Decoded.WellFormed : Decoded → Prop
  | .returned _ _ st => st.WellFormed
  | .outOfBounds _ _ => False

instance (d : Decoded) : Decidable d.WellFormed :=
  match d with
  | .returned _ _ st => inferInstanceAs (Decidable st.WellFormed)
  | .outOfBounds _ _ => inferInstanceAs (Decidable False)

/-! ## Input that fits the record -/

/-- One entry of `file_list`, read in the order of the loop. -/
def readEntry (lib : JsonLib) (arrayObj : Value) (i : Nat) : Except Exn (Int32 × List UInt8) := do
  let (_, item) ← arrayObj.element lib i
  let num ← item.member lib (ascii "num")
  let nNum ← lib.asInt num
  let file ← item.member lib (ascii "file")
  let strTemp ← lib.asString file
  return (nNum, strTemp)

def Readable (lib : JsonLib) (arrayObj : Value) (i : Nat) : Prop :=
  ∃ entry, readEntry lib arrayObj i = .ok entry

/-- The member is there and can be read. -/
def Value.Holds {α : Type} (lib : JsonLib) (v : Value) (key : String)
    (read : Value → Except Exn α) (x : α) : Prop :=
  ∃ m, v.member lib (ascii key) = .ok m ∧ m.empty = false ∧ read m = .ok x

/-- A string that leaves room for its terminator. -/
def ShortString (s : List UInt8) : Prop := (CString.upToZero s).length ≤ 19

instance (s : List UInt8) : Decidable (ShortString s) :=
  inferInstanceAs (Decidable ((CString.upToZero s).length ≤ 19))

/-- At most five entries. Up to the first one that cannot be read their
strings are short, and from there on the record's own strings, which stay
in place, are terminated. -/
structure FilesFit (lib : JsonLib) (arrayObj : Value) (st : TestStFileList) : Prop where
  count_le : arrayObj.size.toNat ≤ 5
  short : ∀ i : Fin 5, i.val < arrayObj.size.toNat → (∀ k < i.val, Readable lib arrayObj k) →
    ∀ num file, readEntry lib arrayObj i = .ok (num, file) → ShortString file
  kept : ∀ i : Fin 5, i.val < arrayObj.size.toNat → (∃ k ≤ i.val, ¬ Readable lib arrayObj k) →
    0 ∈ (st.file i).szFile

/-- The strings and the number of entries that the decoder comes to copy
fit the record. -/
def FitsRecord (lib : JsonLib) (pJsonData : List UInt8) (st : TestStFileList) : Prop :=
  ∀ value memo, lib.parse pJsonData = .ok (some value) →
    value.Holds lib "memo" lib.asString memo →
    ShortString memo ∧
    ∀ n arrayObj, value.Holds lib "file_count" lib.asInt n →
      value.member lib (ascii "file_list") = .ok arrayObj → FilesFit lib arrayObj st

end Comproject.Json
