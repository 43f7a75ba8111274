/-
Comproject.Json.RoundTripTheorems — decoding undoes encoding.

The encoder and the decoder do not mirror each other. The count is written
twice, as `file_count` and as the length of `file_list`, and only the
second one is kept when it is read. A record without entries writes `null`
for the list, since `arrayObj` is never appended to. One `item` serves all
rounds of the encoder's loop. `recordValue` is what comes out of all that,
and the round trip needs of the library only that it reads THIS value back
from its own text.
-/
import Comproject.Json.RecordTheorems

namespace Comproject.Json

variable {lib : JsonLib}

/-! ## The value of a record -/

/-- The entries of a record that its count covers. -/
def TestStFileList.files (st : TestStFileList) : List TestStFile :=
  st.szFileList.toList.take st.nCount.toInt.toNat

def itemValue (e : TestStFile) : Value :=
  .objectValue [(ascii "file", .stringValue (CString.upToZero e.szFile.toList)),
    (ascii "num", .intValue e.nNum.toInt64)]

/-- A list that was appended to a null value. -/
def listValue : List Value → Value
  | [] => .nullValue
  | v :: vs => .arrayValue (v :: vs)

def recordValue (st : TestStFileList) : Value :=
  .objectValue [(ascii "file_count", .intValue st.nCount.toInt64),
    (ascii "file_list", listValue (st.files.map itemValue)),
    (ascii "memo", .stringValue (CString.upToZero st.szMemo.toList))]

/-! ## Encoding -/

theorem append_listValue (vs : List Value) (x : Value) :
    (listValue vs).append lib x = .ok (listValue (vs ++ [x])) := by
  cases vs <;> rfl

/-- `item` before a round: untouched, or left over from the last one. -/
def Leftover (item : Value) : Prop :=
  item = .nullValue ∨
  ∃ file num, item = .objectValue [(ascii "file", file), (ascii "num", num)]

/-- A round overwrites both members of `item`. -/
theorem Leftover.assign (lib : JsonLib) {item : Value} (h : Leftover item) (num file : Value) :
    ∃ item', item.assign lib (ascii "num") num = .ok item' ∧
      item'.assign lib (ascii "file") file
        = .ok (.objectValue [(ascii "file", file), (ascii "num", num)]) := by
  have hne : ascii "num" ≠ ascii "file" := by decide
  have hlt : ascii "file" < ascii "num" := by decide
  have hnlt : ¬ ascii "num" < ascii "file" := by decide
  obtain rfl | ⟨file', num', rfl⟩ := h
  · refine ⟨_, rfl, ?_⟩
    simp [Value.assign, put, hne.symm, hlt]
  · refine ⟨_, rfl, ?_⟩
    simp [Value.assign, put, hne, hnlt]

/-- The loop appends the entries in order. -/
theorem encodeFiles_eq (lib : JsonLib) (st : TestStFileList) (n i : Nat) (item : Value)
    (hitem : Leftover item) (hle : i + n ≤ 5)
    (hz : ∀ j : Fin 5, i ≤ j.val → j.val < i + n → 0 ∈ (st.file j).szFile) :
    encodeFiles lib st n i item (listValue ((st.szFileList.toList.take i).map itemValue))
      = some (.ok (listValue ((st.szFileList.toList.take (i + n)).map itemValue))) := by
  induction n generalizing i item with
  | zero => rfl
  | succ n ih =>
    have hi : i < 5 := by omega
    have hread : CString.read? (st.file ⟨i, hi⟩).szFile.toList
        = some (CString.upToZero (st.file ⟨i, hi⟩).szFile.toList) :=
      CString.read?_of_mem (Vector.mem_toList_iff.mpr (hz ⟨i, hi⟩ (Nat.le_refl _) (by simp)))
    obtain ⟨item', hnum, hfile⟩ := hitem.assign lib
      (.intValue (st.file ⟨i, hi⟩).nNum.toInt64)
      (.stringValue (CString.upToZero (st.file ⟨i, hi⟩).szFile.toList))
    have htake : st.szFileList.toList.take (i + 1)
        = st.szFileList.toList.take i ++ [st.file ⟨i, hi⟩] := by
      rw [List.take_succ_eq_append_getElem (by simpa using hi), Vector.getElem_toList]
      rfl
    simp only [encodeFiles, dif_pos hi, hread, hnum, hfile, append_listValue]
    have hstep := ih (i + 1) (itemValue (st.file ⟨i, hi⟩)) (.inr ⟨_, _, rfl⟩) (by omega)
      (fun j hj hjn => hz j (by omega) (by omega))
    rw [htake, List.map_append] at hstep
    rw [show i + (n + 1) = i + 1 + n by omega]
    exact hstep

theorem encodeHead_eq (st : TestStFileList) (memo : List UInt8) :
    encodeHead lib st memo
      = .ok (.objectValue [(ascii "file_count", .intValue st.nCount.toInt64),
          (ascii "memo", .stringValue memo)]) := by
  have hne : ascii "file_count" ≠ ascii "memo" := by decide
  have hlt : ascii "file_count" < ascii "memo" := by decide
  simp [encodeHead, bind, Except.bind, Value.assign, put, hne, hlt]

theorem assign_file_list (count memo arrayObj : Value) :
    (Value.objectValue [(ascii "file_count", count), (ascii "memo", memo)]).assign lib
        (ascii "file_list") arrayObj
      = .ok (.objectValue [(ascii "file_count", count), (ascii "file_list", arrayObj),
          (ascii "memo", memo)]) := by
  have hne : ascii "file_list" ≠ ascii "file_count" := by decide
  have hnlt : ¬ ascii "file_list" < ascii "file_count" := by decide
  have hne' : ascii "file_list" ≠ ascii "memo" := by decide
  have hlt : ascii "file_list" < ascii "memo" := by decide
  simp [Value.assign, put, hne, hnlt, hne', hlt]

/-- An admissible record is encoded, as the text of its value. -/
theorem structDataToJsonString_eq {st : TestStFileList} (hst : st.WellFormed) :
    structDataToJsonString lib st
      = .returned 0 "" (some (CString.upToZero (lib.toStyledString (recordValue st)))) := by
  have hnonneg := hst.count_nonneg
  have hle := hst.count_le
  have hmemo := CString.read?_of_mem (Vector.mem_toList_iff.mpr hst.memo)
  have hfiles := encodeFiles_eq lib st st.nCount.toInt.toNat 0 .nullValue (.inl rfl)
    (by omega) (fun j _ hj => hst.files j (by omega))
  rw [Nat.zero_add] at hfiles
  have hloop : encodeFiles lib st st.nCount.toInt.toNat 0 .nullValue .nullValue
      = some (.ok (listValue (st.files.map itemValue))) := hfiles
  simp only [structDataToJsonString, hmemo, encodeHead_eq, hloop, assign_file_list]
  rfl

/-! ## Decoding -/

/-- The conversions of integers and strings. -/
structure JsonLib.Converts (lib : JsonLib) : Prop where
  asInt : ∀ n : Int32, lib.asInt (.intValue n.toInt64) = .ok n
  asString : ∀ s, lib.asString (.stringValue s) = .ok s

/-- The library parses the text it writes for `v`, which has no zero
byte, back to `v`. -/
structure JsonLib.ReadsBack (lib : JsonLib) (v : Value) : Prop where
  zeroFree : 0 ∉ lib.toStyledString v
  parse : lib.parse (lib.toStyledString v) = .ok (some v)

theorem holds_memo (hlib : lib.Converts) (st : TestStFileList) :
    (recordValue st).Holds lib "memo" lib.asString (CString.upToZero st.szMemo.toList) := by
  refine ⟨.stringValue (CString.upToZero st.szMemo.toList), ?_, rfl, hlib.asString _⟩
  have h1 : (ascii "memo" == ascii "file_count") = false := by decide
  have h2 : (ascii "memo" == ascii "file_list") = false := by decide
  simp [recordValue, Value.member, List.lookup_cons, h1, h2]

theorem holds_file_count (hlib : lib.Converts) (st : TestStFileList) :
    (recordValue st).Holds lib "file_count" lib.asInt st.nCount := by
  refine ⟨.intValue st.nCount.toInt64, ?_, rfl, hlib.asInt _⟩
  simp [recordValue, Value.member]

theorem member_file_list (st : TestStFileList) :
    (recordValue st).member lib (ascii "file_list")
      = .ok (listValue (st.files.map itemValue)) := by
  have h1 : (ascii "file_list" == ascii "file_count") = false := by decide
  simp [recordValue, Value.member, List.lookup_cons, h1]

theorem size_listValue (vs : List Value) : (listValue vs).size = UInt32.ofNat vs.length := by
  cases vs <;> rfl

/-- The decoder reads an entry as the encoder wrote it. -/
theorem readEntry_itemValue (hlib : lib.Converts) (es : List TestStFile) (i : Nat)
    (hi : i < es.length) :
    readEntry lib (listValue (es.map itemValue)) i
      = .ok (es[i].nNum, CString.upToZero es[i].szFile.toList) := by
  have hel : (listValue (es.map itemValue)).element lib i
      = .ok (listValue (es.map itemValue), itemValue es[i]) := by
    cases es with
    | nil => simp at hi
    | cons e es =>
      simp only [listValue, List.map_cons, Value.element]
      rw [← List.map_cons, List.getElem?_eq_getElem (by simpa using hi), List.getElem_map]
  have hne : (ascii "num" == ascii "file") = false := by decide
  have hnum : (itemValue es[i]).member lib (ascii "num") = .ok (.intValue es[i].nNum.toInt64) := by
    simp [itemValue, Value.member, List.lookup_cons, hne]
  have hfile : (itemValue es[i]).member lib (ascii "file")
      = .ok (.stringValue (CString.upToZero es[i].szFile.toList)) := by
    simp [itemValue, Value.member]
  simp only [readEntry, bind, Except.bind, pure, Except.pure, hel, hnum, hfile, hlib.asInt,
    hlib.asString]

/-- Both counts of an admissible record agree. -/
theorem files_count {st : TestStFileList} (hst : st.WellFormed) :
    st.files.length = st.nCount.toInt.toNat ∧
    (listValue (st.files.map itemValue)).size.toNat = st.nCount.toInt.toNat ∧
    (listValue (st.files.map itemValue)).size.toInt32 = st.nCount := by
  have hnonneg := hst.count_nonneg
  have hle := hst.count_le
  have hlen : st.files.length = st.nCount.toInt.toNat := by
    simp only [TestStFileList.files, List.length_take, Vector.length_toList]
    omega
  have hsize : (listValue (st.files.map itemValue)).size.toNat = st.nCount.toInt.toNat := by
    rw [size_listValue, List.length_map, hlen, UInt32.toNat_ofNat_of_lt']
    have : UInt32.size = 2 ^ 32 := rfl
    omega
  refine ⟨hlen, hsize, Int32.toInt_inj.mp ?_⟩
  rw [toInt_toInt32, hsize, if_pos (by omega)]
  omega

/-- A copy of the string of a terminated buffer reads the same. -/
theorem upToZero_copy {buf : Vector UInt8 20} (h : 0 ∈ buf) :
    CString.upToZero (CString.strncpy 20 (CString.upToZero buf.toList)).toList
      = CString.upToZero buf.toList := by
  have hself : CString.upToZero (CString.upToZero buf.toList) = CString.upToZero buf.toList :=
    CString.upToZero_of_notMem (CString.zero_notMem_upToZero _)
  have hlen := CString.length_upToZero_lt (Vector.mem_toList_iff.mpr h)
  rw [Vector.length_toList] at hlen
  rw [CString.upToZero_strncpy (by rw [hself]; exact hlen), hself]

/-- The decoder on the value of a record: the loop over its files. -/
theorem decodeMemo_recordValue (hlib : lib.Converts) {s : TestStFileList} (hs : s.WellFormed)
    (st : TestStFileList) :
    decodeMemo lib (recordValue s) st
      = decodeFiles lib s.nCount.toInt.toNat 0 (listValue (s.files.map itemValue))
          { st with
            szMemo := CString.strncpy 20 (CString.upToZero s.szMemo.toList)
            nCount := s.nCount } := by
  unfold decodeMemo
  rw [decodeMember_of_holds (holds_memo hlib s)]
  unfold decodeCount
  rw [decodeMember_of_holds (x := s.nCount) (by simpa using holds_file_count hlib s)]
  simp [decodeList, Value.subscript, member_file_list, Except.map, (files_count hs).2.2]

/-- What the round trip keeps of a record: the count, the strings and the
numbers that the count covers. -/
structure SameRecord (s st : TestStFileList) : Prop where
  count : st.nCount = s.nCount
  memo : CString.upToZero st.szMemo.toList = CString.upToZero s.szMemo.toList
  num : ∀ i : Fin 5, (i : Int) < s.nCount.toInt → (st.file i).nNum = (s.file i).nNum
  file : ∀ i : Fin 5, (i : Int) < s.nCount.toInt →
    CString.upToZero (st.file i).szFile.toList = CString.upToZero (s.file i).szFile.toList

/-- The decoder on the text of an admissible record. -/
theorem decode_recordText (hlib : lib.Converts) {s : TestStFileList} (hs : s.WellFormed)
    (hback : lib.ReadsBack (recordValue s)) (st : TestStFileList) :
    ∃ st', jsonStringToStructData lib (CString.upToZero (lib.toStyledString (recordValue s))) st
        = .returned 0 "" st' ∧ SameRecord s st' := by
  have hnonneg := hs.count_nonneg
  have hle := hs.count_le
  obtain ⟨hlen, hsize, -⟩ := files_count hs
  -- every entry of the encoded list can be read
  have hentry : ∀ i : Fin 5, (i : Int) < s.nCount.toInt →
      readEntry lib (listValue (s.files.map itemValue)) i
        = .ok ((s.file i).nNum, CString.upToZero (s.file i).szFile.toList) := by
    intro i hi
    have hi' : i.val < s.files.length := by omega
    have hget : s.files[i.val] = s.file i := by
      simp [TestStFileList.files, TestStFileList.file]
    rw [readEntry_itemValue hlib s.files i hi', hget]
  have hread : ∀ k, 0 ≤ k → k < 0 + s.nCount.toInt.toNat →
      Readable lib (listValue (s.files.map itemValue)) k := by
    intro k _ hk
    exact ⟨_, hentry ⟨k, by omega⟩ (by simp only; omega)⟩
  obtain ⟨code, printed, st', hdec, hfiles, hcode⟩ := decodeFiles_spec lib
    (listValue (s.files.map itemValue)) s.nCount.toInt.toNat 0
    { st with szMemo := CString.strncpy 20 (CString.upToZero s.szMemo.toList), nCount := s.nCount }
    (by omega) (by omega)
  obtain ⟨rfl, rfl⟩ := hcode hread
  have hfile : ∀ i : Fin 5, (i : Int) < s.nCount.toInt → st'.file i
      = ⟨(s.file i).nNum, CString.strncpy 20 (CString.upToZero (s.file i).szFile.toList)⟩ :=
    fun i hi => hfiles.read i (Nat.zero_le _) (by omega)
      (fun k h0 hk => hread k h0 (by omega)) _ _ (hentry i hi)
  refine ⟨st', ?_, hfiles.count, ?_, fun i hi => ?_, fun i hi => ?_⟩
  · rw [CString.upToZero_of_notMem hback.zeroFree, jsonStringToStructData, hback.parse]
    simp only [decodeMemo_recordValue hlib hs, hdec]
  · rw [hfiles.memo]
    exact upToZero_copy hs.memo
  · rw [hfile i hi]
  · rw [hfile i hi]
    exact upToZero_copy (hs.files i hi)

/-- Decoding the text of an admissible record gives the record back, over
whatever the target held before. -/
theorem decode_encode (lib : JsonLib) (hlib : lib.Converts) (s : TestStFileList)
    (hs : s.WellFormed) (hback : lib.ReadsBack (recordValue s)) (st : TestStFileList) :
    ∃ pJsonData, structDataToJsonString lib s = .returned 0 "" (some pJsonData) ∧
    ∃ st', jsonStringToStructData lib pJsonData st = .returned 0 "" st' ∧
      st'.nCount = s.nCount ∧
      CString.upToZero st'.szMemo.toList = CString.upToZero s.szMemo.toList ∧
      ∀ i : Fin 5, (i : Int) < s.nCount.toInt →
        (st'.file i).nNum = (s.file i).nNum ∧
        CString.upToZero (st'.file i).szFile.toList
          = CString.upToZero (s.file i).szFile.toList := by
  obtain ⟨st', hdec, hsame⟩ := decode_recordText hlib hs hback st
  exact ⟨_, structDataToJsonString_eq hs, st', hdec, hsame.count, hsame.memo,
    fun i hi => ⟨hsame.num i hi, hsame.file i hi⟩⟩

theorem sampleLib_converts (text : List UInt8) (value : Value) :
    (sampleLib text value).Converts where
  asInt n := by simp [sampleLib]
  asString _ := rfl

/-- A record as `main` fills it, with one entry. -/
def oneFile : TestStFileList :=
  { zeroRecord with
    szMemo := CString.strncpy 20 (ascii "jsoncppmemo")
    nCount := 1
    szFileList := zeroRecord.szFileList.set 0 ⟨1, CString.strncpy 20 (ascii "file1")⟩ }

/-- Its styled text. -/
def oneFileText : List UInt8 :=
  ascii "\x7b\n   \"file_count\" : 1,\n   \"file_list\" : [\n" ++
  ascii "      \x7b\n         \"file\" : \"file1\",\n         \"num\" : 1\n      \x7d\n" ++
  ascii "   ],\n   \"memo\" : \"jsoncppmemo\"\n\x7d\n"

def oneFileLib : JsonLib := sampleLib oneFileText (recordValue oneFile)

/-- Over a target that was not cleared. -/
theorem decode_encode_oneFile :
    ∃ pJsonData, structDataToJsonString oneFileLib oneFile = .returned 0 "" (some pJsonData) ∧
    ∃ st', jsonStringToStructData oneFileLib pJsonData
        ⟨Vector.replicate 20 42, -3, Vector.replicate 5 ⟨9, Vector.replicate 20 42⟩⟩
        = .returned 0 "" st' ∧
      st'.nCount = 1 ∧ CString.upToZero st'.szMemo.toList = ascii "jsoncppmemo" ∧
      (st'.file 0).nNum = 1 ∧ CString.upToZero (st'.file 0).szFile.toList = ascii "file1" := by
  have hback : oneFileLib.ReadsBack (recordValue oneFile) :=
    ⟨by decide, by simp [oneFileLib, sampleLib]⟩
  obtain ⟨pJsonData, henc, st', hdec, hcount, hmemo, hfiles⟩ :=
    decode_encode oneFileLib (sampleLib_converts _ _) oneFile (by decide) hback
      ⟨Vector.replicate 20 42, -3, Vector.replicate 5 ⟨9, Vector.replicate 20 42⟩⟩
  obtain ⟨hnum, hfile⟩ := hfiles 0 (by decide)
  exact ⟨pJsonData, henc, st', hdec, hcount, hmemo.trans (by decide), hnum, hfile.trans (by decide)⟩

/-! ## What `main` prints -/

/-- Printing an admissible record never reads outside it, and a record
with the same strings and numbers prints the same. -/
theorem printFiles_congr {s st : TestStFileList} (hs : s.WellFormed) (h : SameRecord s st)
    (n i : Nat) (hle : i + n ≤ s.nCount.toInt.toNat) :
    ∃ text, printFiles s n i = some text ∧ printFiles st n i = some text := by
  induction n generalizing i with
  | zero => exact ⟨[], rfl, rfl⟩
  | succ n ih =>
    have hcount := hs.count_le
    have hi : i < 5 := by omega
    have hin : ((⟨i, hi⟩ : Fin 5) : Int) < s.nCount.toInt := by
      simp only
      omega
    obtain ⟨rest, hrest, hrest'⟩ := ih (i + 1) (by omega)
    have hz : 0 ∈ (s.file ⟨i, hi⟩).szFile.toList :=
      Vector.mem_toList_iff.mpr (hs.files ⟨i, hi⟩ hin)
    have hread := CString.read?_congr hz (by simp) (h.file ⟨i, hi⟩ hin)
    rw [CString.read?_of_mem hz] at hread
    simp only [printFiles, dif_pos hi, CString.read?_of_mem hz, hread, h.num ⟨i, hi⟩ hin, hrest,
      hrest', bind, Option.bind, pure]
    exact ⟨_, rfl, rfl⟩

theorem printRecord_congr {s st : TestStFileList} (hs : s.WellFormed) (h : SameRecord s st) :
    ∃ text, printRecord s = some text ∧ printRecord st = some text := by
  obtain ⟨files, hfiles, hfiles'⟩ :=
    printFiles_congr hs h s.nCount.toInt.toNat 0 (by omega)
  have hz : 0 ∈ s.szMemo.toList := Vector.mem_toList_iff.mpr hs.memo
  have hread := CString.read?_congr hz (by simp) h.memo
  rw [CString.read?_of_mem hz] at hread
  simp only [printRecord, CString.read?_of_mem hz, hread, h.count, hfiles, hfiles', bind,
    Option.bind, pure]
  exact ⟨_, rfl, rfl⟩

/-- `main` prints an admissible record twice in the same words, once before
and once after the round trip. -/
theorem mainReports_eq (hlib : lib.Converts) {s : TestStFileList} (hs : s.WellFormed)
    (hback : lib.ReadsBack (recordValue s)) :
    ∃ text, mainReports lib s = some (text, text) := by
  obtain ⟨st', hdec, hsame⟩ := decode_recordText hlib hs hback zeroRecord
  obtain ⟨text, hbefore, hafter⟩ := printRecord_congr hs hsame
  refine ⟨text, ?_⟩
  simp only [mainReports, hbefore, structDataToJsonString_eq hs, Option.getD_some, hdec, hafter,
    bind, Option.bind, pure]

end Comproject.Json
