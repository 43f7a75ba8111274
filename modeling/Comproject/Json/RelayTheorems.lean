/-
Comproject.Json.RelayTheorems — the text of a record, passed on and on.

The text says of a record what `SameRecord` keeps of it, no more and no
less: two admissible records have one text if and only if they are the
same in that sense (`encode_eq_iff_sameRecord`). What lies behind a
terminator or beyond the count never gets into the text, and nothing else
is lost.

So a record can be passed from program to program. Each decodes the text
it is handed over whatever its own record held, and encodes that record
for the next; every text on the way is the first one
(`relay_keeps_record`).
-/
import Comproject.Json.RoundTripTheorems

namespace Comproject.Json

variable {lib : JsonLib} {s t st : TestStFileList}

/-! ## The same record -/

theorem SameRecord.symm (h : SameRecord s t) : SameRecord t s where
  count := h.count.symm
  memo := h.memo.symm
  num i hi := (h.num i (h.count ▸ hi)).symm
  file i hi := (h.file i (h.count ▸ hi)).symm

theorem SameRecord.trans (h : SameRecord s t) (h' : SameRecord t st) : SameRecord s st where
  count := h'.count.trans h.count
  memo := h'.memo.trans h.memo
  num i hi := (h'.num i (h.count ▸ hi)).trans (h.num i hi)
  file i hi := (h'.file i (h.count ▸ hi)).trans (h.file i hi)

/-- A buffer that reads like a terminated one is terminated. -/
theorem zero_mem_of_upToZero_eq {buf buf' : Vector UInt8 20} (h : 0 ∈ buf)
    (heq : CString.upToZero buf'.toList = CString.upToZero buf.toList) : 0 ∈ buf' := by
  have hz := Vector.mem_toList_iff.mpr h
  have hread := CString.read?_congr hz (by simp) heq
  rw [CString.read?_of_mem hz, CString.read?] at hread
  split at hread
  · exact Vector.mem_toList_iff.mp ‹_›
  · cases hread

theorem SameRecord.wellFormed (h : SameRecord s t) (hs : s.WellFormed) : t.WellFormed where
  count_nonneg := h.count ▸ hs.count_nonneg
  count_le := h.count ▸ hs.count_le
  memo := zero_mem_of_upToZero_eq hs.memo h.memo
  files i hi :=
    have hi' : (i : Int) < s.nCount.toInt := h.count ▸ hi
    zero_mem_of_upToZero_eq (hs.files i hi') (h.file i hi')

theorem SameRecord.itemValue_eq (h : SameRecord s t) {i : Fin 5} (hi : (i : Int) < s.nCount.toInt) :
    itemValue (t.file i) = itemValue (s.file i) := by
  unfold itemValue
  rw [h.num i hi, h.file i hi]

theorem SameRecord.items_eq (h : SameRecord s t) :
    t.files.map itemValue = s.files.map itemValue := by
  apply List.ext_getElem
  · simp [TestStFileList.files, h.count]
  · intro i hit his
    simp only [List.length_map, TestStFileList.files, List.length_take, Vector.length_toList]
      at his
    have hi : i < 5 := by omega
    have hitem := h.itemValue_eq (i := ⟨i, hi⟩) (by simp only; omega)
    simpa [TestStFileList.files, TestStFileList.file] using hitem

/-- The same record has the same value. -/
theorem SameRecord.recordValue_eq (h : SameRecord s t) : recordValue t = recordValue s := by
  unfold recordValue
  rw [h.count, h.items_eq, h.memo]

/-! ## One text, one record -/

/-- **The text is the record.** Two admissible records are encoded to the
same text if and only if they agree on the count, the memo, and the
numbers and strings that the count covers. -/
theorem encode_eq_iff_sameRecord (lib : JsonLib) (hlib : lib.Converts) (s t : TestStFileList)
    (hs : s.WellFormed) (ht : t.WellFormed) (hbs : lib.ReadsBack (recordValue s))
    (hbt : lib.ReadsBack (recordValue t)) :
    structDataToJsonString lib s = structDataToJsonString lib t ↔ SameRecord s t := by
  constructor
  · intro heq
    -- decode the one text over a cleared record: the result is both
    obtain ⟨s', hdec, hsame⟩ := decode_recordText hlib hs hbs zeroRecord
    obtain ⟨t', hdec', hsame'⟩ := decode_recordText hlib ht hbt zeroRecord
    rw [structDataToJsonString_eq hs, structDataToJsonString_eq ht] at heq
    have htext : CString.upToZero (lib.toStyledString (recordValue s))
        = CString.upToZero (lib.toStyledString (recordValue t)) := by
      injection heq with _ _ hdata
      exact Option.some.inj hdata
    rw [htext, hdec'] at hdec
    injection hdec with _ _ hrecord
    rw [← hrecord] at hsame
    exact hsame.trans hsame'.symm
  · intro h
    rw [structDataToJsonString_eq hs, structDataToJsonString_eq ht, h.recordValue_eq]

/-- A record with something left over beyond its count. -/
def oneFileDirty : TestStFileList :=
  { oneFile with szFileList := oneFile.szFileList.set 3 ⟨7, Vector.replicate 20 42⟩ }

theorem encode_eq_iff_sameRecord_dirty :
    oneFile ≠ oneFileDirty ∧
    (structDataToJsonString oneFileLib oneFile = structDataToJsonString oneFileLib oneFileDirty ↔
      SameRecord oneFile oneFileDirty) := by
  have hvalue : recordValue oneFileDirty = recordValue oneFile := rfl
  have hback : oneFileLib.ReadsBack (recordValue oneFile) :=
    ⟨by decide, by simp [oneFileLib, sampleLib]⟩
  exact ⟨by decide, encode_eq_iff_sameRecord oneFileLib (sampleLib_converts _ _) oneFile
    oneFileDirty (by decide) (by decide) hback (hvalue ▸ hback)⟩

/-! ## Passing it on -/

/-- Encode the record, decode the text over the next target, and so on;
`none` when a call fails. -/
def relay (lib : JsonLib) : List TestStFileList → TestStFileList → Option TestStFileList
  | [], s => some s
  | st :: targets, s =>
    match structDataToJsonString lib s with
    | .returned _ _ (some pJsonData) =>
      match jsonStringToStructData lib pJsonData st with
      | .returned 0 _ s' => relay lib targets s'
      | _ => none
    | _ => none

/-- **Any number of round trips.** An admissible record that is passed on
over any targets arrives: no call fails, and what arrives is admissible,
is the same record, and has the same text. -/
theorem relay_keeps_record (lib : JsonLib) (hlib : lib.Converts) (targets : List TestStFileList)
    (s : TestStFileList) (hs : s.WellFormed) (hback : lib.ReadsBack (recordValue s)) :
    ∃ s', relay lib targets s = some s' ∧ s'.WellFormed ∧ SameRecord s s' ∧
      structDataToJsonString lib s' = structDataToJsonString lib s := by
  induction targets generalizing s with
  | nil =>
    have hrefl : SameRecord s s := ⟨rfl, rfl, fun _ _ => rfl, fun _ _ => rfl⟩
    exact ⟨s, rfl, hs, hrefl, rfl⟩
  | cons st targets ih =>
    obtain ⟨s₁, hdec, hsame⟩ := decode_recordText hlib hs hback st
    have hs₁ := hsame.wellFormed hs
    obtain ⟨s', hrelay, hs', hsame', htext⟩ := ih s₁ hs₁ (hsame.recordValue_eq ▸ hback)
    refine ⟨s', ?_, hs', hsame.trans hsame', ?_⟩
    · simp only [relay, structDataToJsonString_eq hs, hdec]
      exact hrelay
    · rw [htext, structDataToJsonString_eq hs₁, structDataToJsonString_eq hs, hsame.recordValue_eq]

/-- Over one target that was cleared and one that was not. -/
theorem relay_keeps_record_oneFile :
    ∃ s', relay oneFileLib
        [zeroRecord, ⟨Vector.replicate 20 42, -3, Vector.replicate 5 ⟨9, Vector.replicate 20 42⟩⟩]
        oneFile = some s' ∧
      s'.WellFormed ∧ SameRecord oneFile s' ∧
      structDataToJsonString oneFileLib s' = structDataToJsonString oneFileLib oneFile :=
  relay_keeps_record oneFileLib (sampleLib_converts _ _) _ oneFile (by decide)
    ⟨by decide, by simp [oneFileLib, sampleLib]⟩

end Comproject.Json
