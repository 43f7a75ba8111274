/-
Comproject.Json.RecordTheorems — when decoding leaves a well-formed record.

The decoder copies strings with `strncpy` at the full width of the array
and takes its loop bound from the input. So a string of twenty bytes
leaves no terminator, and a list of six entries is stored past the end of
`szFileList`. `FitsRecord` says that neither happens, and it is EXACTLY
the condition under which the record is well formed after the call.

`decodeFiles_spec` is what one run of the loop does to the record: it
fills entries up to the first unreadable one and leaves the strings of the
others in place. `printRecord_isSome_iff` says what a well-formed record
is good for: it is a record that `main` can print.
-/
import Comproject.Json.Record

namespace Comproject.Json

variable {lib : JsonLib}

/-! ## Stores -/

namespace TestStFileList

variable (st : TestStFileList) (i j : Fin 5) (n : Int32) (s : Vector UInt8 20)

theorem file_setNum_self :
    (st.setNum i n).file i = { st.file i with nNum := n } := by
  simp [setNum, file]

theorem file_setFile_self :
    (st.setFile i s).file i = { st.file i with szFile := s } := by
  simp [setFile, file]

variable {i j}

theorem file_setNum_of_ne (h : j ≠ i) :
    (st.setNum i n).file j = st.file j := by
  have hne : i.val ≠ j.val := fun he => h (Fin.ext he.symm)
  simp [setNum, file, hne]

theorem file_setFile_of_ne (h : j ≠ i) :
    (st.setFile i s).file j = st.file j := by
  have hne : i.val ≠ j.val := fun he => h (Fin.ext he.symm)
  simp [setFile, file, hne]

end TestStFileList

/-! ## What `main` needs -/

theorem printFiles_isSome_iff (st : TestStFileList) (n i : Nat) (hi : i ≤ 5) :
    (printFiles st n i).isSome = true ↔
      i + n ≤ 5 ∧ ∀ j : Fin 5, i ≤ j.val → j.val < i + n → 0 ∈ (st.file j).szFile := by
  induction n generalizing i with
  | zero =>
    refine iff_of_true rfl ⟨hi, fun j hij hji => ?_⟩
    omega
  | succ n ih =>
    by_cases hlt : i < 5
    · by_cases hz : 0 ∈ (st.file ⟨i, hlt⟩).szFile
      · have hread := CString.read?_of_mem (Vector.mem_toList_iff.mpr hz)
        have hstep : (printFiles st (n + 1) i).isSome = (printFiles st n (i + 1)).isSome := by
          simp only [printFiles, dif_pos hlt, hread, bind, Option.bind, pure]
          cases printFiles st n (i + 1) <;> rfl
        rw [hstep, ih (i + 1) hlt]
        constructor
        · intro ⟨hle, hall⟩
          refine ⟨by omega, fun j hij hjn => ?_⟩
          by_cases hji : j.val = i
          · subst hji
            exact hz
          · exact hall j (by omega) (by omega)
        · intro ⟨hle, hall⟩
          exact ⟨by omega, fun j hij hjn => hall j (by omega) (by omega)⟩
      · have hnone : printFiles st (n + 1) i = none := by
          have hread : CString.read? (st.file ⟨i, hlt⟩).szFile.toList = none :=
            if_neg (fun h => hz (Vector.mem_toList_iff.mp h))
          simp only [printFiles, dif_pos hlt, hread, bind, Option.bind]
        rw [hnone]
        refine iff_of_false (by simp) (fun ⟨hle, hall⟩ => hz ?_)
        exact hall ⟨i, hlt⟩ (Nat.le_refl _) (by simp)
    · have hnone : printFiles st (n + 1) i = none := by
        simp only [printFiles, dif_neg hlt]
      rw [hnone]
      exact iff_of_false (by simp) (fun ⟨hle, _⟩ => by omega)

/-- A well-formed record is what `main` can print: with a count that is not
negative, printing reads inside the record exactly when it is well
formed. -/
theorem printRecord_isSome_iff {st : TestStFileList} (h0 : 0 ≤ st.nCount.toInt) :
    (printRecord st).isSome = true ↔ st.WellFormed := by
  by_cases hz : 0 ∈ st.szMemo
  · have hread := CString.read?_of_mem (Vector.mem_toList_iff.mpr hz)
    have hstep : (printRecord st).isSome = (printFiles st st.nCount.toInt.toNat 0).isSome := by
      simp only [printRecord, hread, bind, Option.bind, pure]
      cases printFiles st st.nCount.toInt.toNat 0 <;> rfl
    rw [hstep, printFiles_isSome_iff st _ 0 (Nat.zero_le _)]
    constructor
    · intro ⟨hle, hall⟩
      exact ⟨h0, by omega, hz, fun i hi => hall i (Nat.zero_le _) (by omega)⟩
    · intro hst
      have hle := hst.count_le
      exact ⟨by omega, fun j _ hj => hst.files j (by omega)⟩
  · have hnone : printRecord st = none := by
      have hread : CString.read? st.szMemo.toList = none :=
        if_neg (fun h => hz (Vector.mem_toList_iff.mp h))
      simp only [printRecord, hread, bind, Option.bind]
    rw [hnone]
    exact iff_of_false (by simp) (fun hst => hz hst.memo)

/-! ## One round of the loop -/

/-- What one round does with an entry: a readable one is stored and the
loop goes on, an unreadable one ends it, at most its number stored. -/
def Round (lib : JsonLib) (n : Nat) (arr : Value) (st : TestStFileList) (i : Fin 5) :
    Except Exn (Int32 × List UInt8) → Prop
  | .ok (num, file) =>
    decodeFiles lib (n + 1) i arr st
      = decodeFiles lib n (i + 1) arr ((st.setNum i num).setFile i (CString.strncpy 20 file))
  | .error ex =>
    decodeFiles lib (n + 1) i arr st = .caught ex st ∨
    ∃ num, decodeFiles lib (n + 1) i arr st = .caught ex (st.setNum i num)

theorem decodeFiles_round (lib : JsonLib) (n : Nat) (arr : Value) (st : TestStFileList)
    (i : Fin 5) (hsize : i.val < arr.size.toNat) :
    Round lib n arr st i (readEntry lib arr i) := by
  simp only [readEntry, bind, Except.bind, pure, Except.pure]
  obtain hel | ⟨item, hel⟩ := element_of_lt_size lib hsize
  · simp [Round, decodeFiles, hel]
  simp only [hel]
  cases hnum : item.member lib (ascii "num") with
  | error ex => simp [Round, decodeFiles, hel, Value.subscript, hnum, Except.map]
  | ok vnum =>
    cases hint : lib.asInt vnum with
    | error ex => simp [Round, decodeFiles, hel, Value.subscript, hnum, Except.map, hint]
    | ok num =>
      -- from here on the number is stored
      cases hfile : item.member lib (ascii "file") with
      | error ex =>
        simp only [hint]
        refine Or.inr ⟨num, ?_⟩
        simp [decodeFiles, hel, Value.subscript, hnum, Except.map, hint, hfile]
      | ok vfile =>
        cases hstr : lib.asString vfile with
        | error ex =>
          simp only [hint, hstr]
          refine Or.inr ⟨num, ?_⟩
          simp [decodeFiles, hel, Value.subscript, hnum, Except.map, hint, hfile, hstr]
        | ok file =>
          simp [Round, decodeFiles, hel, Value.subscript, hnum, Except.map, hint, hfile, hstr]

/-! ## The loop -/

/-- The record after the loop over the entries `i` to `i + n - 1`. -/
structure FilesRead (lib : JsonLib) (arr : Value) (i n : Nat) (st st' : TestStFileList) :
    Prop where
  memo : st'.szMemo = st.szMemo
  count : st'.nCount = st.nCount
  before : ∀ j : Fin 5, j.val < i → st'.file j = st.file j
  read : ∀ j : Fin 5, i ≤ j.val → j.val < i + n → (∀ k, i ≤ k → k < j.val → Readable lib arr k) →
    ∀ num file, readEntry lib arr j = .ok (num, file) →
    st'.file j = ⟨num, CString.strncpy 20 file⟩
  kept : ∀ j : Fin 5, i ≤ j.val → j.val < i + n →
    (∃ k, i ≤ k ∧ k ≤ j.val ∧ ¬ Readable lib arr k) →
    (st'.file j).szFile = (st.file j).szFile

/-- An unreadable entry, at most its number stored. -/
theorem FilesRead.of_unreadable {arr : Value} {i : Fin 5} {n : Nat} {st st' : TestStFileList}
    (hi : ¬ Readable lib arr i) (h : st' = st ∨ ∃ num, st' = st.setNum i num) :
    FilesRead lib arr i n st st' where
  memo := by obtain rfl | ⟨num, rfl⟩ := h <;> rfl
  count := by obtain rfl | ⟨num, rfl⟩ := h <;> rfl
  before := by
    intro j hj
    obtain rfl | ⟨num, rfl⟩ := h
    · rfl
    · exact st.file_setNum_of_ne num (by rintro rfl; omega)
  read := by
    intro j hij hjn hbelow num file hread
    have hji : j = i := by
      by_contra hne
      exact hi (hbelow i (Nat.le_refl _) (by omega))
    exact absurd ⟨_, hji ▸ hread⟩ hi
  kept := by
    intro j hij hjn hbad
    obtain rfl | ⟨num, rfl⟩ := h
    · rfl
    · by_cases hji : j = i
      · subst hji
        rw [st.file_setNum_self]
      · rw [st.file_setNum_of_ne num hji]

/-- A round that stored its entry, and the rounds after it. -/
theorem FilesRead.cons {arr : Value} {i : Fin 5} {n : Nat} {st st' : TestStFileList} {num : Int32}
    {file : List UInt8} (hread : readEntry lib arr i = .ok (num, file))
    (h : FilesRead lib arr (i + 1) n
      ((st.setNum i num).setFile i (CString.strncpy 20 file)) st') :
    FilesRead lib arr i (n + 1) st st' where
  memo := h.memo
  count := h.count
  before := by
    intro j hj
    have hne : j ≠ i := by rintro rfl; omega
    rw [h.before j (by omega), TestStFileList.file_setFile_of_ne _ _ hne,
      TestStFileList.file_setNum_of_ne _ _ hne]
  read := by
    intro j hij hjn hbelow num' file' hread'
    by_cases hji : j = i
    · subst hji
      rw [hread] at hread'
      cases hread'
      rw [h.before j (by omega), TestStFileList.file_setFile_self, TestStFileList.file_setNum_self]
    · have hne : j.val ≠ i.val := fun he => hji (Fin.ext he)
      exact h.read j (by omega) (by omega) (fun k hk hkj => hbelow k (by omega) hkj) num' file'
        hread'
  kept := by
    intro j hij hjn hbad
    obtain ⟨k, hik, hkj, hk⟩ := hbad
    -- the entry `i` is readable, so the unreadable one is a later one
    have hki : k ≠ i.val := by
      rintro rfl
      exact hk ⟨_, hread⟩
    have hne : j ≠ i := by rintro rfl; omega
    rw [h.kept j (by omega) (by omega) ⟨k, by omega, hkj, hk⟩,
      TestStFileList.file_setFile_of_ne _ _ hne, TestStFileList.file_setNum_of_ne _ _ hne]

/-- The loop within the array always returns, with 0 when every entry is
readable. -/
theorem decodeFiles_spec (lib : JsonLib) (arr : Value) (n i : Nat) (st : TestStFileList)
    (hle : i + n ≤ 5) (hsize : i + n ≤ arr.size.toNat) :
    ∃ code printed st', decodeFiles lib n i arr st = .returned code printed st' ∧
      FilesRead lib arr i n st st' ∧
      ((∀ k, i ≤ k → k < i + n → Readable lib arr k) → code = 0 ∧ printed = "") := by
  induction n generalizing i st with
  | zero =>
    refine ⟨0, "", st, rfl, ⟨rfl, rfl, fun _ _ => rfl, ?_, ?_⟩, fun _ => ⟨rfl, rfl⟩⟩
    · intro j hij hji
      omega
    · intro j hij hji
      omega
  | succ n ih =>
    have hround := decodeFiles_round lib n arr st ⟨i, by omega⟩ (by simp only; omega)
    cases hentry : readEntry lib arr i with
    | ok entry =>
      obtain ⟨num, file⟩ := entry
      simp only [hentry, Round] at hround
      obtain ⟨code, printed, st', hdec, hfiles, hcode⟩ := ih (i + 1) _ (by omega) (by omega)
      refine ⟨code, printed, st', hround.trans hdec,
        FilesRead.cons (i := ⟨i, by omega⟩) hentry hfiles, fun hall => ?_⟩
      exact hcode (fun k hk hkn => hall k (by omega) (by omega))
    | error ex =>
      have hbad : ¬ Readable lib arr i := by
        rintro ⟨entry, h⟩
        rw [hentry] at h
        cases h
      simp only [hentry, Round] at hround
      obtain hdec | ⟨num, hdec⟩ := hround
      · exact ⟨_, _, st, hdec, FilesRead.of_unreadable (i := ⟨i, by omega⟩) hbad (.inl rfl),
          fun hall => absurd (hall i (Nat.le_refl _) (by omega)) hbad⟩
      · exact ⟨_, _, _, hdec, FilesRead.of_unreadable (i := ⟨i, by omega⟩) hbad (.inr ⟨num, rfl⟩),
          fun hall => absurd (hall i (Nat.le_refl _) (by omega)) hbad⟩

/-- The record of an exit, as far as the loop leaves it alone. -/
def Decoded.Frame (st : TestStFileList) : Decoded → Prop
  | .returned _ _ st' | .outOfBounds _ st' => st'.szMemo = st.szMemo ∧ st'.nCount = st.nCount

theorem decodeFiles_frame (lib : JsonLib) (n i : Nat) (arr : Value) (st : TestStFileList) :
    (decodeFiles lib n i arr st).Frame st := by
  induction n generalizing i arr st with
  | zero => exact ⟨rfl, rfl⟩
  | succ n ih =>
    simp only [decodeFiles]
    split
    · exact ⟨rfl, rfl⟩
    · split
      · exact ⟨rfl, rfl⟩
      · split
        · exact ⟨rfl, rfl⟩
        · split
          · split
            · exact ⟨rfl, rfl⟩
            · split
              · exact ⟨rfl, rfl⟩
              · exact ih _ _ _
          · exact ⟨rfl, rfl⟩

/-! ## From `file_list` on -/

theorem toInt_toInt32 (x : UInt32) :
    x.toInt32.toInt
      = if 2 * x.toNat < 4294967296 then (x.toNat : Int) else (x.toNat : Int) - 4294967296 := by
  have h := BitVec.toInt_eq_toNat_cond x.toBitVec
  exact h

theorem zero_mem_strncpy_iff_short (s : List UInt8) :
    0 ∈ CString.strncpy 20 s ↔ ShortString s := by
  rw [CString.zero_mem_strncpy_iff]
  unfold ShortString
  omega

/-- Within the array the terminators are those of the short strings read
and of the strings kept. -/
theorem FilesRead.files_iff {arr : Value} {n : Nat} {st st' : TestStFileList}
    (h : FilesRead lib arr 0 n st st') (hn : n = arr.size.toNat) (hle : n ≤ 5) :
    (∀ i : Fin 5, i.val < n → 0 ∈ (st'.file i).szFile) ↔ FilesFit lib arr st := by
  subst hn
  constructor
  · intro hz
    refine ⟨hle, fun i hi hbelow num file hread => ?_, fun i hi hbad => ?_⟩
    · have hzero := hz i hi
      rw [h.read i (Nat.zero_le _) (by omega) (fun k _ hk => hbelow k hk) num file hread] at hzero
      exact (zero_mem_strncpy_iff_short file).mp hzero
    · obtain ⟨k, hk, hbad⟩ := hbad
      rw [← h.kept i (Nat.zero_le _) (by omega) ⟨k, Nat.zero_le _, hk, hbad⟩]
      exact hz i hi
  · intro hfit i hi
    by_cases hall : ∀ k ≤ i.val, Readable lib arr k
    · obtain ⟨⟨num, file⟩, hread⟩ := hall i (Nat.le_refl _)
      rw [h.read i (Nat.zero_le _) (by omega) (fun k _ hk => hall k (Nat.le_of_lt hk)) num file
        hread]
      exact (zero_mem_strncpy_iff_short file).mpr
        (hfit.short i hi (fun k hk => hall k (Nat.le_of_lt hk)) num file hread)
    · simp only [not_forall] at hall
      obtain ⟨k, hk, hbad⟩ := hall
      rw [h.kept i (Nat.zero_le _) (by omega) ⟨k, Nat.zero_le _, hk, hbad⟩]
      exact hfit.kept i hi ⟨k, hk, hbad⟩

theorem decodeList_wellFormed_iff {value arr : Value} (st : TestStFileList)
    (harr : value.member lib (ascii "file_list") = .ok arr) :
    (decodeList lib value st).WellFormed ↔ 0 ∈ st.szMemo ∧ FilesFit lib arr st := by
  have hdec : decodeList lib value st
      = decodeFiles lib arr.size.toInt32.toInt.toNat 0 arr
          { st with nCount := arr.size.toInt32 } := by
    simp [decodeList, Value.subscript, harr, Except.map]
  have hcount := toInt_toInt32 arr.size
  rw [hdec]
  by_cases hle : arr.size.toNat ≤ 5
  · rw [if_pos (by omega)] at hcount
    have hn : arr.size.toInt32.toInt.toNat = arr.size.toNat := by omega
    rw [hn]
    obtain ⟨code, printed, st', hret, hfiles, -⟩ :=
      decodeFiles_spec lib arr arr.size.toNat 0 { st with nCount := arr.size.toInt32 }
        (by omega) (by omega)
    rw [hret]
    have hfit := hfiles.files_iff rfl hle
    have hc : st'.nCount.toInt = arr.size.toNat := by
      rw [hfiles.count]
      exact hcount
    constructor
    · intro hwf
      have hz := hfit.mp (fun i hi => hwf.files i (by rw [hc]; omega))
      exact ⟨hfiles.memo ▸ hwf.memo, hz.count_le, hz.short, hz.kept⟩
    · intro ⟨hmemo, hz⟩
      refine ⟨by omega, by omega, hfiles.memo ▸ hmemo, fun i hi => ?_⟩
      exact hfit.mpr ⟨hz.count_le, hz.short, hz.kept⟩ i (by omega)
  · -- the count stays outside the array, whatever the loop does
    constructor
    · intro hwf
      exfalso
      have hframe := decodeFiles_frame lib arr.size.toInt32.toInt.toNat 0 arr
        { st with nCount := arr.size.toInt32 }
      cases hres : decodeFiles lib arr.size.toInt32.toInt.toNat 0 arr
          { st with nCount := arr.size.toInt32 } with
      | outOfBounds i st' =>
        rw [hres] at hwf
        exact hwf
      | returned code printed st' =>
        rw [hres] at hwf hframe
        have hc : st'.nCount = arr.size.toInt32 := hframe.2
        have hlo := hwf.count_nonneg
        have hhi := hwf.count_le
        have hlt := arr.size.toNat_lt
        rw [hc] at hlo hhi
        split at hcount <;> omega
    · intro ⟨_, hfit⟩
      exact absurd hfit.count_le hle

/-! ## Members that have to be there -/

section Members

variable {α : Type} {key : String} {read : Value → Except Exn α}

theorem Value.Holds.unique {v : Value} {x y : α} (hx : v.Holds lib key read x)
    (hy : v.Holds lib key read y) : x = y := by
  obtain ⟨m, hm, -, hread⟩ := hx
  obtain ⟨m', hm', -, hread'⟩ := hy
  rw [hm] at hm'
  cases hm'
  rw [hread] at hread'
  cases hread'
  rfl

@[simp] theorem Value.holds_touch {v : Value} {k : List UInt8} {x : α} :
    (v.touch k).Holds lib key read x ↔ v.Holds lib key read x := by
  simp [Value.Holds]

/-- A value with one readable member can be asked for any other. -/
theorem Value.Holds.member_ok {v : Value} {x : α} (h : v.Holds lib key read x)
    (key' : List UInt8) : ∃ m, v.member lib key' = .ok m := by
  obtain ⟨m, hm, -, -⟩ := h
  cases v with
  | nullValue | objectValue => exact ⟨_, rfl⟩
  | intValue | uintValue | realValue | stringValue | booleanValue | arrayValue => cases hm

/-- The member is read and the rest follows, or the call returns -1 with
the record as it was. -/
theorem decodeMember_cases (lib : JsonLib) (key missing : String) (read : Value → Except Exn α)
    (next : Value → α → Decoded) (value : Value) (st : TestStFileList) :
    (∃ x, value.Holds lib key read x ∧
      decodeMember lib key missing read next value st
        = next ((value.touch (ascii key)).touch (ascii key)) x) ∨
    ((∀ x, ¬ value.Holds lib key read x) ∧
      ∃ printed, decodeMember lib key missing read next value st = .returned (-1) printed st) := by
  cases hm : value.member lib (ascii key) with
  | error ex =>
    right
    refine ⟨fun x ⟨m, hm', _⟩ => ?_, ?_⟩
    · rw [hm] at hm'
      cases hm'
    · simp [decodeMember, Value.subscript, hm, Except.map, Decoded.caught]
  | ok m =>
    cases hempty : m.empty with
    | true =>
      right
      refine ⟨fun x ⟨m', hm', hne, _⟩ => ?_, ?_⟩
      · rw [hm] at hm'
        cases hm'
        rw [hempty] at hne
        cases hne
      · simp [decodeMember, Value.subscript, hm, Except.map, hempty]
    | false =>
      cases hread : read m with
      | error ex =>
        right
        refine ⟨fun x ⟨m', hm', _, hread'⟩ => ?_, ?_⟩
        · rw [hm] at hm'
          cases hm'
          rw [hread] at hread'
          cases hread'
        · simp [decodeMember, Value.subscript, hm, Except.map, hempty, hread, Decoded.caught]
      | ok x =>
        left
        refine ⟨x, ⟨m, hm, hempty, hread⟩, ?_⟩
        simp [decodeMember, Value.subscript, hm, Except.map, hempty, hread]

theorem decodeMember_of_holds {value : Value} {x : α} (hx : value.Holds lib key read x)
    (missing : String) (next : Value → α → Decoded) (st : TestStFileList) :
    decodeMember lib key missing read next value st
      = next ((value.touch (ascii key)).touch (ascii key)) x := by
  obtain ⟨y, hy, hdec⟩ | ⟨hnone, -⟩ := decodeMember_cases lib key missing read next value st
  · rw [hdec, hx.unique hy]
  · exact absurd hx (hnone x)

end Members

/-! ## The whole decoder -/

theorem decodeCount_wellFormed_iff {value arr : Value} {st : TestStFileList}
    (hst : st.WellFormed) (szMemo : Vector UInt8 20)
    (harr : value.member lib (ascii "file_list") = .ok arr) :
    (decodeCount lib value { st with szMemo := szMemo }).WellFormed ↔
      0 ∈ szMemo ∧ ∀ n, value.Holds lib "file_count" lib.asInt n → FilesFit lib arr st := by
  unfold decodeCount
  obtain ⟨n, hn, hdec⟩ | ⟨hnone, printed, hdec⟩ := decodeMember_cases lib "file_count"
      "JsonStringToStructData file_count is not exist.\n" lib.asInt
      (fun value n => decodeList lib value { st with szMemo := szMemo, nCount := n }) value
      { st with szMemo := szMemo }
  · have harr' : ((value.touch (ascii "file_count")).touch (ascii "file_count")).member lib
        (ascii "file_list") = .ok arr := by simpa using harr
    rw [hdec, decodeList_wellFormed_iff _ harr']
    constructor
    · intro ⟨hmemo, hfit⟩
      exact ⟨hmemo, fun _ _ => ⟨hfit.count_le, hfit.short, hfit.kept⟩⟩
    · intro ⟨hmemo, hfit⟩
      have hfit := hfit n hn
      exact ⟨hmemo, hfit.count_le, hfit.short, hfit.kept⟩
  · rw [hdec]
    constructor
    · intro hwf
      exact ⟨hwf.memo, fun n hn => absurd hn (hnone n)⟩
    · intro ⟨hmemo, _⟩
      exact ⟨hst.count_nonneg, hst.count_le, hmemo, hst.files⟩

/-- Decoding into a well-formed record stays inside `szFileList` and leaves
a well-formed record exactly when the input fits the record. -/
theorem decode_wellFormed_iff_fitsRecord (lib : JsonLib) (pJsonData : List UInt8)
    (st : TestStFileList) (hst : st.WellFormed) :
    (jsonStringToStructData lib pJsonData st).WellFormed ↔ FitsRecord lib pJsonData st := by
  unfold jsonStringToStructData FitsRecord
  cases hparse : lib.parse pJsonData with
  | error ex => simp [Decoded.WellFormed, Decoded.caught, hst]
  | ok result =>
    cases result with
    | none => simp [Decoded.WellFormed, hst]
    | some value =>
      simp only [Except.ok.injEq, Option.some.injEq, decodeMemo]
      obtain ⟨memo, hmemo, hdec⟩ | ⟨hnone, printed, hdec⟩ := decodeMember_cases lib "memo"
          "JsonStringToStructData memo is not exist.\n" lib.asString
          (fun value strTemp =>
            decodeCount lib value { st with szMemo := CString.strncpy 20 strTemp }) value st
      · obtain ⟨arr, harr⟩ := hmemo.member_ok (ascii "file_list")
        have harr' : ((value.touch (ascii "memo")).touch (ascii "memo")).member lib
            (ascii "file_list") = .ok arr := by simpa using harr
        rw [hdec, decodeCount_wellFormed_iff hst _ harr', zero_mem_strncpy_iff_short]
        simp only [Value.holds_touch]
        constructor
        · rintro ⟨hshort, hfit⟩ value' memo' rfl hmemo'
          obtain rfl := hmemo'.unique hmemo
          refine ⟨hshort, fun n arr' hn harr' => ?_⟩
          rw [harr] at harr'
          cases harr'
          exact hfit n hn
        · intro h
          obtain ⟨hshort, hfit⟩ := h value memo rfl hmemo
          exact ⟨hshort, fun n hn => hfit n arr hn harr⟩
      · rw [hdec]
        constructor
        · rintro - value' memo' rfl hmemo'
          exact absurd hmemo' (hnone memo')
        · intro _
          exact hst

/-- The library as far as one text goes: the parser knows that text only,
and the conversions are those of integers, strings and null. -/
def sampleLib (text : List UInt8) (value : Value) : JsonLib where
  parse t := .ok (if t = text then some value else none)
  toStyledString _ := text
  asInt
    | .intValue n =>
      if n.toInt32.toInt64 = n then .ok n.toInt32
      else .error "LargestInt out of Int range"
    | .nullValue => .ok 0
    | _ => .error "Value is not convertible to Int."
  asString
    | .stringValue s => .ok s
    | .nullValue => .ok []
    | _ => .error "Type is not convertible to string"
  notObject := "in Json::Value::resolveReference(key, end): requires objectValue"
  notArray := "in Json::Value::operator[](ArrayIndex): requires arrayValue"

/-- An entry of `file_list`. -/
def fileItem (file : String) (num : Int64) : Value :=
  .objectValue [(ascii "file", .stringValue (ascii file)), (ascii "num", .intValue num)]

def recordRoot (memo : String) (count : Int64) (files : List Value) : Value :=
  .objectValue [(ascii "file_count", .intValue count), (ascii "file_list", .arrayValue files),
    (ascii "memo", .stringValue (ascii memo))]

/-- The second entry is a number, so the loop ends there by an
exception. -/
def badEntryText : List UInt8 :=
  ascii "\x7b\"memo\":\"jsoncppmemo\",\"file_count\":2,\"file_list\":[" ++
  ascii "\x7b\"num\":1,\"file\":\"file1\"\x7d,7]\x7d"

def badEntryLib : JsonLib :=
  sampleLib badEntryText (recordRoot "jsoncppmemo" 2 [fileItem "file1" 1, .intValue 7])

theorem fitsRecord_badEntry :
    zeroRecord.WellFormed ∧ FitsRecord badEntryLib badEntryText zeroRecord := by
  have hzero : zeroRecord.WellFormed := by decide
  exact ⟨hzero, (decode_wellFormed_iff_fitsRecord badEntryLib badEntryText zeroRecord hzero).mp
    (by decide)⟩

/-- A memo of twenty bytes. -/
def longMemo : String := "01234567890123456789"

def longMemoText : List UInt8 :=
  ascii "\x7b\"memo\":\"" ++ ascii longMemo ++ ascii "\",\"file_count\":0,\"file_list\":[]\x7d"

def longMemoLib : JsonLib := sampleLib longMemoText (recordRoot longMemo 0 [])

def entryText : List UInt8 := ascii "\x7b\"num\":1,\"file\":\"f\"\x7d"

/-- Six entries. -/
def sixFilesText : List UInt8 :=
  ascii "\x7b\"memo\":\"m\",\"file_count\":6,\"file_list\":[" ++
  entryText ++ ascii "," ++ entryText ++ ascii "," ++ entryText ++ ascii "," ++
  entryText ++ ascii "," ++ entryText ++ ascii "," ++ entryText ++ ascii "]\x7d"

def sixFilesLib : JsonLib :=
  sampleLib sixFilesText (recordRoot "m" 6 (List.replicate 6 (fileItem "f" 1)))

/-- The record with five of them, and a count of six. -/
def fiveFiles : TestStFileList where
  szMemo := CString.strncpy 20 (ascii "m")
  nCount := 6
  szFileList := Vector.replicate 5 ⟨1, CString.strncpy 20 (ascii "f")⟩

/-- The first call returns 0 with a memo that has no terminator, the second
stores past the end of the array. -/
theorem decode_breaks_record :
    zeroRecord.WellFormed
    ∧ (∃ st, jsonStringToStructData longMemoLib longMemoText zeroRecord = .returned 0 "" st ∧
        ¬ st.WellFormed)
    ∧ jsonStringToStructData sixFilesLib sixFilesText zeroRecord = .outOfBounds 5 fiveFiles := by
  refine ⟨by decide, ⟨{ zeroRecord with szMemo := CString.strncpy 20 (ascii longMemo) }, rfl, ?_⟩,
    by decide +kernel⟩
  intro hwf
  have hshort := (zero_mem_strncpy_iff_short (ascii longMemo)).mp hwf.memo
  exact absurd hshort (by decide)

end Comproject.Json
