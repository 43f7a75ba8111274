/-
Comproject.Json.DecodeTheorems — what `JsonStringToStructData` does to
the record, on every text.

The decoder writes to a record that the caller owns, and it can stop at
any field. Two statements say what is left there. It never READS the
record: the stores it makes, and how it ends, are fixed by the text
alone, and the stores are the first few of one fixed sequence
(`decode_is_a_trace`). And it ends well, without a store past the array,
exactly on the texts that `decode_succeeds_iff` describes, with exactly
the record given there.
`file_count` has to be there and to be a number; which number, nobody
looks at.
-/
import Comproject.Json.RecordTheorems

namespace Comproject.Json

variable {lib : JsonLib}

/-! ## Stores -/

/-- Where the decoder stores. -/
inductive Place where
  | memo
  | count
  | num (i : Fin 5)
  | file (i : Fin 5)
  deriving DecidableEq

/-- One store of the decoder. -/
inductive Store where
  | memo (s : Vector UInt8 20)
  | count (n : Int32)
  | num (i : Fin 5) (n : Int32)
  | file (i : Fin 5) (s : Vector UInt8 20)

def Store.place : Store → Place
  | .memo _ => .memo
  | .count _ => .count
  | .num i _ => .num i
  | .file i _ => .file i

def Store.apply (st : TestStFileList) : Store → TestStFileList
  | .memo s => { st with szMemo := s }
  | .count n => { st with nCount := n }
  | .num i n => st.setNum i n
  | .file i s => st.setFile i s

/-- The places of the entries, in the order of the loop. -/
def filePlaces : List Place := (List.finRange 5).flatMap (fun i => [.num i, .file i])

/-- All places, in the order of the function. `nCount` is stored twice. -/
def places : List Place := .memo :: .count :: .count :: filePlaces

/-- How the decoder ends. -/
inductive End where
  | succeeded
  | failed (printed : String)
  | outOfBounds (i : Nat)

def End.finish (st : TestStFileList) : End → Decoded
  | .succeeded => .returned 0 "" st
  | .failed printed => .returned (-1) printed st
  | .outOfBounds i => .outOfBounds i st

/-- The decoder `f` makes the same stores on every record, along `ps`,
and ends in the same way. -/
def Traced (ps : List Place) (f : TestStFileList → Decoded) : Prop :=
  ∃ (trace : List Store) (e : End), trace.map Store.place <+: ps ∧
    ∀ st, f st = End.finish (trace.foldl Store.apply st) e

theorem Traced.stop {ps : List Place} {f : TestStFileList → Decoded} (e : End)
    (h : ∀ st, f st = End.finish st e) : Traced ps f :=
  ⟨[], e, List.nil_prefix, h⟩

theorem Traced.store {ps : List Place} {f g : TestStFileList → Decoded} (x : Store)
    (h : ∀ st, f st = g (x.apply st)) (hg : Traced ps g) : Traced (x.place :: ps) f := by
  obtain ⟨trace, e, hplaces, hend⟩ := hg
  refine ⟨x :: trace, e, ?_, ?_⟩
  · exact List.cons_prefix_cons.mpr ⟨rfl, hplaces⟩
  · intro st
    rw [h, hend]
    rfl

/-- The places from an entry on. -/
theorem drop_filePlaces (i : Fin 5) :
    filePlaces.drop (2 * i.val) = .num i :: .file i :: filePlaces.drop (2 * (i.val + 1)) := by
  revert i
  decide

/-- The loop. A round makes its two stores or ends the function. -/
theorem decodeFiles_traced (n i : Nat) (arr : Value) :
    Traced (filePlaces.drop (2 * i)) (decodeFiles lib n i arr) := by
  induction n generalizing i arr with
  | zero => exact .stop .succeeded (fun _ => rfl)
  | succ n ih =>
    cases hel : arr.element lib i with
    | error ex => exact .stop (.failed _) (fun st => by simp only [decodeFiles, hel]; rfl)
    | ok p =>
      obtain ⟨arr', item⟩ := p
      cases hnum : item.subscript lib (ascii "num") with
      | error ex => exact .stop (.failed _) (fun st => by simp only [decodeFiles, hel, hnum]; rfl)
      | ok p =>
        obtain ⟨item', vnum⟩ := p
        cases hint : lib.asInt vnum with
        | error ex =>
          exact .stop (.failed _) (fun st => by simp only [decodeFiles, hel, hnum, hint]; rfl)
        | ok num =>
          by_cases hi : i < 5
          · rw [drop_filePlaces ⟨i, hi⟩]
            -- the number is stored whatever becomes of the string
            cases hfile : item'.subscript lib (ascii "file") with
            | error ex =>
              refine .store (.num ⟨i, hi⟩ num) (g := fun st => .caught ex st) ?_
                (.stop (.failed _) (fun _ => rfl))
              intro st
              simp only [decodeFiles, hel, hnum, hint, dif_pos hi, hfile]
              rfl
            | ok p =>
              obtain ⟨item'', vfile⟩ := p
              cases hstr : lib.asString vfile with
              | error ex =>
                refine .store (.num ⟨i, hi⟩ num) (g := fun st => .caught ex st) ?_
                  (.stop (.failed _) (fun _ => rfl))
                intro st
                simp only [decodeFiles, hel, hnum, hint, dif_pos hi, hfile, hstr]
                rfl
              | ok file =>
                refine .store (.num ⟨i, hi⟩ num) ?_
                  (.store (.file ⟨i, hi⟩ (CString.strncpy 20 file)) (fun _ => rfl)
                    (ih (i + 1) arr'))
                intro st
                simp only [decodeFiles, hel, hnum, hint, dif_pos hi, hfile, hstr]
                rfl
          · exact .stop (.outOfBounds i)
              (fun st => by simp only [decodeFiles, hel, hnum, hint, dif_neg hi]; rfl)

theorem decodeList_traced (value : Value) :
    Traced (.count :: filePlaces) (decodeList lib value) := by
  cases harr : value.subscript lib (ascii "file_list") with
  | error ex => exact .stop (.failed _) (fun st => by simp only [decodeList, harr]; rfl)
  | ok p =>
    exact .store (.count p.2.size.toInt32)
      (fun st => by simp only [decodeList, harr]; rfl)
      (decodeFiles_traced p.2.size.toInt32.toInt.toNat 0 p.2)

/-- A member that has to be there. -/
theorem decodeMember_traced {α : Type} {ps : List Place} {key missing : String}
    {read : Value → Except Exn α} {next : TestStFileList → Value → α → Decoded} (value : Value)
    (hnext : ∀ value x, Traced ps (fun st => next st value x)) :
    Traced ps (fun st => decodeMember lib key missing read (next st) value st) := by
  cases hm : value.subscript lib (ascii key) with
  | error ex => exact .stop (.failed _) (fun st => by simp only [decodeMember, hm]; rfl)
  | ok p =>
    obtain ⟨value', member⟩ := p
    cases hempty : member.empty with
    | true => exact .stop (.failed missing) (fun st => by simp only [decodeMember, hm, hempty]; rfl)
    | false =>
      cases hm' : value'.subscript lib (ascii key) with
      | error ex =>
        exact .stop (.failed _) (fun st => by simp only [decodeMember, hm, hempty, hm']; rfl)
      | ok p =>
        obtain ⟨value'', member'⟩ := p
        cases hread : read member' with
        | error ex =>
          exact .stop (.failed _)
            (fun st => by simp only [decodeMember, hm, hempty, hm', hread]; rfl)
        | ok x =>
          have hall := hnext value'' x
          obtain ⟨trace, e, hplaces, hend⟩ := hall
          refine ⟨trace, e, hplaces, fun st => ?_⟩
          simp only [decodeMember, hm, hempty, hm', hread]
          exact hend st

theorem decodeCount_traced (value : Value) :
    Traced (.count :: .count :: filePlaces) (decodeCount lib value) :=
  decodeMember_traced value (fun value n =>
    .store (.count n) (fun _ => rfl) (decodeList_traced value))

theorem decodeMemo_traced (value : Value) : Traced places (decodeMemo lib value) :=
  decodeMember_traced value (fun value strTemp =>
    .store (.memo (CString.strncpy 20 strTemp)) (fun _ => rfl) (decodeCount_traced value))

/-- **The decoder never reads the record.** For every text there are the
stores it makes and the way it ends, whatever the record held, up to a
store past the array; and the stores are the first ones of `places`:
`szMemo`, `nCount` twice, and the entries from the first on, each number
before its string. -/
theorem decode_is_a_trace (lib : JsonLib) (pJsonData : List UInt8) :
    ∃ (trace : List Store) (e : End),
      trace.map Store.place <+: places ∧
      ∀ st, jsonStringToStructData lib pJsonData st
        = End.finish (trace.foldl Store.apply st) e := by
  cases hparse : lib.parse pJsonData with
  | error ex =>
    exact Traced.stop (.failed _) (fun st => by simp only [jsonStringToStructData, hparse]; rfl)
  | ok parsed =>
    cases parsed with
    | none =>
      exact Traced.stop (.failed _) (fun st => by simp only [jsonStringToStructData, hparse]; rfl)
    | some value =>
      obtain ⟨trace, e, hplaces, hend⟩ := (decodeMemo_traced value : Traced places (decodeMemo lib value))
      refine ⟨trace, e, hplaces, fun st => ?_⟩
      simp only [jsonStringToStructData, hparse]
      exact hend st

/-! ## Success -/

/-- The record after a decoding that succeeds: the entries of the list
in place, and those beyond the count as they were. -/
structure Stored (lib : JsonLib) (memo : List UInt8) (arr : Value) (st st' : TestStFileList) :
    Prop where
  memo : st'.szMemo = CString.strncpy 20 memo
  count : st'.nCount = arr.size.toInt32
  entry : ∀ i : Fin 5, (i : Int) < st'.nCount.toInt → ∃ num file,
    readEntry lib arr i = .ok (num, file) ∧ st'.file i = ⟨num, CString.strncpy 20 file⟩
  rest : ∀ i : Fin 5, st'.nCount.toInt ≤ i → st'.file i = st.file i

/-- The memo and the count of the target do not matter. -/
theorem stored_head_iff (memo : List UInt8) (arr : Value) (st st' : TestStFileList)
    (szMemo : Vector UInt8 20) (n : Int32) :
    Stored lib memo arr { st with szMemo := szMemo, nCount := n } st' ↔
      Stored lib memo arr st st' :=
  ⟨fun h => ⟨h.memo, h.count, h.entry, h.rest⟩, fun h => ⟨h.memo, h.count, h.entry, h.rest⟩⟩

theorem TestStFileList.ext_file {s st : TestStFileList} (hmemo : s.szMemo = st.szMemo)
    (hcount : s.nCount = st.nCount) (hfile : ∀ i, s.file i = st.file i) : s = st := by
  obtain ⟨m, c, fs⟩ := s
  obtain ⟨m', c', fs'⟩ := st
  cases hmemo
  cases hcount
  have hfs : fs = fs' := Vector.ext (fun i hi => hfile ⟨i, hi⟩)
  rw [hfs]

/-- The loop over readable entries leaves those beyond its range alone. -/
theorem decodeFiles_beyond (n i : Nat) (arr : Value) (st : TestStFileList) (hle : i + n ≤ 5)
    (hsize : i + n ≤ arr.size.toNat) (hall : ∀ k, i ≤ k → k < i + n → Readable lib arr k)
    {code : Int} {printed : String} {st' : TestStFileList}
    (h : decodeFiles lib n i arr st = .returned code printed st') (j : Fin 5)
    (hj : i + n ≤ j.val) : st'.file j = st.file j := by
  induction n generalizing i st with
  | zero =>
    cases h
    rfl
  | succ n ih =>
    have hi : i < 5 := by omega
    have hround := decodeFiles_round lib n arr st ⟨i, hi⟩ (by simp only; omega)
    obtain ⟨⟨num, file⟩, hread⟩ := hall i (Nat.le_refl _) (by omega)
    simp only [hread, Round] at hround
    rw [hround] at h
    have hne : j ≠ ⟨i, hi⟩ := by
      intro he
      have hval : j.val = i := congrArg Fin.val he
      omega
    rw [ih (i + 1) _ (by omega) (by omega) (fun k hk hkn => hall k (by omega) (by omega)) h
      (by omega), TestStFileList.file_setFile_of_ne _ _ hne,
      TestStFileList.file_setNum_of_ne _ _ hne]

/-- Past the array no round returns 0. -/
theorem decodeFiles_past (n i : Nat) (arr : Value) (st : TestStFileList) (hi : ¬ i < 5)
    (printed : String) (st' : TestStFileList) :
    decodeFiles lib (n + 1) i arr st ≠ .returned 0 printed st' := by
  intro h
  simp only [decodeFiles, dif_neg hi] at h
  split at h
  · cases h
  · split at h
    · cases h
    · split at h
      · cases h
      · cases h

/-- The loop succeeds only within the array, and only over readable
entries. -/
theorem decodeFiles_succeeded (n i : Nat) (arr : Value) (st : TestStFileList) {printed : String}
    {st' : TestStFileList} (hsize : i + n ≤ arr.size.toNat)
    (h : decodeFiles lib n i arr st = .returned 0 printed st') :
    printed = "" ∧ (n = 0 ∨ i + n ≤ 5) ∧ ∀ k, i ≤ k → k < i + n → Readable lib arr k := by
  induction n generalizing i st with
  | zero =>
    cases h
    exact ⟨rfl, .inl rfl, fun k hk hkn => by omega⟩
  | succ n ih =>
    by_cases hi : i < 5
    · have hround := decodeFiles_round lib n arr st ⟨i, hi⟩ (by simp only; omega)
      cases hentry : readEntry lib arr i with
      | ok entry =>
        obtain ⟨num, file⟩ := entry
        simp only [hentry, Round] at hround
        rw [hround] at h
        obtain ⟨hprinted, hle, hall⟩ := ih (i + 1) _ (by omega) h
        refine ⟨hprinted, .inr (by omega), fun k hk hkn => ?_⟩
        rcases Nat.eq_or_lt_of_le hk with rfl | hlt
        · exact ⟨_, hentry⟩
        · exact hall k hlt (by omega)
      | error ex =>
        simp only [hentry, Round] at hround
        rcases hround with hdec | ⟨num, hdec⟩
        · rw [hdec] at h
          cases h
        · rw [hdec] at h
          cases h
    · exact absurd h (decodeFiles_past n i arr st hi printed st')

/-- From `file_list` on. -/
theorem decodeList_succeeds_iff {value arr : Value} (st : TestStFileList) (printed : String)
    (st' : TestStFileList) (harr : value.member lib (ascii "file_list") = .ok arr)
    (memo : List UInt8) (hmemo : st.szMemo = CString.strncpy 20 memo) :
    decodeList lib value st = .returned 0 printed st' ↔
      printed = "" ∧ arr.size.toInt32.toInt ≤ 5 ∧ Stored lib memo arr st st' := by
  have hdec : decodeList lib value st
      = decodeFiles lib arr.size.toInt32.toInt.toNat 0 arr
          { st with nCount := arr.size.toInt32 } := by
    simp [decodeList, Value.subscript, harr, Except.map]
  have hcount := toInt_toInt32 arr.size
  have hsize : arr.size.toInt32.toInt.toNat ≤ arr.size.toNat := by
    split at hcount <;> omega
  rw [hdec]
  constructor
  · intro h
    obtain ⟨hprinted, hle, hall⟩ := decodeFiles_succeeded _ 0 arr _ (by omega) h
    have hbeyond := decodeFiles_beyond _ 0 arr _ (by omega) (by omega) hall h
    obtain ⟨code, printed', st'', hret, hfiles, -⟩ := decodeFiles_spec lib arr
      arr.size.toInt32.toInt.toNat 0 { st with nCount := arr.size.toInt32 } (by omega) (by omega)
    rw [h] at hret
    cases hret
    have hc : st'.nCount.toInt = arr.size.toInt32.toInt := congrArg Int32.toInt hfiles.count
    refine ⟨hprinted, by omega, hfiles.memo.trans hmemo, hfiles.count, fun i hi => ?_,
      fun i hi => ?_⟩
    · obtain ⟨⟨num, file⟩, hread⟩ := hall i (Nat.zero_le _) (by omega)
      exact ⟨num, file, hread, hfiles.read i (Nat.zero_le _) (by omega)
        (fun k hk hki => hall k hk (by omega)) num file hread⟩
    · exact hbeyond i (by omega)
  · intro h
    obtain ⟨hprinted, hle, hst⟩ := h
    have hc : st'.nCount.toInt = arr.size.toInt32.toInt := congrArg Int32.toInt hst.count
    have hall : ∀ k, 0 ≤ k → k < 0 + arr.size.toInt32.toInt.toNat → Readable lib arr k := by
      intro k _ hk
      obtain ⟨num, file, hread, -⟩ := hst.entry ⟨k, by omega⟩ (by simp only; omega)
      exact ⟨_, hread⟩
    obtain ⟨code, printed', st'', hret, hfiles, hcode⟩ := decodeFiles_spec lib arr
      arr.size.toInt32.toInt.toNat 0 { st with nCount := arr.size.toInt32 } (by omega) (by omega)
    have hbeyond := decodeFiles_beyond _ 0 arr _ (by omega) (by omega) hall hret
    obtain ⟨rfl, rfl⟩ := hcode hall
    -- both records agree field by field
    have heq : st'' = st' := by
      refine TestStFileList.ext_file (hfiles.memo.trans (hmemo.trans hst.memo.symm))
        (hfiles.count.trans hst.count.symm) (fun i => ?_)
      by_cases hi : (i : Int) < st'.nCount.toInt
      · obtain ⟨num, file, hread, hfile⟩ := hst.entry i hi
        rw [hfile]
        exact hfiles.read i (Nat.zero_le _) (by omega) (fun k hk hki => hall k hk (by omega)) num
          file hread
      · rw [hst.rest i (by omega)]
        exact hbeyond i (by omega)
    rw [hret, hprinted, heq]

/-- From `file_count` on. -/
theorem decodeCount_succeeds_iff (value : Value) (st : TestStFileList) (printed : String)
    (st' : TestStFileList) (memo : List UInt8) (hmemo : st.szMemo = CString.strncpy 20 memo) :
    decodeCount lib value st = .returned 0 printed st' ↔
      printed = "" ∧
      ∃ n arr,
        value.Holds lib "file_count" lib.asInt n ∧
        value.member lib (ascii "file_list") = .ok arr ∧
        arr.size.toInt32.toInt ≤ 5 ∧
        Stored lib memo arr st st' := by
  unfold decodeCount
  rcases decodeMember_cases lib "file_count" "JsonStringToStructData file_count is not exist.\n"
      lib.asInt (fun value n => decodeList lib value { st with nCount := n }) value st with
    ⟨n, hn, hdec⟩ | ⟨hnone, text, hdec⟩
  · obtain ⟨arr, harr⟩ := hn.member_ok (ascii "file_list")
    have harr' : ((value.touch (ascii "file_count")).touch (ascii "file_count")).member lib
        (ascii "file_list") = .ok arr := by simpa using harr
    rw [hdec, decodeList_succeeds_iff { st with nCount := n } printed st' harr' memo hmemo,
      stored_head_iff memo arr st st' st.szMemo n]
    constructor
    · intro h
      obtain ⟨hprinted, hle, hst⟩ := h
      exact ⟨hprinted, n, arr, hn, harr, hle, hst⟩
    · intro h
      obtain ⟨hprinted, n', arr', hn', harr'', hle, hst⟩ := h
      rw [harr] at harr''
      cases harr''
      exact ⟨hprinted, hle, hst⟩
  · rw [hdec]
    constructor
    · intro h
      cases h
    · intro h
      obtain ⟨_, n, _, hn, _⟩ := h
      exact absurd hn (hnone n)

/-- From `memo` on. -/
theorem decodeMemo_succeeds_iff (value : Value) (st : TestStFileList) (printed : String)
    (st' : TestStFileList) :
    decodeMemo lib value st = .returned 0 printed st' ↔
      printed = "" ∧
      ∃ memo n arr,
        value.Holds lib "memo" lib.asString memo ∧
        value.Holds lib "file_count" lib.asInt n ∧
        value.member lib (ascii "file_list") = .ok arr ∧
        arr.size.toInt32.toInt ≤ 5 ∧
        Stored lib memo arr st st' := by
  unfold decodeMemo
  rcases decodeMember_cases lib "memo" "JsonStringToStructData memo is not exist.\n"
      lib.asString (fun value strTemp =>
        decodeCount lib value { st with szMemo := CString.strncpy 20 strTemp }) value st with
    ⟨memo, hmemo, hdec⟩ | ⟨hnone, text, hdec⟩
  · rw [hdec, decodeCount_succeeds_iff _ { st with szMemo := CString.strncpy 20 memo } printed
      st' memo rfl]
    simp only [Value.holds_touch, member_touch, stored_head_iff memo _ st st' _ st.nCount]
    constructor
    · intro h
      obtain ⟨hprinted, n, arr, hread⟩ := h
      exact ⟨hprinted, memo, n, arr, hmemo, hread⟩
    · intro h
      obtain ⟨hprinted, memo', n, arr, hmemo', hread⟩ := h
      obtain rfl := hmemo.unique hmemo'
      exact ⟨hprinted, n, arr, hread⟩
  · rw [hdec]
    constructor
    · intro h
      cases h
    · intro h
      obtain ⟨_, memo, _, _, hmemo, _⟩ := h
      exact absurd hmemo (hnone memo)

end Comproject.Json
