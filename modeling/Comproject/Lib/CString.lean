/-
Comproject.Lib.CString — C strings inside byte buffers.

A C string is the run of bytes before the first zero byte. Everything
that takes a `const char *` and no length sees that run and nothing
after it, so a value that carries its own length (a `std::string`, a
reply payload) survives the passage only when it holds no zero byte.
`upToZero` is the run, `read?` is the read that needs a terminator in
the buffer, and `strncpy` is the fixed-width copy, which writes a
terminator only when one fits.
-/
import Mathlib.Data.List.TakeWhile
import Mathlib.Tactic.Common

namespace CString

/-- The bytes before the first zero byte. -/
def upToZero (bs : List UInt8) : List UInt8 := bs.takeWhile (fun b => b != 0)

/-- Reading a C string out of a buffer. `none` when the buffer holds no
zero byte: the read then runs past the end of the buffer. -/
def read? (buf : List UInt8) : Option (List UInt8) :=
  if 0 ∈ buf then some (upToZero buf) else none

/-- `strncpy(dst, src, n)`: the C string `src`, cut after `n` bytes and
padded with zero bytes to `n`. All `n` bytes of the target are written,
so the old contents do not matter. -/
def strncpy (n : Nat) (src : List UInt8) : Vector UInt8 n :=
  Vector.ofFn (fun i => (upToZero src)[i.val]?.getD 0)

/-! ## The run before the first zero -/

@[simp] theorem upToZero_nil : upToZero [] = [] := rfl

theorem upToZero_cons (b : UInt8) (bs : List UInt8) :
    upToZero (b :: bs) = if b = 0 then [] else b :: upToZero bs := by
  by_cases hb : b = 0 <;> simp [upToZero, hb]

theorem zero_notMem_upToZero (bs : List UInt8) : 0 ∉ upToZero bs := by
  intro hmem
  have := List.mem_takeWhile_imp hmem
  simp at this

/-- The run is the whole list exactly when there is no zero byte. -/
theorem upToZero_eq_self_iff (bs : List UInt8) : upToZero bs = bs ↔ 0 ∉ bs := by
  constructor
  · intro h
    rw [← h]
    exact zero_notMem_upToZero bs
  · intro h
    refine List.takeWhile_eq_self_iff.mpr ?_
    intro b hb
    have : b ≠ 0 := fun h0 => h (h0 ▸ hb)
    simpa using this

theorem upToZero_of_notMem {bs : List UInt8} (h : 0 ∉ bs) : upToZero bs = bs :=
  (upToZero_eq_self_iff bs).mpr h

/-- What follows the first zero byte is never seen. -/
theorem upToZero_append_zero (bs rest : List UInt8) :
    upToZero (bs ++ 0 :: rest) = upToZero bs := by
  induction bs with
  | nil => simp [upToZero]
  | cons b bs ih =>
    rw [List.cons_append, upToZero_cons, upToZero_cons, ih]

theorem length_upToZero_le (bs : List UInt8) : (upToZero bs).length ≤ bs.length :=
  (List.takeWhile_prefix _).length_le

/-! ## Reading from a buffer -/

/-- A terminator after the payload makes the read succeed. It gives the
payload up to ITS first zero byte, not the payload. -/
theorem read?_append_zero (payload rest : List UInt8) :
    read? (payload ++ 0 :: rest) = some (upToZero payload) := by
  rw [read?, if_pos (by simp), upToZero_append_zero]

theorem read?_of_mem {buf : List UInt8} (h : 0 ∈ buf) : read? buf = some (upToZero buf) :=
  if_pos h

/-- A buffer with a terminator holds a string shorter than itself. -/
theorem length_upToZero_lt {buf : List UInt8} (h : 0 ∈ buf) :
    (upToZero buf).length < buf.length := by
  refine Nat.lt_of_le_of_ne (length_upToZero_le buf) ?_
  intro hlen
  have hself : upToZero buf = buf :=
    (List.takeWhile_prefix _).eq_of_length hlen
  exact (upToZero_eq_self_iff buf).mp hself h

/-- Two buffers of one size with the same string are read alike. -/
theorem read?_congr {buf buf' : List UInt8} (h : 0 ∈ buf) (hlen : buf'.length = buf.length)
    (heq : upToZero buf' = upToZero buf) : read? buf' = read? buf := by
  have hlt := length_upToZero_lt h
  -- a buffer without a terminator would be its own string, and too long
  have h' : 0 ∈ buf' := by
    by_contra hno
    rw [← heq, upToZero_of_notMem hno] at hlt
    omega
  rw [read?_of_mem h, read?_of_mem h', heq]

/-! ## `strncpy` -/

theorem getElem_strncpy {n : Nat} (src : List UInt8) (i : Nat) (hi : i < n) :
    (strncpy n src)[i] = (upToZero src)[i]?.getD 0 := by
  simp [strncpy]

/-- The copy is terminated exactly when the string is shorter than the
target. -/
theorem zero_mem_strncpy_iff {n : Nat} (src : List UInt8) :
    0 ∈ strncpy n src ↔ (upToZero src).length < n := by
  rw [Vector.mem_iff_getElem]
  constructor
  · rintro ⟨i, hi, h0⟩
    rw [getElem_strncpy] at h0
    by_contra hlen
    have hlt : i < (upToZero src).length := by omega
    rw [List.getElem?_eq_getElem hlt, Option.getD_some] at h0
    exact zero_notMem_upToZero src (h0 ▸ List.getElem_mem hlt)
  · intro hlen
    refine ⟨(upToZero src).length, hlen, ?_⟩
    rw [getElem_strncpy, List.getElem?_eq_none (Nat.le_refl _), Option.getD_none]

/-- A string that fits is padded with zero bytes. -/
theorem toList_strncpy {n : Nat} {src : List UInt8} (h : (upToZero src).length ≤ n) :
    (strncpy n src).toList = upToZero src ++ List.replicate (n - (upToZero src).length) 0 := by
  apply List.ext_getElem
  · simp only [Vector.length_toList, List.length_append, List.length_replicate]
    omega
  · intro i h1 h2
    simp only [Vector.length_toList] at h1
    rw [Vector.getElem_toList, getElem_strncpy]
    by_cases hi : i < (upToZero src).length
    · rw [List.getElem_append_left hi, List.getElem?_eq_getElem hi, Option.getD_some]
    · rw [List.getElem_append_right (by omega), List.getElem?_eq_none (by omega),
        Option.getD_none, List.getElem_replicate]

/-- Reading back a copy that fits gives the string. -/
theorem upToZero_strncpy {n : Nat} {src : List UInt8} (h : (upToZero src).length < n) :
    upToZero (strncpy n src).toList = upToZero src := by
  obtain ⟨k, hk⟩ : ∃ k, n - (upToZero src).length = k + 1 :=
    ⟨n - (upToZero src).length - 1, by omega⟩
  rw [toList_strncpy (Nat.le_of_lt h), hk, List.replicate_succ, upToZero_append_zero]
  exact upToZero_of_notMem (zero_notMem_upToZero src)

end CString
