/-
Comproject.Lib.Decimal — decimal text of integers.

`natText` is the digit loop of a formatted integer output: it writes the
last digit, divides by ten and goes on to the left until nothing is left.
`IsNatText` and `IsDecimal` say what canonical decimal text is without
that loop: digits only, no leading zero, a minus sign exactly on the
negative numbers, and the right value. The loop writes such text
(`isDecimal_intText`), and `readInt` reads it back (`readInt_of_isDecimal`).
-/
import Mathlib.Data.List.Basic
import Mathlib.Tactic.Common

namespace Decimal

/-! ## Writing -/

/-- The character of the digit `d`. -/
def digit (d : Nat) : UInt8 := UInt8.ofNat (48 + d)

/-- The minus sign. -/
def minus : UInt8 := 45

/-- The digit loop, writing to the left of `acc`. -/
def putDigits : Nat → Nat → List UInt8 → List UInt8
  | 0, _, acc => acc
  | fuel + 1, n, acc =>
      if n / 10 = 0 then digit (n % 10) :: acc
      else putDigits fuel (n / 10) (digit (n % 10) :: acc)

/-- Decimal text of a natural number; `n + 1` rounds are enough. -/
def natText (n : Nat) : List UInt8 := putDigits (n + 1) n []

def intText (v : Int) : List UInt8 :=
  if v < 0 then minus :: natText v.natAbs else natText v.natAbs

/-! ## What canonical text is -/

def IsDigit (d : UInt8) : Prop := 48 ≤ d.toNat ∧ d.toNat ≤ 57

/-- The number a digit string denotes. -/
def value (ds : List UInt8) : Nat := ds.foldl (fun a d => 10 * a + (d.toNat - 48)) 0

/-- Canonical text of a natural number: digits, at least one, the first
of them not a zero unless it is alone. -/
structure IsNatText (ds : List UInt8) (n : Nat) : Prop where
  ne_nil : ds ≠ []
  digits : ∀ d ∈ ds, IsDigit d
  head : ds.head? = some (digit 0) → ds.length = 1
  value_eq : value ds = n

/-- Canonical text of an integer. -/
def IsDecimal (bs : List UInt8) (v : Int) : Prop :=
  (v < 0 ∧ ∃ ds, bs = minus :: ds ∧ IsNatText ds v.natAbs)
  ∨ (0 ≤ v ∧ IsNatText bs v.natAbs)

/-- Reading decimal text. -/
def readInt : List UInt8 → Int
  | [] => 0
  | b :: bs => if b = minus then -(value bs : Int) else (value (b :: bs) : Int)

/-! ## The loop -/

theorem toNat_digit {d : Nat} (h : d < 10) : (digit d).toNat = 48 + d := by
  rw [digit, UInt8.toNat_ofNat']
  omega

theorem isDigit_digit {d : Nat} (h : d < 10) : IsDigit (digit d) := by
  rw [IsDigit, toNat_digit h]
  omega

theorem putDigits_acc (fuel n : Nat) (acc : List UInt8) :
    putDigits fuel n acc = putDigits fuel n [] ++ acc := by
  induction fuel generalizing n acc with
  | zero => rfl
  | succ fuel ih =>
    simp only [putDigits]
    split
    · rfl
    · rw [ih (n / 10) (digit (n % 10) :: acc), ih (n / 10) [digit (n % 10)],
        List.append_assoc]
      rfl

/-- Any fuel above the number gives the same text. -/
theorem putDigits_fuel (fuel fuel' n : Nat) (acc : List UInt8)
    (h : n < fuel) (h' : n < fuel') : putDigits fuel n acc = putDigits fuel' n acc := by
  induction fuel generalizing fuel' n acc with
  | zero => omega
  | succ fuel ih =>
    cases fuel' with
    | zero => omega
    | succ fuel' =>
      simp only [putDigits]
      split
      · rfl
      · exact ih fuel' (n / 10) _ (by omega) (by omega)

/-- The last digit comes off the end. -/
theorem natText_eq (n : Nat) :
    natText n = (if n < 10 then [] else natText (n / 10)) ++ [digit (n % 10)] := by
  rw [natText, putDigits]
  by_cases hn : n < 10
  · rw [if_pos (by omega), if_pos hn, List.nil_append]
  · rw [if_neg (by omega), if_neg hn, putDigits_acc, natText,
      putDigits_fuel n (n / 10 + 1) (n / 10) [] (by omega) (by omega)]

theorem value_append_singleton (ds : List UInt8) (d : UInt8) :
    value (ds ++ [d]) = 10 * value ds + (d.toNat - 48) := by
  simp [value, List.foldl_append]

theorem natText_ne_nil (n : Nat) : natText n ≠ [] := by
  rw [natText_eq]
  simp

theorem isDigit_of_mem_natText (n : Nat) : ∀ d ∈ natText n, IsDigit d := by
  induction n using Nat.strongRecOn with
  | ind n ih =>
    intro d hd
    rw [natText_eq, List.mem_append, List.mem_singleton] at hd
    rcases hd with hd | rfl
    · split at hd
      · simp at hd
      · exact ih (n / 10) (by omega) d hd
    · exact isDigit_digit (Nat.mod_lt n (by omega))

theorem value_natText (n : Nat) : value (natText n) = n := by
  induction n using Nat.strongRecOn with
  | ind n ih =>
    rw [natText_eq, value_append_singleton, toNat_digit (Nat.mod_lt n (by omega))]
    split
    · simp only [value, List.foldl_nil]
      omega
    · rw [ih (n / 10) (by omega)]
      omega

/-- Only the number zero has text that begins with a zero. -/
theorem head_natText (n : Nat) : (natText n).head? = some (digit 0) → n = 0 := by
  induction n using Nat.strongRecOn with
  | ind n ih =>
    intro hhead
    rw [natText_eq] at hhead
    by_cases hn : n < 10
    · rw [if_pos hn, List.nil_append, List.head?_cons, Option.some.injEq] at hhead
      have := congrArg UInt8.toNat hhead
      rw [toNat_digit (Nat.mod_lt n (by omega)), toNat_digit (by omega)] at this
      omega
    · rw [if_neg hn, List.head?_append_of_ne_nil _ (natText_ne_nil _)] at hhead
      have := ih (n / 10) (by omega) hhead
      omega

theorem isNatText_natText (n : Nat) : IsNatText (natText n) n where
  ne_nil := natText_ne_nil n
  digits := isDigit_of_mem_natText n
  head := by
    intro hhead
    rw [head_natText n hhead]
    rfl
  value_eq := value_natText n

theorem isDecimal_intText (v : Int) : IsDecimal (intText v) v := by
  by_cases hv : v < 0
  · rw [intText, if_pos hv]
    exact Or.inl ⟨hv, natText v.natAbs, rfl, isNatText_natText _⟩
  · rw [intText, if_neg hv]
    exact Or.inr ⟨by omega, isNatText_natText _⟩

/-! ## Reading back -/

theorem not_isDigit_minus : ¬ IsDigit minus := by
  rintro ⟨hlo, _⟩
  exact absurd hlo (by decide)

theorem readInt_of_isDecimal {bs : List UInt8} {v : Int} (h : IsDecimal bs v) :
    readInt bs = v := by
  rcases h with ⟨hv, ds, rfl, hds⟩ | ⟨hv, hbs⟩
  · rw [readInt, if_pos rfl, hds.value_eq]
    omega
  · obtain ⟨b, bs, rfl⟩ := List.exists_cons_of_ne_nil hbs.ne_nil
    have hb : b ≠ minus := by
      intro hb
      exact not_isDigit_minus (hb ▸ hbs.digits b (by simp))
    rw [readInt, if_neg hb, hbs.value_eq]
    omega

/-- A single byte is never the decimal text of its own numeric value. -/
theorem not_isDecimal_singleton {b : UInt8} {v : Int} (h : 0 ≤ v → v = b.toNat) :
    ¬ IsDecimal [b] v := by
  rintro (⟨_, ds, hds, htext⟩ | ⟨hv, htext⟩)
  · rw [List.cons.injEq] at hds
    exact htext.ne_nil hds.2.symm
  · have hb : IsDigit b := htext.digits b (by simp)
    have hval := htext.value_eq
    have hvb := h hv
    obtain ⟨hlo, hhi⟩ := hb
    simp only [value, List.foldl_cons, List.foldl_nil] at hval
    omega

end Decimal
