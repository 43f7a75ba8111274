/-
Comproject.Lib.Ownership — handles and the heap cells they own.

A table maps keys to handles, and a handle has the address of a cell on a
heap. The table OWNS the heap when the two belong to each other one to
one: every handle's cell is there, no two handles have the same cell, and
no cell is left without a handle. That is what rules out use after free,
a second free, and a leak.

All the ways in which a program goes from one such state to the next, a
new handle with a new cell, a new content, a handle and its cell given
up, are instances of one step (`Owned.set`): what happens to a key happens
to its cell. `look` is what a key stands for, and a step on one key is
not seen through another (`look_other`).

The table is ENTANGLED when a handle's cell is gone or has a second
handle. That does not pass: no step of the program ends it, except one
that frees a cell which is not there.
-/
import Mathlib.Logic.Function.Basic
import Mathlib.Tactic.Common

namespace Ownership

variable {K A V R : Type} {addr : R → A} {heap : A → Option V} {table : K → Option R}

structure Owned (addr : R → A) (heap : A → Option V) (table : K → Option R) : Prop where
  live : ∀ k r, table k = some r → ∃ v, heap (addr r) = some v
  unshared : ∀ k k' r r', table k = some r → table k' = some r' → addr r = addr r' → k = k'
  owned : ∀ a v, heap a = some v → ∃ k r, table k = some r ∧ addr r = a

/-- The handle of a key, and the content of its cell. -/
def look (addr : R → A) (heap : A → Option V) (table : K → Option R) (k : K) : Option (R × V) :=
  (table k).bind (fun r => (heap (addr r)).map (fun v => (r, v)))

theorem owned_empty : Owned addr (fun _ => none : A → Option V) (fun _ => none : K → Option R) :=
  ⟨nofun, nofun, nofun⟩

/-! ## Addresses of other keys -/

/-- An address that is not in use is no handle's. -/
theorem Owned.ne_of_unused (h : Owned addr heap table) {a : A} (ha : heap a = none) {k : K} {r : R}
    (hk : table k = some r) : addr r ≠ a := by
  intro he
  obtain ⟨v, hv⟩ := h.live k r hk
  rw [he, ha] at hv
  cases hv

/-- Another key's handle has another address. -/
theorem Owned.ne_of_ne (h : Owned addr heap table) {k k' : K} {r r' : R} (hk : table k = some r)
    (hk' : table k' = some r') (hne : k' ≠ k) : addr r' ≠ addr r :=
  fun he => hne (h.unshared k' k r' r hk' hk he)

/-! ## Steps -/

section Steps

variable [DecidableEq K] [DecidableEq A]

/-- What happens to the key `k` happens to the cell `a`, which no other
key has. -/
theorem Owned.set (h : Owned addr heap table) {k : K} {a : A} {newR : Option R} {newV : Option V}
    (hothers : ∀ k' r', table k' = some r' → k' ≠ k → addr r' ≠ a)
    (hold : ∀ r, table k = some r → addr r = a)
    (hnew : (∃ r v, newR = some r ∧ newV = some v ∧ addr r = a) ∨ (newR = none ∧ newV = none)) :
    Owned addr (Function.update heap a newV) (Function.update table k newR) where
  live k' r' hk' := by
    rw [Function.update_apply] at hk'
    split at hk'
    · rcases hnew with ⟨r, v, rfl, rfl, hr⟩ | ⟨rfl, -⟩
      · cases hk'
        exact ⟨v, by rw [hr, Function.update_self]⟩
      · cases hk'
    · rename_i hne
      rw [Function.update_of_ne (hothers k' r' hk' hne)]
      exact h.live k' r' hk'
  unshared k₁ k₂ r₁ r₂ h₁ h₂ hr := by
    -- a handle at `k` has the address `a`, and the others have not
    have haddr : ∀ {k' r'}, Function.update table k newR k' = some r' →
        (k' = k ∧ addr r' = a) ∨ (k' ≠ k ∧ table k' = some r' ∧ addr r' ≠ a) := by
      intro k' r' hk'
      rw [Function.update_apply] at hk'
      split at hk'
      · rename_i he
        rcases hnew with ⟨r, v, rfl, -, hr⟩ | ⟨rfl, -⟩
        · cases hk'
          exact .inl ⟨he, hr⟩
        · cases hk'
      · rename_i hne
        exact .inr ⟨hne, hk', hothers k' r' hk' hne⟩
    rcases haddr h₁ with ⟨rfl, ha₁⟩ | ⟨-, h₁', ha₁⟩
    · rcases haddr h₂ with ⟨rfl, -⟩ | ⟨-, -, ha₂⟩
      · rfl
      · exact absurd (hr.symm.trans ha₁) ha₂
    · rcases haddr h₂ with ⟨-, ha₂⟩ | ⟨-, h₂', -⟩
      · exact absurd (hr.trans ha₂) ha₁
      · exact h.unshared k₁ k₂ r₁ r₂ h₁' h₂' hr
  owned b v hb := by
    rw [Function.update_apply] at hb
    split at hb
    · rename_i he
      rcases hnew with ⟨r, v', rfl, -, hr⟩ | ⟨-, rfl⟩
      · exact ⟨k, r, Function.update_self .., hr.trans he.symm⟩
      · cases hb
    · rename_i hne
      obtain ⟨k', r', hk', hr'⟩ := h.owned b v hb
      have hkk : k' ≠ k := by
        intro he
        exact hne (hr'.symm.trans (hold r' (he ▸ hk')))
      exact ⟨k', r', by rw [Function.update_of_ne hkk, hk'], hr'⟩

/-- A new key with a new cell. -/
theorem Owned.alloc (h : Owned addr heap table) {k : K} {r : R} (hk : table k = none)
    (ha : heap (addr r) = none) (v : V) :
    Owned addr (Function.update heap (addr r) (some v)) (Function.update table k (some r)) := by
  apply h.set
  · intro k' r' hk' _
    exact h.ne_of_unused ha hk'
  · intro r' hr'
    rw [hk] at hr'
    cases hr'
  · exact .inl ⟨r, v, rfl, rfl, rfl⟩

/-- New contents of a key's handle and cell. -/
theorem Owned.write (h : Owned addr heap table) {k : K} {r r' : R} (hk : table k = some r)
    (hr : addr r' = addr r) (v : V) :
    Owned addr (Function.update heap (addr r) (some v)) (Function.update table k (some r')) := by
  apply h.set
  · intro k' r' hk' hne
    exact h.ne_of_ne hk hk' hne
  · intro r'' hr''
    rw [hk] at hr''
    cases hr''
    rfl
  · exact .inl ⟨r', v, rfl, rfl, hr⟩

/-- A key is given up with its cell. -/
theorem Owned.free (h : Owned addr heap table) {k : K} {r : R} (hk : table k = some r) :
    Owned addr (Function.update heap (addr r) none) (Function.update table k none) := by
  apply h.set
  · intro k' r' hk' hne
    exact h.ne_of_ne hk hk' hne
  · intro r'' hr''
    rw [hk] at hr''
    cases hr''
    rfl
  · exact .inr ⟨rfl, rfl⟩

/-! ## What a key stands for -/

omit [DecidableEq K] [DecidableEq A] in
theorem look_some {k : K} {r : R} {v : V} (hk : table k = some r) (hv : heap (addr r) = some v) :
    look addr heap table k = some (r, v) := by
  simp only [look, hk, hv, Option.bind_some, Option.map_some]

omit [DecidableEq K] [DecidableEq A] in
theorem look_none {k : K} (hk : table k = none) : look addr heap table k = none := by
  simp only [look, hk, Option.bind_none]

/-- Another key does not see the step. -/
theorem look_other {k k' : K} {a : A} {newR : Option R} {newV : Option V} (hne : k' ≠ k)
    (hothers : ∀ r', table k' = some r' → addr r' ≠ a) :
    look addr (Function.update heap a newV) (Function.update table k newR) k'
      = look addr heap table k' := by
  unfold look
  rw [Function.update_of_ne hne]
  cases hk' : table k' with
  | none => rfl
  | some r' => rw [Option.bind_some, Option.bind_some, Function.update_of_ne (hothers r' hk')]

/-! ## Entanglement -/

/-- Some handle's cell is gone, or has another handle. -/
def Entangled (addr : R → A) (heap : A → Option V) (table : K → Option R) : Prop :=
  ∃ k r, table k = some r ∧
    (heap (addr r) = none ∨ ∃ k' r', k' ≠ k ∧ table k' = some r' ∧ addr r' = addr r)

omit [DecidableEq A] in
/-- A handle that is given another key's address. -/
theorem entangled_share {j k : K} {q r : R} (hj : table j = some q) (hne : k ≠ j)
    (hr : addr r = addr q) : Entangled addr heap (Function.update table k (some r)) := by
  refine ⟨j, q, ?_, .inr ⟨k, r, hne, Function.update_self .., hr⟩⟩
  rw [Function.update_of_ne hne.symm, hj]

/-- A new key with a new cell. If the cell is one that was gone, it has
two handles now. -/
theorem Entangled.alloc (h : Entangled addr heap table) {k : K} {r : R} (hk : table k = none)
    (v : V) :
    Entangled addr (Function.update heap (addr r) (some v)) (Function.update table k (some r)) := by
  obtain ⟨j, q, hj, hbad⟩ := h
  have hother : ∀ {k' r'}, table k' = some r' → k' ≠ k := by
    intro k' r' hk' he
    rw [he, hk] at hk'
    cases hk'
  by_cases hq : addr q = addr r
  · exact entangled_share hj (hother hj).symm hq.symm
  · refine ⟨j, q, by rw [Function.update_of_ne (hother hj), hj], ?_⟩
    rcases hbad with hnone | ⟨k', r', hne, hk', hr'⟩
    · exact .inl (by rw [Function.update_of_ne hq, hnone])
    · exact .inr ⟨k', r', hne, by rw [Function.update_of_ne (hother hk'), hk'], hr'⟩

/-- A key is given up with its cell, which is there. -/
theorem Entangled.free (h : Entangled addr heap table) {k : K} {r : R} {v : V}
    (hk : table k = some r) (hv : heap (addr r) = some v) :
    Entangled addr (Function.update heap (addr r) none) (Function.update table k none) := by
  obtain ⟨j, q, hj, hbad⟩ := h
  -- a key that is left and had the same cell has none now
  have hgone : ∀ {k' r'}, table k' = some r' → k' ≠ k → addr r' = addr r →
      Entangled addr (Function.update heap (addr r) none) (Function.update table k none) := by
    intro k' r' hk' hne hr'
    refine ⟨k', r', by rw [Function.update_of_ne hne, hk'], .inl ?_⟩
    rw [hr', Function.update_self]
  by_cases hjk : j = k
  · rw [hjk, hk] at hj
    cases hj
    rcases hbad with hnone | ⟨k', r', hne, hk', hr'⟩
    · rw [hnone] at hv
      cases hv
    · exact hgone hk' (hjk ▸ hne) hr'
  · by_cases hq : addr q = addr r
    · exact hgone hj hjk hq
    · refine ⟨j, q, by rw [Function.update_of_ne hjk, hj], ?_⟩
      rcases hbad with hnone | ⟨k', r', hne, hk', hr'⟩
      · exact .inl (by rw [Function.update_of_ne hq, hnone])
      · have hne' : k' ≠ k := by
          intro he
          rw [he, hk] at hk'
          cases hk'
          exact hq hr'.symm
        exact .inr ⟨k', r', hne, by rw [Function.update_of_ne hne', hk'], hr'⟩

end Steps

end Ownership
