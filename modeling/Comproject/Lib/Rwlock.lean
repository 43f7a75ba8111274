/-
Comproject.Lib.Rwlock — a reader-writer lock and the holds on it.

The lock word knows its writer and a NUMBER of readers. It does not know
which thread holds a read lock, and it does not know how often: an unlock
by a thread that is not the writer takes one from the number, whoever put
it there. That is `pthread_rwlock` as glibc has it. A lock call is
granted, blocks, or, when the caller already owns the write lock, returns
`EDEADLK` and acquires nothing. An unlock with nothing to give back is
undefined; what it does is the parameter `stray`.

`Accounts l h` ties the word to a ledger `h` of the holds each thread
thinks it has. The ledger is kept by granted calls and by unlocks that
give back a hold of the ledger, and from it come exclusion
(`Accounts.read_excluded`) and the absence of `EDEADLK`
(`Accounts.ne_deadlock`).
-/
import Comproject.Lib.UpdateSum
import Mathlib.Algebra.Order.BigOperators.Group.Finset
import Mathlib.Tactic.Common

namespace Rwlock

/-! ## The lock -/

inductive Mode where
  | read
  | write
  deriving DecidableEq

/-- The lock word. -/
structure Lock (τ : Type) where
  writer : Option τ
  readers : Nat
  deriving DecidableEq

def Lock.free {τ : Type} : Lock τ := ⟨none, 0⟩

/-- How a lock call ends. -/
inductive Result (τ : Type) where
  | granted (l : Lock τ)
  | deadlock
  | blocks

variable {τ : Type} [DecidableEq τ]

def Lock.rdlock (l : Lock τ) (t : τ) : Result τ :=
  if l.writer = some t then .deadlock
  else if l.writer.isSome then .blocks
  else .granted { l with readers := l.readers + 1 }

def Lock.wrlock (l : Lock τ) (t : τ) : Result τ :=
  if l.writer = some t then .deadlock
  else if l.writer.isSome ∨ 0 < l.readers then .blocks
  else .granted { l with writer := some t }

def Lock.acquire (l : Lock τ) (t : τ) : Mode → Result τ
  | .read => l.rdlock t
  | .write => l.wrlock t

/-- The kind of hold that an unlock by `t` gives back. -/
def Lock.releases (l : Lock τ) (t : τ) : Option Mode :=
  if l.writer = some t then some .write
  else if 0 < l.readers then some .read
  else none

def Lock.unlock (stray : Lock τ → τ → Lock τ) (l : Lock τ) (t : τ) : Lock τ :=
  match l.releases t with
  | some .write => { l with writer := none }
  | some .read => { l with readers := l.readers - 1 }
  | none => stray l t

variable {l l' : Lock τ} {t u : τ}

theorem rdlock_granted (hg : l.acquire t .read = .granted l') :
    l.writer = none ∧ l' = { l with readers := l.readers + 1 } := by
  simp only [Lock.acquire, Lock.rdlock] at hg
  split at hg
  · cases hg
  · split at hg
    · cases hg
    · rename_i hsome
      cases hg
      exact ⟨by simpa using hsome, rfl⟩

theorem wrlock_granted (hg : l.acquire t .write = .granted l') :
    l.writer = none ∧ l.readers = 0 ∧ l' = { l with writer := some t } := by
  simp only [Lock.acquire, Lock.wrlock] at hg
  split at hg
  · cases hg
  · split at hg
    · cases hg
    · rename_i hfree
      cases hg
      refine ⟨?_, by omega, rfl⟩
      simpa using fun hs => hfree (Or.inl hs)

/-! ## The ledger -/

section Ledger

variable {τ : Type} [Fintype τ] {l : Lock τ} {h : τ → List Mode} {t u : τ}

/-- The lock word is the sum of the holds in the ledger, and a write hold
is alone. -/
structure Accounts (l : Lock τ) (h : τ → List Mode) : Prop where
  readers_eq : l.readers = ∑ t, (h t).count .read
  writer_iff : ∀ t, l.writer = some t ↔ .write ∈ h t
  alone : ∀ t, .write ∈ h t → h t = [.write]
  exclusive : ∀ t, .write ∈ h t → l.readers = 0

theorem Accounts.initial : Accounts (Lock.free : Lock τ) (fun _ => []) where
  readers_eq := by simp [Lock.free]
  writer_iff := by simp [Lock.free]
  alone := by simp
  exclusive := by simp

theorem Accounts.readers_pos (ha : Accounts l h) (hr : .read ∈ h t) : 0 < l.readers := by
  rw [ha.readers_eq]
  have hone : 0 < (h t).count .read := List.count_pos_iff.mpr hr
  exact Nat.lt_of_lt_of_le hone
    (Finset.single_le_sum (f := fun u => (h u).count .read) (by simp) (Finset.mem_univ t))

/-- A write hold excludes every read hold, in whatever thread. -/
theorem Accounts.read_excluded (ha : Accounts l h) (hw : .write ∈ h t) : .read ∉ h u := by
  intro hr
  have h0 := ha.exclusive t hw
  have hpos := ha.readers_pos hr
  omega

/-- Two write holds are of one thread. -/
theorem Accounts.writer_unique (ha : Accounts l h) (hw : .write ∈ h t) (hw' : .write ∈ h u) :
    t = u := by
  have h1 := (ha.writer_iff t).mpr hw
  have h2 := (ha.writer_iff u).mpr hw'
  rw [h1, Option.some.injEq] at h2
  exact h2

/-- Without any hold in the ledger the lock is free. -/
theorem Accounts.eq_free (ha : Accounts l h) (hnil : ∀ t, h t = []) : l = Lock.free := by
  obtain ⟨writer, readers⟩ := l
  have hw : writer = none := by
    cases hwr : writer with
    | none => rfl
    | some t => simpa [hnil t] using (ha.writer_iff t).mp hwr
  have hr : readers = 0 := by
    have := ha.readers_eq
    simpa [hnil] using this
  rw [hw, hr, Lock.free]

end Ledger

/-! ## Lock calls and the ledger -/

variable [Fintype τ] {h : τ → List Mode}

/-- A thread without a write hold is never told `EDEADLK`. -/
theorem Accounts.ne_deadlock (ha : Accounts l h) (hw : .write ∉ h t) (m : Mode) :
    l.acquire t m ≠ .deadlock := by
  have hne : ¬ l.writer = some t := fun hwr => hw ((ha.writer_iff t).mp hwr)
  cases m with
  | read =>
    simp only [Lock.acquire, Lock.rdlock, if_neg hne]
    split <;> simp
  | write =>
    simp only [Lock.acquire, Lock.wrlock, if_neg hne]
    split <;> simp

/-- A thread with a write hold is told `EDEADLK`, by either call. -/
theorem Accounts.deadlock (ha : Accounts l h) (hw : .write ∈ h t) (m : Mode) :
    l.acquire t m = .deadlock := by
  have hwr := (ha.writer_iff t).mpr hw
  cases m <;> simp [Lock.acquire, Lock.rdlock, Lock.wrlock, hwr]

/-- A granted call enters its hold into the ledger. -/
theorem Accounts.acquire (ha : Accounts l h) {m : Mode} (hg : l.acquire t m = .granted l') :
    Accounts l' (Function.update h t (m :: h t)) := by
  cases m with
  | read =>
    obtain ⟨hnone, rfl⟩ := rdlock_granted hg
    -- nobody holds the write lock, so there is no write entry at all
    have hno : ∀ u, .write ∉ h u := by
      intro u hu
      have := (ha.writer_iff u).mpr hu
      rw [hnone] at this
      cases this
    have hno' : ∀ u, .write ∉ Function.update h t (.read :: h t) u := by
      intro u
      by_cases hu : u = t
      · subst hu; simp [hno u]
      · simpa [hu] using hno u
    refine ⟨?_, fun u => ?_, fun u hu => absurd hu (hno' u), fun u hu => absurd hu (hno' u)⟩
    · have hsum := UpdateSum.sum_update_add (fun ms => ms.count .read) h t (.read :: h t)
      simp only [List.count_cons_self] at hsum
      have := ha.readers_eq
      simp only
      omega
    · simp [hnone, hno' u]
  | write =>
    obtain ⟨hnone, hzero, rfl⟩ := wrlock_granted hg
    have hempty : ∀ u, h u = [] := by
      intro u
      refine List.eq_nil_iff_forall_not_mem.mpr (fun m hm => ?_)
      cases m with
      | read =>
        have := ha.readers_pos hm
        omega
      | write =>
        have := (ha.writer_iff u).mpr hm
        rw [hnone] at this
        cases this
    have hiff : ∀ u, .write ∈ Function.update h t (.write :: h t) u ↔ u = t := by
      intro u
      by_cases hu : u = t
      · subst hu; simp
      · simp [hu, hempty u]
    refine ⟨?_, fun u => ?_, fun u hu => ?_, fun _ _ => hzero⟩
    · have hsum := UpdateSum.sum_update_add (fun ms => ms.count .read) h t (.write :: h t)
      simp only [hempty, List.count_nil, List.count_cons, reduceCtorEq, beq_iff_eq,
        if_false, Finset.sum_const_zero] at hsum ⊢
      simp only [hzero]
      omega
    · rw [hiff u]
      simp [eq_comm]
    · obtain rfl := (hiff u).mp hu
      simp [hempty]

/-- An unlock by a thread with an entry gives that kind of hold back. -/
theorem Accounts.releases_eq (ha : Accounts l h) {m : Mode} {rest : List Mode}
    (hm : h t = m :: rest) : l.releases t = some m := by
  cases m with
  | write =>
    have hw : l.writer = some t := (ha.writer_iff t).mpr (by simp [hm])
    simp [Lock.releases, hw]
  | read =>
    have hne : ¬ l.writer = some t := by
      intro hw
      have := ha.alone t ((ha.writer_iff t).mp hw)
      rw [hm] at this
      cases this
    have hpos : 0 < l.readers := ha.readers_pos (t := t) (by simp [hm])
    simp [Lock.releases, hne, hpos]

/-- An unlock by a thread strikes its newest entry out. -/
theorem Accounts.unlock (ha : Accounts l h) (stray : Lock τ → τ → Lock τ) {m : Mode}
    {rest : List Mode} (hm : h t = m :: rest) :
    Accounts (l.unlock stray t) (Function.update h t rest) := by
  have hsum := UpdateSum.sum_update_add (fun ms => ms.count .read) h t rest
  have hreaders := ha.readers_eq
  unfold Lock.unlock
  rw [ha.releases_eq hm]
  cases m with
  | write =>
    have hmem : Mode.write ∈ h t := by simp [hm]
    have hrest : rest = [] := by
      have := ha.alone t hmem
      rw [hm] at this
      simpa using this
    subst hrest
    have hno : ∀ u, .write ∉ Function.update h t [] u := by
      intro u
      by_cases hu : u = t
      · subst hu; simp
      · simp only [Function.update_of_ne hu]
        intro hw
        exact hu (ha.writer_unique hw hmem)
    refine ⟨?_, fun u => ?_, fun u hu => absurd hu (hno u), fun u hu => absurd hu (hno u)⟩
    · rw [hm] at hsum
      simp only [List.count_cons, List.count_nil, reduceCtorEq, beq_iff_eq, if_false] at hsum
      simp only
      omega
    · simp [hno u]
  | read =>
    have hno : ∀ u, .write ∉ h u := fun u hw =>
      ha.read_excluded (u := t) hw (by simp [hm])
    have hno' : ∀ u, .write ∉ Function.update h t rest u := by
      intro u
      by_cases hu : u = t
      · subst hu
        have := hno u
        rw [hm] at this
        simpa using this
      · simpa [hu] using hno u
    refine ⟨?_, fun u => ?_, fun u hu => absurd hu (hno' u), fun u hu => absurd hu (hno' u)⟩
    · rw [hm] at hsum
      simp only [List.count_cons_self] at hsum
      simp only
      omega
    · simp only [ha.writer_iff, hno, hno']

end Rwlock
