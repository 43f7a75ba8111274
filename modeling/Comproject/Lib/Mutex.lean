/-
Comproject.Lib.Mutex — a POSIX mutex and the holds on it.

What a second lock by the owner does depends on the kind of the mutex: a
normal one blocks for good, an error-checking one returns `EDEADLK`, a
recursive one counts, without a maximum. The other attributes are the
defaults: no priority protocol, and not robust. An unlock by a thread that
is not the owner is undefined for a normal mutex; what it does is the
parameter `stray`.

`Owns m c` ties the mutex to the number of holds `c` of each thread. It is
kept by granted calls and by unlocks of a thread that has a hold.
-/
import Mathlib.Logic.Function.Basic
import Mathlib.Tactic.Common

namespace Mutex

inductive Kind where
  | normal
  | errorcheck
  | recursive
  deriving DecidableEq

structure Lock (τ : Type) where
  owner : Option τ
  depth : Nat
  deriving DecidableEq

def Lock.free {τ : Type} : Lock τ := ⟨none, 0⟩

/-- How a lock call ends. -/
inductive Result (τ : Type) where
  | granted (m : Lock τ)
  | deadlock
  | blocks

variable {τ : Type} [DecidableEq τ]

def Lock.lock (kind : Kind) (m : Lock τ) (t : τ) : Result τ :=
  match m.owner with
  | none => .granted ⟨some t, 1⟩
  | some u =>
    if u = t then
      match kind with
      | .normal => .blocks
      | .errorcheck => .deadlock
      | .recursive => .granted ⟨some t, m.depth + 1⟩
    else .blocks

def Lock.unlock (stray : Lock τ → τ → Lock τ) (m : Lock τ) (t : τ) : Lock τ :=
  if m.owner = some t then
    if m.depth ≤ 1 then .free else ⟨some t, m.depth - 1⟩
  else stray m t

/-- The holds of all threads are the owner's, and the mutex counts them. -/
structure Owns (m : Lock τ) (c : τ → Nat) : Prop where
  holds : ∀ t, c t = if m.owner = some t then m.depth else 0
  depth_pos : ∀ t, m.owner = some t → 0 < m.depth
  depth_zero : m.owner = none → m.depth = 0

theorem Owns.initial : Owns (Lock.free : Lock τ) (fun _ => 0) where
  holds := by simp [Lock.free]
  depth_pos := by simp [Lock.free]
  depth_zero _ := rfl

variable {m m' : Lock τ} {c : τ → Nat} {t u : τ}

theorem Owns.owner (h : Owns m c) (ht : 0 < c t) : m.owner = some t := by
  by_contra hne
  rw [h.holds t, if_neg hne] at ht
  omega

/-- Two threads with holds are one thread. -/
theorem Owns.unique (h : Owns m c) (ht : 0 < c t) (hu : 0 < c u) : t = u := by
  have howner := h.owner ht
  rw [h.owner hu, Option.some.injEq] at howner
  exact howner.symm

theorem Owns.eq_free (h : Owns m c) (hnone : ∀ t, c t = 0) : m = Lock.free := by
  obtain ⟨owner, depth⟩ := m
  cases owner with
  | none =>
    have hdepth : depth = 0 := h.depth_zero rfl
    rw [hdepth, Lock.free]
  | some t =>
    have hpos := h.depth_pos t rfl
    have hzero := h.holds t
    rw [hnone t, if_pos rfl] at hzero
    omega

/-- Only an error-checking mutex refuses, and only its owner. -/
theorem Owns.deadlock (h : Owns m c) {kind : Kind} (hl : m.lock kind t = .deadlock) :
    kind = .errorcheck ∧ 0 < c t := by
  unfold Lock.lock at hl
  cases howner : m.owner with
  | none => simp [howner] at hl
  | some u =>
    by_cases hu : u = t
    · subst hu
      have hpos := h.depth_pos u howner
      cases kind with
      | errorcheck => exact ⟨rfl, by rw [h.holds u, if_pos howner]; exact hpos⟩
      | normal => simp [howner] at hl
      | recursive => simp [howner] at hl
    · simp [howner, hu] at hl

/-- A granted call adds a hold. -/
theorem Owns.lock (h : Owns m c) {kind : Kind} (hl : m.lock kind t = .granted m') :
    Owns m' (Function.update c t (c t + 1)) := by
  have hgranted : m' = ⟨some t, c t + 1⟩ ∧ ∀ u, u ≠ t → c u = 0 := by
    unfold Lock.lock at hl
    cases howner : m.owner with
    | none =>
      have hzero : ∀ u, c u = 0 := fun u => by simp [h.holds u, howner]
      simp only [howner, Result.granted.injEq] at hl
      exact ⟨by rw [← hl, hzero t], fun u _ => hzero u⟩
    | some w =>
      by_cases hw : w = t
      · subst hw
        have hothers : ∀ u, u ≠ w → c u = 0 := by
          intro u hu
          rw [h.holds u, howner, if_neg (by simpa using Ne.symm hu)]
        cases kind with
        | recursive =>
          simp only [howner, if_true, Result.granted.injEq] at hl
          refine ⟨?_, hothers⟩
          rw [← hl, h.holds w, if_pos howner]
        | normal => simp [howner] at hl
        | errorcheck => simp [howner] at hl
      · simp [howner, hw] at hl
  obtain ⟨rfl, hothers⟩ := hgranted
  refine ⟨fun u => ?_, fun _ _ => Nat.succ_pos _, by simp⟩
  by_cases hu : u = t
  · subst hu; simp
  · rw [Function.update_of_ne hu, hothers u hu, if_neg (by simpa using Ne.symm hu)]

/-- An unlock by a thread with a hold takes one away. -/
theorem Owns.unlock (h : Owns m c) (stray : Lock τ → τ → Lock τ) {n : Nat} (ht : c t = n + 1) :
    Owns (m.unlock stray t) (Function.update c t n) := by
  have howner := h.owner (t := t) (by omega)
  have hdepth : m.depth = n + 1 := by
    rw [← ht, h.holds t, if_pos howner]
  have hothers : ∀ u, u ≠ t → c u = 0 := by
    intro u hu
    rw [h.holds u, howner, if_neg (by simpa using Ne.symm hu)]
  unfold Lock.unlock
  rw [if_pos howner, hdepth]
  by_cases hn : n = 0
  · subst hn
    refine ⟨fun u => ?_, by simp [Lock.free], fun _ => rfl⟩
    by_cases hu : u = t
    · subst hu; simp [Lock.free]
    · simp [Lock.free, hu, hothers u hu]
  · rw [if_neg (by omega)]
    refine ⟨fun u => ?_, fun _ _ => by simp only; omega, by simp⟩
    by_cases hu : u = t
    · subst hu; simp
    · rw [Function.update_of_ne hu, hothers u hu, if_neg (by simpa using Ne.symm hu)]

end Mutex
