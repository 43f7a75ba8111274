/-
Comproject.Base.SingletonTheorems — when the parameterised singleton
keeps its life cycle.

The pointer and the heap never drift apart (`InSync`, kept by every
call), so at most one object is ever alive. The flag and the pointer do:
`Release` empties the pointer and leaves the flag set, and from then on
the singleton is SPENT. A spent singleton stays spent, and
`Instance(args...)` on it skips the construction and dereferences the
null pointer. Every other call, in every other state, does what it
should (`callMeets_iff`).

`spent_run_iff` reads the spent state off the calls alone, which gives
the exact condition on call sequences.
-/
import Comproject.Base.Singleton
import Mathlib.Data.List.Induction

namespace Comproject.Base

namespace Singleton

variable {T E Args : Type} (ctor : Args → Except E T) (typeName : String)

/-! ## The invariant -/

/-- The heap holds what the pointer holds, and the pointer is filled only
under a set flag. -/
structure InSync (s : Singleton T) : Prop where
  alive_eq : s.alive = s.static_ptr_instance_.toList
  flag_of_ptr : s.static_ptr_instance_ ≠ none → s.static_inited_once_flag_ = true

/-- Initialised once and released: the flag is set and the pointer empty. -/
def Spent (s : Singleton T) : Prop :=
  s.static_inited_once_flag_ = true ∧ s.static_ptr_instance_ = none

theorem inSync_initial : (Singleton.initial T).InSync := by
  refine ⟨rfl, ?_⟩
  intro h
  exact absurd rfl h

theorem aliveWithout_of_inSync {s : Singleton T} (h : s.InSync) : s.aliveWithout = [] := by
  unfold aliveWithout
  cases hp : s.static_ptr_instance_ with
  | none => simp [h.alive_eq, hp]
  | some o => simp [h.alive_eq, hp]

/-! ## What each call does -/

theorem step_instanceArgs_of_flag {s : Singleton T} (hf : s.static_inited_once_flag_ = true)
    (args : Args) :
    s.step ctor typeName (.instanceArgs args) = (s.dereference, s) := by
  simp [step, instanceArgs, callOnce, hf]

theorem step_instanceArgs_error {s : Singleton T} (hf : s.static_inited_once_flag_ = false)
    {args : Args} {e : E} (hc : ctor args = .error e) :
    s.step ctor typeName (.instanceArgs args) = (.threw e, s) := by
  simp [step, instanceArgs, callOnce, construct, hf, hc]

theorem step_instanceArgs_ok {s : Singleton T} (hf : s.static_inited_once_flag_ = false)
    {args : Args} {v : T} (hc : ctor args = .ok v) :
    s.step ctor typeName (.instanceArgs args)
      = (.reference ⟨s.constructed, v⟩,
          { static_ptr_instance_ := some ⟨s.constructed, v⟩
            static_inited_once_flag_ := true
            alive := ⟨s.constructed, v⟩ :: s.aliveWithout
            constructed := s.constructed + 1 }) := by
  simp [step, instanceArgs, callOnce, construct, dereference, hf, hc]

/-- A call leaves the state alone, installs a first object, or releases. -/
theorem step_cases (s : Singleton T) (c : Call Args) :
    ((s.step ctor typeName c).2 = s ∧ c ≠ .release)
    ∨ (∃ args v, c = .instanceArgs args ∧ ctor args = .ok v
        ∧ s.static_inited_once_flag_ = false
        ∧ (s.step ctor typeName c).2
            = { static_ptr_instance_ := some ⟨s.constructed, v⟩
                static_inited_once_flag_ := true
                alive := ⟨s.constructed, v⟩ :: s.aliveWithout
                constructed := s.constructed + 1 })
    ∨ (c = .release ∧ (s.step ctor typeName c).2
            = { s with static_ptr_instance_ := none, alive := s.aliveWithout }) := by
  cases c with
  | release => exact Or.inr (Or.inr ⟨rfl, rfl⟩)
  | instanceNoArgs =>
    refine Or.inl ⟨?_, by simp⟩
    simp only [step, instanceNoArgs]
    split <;> rfl
  | instanceArgs args =>
    cases hf : s.static_inited_once_flag_ with
    | true =>
      rw [step_instanceArgs_of_flag ctor typeName hf]
      exact Or.inl ⟨rfl, by simp⟩
    | false =>
      cases hc : ctor args with
      | error e =>
        rw [step_instanceArgs_error ctor typeName hf hc]
        exact Or.inl ⟨rfl, by simp⟩
      | ok v =>
        rw [step_instanceArgs_ok ctor typeName hf hc]
        exact Or.inr (Or.inl ⟨args, v, rfl, hc, rfl, rfl⟩)

theorem inSync_step {s : Singleton T} (h : s.InSync) (c : Call Args) :
    (s.step ctor typeName c).2.InSync := by
  rcases step_cases ctor typeName s c with ⟨hs, _⟩ | ⟨_, _, _, _, _, hs⟩ | ⟨_, hs⟩
  · rw [hs]
    exact h
  · rw [hs]
    exact ⟨by simp [aliveWithout_of_inSync h], fun _ => rfl⟩
  · rw [hs]
    exact ⟨by simp [aliveWithout_of_inSync h], fun hne => absurd rfl hne⟩

/-! ## Runs -/

theorem run_append_singleton (calls : List (Call Args)) (c : Call Args) :
    run ctor typeName (calls ++ [c])
      = ((run ctor typeName calls).step ctor typeName c).2 := by
  simp [run, List.foldl_append]

theorem inSync_run (calls : List (Call Args)) : (run ctor typeName calls).InSync := by
  induction calls using List.reverseRecOn with
  | nil => exact inSync_initial
  | append_singleton calls c ih =>
    rw [run_append_singleton]
    exact inSync_step ctor typeName ih c

/-- The flag is set once some construction has succeeded. -/
theorem flag_run_iff (calls : List (Call Args)) :
    (run ctor typeName calls).static_inited_once_flag_ = true
      ↔ ∃ a v, Call.instanceArgs a ∈ calls ∧ ctor a = .ok v := by
  induction calls using List.reverseRecOn with
  | nil => simp [run, initial]
  | append_singleton calls c ih =>
    rw [run_append_singleton]
    rcases step_cases ctor typeName (run ctor typeName calls) c with
      ⟨hs, hc⟩ | ⟨args, v, rfl, hok, _, hs⟩ | ⟨rfl, hs⟩
    · rw [hs, ih]
      refine ⟨fun ⟨a, v, hmem, hok⟩ => ⟨a, v, by simp [hmem], hok⟩, ?_⟩
      rintro ⟨a, v, hmem, hok⟩
      rcases List.mem_append.mp hmem with hmem | hmem
      · exact ⟨a, v, hmem, hok⟩
      · -- the last call itself constructs, unless the flag was set before
        obtain rfl : Call.instanceArgs a = c := by simpa using hmem
        refine ih.mp ?_
        by_contra hf
        rw [Bool.not_eq_true] at hf
        rw [step_instanceArgs_ok ctor typeName hf hok] at hs
        have := congrArg static_inited_once_flag_ hs
        simp [hf] at this
    · rw [hs]
      exact ⟨fun _ => ⟨args, v, by simp, hok⟩, fun _ => rfl⟩
    · rw [hs, ih]
      simp

/-- A spent singleton is one that was initialised and then released. -/
theorem spent_run_iff (calls : List (Call Args)) :
    (run ctor typeName calls).Spent
      ↔ ∃ p a q r, calls = p ++ .instanceArgs a :: (q ++ .release :: r)
          ∧ ∃ v, ctor a = .ok v := by
  induction calls using List.reverseRecOn with
  | nil => simp [run, initial, Spent]
  | append_singleton calls c ih =>
    rw [run_append_singleton]
    constructor
    · rintro ⟨hflag, hptr⟩
      rcases step_cases ctor typeName (run ctor typeName calls) c with
        ⟨hs, _⟩ | ⟨_, _, _, _, _, hs⟩ | ⟨rfl, hs⟩
      · rw [hs] at hflag hptr
        obtain ⟨p, a, q, r, rfl, hok⟩ := ih.mp ⟨hflag, hptr⟩
        exact ⟨p, a, q, r ++ [c], by simp, hok⟩
      · rw [hs] at hptr
        simp at hptr
      · rw [hs] at hflag
        obtain ⟨a, v, hmem, hok⟩ := (flag_run_iff ctor typeName calls).mp hflag
        obtain ⟨p, q, rfl⟩ := List.append_of_mem hmem
        exact ⟨p, a, q, [], by simp, v, hok⟩
    · rintro ⟨p, a, q, r, hcalls, v, hok⟩
      rcases List.eq_nil_or_concat r with rfl | ⟨r', c', rfl⟩
      · -- the release is the last call
        have hsplit : calls ++ [c] = (p ++ .instanceArgs a :: q) ++ [.release] := by
          rw [hcalls]
          simp
        obtain ⟨hpre, hlast⟩ := List.append_inj' hsplit rfl
        obtain rfl : c = .release := by simpa using hlast
        have hflag := (flag_run_iff ctor typeName calls).mpr
          ⟨a, v, by simp [hpre], hok⟩
        exact ⟨hflag, rfl⟩
      · -- the release came earlier, and no call refills the pointer
        have hsplit : calls ++ [c] = (p ++ .instanceArgs a :: (q ++ .release :: r')) ++ [c'] := by
          rw [hcalls]
          simp
        obtain ⟨hpre, _⟩ := List.append_inj' hsplit rfl
        obtain ⟨hflag, hptr⟩ := ih.mpr ⟨p, a, q, r', hpre, v, hok⟩
        rcases step_cases ctor typeName (run ctor typeName calls) c with
          ⟨hs, _⟩ | ⟨_, _, _, _, hf, _⟩ | ⟨_, hs⟩
        · rw [hs]
          exact ⟨hflag, hptr⟩
        · rw [hflag] at hf
          cases hf
        · rw [hs]
          exact ⟨hflag, rfl⟩

/-! ## One call -/

/-- **One call**: in a state whose pointer and heap agree, a call does
what it should unless it asks a spent singleton for an instance. -/
theorem callMeets_iff {s : Singleton T} (h : s.InSync) (c : Call Args) :
    s.CallMeets ctor typeName c ↔ ¬ (s.Spent ∧ ∃ args, c = .instanceArgs args) := by
  have hone : (s.step ctor typeName c).2.alive.length ≤ 1 := by
    rw [(inSync_step ctor typeName h c).alive_eq]
    cases (s.step ctor typeName c).2.static_ptr_instance_ <;> simp
  unfold CallMeets
  cases c with
  | release => simp [hone]
  | instanceNoArgs =>
    cases hp : s.static_ptr_instance_ with
    | none => simp [h.alive_eq, hp, step, instanceNoArgs]
    | some o => simp [h.alive_eq, hp, step, instanceNoArgs]
  | instanceArgs args =>
    simp only [hone, true_and, Call.instanceArgs.injEq, exists_eq', and_true]
    cases hf : s.static_inited_once_flag_ with
    | true =>
      rw [step_instanceArgs_of_flag ctor typeName hf]
      cases hp : s.static_ptr_instance_ with
      | none => simp [Spent, hf, hp, dereference]
      | some o => simp [Spent, hp, dereference, h.alive_eq]
    | false =>
      have hp : s.static_ptr_instance_ = none := by
        by_contra hne
        rw [h.flag_of_ptr hne] at hf
        cases hf
      have hspent : ¬ s.Spent := by
        rintro ⟨hs, _⟩
        rw [hf] at hs
        cases hs
      simp only [hspent, not_false_eq_true, iff_true]
      cases hc : ctor args with
      | error e =>
        have halive : s.alive = [] := by
          rw [h.alive_eq, hp]
          rfl
        exact Or.inl ⟨halive, e, rfl, step_instanceArgs_error ctor typeName hf hc⟩
      | ok v =>
        rw [step_instanceArgs_ok ctor typeName hf hc]
        exact Or.inr ⟨_, rfl, by simp, by simp [h.alive_eq, hp], fun _ => ⟨rfl, rfl⟩⟩

/-! ## Whole sequences -/

/-- **The life cycle.** Every call of a sequence does what it should if
and only if the sequence never asks for an instance with arguments after
it initialised the singleton and released it. -/
theorem allMeet_iff_not_reuses (calls : List (Call Args)) :
    AllMeet ctor typeName calls ↔ ¬ ReusesAfterRelease ctor calls := by
  constructor
  · rintro hall ⟨p, a, q, r, b, t, hcalls, hok⟩
    have hsplit : calls
        = (p ++ .instanceArgs a :: (q ++ .release :: r)) ++ .instanceArgs b :: t := by
      rw [hcalls]
      simp
    have hmeets := hall _ _ _ hsplit
    have hspent := (spent_run_iff ctor typeName _).mpr ⟨p, a, q, r, rfl, hok⟩
    exact (callMeets_iff ctor typeName (inSync_run ctor typeName _) _).mp hmeets
      ⟨hspent, b, rfl⟩
  · intro hnot pre c post hcalls
    refine (callMeets_iff ctor typeName (inSync_run ctor typeName pre) c).mpr ?_
    rintro ⟨hspent, b, rfl⟩
    obtain ⟨p, a, q, r, rfl, hok⟩ := (spent_run_iff ctor typeName pre).mp hspent
    exact hnot ⟨p, a, q, r, b, post, by simp [hcalls], hok⟩

end Singleton

/-- A constructor for the runs below: it refuses zero. -/
def positiveCtor : Nat → Except String Nat
  | 0 => .error "zero"
  | n + 1 => .ok (n + 1)

/-- Construct, release, construct again: the third call runs no
constructor and dereferences the empty pointer. -/
theorem instance_after_release_dereferences_null :
    ((Singleton.run positiveCtor "T" [.instanceArgs 1, .release]).step positiveCtor "T"
        (.instanceArgs 2)).1 = .nullDereference
    ∧ ¬ Singleton.AllMeet positiveCtor "T" [.instanceArgs 1, .release, .instanceArgs 2] := by
  refine ⟨rfl, fun hall => ?_⟩
  rcases hall [.instanceArgs 1, .release] (.instanceArgs 2) [] rfl with
    ⟨_, ⟨-, e, he, -⟩ | ⟨o, ho, -⟩⟩
  · cases he
  · cases ho

end Comproject.Base
