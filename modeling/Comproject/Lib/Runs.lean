/-
Comproject.Lib.Runs — runs of a system given by a partial step function.

`step s e` is the state after the event `e`, or `none` when `e` cannot
happen in `s` (a thread that blocks, a call that is not allowed there). A
schedule is a list of events. `exec` runs a schedule, and `Reach ok` is
the set of states reached by runs all of whose steps meet a condition on
the state before the step. Invariants of such runs come from one rule,
`Reach.invariant`; a concrete run is executed by the `guarded` step
function.

Further rules are about whole systems. `exec_countP_le` bounds the number
of steps that use something up, and `Drains` collects what makes a system
run empty by them; `exec_ends` is about events after which there is none;
`Reach.stays_put` about a party that has no step; and `exec_lower` carries
a run over to a lower system, event by event.
-/
import Mathlib.Tactic.Common

namespace Runs

variable {σ ε : Type*} (step : σ → ε → Option σ)

/-- Run a schedule. -/
def exec (s : σ) : List ε → Option σ
  | [] => some s
  | e :: es => (step s e).bind (fun s' => exec s' es)

@[simp] theorem exec_nil (s : σ) : exec step s [] = some s := rfl

theorem exec_cons (s : σ) (e : ε) (es : List ε) :
    exec step s (e :: es) = (step s e).bind (fun s' => exec step s' es) := rfl

theorem exec_append (s : σ) (es fs : List ε) :
    exec step s (es ++ fs) = (exec step s es).bind (fun s' => exec step s' fs) := by
  induction es generalizing s with
  | nil => rfl
  | cons e es ih =>
    simp only [List.cons_append, exec_cons]
    cases step s e with
    | none => rfl
    | some s' => exact ih s'

variable {step} in
/-- A run over a longer schedule passes through the state of its prefix. -/
theorem exec_append_some {s t : σ} {es fs : List ε} (h : exec step s (es ++ fs) = some t) :
    ∃ u, exec step s es = some u ∧ exec step u fs = some t := by
  rw [exec_append] at h
  exact Option.bind_eq_some_iff.mp h

/-- What every step keeps, every run keeps. -/
theorem exec_invariant {P : σ → Prop} (hstep : ∀ s e s', P s → step s e = some s' → P s')
    {s t : σ} (es : List ε) (hs : P s) (h : exec step s es = some t) : P t := by
  induction es generalizing s with
  | nil => exact Option.some.inj h ▸ hs
  | cons e es ih =>
    rw [exec_cons] at h
    obtain ⟨s', he, h'⟩ := Option.bind_eq_some_iff.mp h
    exact ih (hstep s e s' hs he) h'

/-! ## Runs whose steps meet a condition -/

/-- The states reached from `init` by steps that all meet `ok`, a
condition on the state before the step. -/
inductive Reach (ok : σ → ε → Prop) (init : σ) : σ → Prop
  | init : Reach ok init init
  | step {s s' : σ} {e : ε} (hs : Reach ok init s) (hok : ok s e)
      (he : step s e = some s') : Reach ok init s'

variable {step} {ok : σ → ε → Prop} {init : σ}

/-- What holds at the start and is kept by the steps that meet the
condition holds in every state reached. -/
theorem Reach.invariant {P : σ → Prop} (hinit : P init)
    (hstep : ∀ s e s', P s → ok s e → step s e = some s' → P s')
    {s : σ} (h : Reach step ok init s) : P s := by
  induction h with
  | init => exact hinit
  | step _ hok he ih => exact hstep _ _ _ ih hok he

/-- The step function that takes no step against the condition. -/
def guarded (step : σ → ε → Option σ) (ok : σ → ε → Prop) [∀ s e, Decidable (ok s e)] (s : σ)
    (e : ε) : Option σ :=
  if ok s e then step s e else none

theorem Reach.exec_guarded [∀ s e, Decidable (ok s e)] {s t : σ} (es : List ε)
    (hs : Reach step ok init s) (h : exec (guarded step ok) s es = some t) :
    Reach step ok init t := by
  induction es generalizing s with
  | nil => exact Option.some.inj h ▸ hs
  | cons e es ih =>
    rw [exec_cons] at h
    obtain ⟨s', he, h'⟩ := Option.bind_eq_some_iff.mp h
    unfold guarded at he
    split at he
    case isTrue hok => exact ih (.step hs hok he) h'
    case isFalse => cases he

/-- A schedule that the guarded system executes ends in a state reached. -/
theorem Reach.of_exec (step : σ → ε → Option σ) (ok : σ → ε → Prop) [∀ s e, Decidable (ok s e)]
    (init : σ) (es : List ε) {t : σ} (h : exec (guarded step ok) init es = some t) :
    Reach step ok init t :=
  Reach.exec_guarded es .init h

/-- A schedule of events that always meet the condition. -/
theorem Reach.of_forall (es : List ε) {s t : σ} (hes : ∀ e ∈ es, ∀ s, ok s e)
    (hs : Reach step ok init s) (h : exec step s es = some t) : Reach step ok init t := by
  induction es generalizing s with
  | nil => exact Option.some.inj h ▸ hs
  | cons e es ih =>
    rw [exec_cons] at h
    obtain ⟨s', he, h'⟩ := Option.bind_eq_some_iff.mp h
    exact ih (fun f hf => hes f (List.mem_cons_of_mem e hf))
      (.step hs (hes e List.mem_cons_self s) he) h'

/-- A schedule each of whose steps meets the condition where it is
taken. -/
def AllMeet (step : σ → ε → Option σ) (ok : σ → ε → Prop) (init : σ) (es : List ε) : Prop :=
  ∀ p e q s, es = p ++ e :: q → exec step init p = some s → ok s e

theorem AllMeet.tail {s s' : σ} {e : ε} {es : List ε} (h : AllMeet step ok s (e :: es))
    (he : step s e = some s') : AllMeet step ok s' es := by
  intro p f q r hes hr
  refine h (e :: p) f q r (by rw [hes, List.cons_append]) ?_
  rw [exec_cons, he, Option.bind_some, hr]

theorem Reach.of_allMeet (es : List ε) {s t : σ} (hs : Reach step ok init s)
    (hes : AllMeet step ok s es) (h : exec step s es = some t) : Reach step ok init t := by
  induction es generalizing s with
  | nil => exact Option.some.inj h ▸ hs
  | cons e es ih =>
    rw [exec_cons] at h
    obtain ⟨s', he, h'⟩ := Option.bind_eq_some_iff.mp h
    exact ih (.step hs (hes [] e es s rfl rfl) he) (hes.tail he) h'

/-! ## Counting steps -/

/-- Steps that use up some of `μ`, and steps that may not add to it: no
more of the former than `μ` allows. -/
theorem exec_countP_le {P : σ → Prop} {closing : ε → Prop} (p : ε → Bool) (μ : σ → Nat)
    (hstep : ∀ s e s', P s → closing e → step s e = some s' → P s' ∧ μ s' + (p e).toNat ≤ μ s)
    (es : List ε) {s t : σ} (hs : P s) (hes : ∀ e ∈ es, closing e) (hx : exec step s es = some t) :
    P t ∧ es.countP p + μ t ≤ μ s := by
  induction es generalizing s with
  | nil =>
    cases hx
    exact ⟨hs, by simp⟩
  | cons e es ih =>
    rw [exec_cons] at hx
    obtain ⟨s', he, hx'⟩ := Option.bind_eq_some_iff.mp hx
    obtain ⟨hs', hle⟩ := hstep s e s' hs (hes e List.mem_cons_self) he
    obtain ⟨ht, hcount⟩ := ih hs' (fun f hf => hes f (List.mem_cons_of_mem e hf)) hx'
    refine ⟨ht, ?_⟩
    rw [List.countP_cons]
    cases hp : p e with
    | false =>
      rw [hp] at hle
      simp only [Bool.toNat_false, Nat.add_zero] at hle
      simp only [Bool.false_eq_true, if_false]
      omega
    | true =>
      rw [hp] at hle
      simp only [Bool.toNat_true] at hle
      simp only [if_true]
      omega

/-! ## Systems that end -/

/-- A system whose `status` is set by some of its events, and which takes
no step after that: such an event is the last one, and there is one
exactly when the status is set. -/
theorem exec_ends {β : Type*} (status : σ → Option β) (ending : ε → Option β) {P : σ → Prop}
    (hstep : ∀ s e s', P s → step s e = some s' →
      P s' ∧ status s = none ∧ status s' = ending e)
    (es : List ε) {s t : σ} (hs : P s) (hgo : status s = none) (h : exec step s es = some t) :
    es.filterMap ending = (status t).toList := by
  induction es generalizing s with
  | nil =>
    cases h
    simp [hgo]
  | cons e es ih =>
    rw [exec_cons] at h
    obtain ⟨s', he, h'⟩ := Option.bind_eq_some_iff.mp h
    obtain ⟨hs', -, hstatus⟩ := hstep s e s' hs he
    cases hend : ending e with
    | none =>
      rw [List.filterMap_cons_none hend]
      exact ih hs' (hstatus.trans hend) h'
    | some x =>
      cases es with
      | nil =>
        cases h'
        simp [hend, hstatus]
      | cons f es =>
        rw [exec_cons] at h'
        obtain ⟨u, hf, -⟩ := Option.bind_eq_some_iff.mp h'
        obtain ⟨-, hnone, -⟩ := hstep s' f u hs' hf
        rw [hstatus, hend] at hnone
        cases hnone

/-! ## Systems that run empty -/

/-- The `closing` steps keep `P` and use the work `μ` up, and they go on
until the system is `done`. -/
structure Drains (step : σ → ε → Option σ) (closing : ε → Prop) (P done : σ → Prop)
    (μ : σ → Nat) : Prop where
  keeps : ∀ s e s', P s → closing e → step s e = some s' → P s' ∧ μ s' < μ s
  moves : ∀ s, P s → ¬ done s → ∃ e s', closing e ∧ step s e = some s'

section Draining

variable {closing : ε → Prop} {P done : σ → Prop} {μ : σ → Nat}

/-- A run of closing steps is as long as the work it uses up allows. -/
theorem Drains.length_le (h : Drains step closing P done μ) (es : List ε) {s t : σ} (hs : P s)
    (hes : ∀ e ∈ es, closing e) (hx : exec step s es = some t) : P t ∧ es.length + μ t ≤ μ s := by
  have hcount := exec_countP_le (fun _ => true) μ (fun r e r' hr hc he => h.keeps r e r' hr hc he)
    es hs hes hx
  rw [List.countP_true] at hcount
  exact hcount

/-- From every state with `P` some run of closing steps ends `done`. -/
theorem Drains.exists_run (h : Drains step closing P done μ) {s : σ} (hs : P s) :
    ∃ es t, (∀ e ∈ es, closing e) ∧ exec step s es = some t ∧ done t := by
  generalize hn : μ s = n
  induction n using Nat.strongRecOn generalizing s with
  | ind n ih =>
    by_cases hd : done s
    · exact ⟨[], s, by simp, rfl, hd⟩
    · obtain ⟨e, s', hc, he⟩ := h.moves s hs hd
      obtain ⟨hs', hlt⟩ := h.keeps s e s' hs hc he
      obtain ⟨es, t, hes, hx, ht⟩ := ih (μ s') (hn ▸ hlt) hs' rfl
      refine ⟨e :: es, t, List.forall_mem_cons.mpr ⟨hc, hes⟩, ?_, ht⟩
      rw [exec_cons, he, Option.bind_some, hx]

end Draining

/-! ## A party without a step -/

/-- A party that cannot move as long as its own part of the state is what
it is keeps that part, whatever the others do. -/
theorem Reach.stays_put {τ α β : Type*} {step : σ → τ × α → Option σ} {ok : σ → τ × α → Prop}
    {P : σ → Prop} (part : σ → τ → β) {s s' : σ} {t : τ}
    (hkeeps : ∀ r e r', P r → ok r e → step r e = some r' → P r')
    (hothers : ∀ r u a r', step r (u, a) = some r' → t ≠ u → part r' t = part r t)
    (hstuck : ∀ r a, P r → part r t = part s t → step r (t, a) = none)
    (hs : P s) (h : Reach step ok s s') : P s' ∧ part s' t = part s t := by
  induction h with
  | init => exact ⟨hs, rfl⟩
  | @step r r' e _ hok he ih =>
    obtain ⟨hr, hsame⟩ := ih
    obtain ⟨u, a⟩ := e
    rcases Classical.em (t = u) with rfl | hu
    · rw [hstuck r a hr hsame] at he
      cases he
    · exact ⟨hkeeps r (u, a) r' hr hok he, (hothers r u a r' he hu).trans hsame⟩

/-! ## Lowering -/

/-- Where every step is a run of the lower system, every run is one. -/
theorem exec_lower {σ' ε' : Type*} {low : σ' → ε' → Option σ'} {P : σ → Prop} (f : σ → σ')
    (g : ε → List ε')
    (hstep : ∀ s e s', P s → step s e = some s' → P s' ∧ exec low (f s) (g e) = some (f s'))
    (es : List ε) {s t : σ} (hs : P s) (h : exec step s es = some t) :
    exec low (f s) (es.flatMap g) = some (f t) := by
  induction es generalizing s with
  | nil =>
    cases h
    rfl
  | cons e es ih =>
    rw [exec_cons] at h
    obtain ⟨s', he, h'⟩ := Option.bind_eq_some_iff.mp h
    obtain ⟨hs', hlow⟩ := hstep s e s' hs he
    rw [List.flatMap_cons, exec_append, hlow, Option.bind_some]
    exact ih hs' h'

end Runs
