/-
Comproject.Lib.Stacks — threads that open and close scopes.

Every thread has a stack of scopes, innermost first, and a step of a
thread changes no stack but its own. Some actions CLOSE: each of them
takes from the work that the scopes still have before them. A stack can
also be STUCK: its thread has no step as long as it looks like that.

`Discipline` collects what a system has to keep for this to decide its
end. Then a stuck thread stays where it is whatever the others do
(`stays_stuck`), closing steps run empty (`drains`), and all scopes can be
closed if and only if no stack is stuck (`closes_iff`).
-/
import Comproject.Lib.Runs
import Comproject.Lib.UpdateSum

namespace Stacks

/-! ## Work -/

/-- The closing steps that a stack has before it. -/
def work {γ : Type*} (cost : γ → Nat) : List γ → Nat
  | [] => 0
  | g :: gs => cost g + work cost gs

@[simp] theorem work_nil {γ : Type*} (cost : γ → Nat) : work cost [] = 0 := rfl

@[simp] theorem work_cons {γ : Type*} (cost : γ → Nat) (g : γ) (gs : List γ) :
    work cost (g :: gs) = cost g + work cost gs := rfl

theorem work_append {γ : Type*} (cost : γ → Nat) (gs gs' : List γ) :
    work cost (gs ++ gs') = work cost gs + work cost gs' := by
  induction gs with
  | nil => simp
  | cons g gs ih =>
    simp only [List.cons_append, work_cons, ih]
    omega

/-- The work of all threads. -/
def total {τ γ : Type*} [Fintype τ] (cost : γ → Nat) (stack : τ → List γ) : Nat :=
  ∑ t, work cost (stack t)

/-- No scope is left, and what the scopes shared is free. -/
structure Closed {τ γ : Type*} (stack : τ → List γ) (free : Prop) : Prop where
  empty : ∀ t, stack t = []
  free : free

/-! ## Systems -/

/-- A system of threads with stacks, and what it is about its actions and
stacks that matters. -/
structure System (σ τ α γ : Type*) where
  step : σ → τ × α → Option σ
  stack : σ → τ → List γ
  /-- the condition on the runs -/
  ok : σ → τ × α → Prop
  closes : α → Bool
  cost : γ → Nat
  stuck : List γ → Bool
  /-- what the scopes share is free -/
  free : σ → Prop

variable {σ τ α γ : Type*} [DecidableEq τ]

/-- The scopes are kept in order: `Inv` holds along the runs, a thread
works on its own stack, closing steps lead away from stuck stacks, and
some closing step is possible as long as no stack is stuck. -/
structure Discipline (S : System σ τ α γ) (Inv : σ → Prop) : Prop where
  keeps : ∀ s e s', Inv s → S.ok s e → S.step s e = some s' → Inv s'
  own : ∀ s t a s', S.step s (t, a) = some s' →
    ∃ gs, S.stack s' = Function.update (S.stack s) t gs
  ok_of_closes : ∀ s e, S.closes e.2 = true → S.ok s e
  closing : ∀ s t a s', Inv s → S.closes a = true → S.step s (t, a) = some s' →
    work S.cost (S.stack s' t) < work S.cost (S.stack s t) ∧ S.stuck (S.stack s' t) = false
  moves : ∀ s, Inv s → (∀ t, S.stuck (S.stack s t) = false) → (∃ t, S.stack s t ≠ []) →
    ∃ e s', S.closes e.2 = true ∧ S.step s e = some s'
  waits : ∀ s t, Inv s → S.stuck (S.stack s t) = true → ∀ a, S.step s (t, a) = none
  stuck_nil : S.stuck [] = false
  free : ∀ s, Inv s → (∀ t, S.stack s t = []) → S.free s

namespace Discipline

variable {S : System σ τ α γ} {Inv : σ → Prop} {s s' : σ} {t u : τ} {a : α}

/-- A step leaves the stacks of the other threads alone. -/
theorem step_other (D : Discipline S Inv) (h : S.step s (u, a) = some s') (hne : t ≠ u) :
    S.stack s' t = S.stack s t := by
  obtain ⟨gs, hstack⟩ := D.own s u a s' h
  rw [hstack, Function.update_of_ne hne]

/-! ## A stuck thread -/

/-- Its scopes stay as they are. -/
theorem stays_stuck (D : Discipline S Inv) (hi : Inv s) (hstuck : S.stuck (S.stack s t) = true)
    (h : Runs.Reach S.step S.ok s s') : Inv s' ∧ S.stack s' t = S.stack s t := by
  apply h.stays_put S.stack D.keeps (fun _ _ _ _ he hne => D.step_other he hne) _ hi
  intro r a hr hsame
  exact D.waits r t hr (hsame ▸ hstuck) a

/-! ## Running empty -/

/-- The scopes are in order and no thread is stuck. -/
structure Closing (S : System σ τ α γ) (Inv : σ → Prop) (s : σ) : Prop where
  inv : Inv s
  free : ∀ t, S.stuck (S.stack s t) = false

theorem closing_step [Fintype τ] (D : Discipline S Inv) (hc : Closing S Inv s) {e : τ × α}
    (he : S.closes e.2 = true) (h : S.step s e = some s') :
    Closing S Inv s' ∧ total S.cost (S.stack s') < total S.cost (S.stack s) := by
  obtain ⟨t, a⟩ := e
  obtain ⟨hwork, hown⟩ := D.closing s t a s' hc.inv he h
  obtain ⟨gs, hstack⟩ := D.own s t a s' h
  have hinv := D.keeps s (t, a) s' hc.inv (D.ok_of_closes s (t, a) he) h
  have hfree : ∀ u, S.stuck (S.stack s' u) = false := by
    intro u
    by_cases hu : u = t
    · exact hu ▸ hown
    · rw [D.step_other h hu]
      exact hc.free u
  have hless : total S.cost (S.stack s') < total S.cost (S.stack s) := by
    have hsum := UpdateSum.sum_update_add (work S.cost) (S.stack s) t gs
    rw [hstack, Function.update_self] at hwork
    unfold total
    rw [hstack]
    omega
  exact ⟨⟨hinv, hfree⟩, hless⟩

theorem drains [Fintype τ] (D : Discipline S Inv) :
    Runs.Drains S.step (fun e => S.closes e.2 = true) (Closing S Inv)
      (fun s => Closed (S.stack s) (S.free s)) (fun s => total S.cost (S.stack s)) where
  keeps _ _ _ hc he h := D.closing_step hc he h
  moves s hc hopen := by
    refine D.moves s hc.inv hc.free ?_
    by_contra hnone
    have hempty : ∀ t, S.stack s t = [] := by simpa using hnone
    exact hopen ⟨hempty, D.free s hc.inv hempty⟩

/-- All scopes can be closed by closing steps alone if and only if no
thread is stuck. -/
theorem closes_iff [Fintype τ] (D : Discipline S Inv) (hi : Inv s) :
    (∃ es s', (∀ e ∈ es, S.closes e.2 = true) ∧ Runs.exec S.step s es = some s' ∧
        Closed (S.stack s') (S.free s')) ↔ ∀ t, S.stuck (S.stack s t) = false := by
  constructor
  · rintro ⟨es, s', hes, hx, hclosed⟩ t
    by_contra hstuck
    have hreach : Runs.Reach S.step S.ok s s' :=
      Runs.Reach.of_forall es (fun e he r => D.ok_of_closes r e (hes e he)) .init hx
    obtain ⟨-, hsame⟩ := D.stays_stuck hi (by simpa using hstuck) hreach
    rw [← hsame, hclosed.empty t, D.stuck_nil] at hstuck
    exact hstuck rfl
  · intro hfree
    exact D.drains.exists_run ⟨hi, hfree⟩

end Discipline

end Stacks
