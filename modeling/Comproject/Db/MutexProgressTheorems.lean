/-
Comproject.Db.MutexProgressTheorems — the kind of mutex that the guard
`MutexScopedLock` can live with.

The guard ignores the return code of `pthread_mutex_lock`, so everything
depends on what a second lock by the owner does. On an error-checking
mutex the second guard of a thread comes to life without a hold
(`guardsHold_iff_not_errorcheck`). On a normal one it never does: its
thread waits for itself, for ever, and keeps the mutex. On a recursive one
neither happens. `mutexGuards_close_iff` says when all guards can still be
closed; it is the general fact about stacks of scopes.
-/
import Comproject.Db.MutexScopedLock
import Comproject.Lib.Stacks

namespace Comproject.Db.MutexScopedLock

open Mutex

variable {τ : Type} [DecidableEq τ] {kind : Kind} {stray : Lock τ → τ → Lock τ} {s s' : State τ}
  {t : τ}

/-! ## Closing -/

def Action.closes : Action → Bool
  | .construct => false
  | .constructed | .destroy => true

/-- On a normal mutex, the innermost guard waits inside an older one. -/
def waitsForItself (kind : Kind) : List Guard → Bool
  | g :: _ :: _ => decide (kind = .normal) && !g.live
  | _ => false

/-- No guard is left. -/
def State.Closed (s : State τ) : Prop := Stacks.Closed s.stack (s.mutex = Lock.free)

/-- The closing steps a guard has before it. -/
def Guard.work (g : Guard) : Nat := if g.live then 1 else 2

/-- A closing step makes the innermost guard live or takes it away. -/
theorem step_closes {a : Action} (ha : a.closes = true)
    (h : step kind stray s (t, a) = some s') :
    ∃ g gs gs', s.stack t = g :: gs ∧ s'.stack = Function.update s.stack t gs' ∧
      ((g.live = false ∧ ∃ h, gs' = ⟨true, h⟩ :: gs) ∨ (g.live = true ∧ gs' = gs)) := by
  cases a with
  | construct => cases ha
  | constructed =>
    obtain ⟨h0, gs, hst, ⟨m, -, rfl⟩ | ⟨-, rfl⟩⟩ := step_constructed_iff.mp h
    · exact ⟨_, gs, _, hst, rfl, .inl ⟨rfl, true, rfl⟩⟩
    · exact ⟨_, gs, _, hst, rfl, .inl ⟨rfl, false, rfl⟩⟩
  | destroy =>
    obtain ⟨h0, gs, hst, rfl⟩ := step_destroy_iff.mp h
    exact ⟨_, gs, _, hst, rfl, .inr ⟨rfl, rfl⟩⟩

/-! ## Somebody can go on -/

/-- The owner of the mutex has a live guard. -/
theorem Inv.live_of_owner (hi : Inv kind s) (ho : s.mutex.owner = some t) :
    ∃ g ∈ s.stack t, g.live = true := by
  have hpos : 0 < s.holds t := by
    rw [hi.owns.holds t, if_pos ho]
    exact hi.owns.depth_pos t ho
  obtain ⟨g, hg, hold⟩ := List.countP_pos_iff.mp hpos
  exact ⟨g, hg, by rw [← hi.hold t g hg, hold]⟩

theorem closes_of_granted {h : Bool} {gs : List Guard} (hst : s.stack t = ⟨false, h⟩ :: gs)
    {m : Lock τ} (hl : s.mutex.lock kind t = .granted m) :
    ∃ e s', Action.closes e.2 = true ∧ step kind stray s e = some s' :=
  ⟨(t, .constructed), _, rfl, step_constructed_iff.mpr ⟨h, gs, hst, .inl ⟨m, hl, rfl⟩⟩⟩

theorem Inv.closing_step (hi : Inv kind s) (stray : Lock τ → τ → Lock τ)
    (hself : ∀ t, waitsForItself kind (s.stack t) = false) (hopen : ∃ t, s.stack t ≠ []) :
    ∃ e s', Action.closes e.2 = true ∧ step kind stray s e = some s' := by
  by_cases hlive : ∃ t h gs, s.stack t = ⟨true, h⟩ :: gs
  · obtain ⟨t, h, gs, hst⟩ := hlive
    exact ⟨(t, .destroy), _, rfl, step_destroy_iff.mpr ⟨h, gs, hst, rfl⟩⟩
  · -- every innermost guard waits
    have htop : ∀ t, s.stack t ≠ [] → ∃ h gs, s.stack t = ⟨false, h⟩ :: gs := by
      intro t hne
      obtain ⟨⟨live, h⟩, gs, hst⟩ := List.exists_cons_of_ne_nil hne
      cases live with
      | false => exact ⟨h, gs, hst⟩
      | true => exact absurd ⟨t, h, gs, hst⟩ hlive
    cases ho : s.mutex.owner with
    | none =>
      obtain ⟨t, hne⟩ := hopen
      obtain ⟨h, gs, hst⟩ := htop t hne
      exact closes_of_granted hst (m := ⟨some t, 1⟩) (by simp [Lock.lock, ho])
    | some t =>
      -- the owner waits inside a live guard, which only a recursive mutex allows
      obtain ⟨k, hk, hklive⟩ := hi.live_of_owner ho
      obtain ⟨h, gs, hst⟩ := htop t (List.ne_nil_of_mem hk)
      cases gs with
      | nil =>
        rw [hst, List.mem_singleton] at hk
        subst hk
        cases hklive
      | cons k' ks =>
        have hnot := hself t
        rw [hst] at hnot
        cases kind with
        | normal => simp [waitsForItself] at hnot
        | errorcheck =>
          have := hi.flat rfl t
          simp [hst] at this
        | recursive =>
          exact closes_of_granted hst (m := ⟨some t, s.mutex.depth + 1⟩) (by simp [Lock.lock, ho])

/-! ## One thread's guards -/

omit [DecidableEq τ] in
theorem noNesting_of_closes {e : τ × Action} (h : e.2.closes = true) : NoNesting kind s e := by
  obtain ⟨t, a⟩ := e
  cases a with
  | construct => cases h
  | constructed | destroy => trivial

theorem step_stack {a : Action} (h : step kind stray s (t, a) = some s') :
    ∃ gs, s'.stack = Function.update s.stack t gs := by
  cases a with
  | construct =>
    obtain ⟨-, rfl⟩ := step_construct_iff.mp h
    exact ⟨_, rfl⟩
  | constructed =>
    obtain ⟨-, gs, -, ⟨m, -, rfl⟩ | ⟨-, rfl⟩⟩ := step_constructed_iff.mp h
    · exact ⟨_, rfl⟩
    · exact ⟨_, rfl⟩
  | destroy =>
    obtain ⟨-, gs, -, rfl⟩ := step_destroy_iff.mp h
    exact ⟨_, rfl⟩

/-- A closing step takes from the work, and what it leaves on top is
live. -/
theorem Inv.closing (hi : Inv kind s) {a : Action} (ha : a.closes = true)
    (h : step kind stray s (t, a) = some s') :
    Stacks.work Guard.work (s'.stack t) < Stacks.work Guard.work (s.stack t) ∧
    waitsForItself kind (s'.stack t) = false := by
  obtain ⟨g, gs, gs', hst, hstack, hgs'⟩ := step_closes ha h
  have hbelow : ∀ k ∈ gs, k.live = true := fun k hk => hi.below t k (by simpa [hst] using hk)
  rw [hstack, hst, Function.update_self]
  obtain ⟨hg, h0, rfl⟩ | ⟨hg, rfl⟩ := hgs'
  · constructor
    · simp [Guard.work, hg]
    · cases gs with
      | nil => rfl
      | cons k ks => simp [waitsForItself]
  · constructor
    · simp [Guard.work, hg]
    · rcases gs' with _ | ⟨k, _ | ⟨k', ks⟩⟩
      · rfl
      · rfl
      · simp [waitsForItself, hbelow k (by simp)]

/-! ## A thread that waits for itself -/

/-- It owns the mutex, and it takes no step. -/
theorem Inv.no_step (hi : Inv kind s) (stray : Lock τ → τ → Lock τ)
    (hself : waitsForItself kind (s.stack t) = true) (a : Action) :
    s.mutex.owner = some t ∧ MutexScopedLock.step kind stray s (t, a) = none := by
  match hst : s.stack t with
  | [] | [_] => simp [hst, waitsForItself] at hself
  | g :: k :: ks =>
    obtain ⟨live, h⟩ := g
    obtain ⟨rfl, rfl⟩ : kind = .normal ∧ live = false := by
      simpa [hst, waitsForItself] using hself
    have hk : k.live = true := hi.below t k (by simp [hst])
    have ho : s.mutex.owner = some t := hi.owns.owner (hi.holds_pos (by simp [hst]) hk)
    refine ⟨ho, ?_⟩
    cases a with
    | construct => simp [MutexScopedLock.step, hst, settled]
    | constructed => simp [MutexScopedLock.step, hst, Lock.lock, ho]
    | destroy => simp [MutexScopedLock.step, hst]

/-! ## The discipline -/

/-- The guards of a mutex as stacks of scopes. -/
def scopes (kind : Kind) (stray : Lock τ → τ → Lock τ) :
    Stacks.System (State τ) τ Action Guard where
  step := MutexScopedLock.step kind stray
  stack := State.stack
  ok := NoNesting kind
  closes := Action.closes
  cost := Guard.work
  stuck := waitsForItself kind
  free s := s.mutex = Lock.free

theorem discipline (kind : Kind) (stray : Lock τ → τ → Lock τ) :
    Stacks.Discipline (scopes kind stray) (Inv kind) where
  keeps _ e _ hi hok h := inv_step e hi hok h
  own _ _ _ _ h := step_stack h
  ok_of_closes _ _ h := noNesting_of_closes h
  closing _ _ _ _ hi ha h := hi.closing ha h
  moves _ hi hself hopen := hi.closing_step stray hself hopen
  waits _ _ hi hself a := (hi.no_step stray hself a).2
  stuck_nil := rfl
  free _ hi hempty := hi.guardsHold.free hempty

/-! ## A guard without a hold -/

/-- One thread opens two guards. -/
def twice (t : τ) : List (τ × Action) :=
  [(t, .construct), (t, .constructed), (t, .construct), (t, .constructed)]

/-- On an error-checking mutex the inner one is live and holds nothing. -/
theorem exec_twice (stray : Lock τ → τ → Lock τ) (t : τ) :
    ∃ s, Runs.exec (step .errorcheck stray) State.initial (twice t) = some s ∧
      s.stack t = [⟨true, false⟩, ⟨true, true⟩] := by
  refine ⟨⟨⟨some t, 1⟩, Function.update (fun _ => []) t [⟨true, false⟩, ⟨true, true⟩]⟩, ?_,
    by simp⟩
  simp [twice, Runs.exec_cons, step, State.initial, settled, Lock.lock, Lock.free]

/-! ## Main results -/

/-- **Guards that end.** In every state of every run without nested guards
on an error-checking mutex, all guards can be closed by lock calls that
return and destructors if and only if no thread waits, on a normal mutex,
inside a guard of its own. A thread that does keeps the mutex for ever. -/
theorem mutexGuards_close_iff [Fintype τ] (kind : Kind) (stray : Lock τ → τ → Lock τ)
    (s : State τ) (hs : Runs.Reach (step kind stray) (NoNesting kind) State.initial s) :
    ((∃ es s', (∀ e ∈ es, Action.closes e.2 = true) ∧
        Runs.exec (step kind stray) s es = some s' ∧ s'.Closed) ↔
      ∀ t, waitsForItself kind (s.stack t) = false) ∧
    ∀ t s', waitsForItself kind (s.stack t) = true →
      Runs.Reach (step kind stray) (NoNesting kind) s s' →
      s'.stack t = s.stack t ∧ s'.mutex.owner = some t := by
  have hi : Inv kind s := hs.invariant inv_initial (fun _ e _ hi hok h => inv_step e hi hok h)
  refine ⟨(discipline kind stray).closes_iff hi, fun t s' hself hs' => ?_⟩
  obtain ⟨hi', hsame⟩ := (discipline kind stray).stays_stuck hi hself hs'
  have hself' : waitsForItself kind (s'.stack t) = true := by
    rw [show s'.stack t = s.stack t from hsame]
    exact hself
  exact ⟨hsame, (hi'.no_step stray hself' .destroy).1⟩

/-- A thread waits for another one's guard, which can be closed. A thread
that waits inside its own cannot go on. -/
theorem mutexGuards_close_two_threads :
    (∃ s es s', Runs.exec (step .normal (fun m (_ : Bool) => m)) State.initial
        [(true, .construct), (true, .constructed), (false, .construct)] = some s ∧
      Runs.exec (step .normal (fun m (_ : Bool) => m)) s es = some s' ∧ s'.Closed) ∧
    ∃ s, Runs.exec (step .normal (fun m (_ : Bool) => m)) State.initial
        [(true, .construct), (true, .constructed), (true, .construct)] = some s ∧
      ¬ ∃ es s', (∀ e ∈ es, Action.closes e.2 = true) ∧
        Runs.exec (step .normal (fun m (_ : Bool) => m)) s es = some s' ∧ s'.Closed := by
  have hreach := Runs.Reach.of_exec (step .normal (fun m (_ : Bool) => m)) (NoNesting .normal)
    State.initial [(true, .construct), (true, .constructed), (false, .construct)] rfl
  have hreach' := Runs.Reach.of_exec (step .normal (fun m (_ : Bool) => m)) (NoNesting .normal)
    State.initial [(true, .construct), (true, .constructed), (true, .construct)] rfl
  obtain ⟨es, s', -, hx, hclosed⟩ := (mutexGuards_close_iff .normal _ _ hreach).1.mpr (by decide)
  refine ⟨⟨_, es, s', rfl, hx, hclosed⟩, _, rfl, fun h => ?_⟩
  have hself := (mutexGuards_close_iff .normal _ _ hreach').1.mp h true
  exact absurd hself (by decide)

end Comproject.Db.MutexScopedLock
