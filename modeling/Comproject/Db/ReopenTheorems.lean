/-
Comproject.Db.ReopenTheorems — `upgrade2writer` is closing the guard and
opening a new one in write mode.

The name and the `bool` result promise more than the two calls in the
body do. Take any run and put, for every call of `upgrade2writer`, the
destructor and a constructor with `write = true` in its place: the result
is again a run, with the same lock word at every step and the same live
guards (`upgrade_is_reopen`). So whatever can happen between two separate
guards of a thread can happen inside `upgrade2writer`.

The replacement needs one fact about all runs, nested or not: below the
innermost guard of a thread every guard is live, since a constructor or
`upgrade2writer` that has not returned keeps its thread from opening
another guard.
-/
import Comproject.Db.UpgradeTheorems

namespace Comproject.Db.RWMutexScopedLock

open Rwlock

variable {τ : Type} [DecidableEq τ]

/-! ## Guards that are never upgraded -/

/-- The guard that stands in the place of `g`. -/
def Guard.reopened (g : Guard) : Guard where
  write := g.isWriter || decide (g.phase = .upgrading)
  phase := if g.phase = .upgrading then .constructing else g.phase
  upgraded := false
  hold := g.hold

def State.reopened (s : State τ) : State τ := ⟨s.lock, fun t => (s.stack t).map Guard.reopened⟩

/-- The steps that stand in the place of a step. -/
def reopen : τ × Action → List (τ × Action)
  | (t, .upgrade) => [(t, .destroy), (t, .construct true)]
  | (t, .upgraded) => [(t, .constructed)]
  | (t, a) => [(t, a)]

theorem Guard.reopened_live_iff {g : Guard} : g.reopened.phase = .live ↔ g.phase = .live := by
  unfold Guard.reopened
  by_cases h : g.phase = .upgrading <;> simp [h]

theorem Guard.isWriter_reopened {g : Guard} (h : g.phase = .live) :
    g.reopened.isWriter = g.isWriter := by
  simp [Guard.reopened, Guard.isWriter, h]

/-- A change of one thread's stack. -/
theorem reopened_update (l l' : Lock τ) (f : τ → List Guard) (t : τ) (gs : List Guard) :
    (State.mk l (Function.update f t gs)).reopened
      = ⟨l, Function.update (State.mk l' f).reopened.stack t (gs.map Guard.reopened)⟩ := by
  unfold State.reopened
  congr 1
  funext u
  by_cases hu : u = t
  · subst hu; simp
  · simp [hu]

/-! ## What holds in every run -/

/-- The older guards of a thread are live, and a constructor that has not
returned belongs to a guard that nobody has upgraded. -/
structure Stacked (gs : List Guard) : Prop where
  below : ∀ k ∈ gs.tail, k.phase = .live
  fresh : ∀ g ∈ gs, g.phase = .constructing → g.upgraded = false

theorem Stacked.tail {g : Guard} {gs : List Guard} (h : Stacked (g :: gs)) : Stacked gs where
  below k hk := h.below k (List.mem_of_mem_tail hk)
  fresh k hk := h.fresh k (List.mem_cons_of_mem g hk)

theorem Stacked.replace {g g' : Guard} {gs : List Guard} (h : Stacked (g :: gs))
    (hph : g'.phase ≠ .constructing) : Stacked (g' :: gs) where
  below := h.below
  fresh := List.forall_mem_cons.mpr ⟨fun hc => absurd hc hph, h.tail.fresh⟩

theorem Stacked.settled_tail {g : Guard} {gs : List Guard} (h : Stacked (g :: gs)) :
    settled gs = true := by
  cases gs with
  | nil => rfl
  | cons k ks => simp [settled, h.below k (by simp)]

theorem Stacked.moves {a : Action} {gs gs' : List Guard} (h : Stacked gs) (hm : Moves a gs gs') :
    Stacked gs' := by
  cases hm with
  | construct w gs hset =>
    refine ⟨fun k hk => ?_, List.forall_mem_cons.mpr ⟨fun _ => rfl, h.fresh⟩⟩
    cases gs with
    | nil => simp at hk
    | cons g gs =>
      obtain rfl | hk := List.mem_cons.mp hk
      · simpa [settled] using hset
      · exact h.below k hk
  | constructed g gs m hph | upgrade g gs hph | upgraded g gs m hph =>
    exact h.replace (by simp)
  | destroy g gs hph => exact h.tail

theorem stacked_step {stray : Lock τ → τ → Lock τ} {s s' : State τ} {e : τ × Action}
    (hst : ∀ t, Stacked (s.stack t)) (h : step stray s e = some s') : ∀ t, Stacked (s'.stack t) := by
  obtain ⟨t, a⟩ := e
  obtain ⟨gs, hmoves, hstack⟩ := step_stack h
  rw [hstack]
  exact (Function.forall_update_iff s.stack (fun _ gs => Stacked gs)).mpr
    ⟨(hst t).moves hmoves, fun u _ => hst u⟩

/-! ## One step -/

section Steps

variable {stray : Lock τ → τ → Lock τ} {s s' : State τ} {t : τ} {g : Guard} {gs : List Guard}

omit [DecidableEq τ] in
theorem reopened_stack (hst : s.stack t = g :: gs) :
    s.reopened.stack t = g.reopened :: gs.map Guard.reopened := by
  simp [State.reopened, hst]

theorem settled_reopened (gs : List Guard) : settled (gs.map Guard.reopened) = settled gs := by
  cases gs with
  | nil => rfl
  | cons g gs =>
    simp only [List.map_cons, settled]
    by_cases h : g.phase = .live
    · simp [h, Guard.reopened_live_iff.mpr h]
    · have h' : g.reopened.phase ≠ .live := fun hr => h (Guard.reopened_live_iff.mp hr)
      simp [h, h']

/-- A lock call ends alike for two guards that stand for each other once
they are live. -/
theorem lockReturns_reopened {m : Mode} {k : Guard}
    (hk : ∀ hold, ({ g with phase := .live, hold := hold } : Guard).reopened
      = { k with phase := .live, hold := hold })
    (h : s.lockReturns t m g gs = some s') :
    s.reopened.lockReturns t m k (gs.map Guard.reopened) = some s'.reopened := by
  unfold State.lockReturns at h ⊢
  have hlock : s.reopened.lock = s.lock := rfl
  rw [hlock]
  split at h
  · cases h
    rw [reopened_update _ s.lock, List.map_cons, hk]
  · cases h
    rw [reopened_update _ s.lock, List.map_cons, hk]
  · cases h

/-- A lock call returns, of the constructor or of `upgrade2writer`: in the
replaced run it is the constructor's. -/
theorem reopen_constructed (hst : s.stack t = g :: gs) (hph : g.phase ≠ .live) {m : Mode}
    (hm : lockMode g.reopened.write = m) {k : Guard}
    (hk : ∀ hold, ({ k with phase := .live, hold := hold } : Guard).reopened
      = { g.reopened with phase := .live, hold := hold })
    (h : s.lockReturns t m k gs = some s') :
    step stray s.reopened (t, .constructed) = some s'.reopened := by
  have hphase : g.reopened.phase = .constructing := by
    unfold Guard.reopened
    cases hp : g.phase with
    | live => exact absurd hp hph
    | constructing => rfl
    | upgrading => rfl
  subst hm
  exact step_constructed_iff.mpr ⟨_, _, reopened_stack hst, hphase, lockReturns_reopened hk h⟩

/-- The destructor. -/
theorem reopen_destroy (hst : s.stack t = g :: gs) (hph : g.phase = .live) :
    step stray s.reopened (t, .destroy)
      = some ⟨s.lock.unlock stray t,
          Function.update s.reopened.stack t (gs.map Guard.reopened)⟩ :=
  step_destroy_iff.mpr ⟨_, _, reopened_stack hst, Guard.reopened_live_iff.mpr hph, rfl⟩

/-- Every step is a step, or two, of guards that are never upgraded. -/
theorem reopen_step {e : τ × Action} (hstk : ∀ t, Stacked (s.stack t))
    (h : step stray s e = some s') :
    Runs.exec (step stray) s.reopened (reopen e) = some s'.reopened := by
  obtain ⟨t, a⟩ := e
  cases a with
  | construct w =>
    obtain ⟨hset, rfl⟩ := step_construct_iff.mp h
    have hstep : step stray s.reopened (t, .construct w)
        = some (State.mk s.lock
            (Function.update s.stack t (⟨w, .constructing, false, none⟩ :: s.stack t))).reopened := by
      refine step_construct_iff.mpr ⟨?_, ?_⟩
      · rw [← hset]
        exact settled_reopened (s.stack t)
      · rw [reopened_update _ s.lock, List.map_cons]
        simp [State.reopened, Guard.reopened, Guard.isWriter]
    simp only [reopen, Runs.exec_cons, hstep, Option.bind_some, Runs.exec_nil]
  | constructed =>
    obtain ⟨g, gs, hst, hph, h⟩ := step_constructed_iff.mp h
    have hfresh := (hstk t).fresh g (by simp [hst]) hph
    have hm : lockMode g.reopened.write = lockMode g.write := by
      simp [Guard.reopened, Guard.isWriter, hfresh, hph]
    have hstep : step stray s.reopened (t, .constructed) = some s'.reopened :=
      reopen_constructed hst (by simp [hph]) hm
        (fun hold => by simp [Guard.reopened, Guard.isWriter, hph]) h
    simp only [reopen, Runs.exec_cons, hstep, Option.bind_some, Runs.exec_nil]
  | upgrade =>
    obtain ⟨g, gs, hst, hph, rfl⟩ := step_upgrade_iff.mp h
    have hset : settled (gs.map Guard.reopened) = true := by
      rw [settled_reopened]
      exact (hst ▸ hstk t : Stacked (g :: gs)).settled_tail
    have hopen : step stray ⟨s.lock.unlock stray t,
          Function.update s.reopened.stack t (gs.map Guard.reopened)⟩ (t, .construct true)
        = some (State.mk (s.lock.unlock stray t) (Function.update s.stack t
            ({ g with phase := .upgrading, hold := none } :: gs))).reopened := by
      refine step_construct_iff.mpr ⟨by simpa using hset, ?_⟩
      rw [reopened_update _ s.lock, List.map_cons]
      simp only [Function.update_self, Function.update_idem]
      simp [Guard.reopened]
    simp only [reopen, Runs.exec_cons, reopen_destroy hst hph, hopen, Option.bind_some,
      Runs.exec_nil]
  | upgraded =>
    obtain ⟨g, gs, hst, hph, h⟩ := step_upgraded_iff.mp h
    have hm : lockMode g.reopened.write = .write := by
      simp [Guard.reopened, hph, lockMode]
    have hstep : step stray s.reopened (t, .constructed) = some s'.reopened :=
      reopen_constructed hst (by simp [hph]) hm
        (fun hold => by simp [Guard.reopened, Guard.isWriter, hph]) h
    simp only [reopen, Runs.exec_cons, hstep, Option.bind_some, Runs.exec_nil]
  | destroy =>
    obtain ⟨g, gs, hst, hph, rfl⟩ := step_destroy_iff.mp h
    rw [reopened_update _ s.lock]
    simp only [reopen, Runs.exec_cons, reopen_destroy hst hph, Option.bind_some, Runs.exec_nil]

end Steps

/-! ## Whole runs -/

omit [DecidableEq τ] in
theorem not_upgrade_of_mem_reopen {e f : τ × Action} (h : f ∈ reopen e) :
    f.2 ≠ .upgrade ∧ f.2 ≠ .upgraded := by
  obtain ⟨t, a⟩ := e
  cases a <;> simp only [reopen, List.mem_cons, List.not_mem_nil, or_false] at h
  · subst h; simp
  · subst h; simp
  · obtain rfl | rfl := h <;> simp
  · subst h; simp
  · subst h; simp

/-- The live guards of the replaced run are those of the run. -/
theorem guardsHold_reopened_iff (s : State τ) : GuardsHold s.reopened ↔ GuardsHold s := by
  constructor
  · intro h
    constructor
    · intro t u g k htu hg hlive hw hk hklive
      refine h.exclusive t u g.reopened k.reopened htu (List.mem_map_of_mem hg)
        (Guard.reopened_live_iff.mpr hlive) ?_ (List.mem_map_of_mem hk)
        (Guard.reopened_live_iff.mpr hklive)
      rw [Guard.isWriter_reopened hlive, hw]
    · intro t g gs hst hlive
      exact h.own t g.reopened (gs.map Guard.reopened) (reopened_stack hst)
        (Guard.reopened_live_iff.mpr hlive)
    · intro hempty
      exact h.free (fun t => by simp [State.reopened, hempty t])
  · intro h
    constructor
    · intro t u g k htu hg hlive hw hk hklive
      obtain ⟨g, hg', rfl⟩ := List.mem_map.mp hg
      obtain ⟨k, hk', rfl⟩ := List.mem_map.mp hk
      have hlive' := Guard.reopened_live_iff.mp hlive
      rw [Guard.isWriter_reopened hlive'] at hw
      exact h.exclusive t u g k htu hg' hlive' hw hk' (Guard.reopened_live_iff.mp hklive)
    · intro t g gs hst hlive
      obtain ⟨g, gs, hst', rfl, rfl⟩ := List.map_eq_cons_iff.mp hst
      exact h.own t g gs hst' (Guard.reopened_live_iff.mp hlive)
    · intro hempty
      exact h.free (fun t => by simpa [State.reopened] using hempty t)

/-- **`upgrade2writer` is no upgrade.** Every run is, call for call, a run
of a program without `upgrade2writer` in which the guard is closed and a
new one is opened in write mode. The lock word is the same, the live
guards are the same in mode and hold, and they hold the lock in the one
run if and only if they do in the other. -/
theorem upgrade_is_reopen (stray : Lock τ → τ → Lock τ) (es : List (τ × Action)) (s : State τ)
    (h : Runs.exec (step stray) State.initial es = some s) :
    Runs.exec (step stray) State.initial (es.flatMap reopen) = some s.reopened ∧
    (∀ e ∈ es.flatMap reopen, e.2 ≠ .upgrade ∧ e.2 ≠ .upgraded) ∧
    s.reopened.lock = s.lock ∧ (GuardsHold s.reopened ↔ GuardsHold s) := by
  refine ⟨?_, fun e he => ?_, rfl, guardsHold_reopened_iff s⟩
  · have hinit : ∀ t, Stacked ((State.initial : State τ).stack t) :=
      fun _ => ⟨by simp [State.initial], by simp [State.initial]⟩
    exact Runs.exec_lower (P := fun s => ∀ t, Stacked (s.stack t)) State.reopened reopen
      (fun s e s' hst hs => ⟨stacked_step hst hs, reopen_step hst hs⟩) es hinit h
  · obtain ⟨f, -, hf⟩ := List.mem_flatMap.mp he
    exact not_upgrade_of_mem_reopen hf

/-- Thread A upgrades after thread B has left. -/
theorem upgrade_is_reopen_readThenUpgrade :
    ∃ s, Runs.exec (step keepLock) State.initial readThenUpgrade = some s ∧
      Runs.exec (step keepLock) State.initial
        [(threadB, .construct false), (threadA, .construct false), (threadA, .constructed),
         (threadB, .constructed), (threadB, .destroy), (threadA, .destroy),
         (threadA, .construct true), (threadA, .constructed)] = some s.reopened :=
  ⟨_, rfl, (upgrade_is_reopen keepLock readThenUpgrade _ rfl).1⟩

end Comproject.Db.RWMutexScopedLock
