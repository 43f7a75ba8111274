/-
Comproject.Server.MainRunTheorems — when a stop request survives.

A stop request that arrives at any other point than the two assignments
`is_run_ = true` puts the process into a region it never leaves
(`Stopped`): the flag is down and no further step of the main thread can
raise it, because `Run`'s assignment is reached only through a test that
found the flag up. A request that arrives right before one of the two
assignments is overwritten by the main thread's next step.

So the requests of a schedule are all kept exactly when none of them
arrives at these two points (`stopsKept_iff_safeStops`).

What the main thread does is said once, as the control flow graph of
`Config`, `main` and `Run` (`mainStep_spec`); the invariants here and in
the modules after this one are facts about that graph.
-/
import Comproject.Server.MainRun
import Mathlib.Data.List.Induction
import Mathlib.Data.Fintype.OfMap

namespace Comproject.Server

/-! ## Events other than the main thread's -/

/-- A signal is dealt with by doing nothing. -/
theorem dealSignals_eq (signo : Int) (m : MainRun) : m.dealSignals signo = m := by
  simp only [MainRun.dealSignals, ite_self]

theorem step_signal {m m' : MainRun} {signo : Int} (h : m.step (.signal signo) = some m') :
    m' = m := by
  simp only [MainRun.step, dealSignals_eq] at h
  split at h
  case isTrue => exact (Option.some.inj h).symm
  case isFalse => cases h

theorem step_stopRun {m m' : MainRun} (h : m.step .stopRun = some m') :
    m' = m.stopRun ∧ m.installed ≠ [] := by
  simp only [MainRun.step] at h
  split at h
  case isTrue hcond => exact ⟨(Option.some.inj h).symm, hcond.1⟩
  case isFalse => cases h

/-! ## The main thread's steps -/

instance : Fintype Pc :=
  Fintype.ofList [.configSignals, .configRun, .testExit, .testRun, .mainSleep, .runEntry, .runTest,
    .runSleep, .runLeave, .destory, .returned] (fun p => by cases p <;> decide)

/-- The control flow: where the main thread goes, by the two flags. -/
def Pc.next (run exit : Bool) : Pc → Option Pc
  | .configSignals => some .configRun
  | .configRun => some .testExit
  | .testExit => some (if exit then .destory else .testRun)
  | .testRun => some (if run then .runEntry else .mainSleep)
  | .mainSleep => some .testExit
  | .runEntry => some .runTest
  | .runTest => some (if run then .runSleep else .runLeave)
  | .runSleep => some .runTest
  | .runLeave => some .testExit
  | .destory => some .returned
  | .returned => none

/-- The flag after the step. -/
def Pc.flagAfter (run : Bool) : Pc → Bool
  | .configRun | .runEntry => true
  | .runLeave => false
  | _ => run

/-- What a step of the main thread does to its place and the flags. -/
theorem mainStep_spec {m m' : MainRun} (h : m.step .main = some m') :
    m.pc.next m.is_run_ m.is_exit_ = some m'.pc ∧ m'.is_run_ = m.pc.flagAfter m.is_run_ ∧
    m'.is_exit_ = m.is_exit_ := by
  simp only [MainRun.step, MainRun.mainStep] at h
  cases hm : m.pc <;> simp only [hm] at h <;> cases h <;> exact ⟨rfl, rfl, rfl⟩

/-- Before `main` has returned there is one. -/
theorem mainStep_exists {m : MainRun} (h : m.pc ≠ .returned) : ∃ m', m.step .main = some m' := by
  simp only [MainRun.step, MainRun.mainStep]
  cases hm : m.pc with
  | returned => exact absurd hm h
  | _ => exact ⟨_, rfl⟩

/-! ## Reachable program points -/

/-- Handlers are installed from the step after `SetSignals` on. -/
def MainRun.Installed (m : MainRun) : Prop :=
  m.pc = .configSignals → m.installed = []

/-- No step of the main thread leads back to `SetSignals`. -/
theorem Pc.next_ne_configSignals : ∀ run exit p, Pc.next run exit p ≠ some .configSignals := by
  decide

theorem installed_start (argv : List String) : (start argv).Installed := by
  unfold start
  split
  · intro h; simp at h
  · intro _; rfl

theorem installed_step (m : MainRun) (a : Act) (m' : MainRun) (h : m.Installed)
    (hstep : m.step a = some m') : m'.Installed := by
  intro hpc
  cases a with
  | main =>
    obtain ⟨hnext, -, -⟩ := mainStep_spec hstep
    exact absurd (hpc ▸ hnext) (Pc.next_ne_configSignals _ _ _)
  | signal signo =>
    rw [step_signal hstep] at hpc ⊢
    exact h hpc
  | stopRun =>
    rw [(step_stopRun hstep).1] at hpc ⊢
    exact h hpc

theorem installed_exec {argv : List String} {acts : List Act} {m : MainRun}
    (h : MainRun.exec argv acts = some m) : m.Installed :=
  Runs.exec_invariant MainRun.step (P := MainRun.Installed)
    installed_step acts (installed_start argv) h

/-! ## Stopped for good -/

/-- The flag is down, and the main thread does not stand before an
assignment that raises it. -/
structure MainRun.Stopped (m : MainRun) : Prop where
  flag : m.is_run_ = false
  not_configSignals : m.pc ≠ .configSignals
  not_configRun : m.pc ≠ .configRun
  not_runEntry : m.pc ≠ .runEntry

/-- With the flag down the main thread comes neither to the assignment of
`Run` nor round its loop, and to `Config`'s only from `SetSignals`. -/
theorem Pc.next_of_down : ∀ exit p q, Pc.next false exit p = some q →
    q ≠ .runEntry ∧ q ≠ .runSleep ∧ (q = .configRun → p = .configSignals) := by
  decide

/-- Only the two assignments raise the flag. -/
theorem Pc.flagAfter_of_down :
    ∀ p, p ≠ .configRun → p ≠ .runEntry → Pc.flagAfter false p = false := by
  decide

/-- From a stopped process the main thread neither enters `Run` nor goes
round its loop. -/
theorem stopped_mainStep {m m' : MainRun} (h : m.Stopped) (hstep : m.step .main = some m') :
    m'.pc ≠ .runEntry ∧ m'.pc ≠ .runSleep := by
  obtain ⟨hnext, -, -⟩ := mainStep_spec hstep
  rw [h.flag] at hnext
  obtain ⟨hentry, hsleep, -⟩ := Pc.next_of_down _ _ _ hnext
  exact ⟨hentry, hsleep⟩

theorem stopped_step (m : MainRun) (a : Act) (m' : MainRun) (h : m.Stopped)
    (hstep : m.step a = some m') : m'.Stopped := by
  obtain ⟨hf, h1, h2, h3⟩ := h
  cases a with
  | main =>
    obtain ⟨hnext, hflag, -⟩ := mainStep_spec hstep
    rw [hf] at hnext hflag
    obtain ⟨hentry, -, hconfig⟩ := Pc.next_of_down _ _ _ hnext
    exact
      { flag := hflag.trans (Pc.flagAfter_of_down _ h2 h3)
        not_configSignals := fun hpc => Pc.next_ne_configSignals _ _ _ (hpc ▸ hnext)
        not_configRun := fun hpc => h1 (hconfig hpc)
        not_runEntry := hentry }
  | signal signo =>
    rw [step_signal hstep]
    exact ⟨hf, h1, h2, h3⟩
  | stopRun =>
    rw [(step_stopRun hstep).1]
    exact ⟨rfl, h1, h2, h3⟩

/-- A stop request at a safe point stops the process for good. -/
theorem stopped_of_stopRun {m m' : MainRun} (hinst : m.Installed)
    (h1 : m.pc ≠ .configRun) (h2 : m.pc ≠ .runEntry) (hstep : m.step .stopRun = some m') :
    m'.Stopped := by
  obtain ⟨rfl, hinstalled⟩ := step_stopRun hstep
  exact ⟨rfl, fun hpc => hinstalled (hinst hpc), h1, h2⟩

theorem stopsKept_of_safeStops {argv : List String} {acts : List Act}
    (h : SafeStops argv acts) : StopsKept argv acts := by
  intro p q r m hacts hexec
  obtain ⟨u, hu, hrest⟩ := Runs.exec_append_some hexec
  obtain ⟨h1, h2⟩ := h p (q ++ r) u (by simp [hacts]) hu
  rw [Runs.exec_cons] at hrest
  obtain ⟨v, hv, hq⟩ := Option.bind_eq_some_iff.mp hrest
  have hstopped : m.Stopped :=
    Runs.exec_invariant MainRun.step (P := MainRun.Stopped) stopped_step q
      (stopped_of_stopRun (installed_exec hu) h1 h2 hv) hq
  exact ⟨hstopped.flag, fun m' hm' => stopped_mainStep hstopped hm'⟩

/-! ## Lost requests -/

/-- The main thread's next step is `is_run_ = true`. -/
def MainRun.Raises (m : MainRun) : Prop := m.pc = .configRun ∨ m.pc = .runEntry

/-- Until the main thread moves, it stays before the assignment. -/
theorem raises_step {m m' : MainRun} {a : Act} (h : m.Raises) (ha : a ≠ .main)
    (hstep : m.step a = some m') : m'.Raises := by
  cases a with
  | main => exact absurd rfl ha
  | signal signo =>
    rw [step_signal hstep]
    exact h
  | stopRun =>
    rw [(step_stopRun hstep).1]
    exact h

/-- The assignment overwrites whatever request came before it. -/
theorem mainStep_of_raises {m : MainRun} (h : m.Raises) :
    ∃ m', m.step .main = some m' ∧ m'.is_run_ = true := by
  rcases h with h | h
  · exact ⟨{ m with is_run_ := true, pc := .testExit }, by simp [MainRun.step, MainRun.mainStep, h],
      rfl⟩
  · exact ⟨{ m with is_run_ := true, pc := .runTest }, by simp [MainRun.step, MainRun.mainStep, h],
      rfl⟩

/-- In a schedule with a step of the main thread still to come, the flag
is raised at some point. -/
theorem flag_raised {acts : List Act} {m n : MainRun} (h : m.Raises)
    (hexec : Runs.exec MainRun.step m acts = some n) :
    ∃ q r m', acts ++ [.main] = q ++ r ∧ Runs.exec MainRun.step m q = some m'
      ∧ m'.is_run_ = true := by
  induction acts generalizing m with
  | nil =>
    obtain ⟨m', hm', hflag⟩ := mainStep_of_raises h
    exact ⟨[.main], [], m', rfl, by simp [Runs.exec_cons, hm'], hflag⟩
  | cons a acts ih =>
    by_cases ha : a = .main
    · subst ha
      obtain ⟨m', hm', hflag⟩ := mainStep_of_raises h
      exact ⟨[.main], acts ++ [.main], m', rfl, by simp [Runs.exec_cons, hm'], hflag⟩
    · rw [Runs.exec_cons] at hexec
      obtain ⟨v, hv, hrest⟩ := Option.bind_eq_some_iff.mp hexec
      obtain ⟨q, r, m', hsplit, hm', hflag⟩ := ih (raises_step h ha hv) hrest
      exact ⟨a :: q, r, m', by simp [hsplit], by simp [Runs.exec_cons, hv, hm'], hflag⟩

theorem safeStops_of_stopsKept {argv : List String} {acts : List Act} {n : MainRun}
    (hexec : MainRun.exec argv acts = some n) (h : StopsKept argv (acts ++ [.main])) :
    SafeStops argv acts := by
  intro p q m hacts hm
  by_contra hunsafe
  have hraises : m.Raises := by
    unfold MainRun.Raises
    by_contra hno
    exact hunsafe ⟨fun h1 => hno (Or.inl h1), fun h2 => hno (Or.inr h2)⟩
  rw [hacts] at hexec
  obtain ⟨u, hu, hrest⟩ := Runs.exec_append_some hexec
  obtain rfl : m = u := Option.some.inj (hm.symm.trans hu)
  rw [Runs.exec_cons] at hrest
  obtain ⟨v, hv, hq⟩ := Option.bind_eq_some_iff.mp hrest
  obtain ⟨q', r', m', hsplit, hm', hflag⟩ :=
    flag_raised (raises_step hraises (by simp) hv) hq
  have hkept := h p q' r' m' (by simp [hacts, hsplit]) (by
    rw [MainRun.exec, Runs.exec_append, hu]
    simp [Runs.exec_cons, hv, hm'])
  rw [hkept.1] at hflag
  cases hflag

/-! ## The server never ends -/

/-- `main` is still in its outer loop, or on its way there. -/
structure MainRun.Serving (m : MainRun) : Prop where
  exit : m.is_exit_ = false
  not_destory : m.pc ≠ .destory
  not_returned : m.pc ≠ .returned

/-- `main` leaves its loop for `Destory` only with `is_exit_` up. -/
theorem Pc.next_of_not_exit : ∀ run p q, Pc.next run false p = some q →
    q ≠ .destory ∧ (q = .returned → p = .destory) := by
  decide

theorem serving_step (m : MainRun) (a : Act) (m' : MainRun) (h : m.Serving)
    (hstep : m.step a = some m') : m'.Serving := by
  obtain ⟨hexit, h1, h2⟩ := h
  cases a with
  | main =>
    obtain ⟨hnext, -, hexit'⟩ := mainStep_spec hstep
    rw [hexit] at hnext
    obtain ⟨hdestory, hreturned⟩ := Pc.next_of_not_exit _ _ _ hnext
    exact ⟨hexit'.trans hexit, hdestory, fun hpc => h1 (hreturned hpc)⟩
  | signal signo =>
    rw [step_signal hstep]
    exact ⟨hexit, h1, h2⟩
  | stopRun =>
    rw [(step_stopRun hstep).1]
    exact ⟨hexit, h1, h2⟩

theorem serving_start {argv : List String} (hargv : argv[1]? ≠ some "-h") :
    (start argv).Serving := by
  unfold start
  rw [if_neg hargv]
  exact ⟨rfl, by simp [MainRun.initial], by simp [MainRun.initial]⟩

/-! ## Main results -/

/-- **The stop flag.** Take any run of the server, followed by one more
step of the main thread. No stop request in it is lost if and only if
none arrives right before one of the two assignments `is_run_ = true`,
in `Config` after `SetSignals` and at the entry of `Run`; and in every
run with that property all requests are kept. -/
theorem stopsKept_iff_safeStops (argv : List String) (acts : List Act) (n : MainRun)
    (hexec : MainRun.exec argv acts = some n) :
    (StopsKept argv (acts ++ [.main]) ↔ SafeStops argv acts)
    ∧ (SafeStops argv acts → StopsKept argv acts) := by
  refine ⟨⟨safeStops_of_stopsKept hexec, fun h => stopsKept_of_safeStops ?_⟩,
    stopsKept_of_safeStops⟩
  -- the step of the main thread adds no stop request
  intro p q m hacts hm
  rcases List.eq_nil_or_concat q with rfl | ⟨q', a, rfl⟩
  · have hlast : [Act.main] = [Act.stopRun] := (List.append_inj' hacts rfl).2
    simp at hlast
  · have hsplit : acts ++ [.main] = (p ++ .stopRun :: q') ++ [a] := by simpa using hacts
    exact h p q' m (List.append_inj' hsplit rfl).1 hm

/-- A request that arrives at `main`'s test is kept. -/
theorem stopRun_at_test_is_kept :
    StopsKept ["server"] [.main, .main, .main, .stopRun, .main] := by
  refine (stopsKept_iff_safeStops ["server"] [.main, .main, .main, .stopRun] _ rfl).1.mpr ?_
  intro p q m hacts hm
  rcases p with _ | ⟨a, _ | ⟨b, _ | ⟨c, _ | ⟨d, p⟩⟩⟩⟩ <;> simp at hacts
  obtain ⟨rfl, rfl, rfl, _⟩ := hacts
  obtain rfl := Option.some.inj (show some _ = some m from hm)
  exact ⟨by decide, by decide⟩

/-- Two lost requests. One arrives in `Config` between `SetSignals` and
`is_run_ = true`; the other between `main`'s test and `Run`'s own
assignment, and the loop of `Run` is entered after it. -/
theorem stopRun_lost :
    ¬ StopsKept ["server"] [.main, .stopRun, .main]
    ∧ ¬ StopsKept ["server"] [.main, .main, .main, .main, .stopRun, .main, .main] := by
  refine ⟨fun h => ?_, fun h => ?_⟩
  · have := (h [.main] [.main] [] _ rfl rfl).1
    simp at this
  · have := (h [.main, .main, .main, .main] [.main, .main] [] _ rfl rfl).1
    simp at this

end Comproject.Server
