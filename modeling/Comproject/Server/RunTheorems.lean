/-
Comproject.Server.RunTheorems — what the main thread does over whole runs,
with and without a stop request.

Without one it is inside `Run` for good from its fifth step on
(`inside_run`). A stop request that is not lost takes effect within three
steps of the main thread, which is the way out of `Run`. From then on the
main thread goes round `main`'s outer loop and never serves again,
whatever else arrives (`stop_takes_effect`). There is no way back into
`Run`.
-/
import Comproject.Server.MainRunTheorems

namespace Comproject.Server

/-! ## Without a stop request -/

/-- The steps the main thread takes before it is inside `Run`'s loop. -/
def Pc.ahead : Pc → Nat
  | .configSignals => 5
  | .configRun => 4
  | .testExit => 3
  | .testRun => 2
  | .runEntry => 1
  | _ => 0

/-- On the way into `Run`, or inside its loop. -/
structure MainRun.Entering (m : MainRun) : Prop where
  exit : m.is_exit_ = false
  flag : m.pc ≠ .configSignals → m.pc ≠ .configRun → m.is_run_ = true
  place : m.pc ≠ .mainSleep ∧ m.pc ≠ .runLeave ∧ m.pc ≠ .destory ∧ m.pc ≠ .returned

/-- With the flag up at the two tests the main thread stays on the way in. -/
theorem Pc.next_entering : ∀ run p q, (p ≠ .configSignals → p ≠ .configRun → run = true) →
    p ≠ .mainSleep → p ≠ .runLeave → p ≠ .destory → Pc.next run false p = some q →
    q ≠ .mainSleep ∧ q ≠ .runLeave ∧ q ≠ .destory ∧ q ≠ .returned ∧ q.ahead ≤ p.ahead - 1 := by
  decide

theorem Pc.flagAfter_entering : ∀ run p q, (p ≠ .configSignals → p ≠ .configRun → run = true) →
    p ≠ .runLeave → Pc.next run false p = some q → q ≠ .configRun → Pc.flagAfter run p = true := by
  decide

theorem entering_mainStep {m m' : MainRun} (h : m.Entering) (hstep : m.step .main = some m') :
    m'.Entering ∧ m'.pc.ahead ≤ m.pc.ahead - 1 := by
  obtain ⟨hexit, hflag, h1, h2, h3, -⟩ := h
  obtain ⟨hnext, hflag', hexit'⟩ := mainStep_spec hstep
  rw [hexit] at hnext
  obtain ⟨h1', h2', h3', h4', hahead⟩ := Pc.next_entering _ _ _ hflag h1 h2 h3 hnext
  have hup : m'.pc ≠ .configRun → m'.is_run_ = true := fun hpc =>
    hflag'.trans (Pc.flagAfter_entering _ _ _ hflag h2 hnext hpc)
  exact ⟨⟨hexit'.trans hexit, fun _ hpc => hup hpc, h1', h2', h3', h4'⟩, hahead⟩

theorem entering_exec (acts : List Act) (hstop : .stopRun ∉ acts) {m n : MainRun}
    (hm : m.Entering) (h : Runs.exec MainRun.step m acts = some n) :
    n.Entering ∧ n.pc.ahead ≤ m.pc.ahead - acts.count .main := by
  induction acts generalizing m with
  | nil =>
    cases h
    exact ⟨hm, by simp⟩
  | cons a acts ih =>
    rw [Runs.exec_cons] at h
    obtain ⟨m', hstep, hrest⟩ := Option.bind_eq_some_iff.mp h
    have hstop' : .stopRun ∉ acts := fun hmem => hstop (List.mem_cons_of_mem a hmem)
    cases a with
    | signal signo =>
      obtain rfl := step_signal hstep
      obtain ⟨hn, hle⟩ := ih hstop' hm hrest
      exact ⟨hn, by simpa using hle⟩
    | stopRun => exact absurd List.mem_cons_self hstop
    | main =>
      obtain ⟨hm', hlt⟩ := entering_mainStep hm hstep
      obtain ⟨hn, hle⟩ := ih hstop' hm' hrest
      refine ⟨hn, ?_⟩
      rw [List.count_cons_self]
      omega

theorem entering_start {argv : List String} (hargv : argv[1]? ≠ some "-h") :
    (start argv).Entering ∧ (start argv).pc.ahead = 5 := by
  unfold start
  rw [if_neg hargv]
  exact ⟨⟨rfl, by simp [MainRun.initial], by simp [MainRun.initial]⟩, rfl⟩

/-- With no stop request and five steps of the main thread or more, the
server is inside the loop of `Run`, with the flag up. -/
theorem inside_run {argv : List String} {acts : List Act} {m : MainRun}
    (hargv : argv[1]? ≠ some "-h") (h : MainRun.exec argv acts = some m) (hstop : .stopRun ∉ acts)
    (hcount : 5 ≤ acts.count .main) : m.is_run_ = true ∧ (m.pc = .runTest ∨ m.pc = .runSleep) := by
  obtain ⟨hstart, hahead⟩ := entering_start hargv
  obtain ⟨hm, hle⟩ := entering_exec acts hstop hstart h
  have hzero : m.pc.ahead = 0 := by omega
  obtain ⟨-, hflag, h1, h2, h3, h4⟩ := hm
  cases hpc : m.pc with
  | runTest => exact ⟨hflag (by simp [hpc]) (by simp [hpc]), .inl rfl⟩
  | runSleep => exact ⟨hflag (by simp [hpc]) (by simp [hpc]), .inr rfl⟩
  | mainSleep => exact absurd hpc h1
  | runLeave => exact absurd hpc h2
  | destory => exact absurd hpc h3
  | returned => exact absurd hpc h4
  | configSignals | configRun | testExit | testRun | runEntry =>
    simp [Pc.ahead, hpc] at hzero

/-! ## After a stop request -/

/-- The steps the main thread takes before it is out of `Run`. -/
def Pc.way : Pc → Nat
  | .runSleep => 3
  | .runTest => 2
  | .runLeave => 1
  | _ => 0

theorem Pc.way_le : ∀ p : Pc, p.way ≤ 3 := by decide

/-- With the flag down every step leads further out. -/
theorem Pc.way_next : ∀ exit p q, p ≠ .configSignals → p ≠ .configRun → p ≠ .runEntry →
    Pc.next false exit p = some q → q.way ≤ p.way - 1 := by
  decide

/-- Out of `Run`, in `main`'s outer loop. -/
def MainRun.Idle (m : MainRun) : Prop :=
  m.pc = .testExit ∨ m.pc = .testRun ∨ m.pc = .mainSleep

/-- A stopped server that has not returned is on its way out of `Run`, or
out. -/
theorem idle_of_way_zero {m : MainRun} (hs : m.Stopped) (hv : m.Serving) (h : m.pc.way = 0) :
    m.Idle := by
  unfold MainRun.Idle
  cases hpc : m.pc with
  | testExit | testRun | mainSleep => simp
  | configSignals => exact absurd hpc hs.not_configSignals
  | configRun => exact absurd hpc hs.not_configRun
  | runEntry => exact absurd hpc hs.not_runEntry
  | destory => exact absurd hpc hv.not_destory
  | returned => exact absurd hpc hv.not_returned
  | runTest | runSleep | runLeave => simp [Pc.way, hpc] at h

theorem way_step {m m' : MainRun} {a : Act} (hs : m.Stopped) (hstep : m.step a = some m') :
    m'.pc.way ≤ m.pc.way - (if a = .main then 1 else 0) := by
  cases a with
  | signal signo =>
    rw [step_signal hstep]
    exact Nat.le_refl _
  | stopRun =>
    rw [(step_stopRun hstep).1]
    exact Nat.le_refl _
  | main =>
    obtain ⟨hnext, -, -⟩ := mainStep_spec hstep
    rw [hs.flag] at hnext
    exact Pc.way_next _ _ _ hs.not_configSignals hs.not_configRun hs.not_runEntry hnext

theorem way_exec (acts : List Act) {m n : MainRun} (hs : m.Stopped)
    (h : Runs.exec MainRun.step m acts = some n) :
    n.Stopped ∧ n.pc.way ≤ m.pc.way - acts.count .main := by
  induction acts generalizing m with
  | nil =>
    cases h
    exact ⟨hs, by simp⟩
  | cons a acts ih =>
    rw [Runs.exec_cons] at h
    obtain ⟨m', hstep, hrest⟩ := Option.bind_eq_some_iff.mp h
    obtain ⟨hn, hle⟩ := ih (stopped_step m a m' hs hstep) hrest
    have hway := way_step hs hstep
    refine ⟨hn, ?_⟩
    rw [List.count_cons]
    simp only [beq_iff_eq]
    omega

/-- Started for its help text the process is over before any handler is
installed. -/
theorem serving_of_installed {argv : List String} {acts : List Act} {m : MainRun}
    (h : MainRun.exec argv acts = some m) (hinst : m.installed ≠ []) : m.Serving := by
  by_cases hargv : argv[1]? = some "-h"
  · have hover : m.pc = .returned ∧ m.installed = [] := by
      refine Runs.exec_invariant MainRun.step
        (P := fun m => m.pc = .returned ∧ m.installed = []) ?_ acts ?_ h
      · intro m a m' ⟨hpc, hnil⟩ hstep
        cases a <;> simp [MainRun.step, MainRun.mainStep, hpc, hnil] at hstep
      · simp [start, hargv, MainRun.initial]
    exact absurd hover.2 hinst
  · exact Runs.exec_invariant MainRun.step (P := MainRun.Serving) serving_step acts
      (serving_start hargv) h

/-- **A stop request that is kept** takes effect within three steps of the
main thread: from then on, in every run, the main thread goes round the
outer loop of `main`, with the flag down, and never enters `Run` again. -/
theorem stop_takes_effect (argv : List String) (p q : List Act) (u m : MainRun)
    (hu : MainRun.exec argv p = some u) (h1 : u.pc ≠ .configRun) (h2 : u.pc ≠ .runEntry)
    (hm : MainRun.exec argv (p ++ .stopRun :: q) = some m) (hmain : 3 ≤ q.count .main) :
    m.Idle ∧ m.is_run_ = false := by
  obtain ⟨u', hu', hrest⟩ := Runs.exec_append_some hm
  obtain rfl : u = u' := Option.some.inj (hu.symm.trans hu')
  rw [Runs.exec_cons] at hrest
  obtain ⟨v, hv, hq⟩ := Option.bind_eq_some_iff.mp hrest
  have hstopped := stopped_of_stopRun (installed_exec hu) h1 h2 hv
  obtain ⟨hsm, hway⟩ := way_exec q hstopped hq
  have hle := Pc.way_le v.pc
  have hserving : m.Serving := Runs.exec_invariant MainRun.step (P := MainRun.Serving)
    serving_step (.stopRun :: q) (serving_of_installed hu (step_stopRun hv).2)
    (by rw [Runs.exec_cons, hv, Option.bind_some, hq])
  exact ⟨idle_of_way_zero hsm hserving (by omega), hsm.flag⟩

/-- A request that arrives while `Run` sleeps, and signals after it. -/
theorem stop_takes_effect_sample :
    ∃ m, MainRun.exec ["server"]
        ([.main, .main, .main, .main, .main, .main] ++ .stopRun ::
          [.signal 36, .main, .main, .signal 36, .main, .main]) = some m ∧
      m.Idle ∧ m.is_run_ = false :=
  ⟨_, rfl, stop_takes_effect ["server"] [.main, .main, .main, .main, .main, .main]
    [.signal 36, .main, .main, .signal 36, .main, .main] _ _ rfl (by decide) (by decide) rfl
    (by decide)⟩

end Comproject.Server
