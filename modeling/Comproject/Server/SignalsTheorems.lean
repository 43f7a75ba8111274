/-
Comproject.Server.SignalsTheorems — handlers that interrupt each other.

Every open call of `UserSignals` interrupts the main thread, or a thread
that an older call has started (`Nested`). So the main thread stands still
as long as a call is open, and what it does is a run of
`Comproject.Server.MainRun` without any signal in it
(`control_signals_change_nothing`): the help text announces signals to
pause, to restart and to stop, and `DealSignals` has empty cases for them.

The newest call can always go on, and a call takes three steps. So the
open calls come to their end in any order their steps are taken in, and
the main thread goes on (`server_goes_on`). Only a signal without a
handler ends the server.
-/
import Comproject.Server.Signals
import Comproject.Server.RunTheorems

namespace Comproject.Server

variable {p p' : Process} {move : Move}

/-! ## One step -/

/-- What its next step makes of the call `h`, which is gone in the end. -/
inductive Advances (h : Handler) : Option Handler → Prop
  | start (thr : Nat) (hs : h.stage = .entered) : Advances h (some { h with stage := .started thr })
  | deal (thr : Nat) (hs : h.stage = .started thr) : Advances h (some { h with stage := .dealt })
  | join (hs : h.stage = .dealt) : Advances h none

theorem advance_spec {i : Nat} {h : Handler} (hi : p.handlers[i]? = some h) :
    (p.advance i h).main = p.main ∧ (p.advance i h).killed = p.killed ∧
    ∃ h', Advances h h' ∧
      (p.advance i h).handlers = p.handlers.take i ++ h'.toList ++ p.handlers.drop (i + 1) := by
  obtain ⟨hlt, -⟩ := List.getElem?_eq_some_iff.mp hi
  unfold Process.advance
  cases hs : h.stage with
  | entered =>
    refine ⟨rfl, rfl, _, .start (p.threads + 1) hs, ?_⟩
    simp [List.set_eq_take_append_cons_drop, hlt]
  | started thr =>
    refine ⟨dealSignals_eq _ _, rfl, _, .deal thr hs, ?_⟩
    simp [List.set_eq_take_append_cons_drop, hlt]
  | dealt =>
    refine ⟨rfl, rfl, _, .join hs, ?_⟩
    simp [List.eraseIdx_eq_take_drop_succ]

/-- What the process can do. -/
theorem Process.step_cases (h : p.step move = some p') :
    p.killed = none ∧
    ((∃ a, move.toAct = some a ∧ p.main.step a = some p'.main ∧ p'.handlers = p.handlers ∧
        p'.killed = none ∧ (a = .main → interrupted p.handlers mainThread = false)) ∨
     (∃ signo host, move = .delivered signo host ∧ p.alive host = true ∧
        p' = { p with handlers := ⟨signo, host, .entered⟩ :: p.handlers }) ∨
     (∃ i new k old k', move = .handler i ∧ p.handlers = new ++ k :: old ∧
        interrupted new k.actor = false ∧ Advances k k' ∧
        p'.handlers = new ++ k'.toList ++ old ∧ p'.main = p.main ∧ p'.killed = none) ∨
     ∃ signo, move = .unhandled signo ∧ p' = { p with killed := some signo }) := by
  unfold Process.step at h
  split at h
  · cases h
  · rename_i hgo
    have hgo' : p.killed = none ∧ p.main.pc ≠ .returned := by simpa using hgo
    refine ⟨hgo'.1, ?_⟩
    cases move with
    | main =>
      simp only at h
      split at h
      · cases h
      · rename_i hfree
        obtain ⟨m, hm, rfl⟩ := Option.map_eq_some_iff.mp h
        exact .inl ⟨.main, rfl, hm, rfl, hgo'.1, fun _ => by simpa using hfree⟩
    | stopRun =>
      obtain ⟨m, hm, rfl⟩ := Option.map_eq_some_iff.mp h
      exact .inl ⟨.stopRun, rfl, hm, rfl, hgo'.1, nofun⟩
    | delivered signo host =>
      simp only at h
      split at h
      · rename_i hok
        cases h
        simp only [Bool.and_eq_true] at hok
        exact .inr (.inl ⟨signo, host, rfl, hok.2, rfl⟩)
      · cases h
    | handler i =>
      simp only at h
      split at h
      · cases h
      · rename_i k hk
        split at h
        · cases h
        · rename_i hfree
          cases h
          obtain ⟨hmain, hkilled, k', hk', hhandlers⟩ := advance_spec hk
          refine .inr (.inr (.inl ⟨i, p.handlers.take i, k, p.handlers.drop (i + 1), k', rfl, ?_,
            by simpa using hfree, hk', hhandlers, hmain, hkilled.trans hgo'.1⟩))
          obtain ⟨hlt, hget⟩ := List.getElem?_eq_some_iff.mp hk
          rw [← hget, ← List.drop_eq_getElem_cons hlt, List.take_append_drop]
    | unhandled signo =>
      simp only at h
      split at h
      · cases h
      · cases h
        exact .inr (.inr (.inr ⟨signo, rfl, rfl⟩))

/-! ## Who interrupts whom -/

/-- Every call interrupts the main thread, or a thread that an older call
has started and waits for. -/
def Nested : List Handler → Prop
  | [] => True
  | h :: hs => (h.host = mainThread ∨ ∃ k ∈ hs, k.stage = .started h.host) ∧ Nested hs

/-- So an open call keeps the main thread waiting. -/
theorem Nested.interrupted {hs : List Handler} (hn : Nested hs) (hne : hs ≠ []) :
    interrupted hs mainThread = true := by
  induction hs with
  | nil => exact absurd rfl hne
  | cons h hs ih =>
    obtain ⟨hhost, hrest⟩ := hn
    unfold Server.interrupted
    rw [List.any_cons, Bool.or_eq_true]
    obtain hmain | ⟨k, hk, -⟩ := hhost
    · exact .inl (by simp [hmain])
    · exact .inr (ih hrest (List.ne_nil_of_mem hk))

/-- A call goes on. The newer ones keep what they interrupt: the thread
that it has started ends only when none of them interrupts it. -/
theorem Nested.advance {new old : List Handler} {h : Handler} {h' : Option Handler}
    (hn : Nested (new ++ h :: old)) (hfree : Server.interrupted new h.actor = false)
    (ha : Advances h h') : Nested (new ++ h'.toList ++ old) := by
  induction new with
  | nil =>
    obtain ⟨hhost, hold⟩ := hn
    cases ha with
    | start | deal => exact ⟨hhost, hold⟩
    | join => exact hold
  | cons k new ih =>
    obtain ⟨hhost, hrest⟩ := hn
    simp only [Server.interrupted, List.any_cons, Bool.or_eq_false_iff, beq_eq_false_iff_ne]
      at hfree
    refine ⟨?_, ih hrest hfree.2⟩
    obtain hmain | ⟨g, hg, hstarted⟩ := hhost
    · exact .inl hmain
    · right
      obtain hg | rfl | hg : g ∈ new ∨ g = h ∨ g ∈ old := by simpa using hg
      · exact ⟨g, by simp [hg], hstarted⟩
      · cases ha with
        | start thr hs =>
          rw [hs] at hstarted
          cases hstarted
        | deal thr hs =>
          rw [hs] at hstarted
          cases hstarted
          exact absurd (by simp [Handler.actor, hs]) hfree.1
        | join hs =>
          rw [hs] at hstarted
          cases hstarted
      · exact ⟨g, by simp [hg], hstarted⟩

theorem nested_step (hn : Nested p.handlers) (h : p.step move = some p') : Nested p'.handlers := by
  obtain ⟨-, ⟨a, -, -, hsame, -, -⟩ | ⟨signo, host, -, halive, rfl⟩ |
    ⟨i, new, k, old, k', -, hsplit, hfree, ha, hhandlers, -, -⟩ | ⟨signo, -, rfl⟩⟩ :=
    Process.step_cases h
  · rw [hsame]
    exact hn
  · refine ⟨?_, hn⟩
    simpa [Process.alive] using halive
  · rw [hhandlers]
    exact (hsplit ▸ hn).advance hfree ha
  · exact hn

theorem nested_exec {argv : List String} {moves : List Move}
    (h : Process.exec argv moves = some p) : Nested p.handlers :=
  Runs.exec_invariant Process.step (P := fun p => Nested p.handlers)
    (fun _ _ _ hn hs => nested_step hn hs) moves
    (show Nested (Process.start argv).handlers from trivial) h

/-! ## The main thread -/

/-- It takes a step only when no call is open. -/
theorem Nested.closed_of_main (hn : Nested p.handlers) (h : p.step .main = some p') :
    p.handlers = [] := by
  by_contra hopen
  obtain ⟨-, ⟨a, ha, -, -, -, hfree⟩ | ⟨_, _, hmove, -⟩ | ⟨_, _, _, _, _, hmove, -⟩ |
    ⟨_, hmove, -⟩⟩ := Process.step_cases h
  · cases ha
    rw [hn.interrupted hopen] at hfree
    cases hfree rfl
  · cases hmove
  · cases hmove
  · cases hmove

theorem main_step (h : p.step move = some p') :
    Runs.exec MainRun.step p.main move.toAct.toList = some p'.main := by
  obtain ⟨-, ⟨a, ha, hstep, -⟩ | ⟨signo, host, rfl, -, rfl⟩ |
    ⟨i, new, k, old, k', rfl, -, -, -, -, hmain, -⟩ | ⟨signo, rfl, rfl⟩⟩ := Process.step_cases h
  · rw [ha]
    simp [Runs.exec_cons, hstep]
  · rfl
  · rw [hmain]
    rfl
  · rfl

/-- What the main thread does is a run of its own. -/
theorem main_exec {argv : List String} {moves : List Move}
    (h : Process.exec argv moves = some p) :
    MainRun.exec argv (moves.filterMap Move.toAct) = some p.main := by
  have hlow := Runs.exec_lower (P := fun _ => True) Process.main (fun move => move.toAct.toList)
    (fun _ _ _ _ hs => ⟨trivial, main_step hs⟩) moves trivial h
  rwa [List.filterMap_eq_flatMap_toList]

theorem count_main (moves : List Move) :
    (moves.filterMap Move.toAct).count .main = moves.count .main := by
  induction moves with
  | nil => rfl
  | cons move moves ih =>
    cases move with
    | main =>
      rw [List.filterMap_cons_some (show Move.toAct .main = some .main from rfl),
        List.count_cons_self, List.count_cons_self, ih]
    | stopRun =>
      rw [List.filterMap_cons_some (show Move.toAct .stopRun = some .stopRun from rfl),
        List.count_cons_of_ne (by simp), List.count_cons_of_ne (by simp), ih]
    | delivered | handler | unhandled =>
      rw [List.filterMap_cons_none rfl, List.count_cons_of_ne (by simp), ih]

theorem stopRun_notMem {moves : List Move} (h : .stopRun ∉ moves) :
    .stopRun ∉ moves.filterMap Move.toAct := by
  intro hmem
  obtain ⟨move, hmove, hact⟩ := List.mem_filterMap.mp hmem
  cases move with
  | stopRun => exact h hmove
  | main | delivered | handler | unhandled => cases hact

/-! ## Signals without a handler -/

/-- They end the process, and nothing else does. -/
theorem killed_step (h : p.step move = some p') :
    p.killed = none ∧ p'.killed = move.ending := by
  obtain ⟨hp, ⟨a, ha, -, -, hkilled, -⟩ | ⟨signo, host, rfl, -, rfl⟩ |
    ⟨i, new, k, old, k', rfl, -, -, -, -, -, hkilled⟩ | ⟨signo, rfl, rfl⟩⟩ := Process.step_cases h
  · refine ⟨hp, hkilled.trans ?_⟩
    cases move with
    | main | stopRun => rfl
    | delivered | handler | unhandled => cases ha
  · exact ⟨hp, hp⟩
  · exact ⟨hp, hkilled⟩
  · exact ⟨hp, rfl⟩

theorem killed_exec {argv : List String} {moves : List Move}
    (h : Process.exec argv moves = some p) : moves.filterMap Move.ending = p.killed.toList :=
  Runs.exec_ends (P := fun _ => True) Process.killed Move.ending
    (fun _ _ _ _ hs => ⟨trivial, killed_step hs⟩) moves trivial rfl h

/-! ## Open calls come to their end -/

/-- The process is running. -/
structure Process.Running (p : Process) : Prop where
  killed : p.killed = none
  serving : p.main.Serving

/-- The newest call can always go on. -/
theorem handler_step (hp : p.Running) (hopen : p.handlers ≠ []) :
    ∃ p', p.step (.handler 0) = some p' := by
  obtain ⟨h, hs, hcons⟩ := List.exists_cons_of_ne_nil hopen
  refine ⟨p.advance 0 h, ?_⟩
  simp [Process.step, hp.killed, hp.serving.not_returned, hcons, interrupted]

/-- A step of a call takes one from the work, and does nothing else to the
process. -/
theorem work_step (hmove : move.isHandler = true) (h : p.step move = some p') :
    p'.main = p.main ∧ p'.killed = none ∧
    Stacks.work Handler.work p'.handlers + 1 = Stacks.work Handler.work p.handlers := by
  obtain ⟨-, ⟨a, ha, -⟩ | ⟨signo, host, rfl, -⟩ |
    ⟨i, new, k, old, k', rfl, hsplit, -, ha, hhandlers, hmain, hkilled⟩ | ⟨signo, rfl, -⟩⟩ :=
    Process.step_cases h
  · cases move with
    | handler => cases ha
    | main | stopRun | delivered | unhandled => cases hmove
  · cases hmove
  · refine ⟨hmain, hkilled, ?_⟩
    have hone : Stacks.work Handler.work k'.toList + 1 = k.work := by
      cases ha with
      | start thr hs | deal thr hs | join hs => simp [Handler.work, hs]
    simp only [hhandlers, hsplit, Stacks.work_append, Stacks.work_cons]
    omega
  · cases hmove

theorem handlers_drain :
    Runs.Drains Process.step (fun move => move.isHandler = true) Process.Running
      (fun p => p.handlers = []) (fun p => Stacks.work Handler.work p.handlers) where
  keeps p move p' hp hmove h := by
    obtain ⟨hmain, hkilled, hwork⟩ := work_step hmove h
    exact ⟨⟨hkilled, hmain ▸ hp.serving⟩, by omega⟩
  moves p hp hopen := by
    obtain ⟨p', h⟩ := handler_step hp hopen
    exact ⟨.handler 0, p', rfl, h⟩

theorem work_le (hs : List Handler) : Stacks.work Handler.work hs ≤ 3 * hs.length := by
  induction hs with
  | nil => exact Nat.le_refl 0
  | cons h hs ih =>
    have hle : h.work ≤ 3 := by
      unfold Handler.work
      split <;> omega
    rw [Stacks.work_cons, List.length_cons]
    omega

/-- With no call open the main thread goes on. -/
theorem main_moves (hp : p.Running) (hnone : p.handlers = []) : ∃ p', p.step .main = some p' := by
  obtain ⟨m, hm⟩ := mainStep_exists hp.serving.not_returned
  refine ⟨{ p with main := m }, ?_⟩
  simp [Process.step, hp.killed, hp.serving.not_returned, hnone, interrupted, hm]

/-! ## Main results -/

/-- **The control signals.** However their handlers interrupt each other, a
run of the server is for the main thread the run of its own steps and the
stop requests; it takes a step only when no call of `UserSignals` is open.
With no stop request and five of its steps or more, the server is inside
the loop of `Run` with the flag up: no signal has paused or stopped it. -/
theorem control_signals_change_nothing (argv : List String) (moves : List Move) (p : Process)
    (h : Process.exec argv moves = some p) :
    MainRun.exec argv (moves.filterMap Move.toAct) = some p.main ∧
    (∀ p', p.step .main = some p' → p.handlers = []) ∧
    (argv[1]? ≠ some "-h" → .stopRun ∉ moves → 5 ≤ moves.count .main →
      p.main.is_run_ = true ∧ (p.main.pc = .runTest ∨ p.main.pc = .runSleep)) := by
  have hmain := main_exec h
  refine ⟨hmain, fun p' hstep => ?_, fun hargv hstop hcount => ?_⟩
  · exact (nested_exec h).closed_of_main hstep
  · exact inside_run hargv hmain (stopRun_notMem hstop) (by rw [count_main]; exact hcount)

/-- Signal 35 interrupts the main thread, 40 the thread that deals with it,
and 36 the main thread again. -/
def nestedSignals : List Move :=
  List.replicate 5 .main ++
  [.delivered 35 0, .handler 0, .delivered 40 1, .delivered 36 0, .handler 1, .handler 0,
    .handler 1, .handler 0, .handler 0, .handler 0, .handler 0, .handler 0, .main]

theorem control_signals_change_nothing_nested :
    ∃ p, Process.exec ["server"] nestedSignals = some p ∧
      MainRun.exec ["server"] (List.replicate 6 .main) = some p.main ∧ p.handlers = [] ∧
      p.main.is_run_ = true ∧ (p.main.pc = .runTest ∨ p.main.pc = .runSleep) := by
  obtain ⟨hmain, hstill, hinside⟩ :=
    control_signals_change_nothing ["server"] nestedSignals _ rfl
  exact ⟨_, rfl, hmain, hstill _ rfl, hinside (by decide) (by decide) (by decide)⟩

/-- **The server goes on.** Not started for its help text, the server never
leaves `main`'s loop, and only a signal without a handler ends it. As long
as none has come, the steps of the open calls of `UserSignals`, in any
order, are at most three times as many as these calls, and however far
they have gone they can go on until none is open; then the main thread has
a next step. -/
theorem server_goes_on (argv : List String) (moves : List Move) (p : Process)
    (hargv : argv[1]? ≠ some "-h") (h : Process.exec argv moves = some p) :
    p.main.Serving ∧ moves.filterMap Move.ending = p.killed.toList ∧
    (p.killed = none → ∀ es p', (∀ e ∈ es, Move.isHandler e = true) →
      Runs.exec Process.step p es = some p' →
      es.length ≤ 3 * p.handlers.length ∧
      ∃ fs p'' p₃, (∀ f ∈ fs, Move.isHandler f = true) ∧ Runs.exec Process.step p' fs = some p'' ∧
        p''.handlers = [] ∧ p''.step .main = some p₃) := by
  have hserving : p.main.Serving := Runs.exec_invariant MainRun.step (P := MainRun.Serving)
    serving_step _ (serving_start hargv) (main_exec h)
  refine ⟨hserving, killed_exec h, fun hp es p' hes hx => ?_⟩
  obtain ⟨hp', hlen⟩ := handlers_drain.length_le es ⟨hp, hserving⟩ hes hx
  have hwork := work_le p.handlers
  obtain ⟨fs, p'', hfs, hx', hnone⟩ := handlers_drain.exists_run hp'
  obtain ⟨hp'', -⟩ := handlers_drain.length_le fs hp' hfs hx'
  obtain ⟨p₃, hmain⟩ := main_moves hp'' hnone
  exact ⟨by omega, fs, p'', p₃, hfs, hx', hnone, hmain⟩

/-- Three calls are open, one of them on the thread of another. -/
def threeOpen : List Move :=
  [.main, .delivered 35 0, .handler 0, .delivered 40 1, .delivered 36 0]

theorem server_goes_on_threeOpen :
    ∃ p fs p' p₃, Process.exec ["server"] threeOpen = some p ∧ p.handlers.length = 3 ∧
      Runs.exec Process.step p fs = some p' ∧ p'.handlers = [] ∧ p'.step .main = some p₃ := by
  obtain ⟨-, -, hdrain⟩ := server_goes_on ["server"] threeOpen _ (by decide) rfl
  obtain ⟨-, fs, p', p₃, -, hx, hnone, hmain⟩ := hdrain rfl [] _ (by simp) rfl
  exact ⟨_, fs, p', p₃, rfl, rfl, hx, hnone, hmain⟩

end Comproject.Server
