/-
Comproject.Server.MainRun — the server's main thread and its stop flag,
`src/main_run.h` and `src/main_run.cpp`.

The main thread is cut into its single steps: each program point `Pc` is
one statement or one loop test of `Config`, `main` and `Run`. A handled
signal is one step here, between two of these: `UserSignals` starts a
thread for it and joins it before the main thread goes on. The handler's
own steps, and handlers that interrupt each other, are in
`Comproject.Server.Signals`. `StopRun` is the public stop request; it can
be executed from the moment `SetSignals` has installed the handlers.

`is_run_` is written in four places (`Config`, both ends of `Run`,
`StopRun`) and tested in two (`main`'s outer loop and `Run`'s own).
-/
import Comproject.Lib.Runs

namespace Comproject.Server

/-- Where the main thread stands: the step it takes next. -/
inductive Pc where
  /-- `Config`: `SetSignals()` -/
  | configSignals
  /-- `Config`: `is_run_ = true` -/
  | configRun
  /-- `main`: `while (!m.is_exit_)` -/
  | testExit
  /-- `main`: `if (m.is_run_)` -/
  | testRun
  /-- `main`: `sleep(1)` -/
  | mainSleep
  /-- `Run`: `is_run_ = true` -/
  | runEntry
  /-- `Run`: `while (is_run_)` -/
  | runTest
  /-- `Run`: `sleep(10)` in the loop body -/
  | runSleep
  /-- `Run`: `is_run_ = false` after the loop -/
  | runLeave
  /-- `main`: `m.Destory()` -/
  | destory
  /-- `main` has returned -/
  | returned
  deriving DecidableEq, Repr

/-- `MainRun`, with the main thread's program point and the signals whose
handler is installed. -/
structure MainRun where
  running_ : Bool
  is_run_ : Bool
  is_exit_ : Bool
  master_ : Int
  installed : List Int
  pc : Pc
  deriving DecidableEq, Repr

/-- `SIGRTMIN` of glibc. -/
def sigrtmin : Int := 34

/-- The signals of `SetSignals`: `SIGRTMIN + 1` to `SIGRTMIN + 7`. -/
def handledSignals : List Int :=
  [sigrtmin + 1, sigrtmin + 2, sigrtmin + 3, sigrtmin + 4, sigrtmin + 5, sigrtmin + 6,
   sigrtmin + 7]

/-- `MainRun::MainRun()`, standing before `Config`. -/
def MainRun.initial : MainRun := ⟨false, false, false, 0, [], .configSignals⟩

/-- `main` up to `m.Config()`: with `-h` it prints the help text and
returns, otherwise it goes on. -/
def start (argv : List String) : MainRun :=
  if argv[1]? = some "-h" then { MainRun.initial with pc := .returned }
  else MainRun.initial

/-- One step of the main thread. -/
def MainRun.mainStep (m : MainRun) : Option MainRun :=
  match m.pc with
  | .configSignals => some { m with installed := handledSignals, pc := .configRun }
  | .configRun => some { m with is_run_ := true, pc := .testExit }
  | .testExit => some { m with pc := if m.is_exit_ then .destory else .testRun }
  | .testRun => some { m with pc := if m.is_run_ then .runEntry else .mainSleep }
  | .mainSleep => some { m with pc := .testExit }
  | .runEntry => some { m with is_run_ := true, pc := .runTest }
  | .runTest => some { m with pc := if m.is_run_ then .runSleep else .runLeave }
  | .runSleep => some { m with pc := .runTest }
  | .runLeave => some { m with is_run_ := false, pc := .testExit }
  | .destory => some { m with pc := .returned }
  | .returned => none

/-- `StopRun()`. -/
def MainRun.stopRun (m : MainRun) : MainRun := { m with is_run_ := false }

/-- `DealSignals(signo)`, which `UserSignals` runs in a thread of its own
and joins. The three cases are there and do nothing. -/
def MainRun.dealSignals (signo : Int) (m : MainRun) : MainRun :=
  if signo = 35 then m
  else if signo = 36 then m
  else if signo = 40 then m
  else m

/-- What can happen next: a step of the main thread, a signal, or a stop
request from the signal-dispatch thread. -/
inductive Act where
  | main
  | signal (signo : Int)
  | stopRun
  deriving DecidableEq, Repr

/-- One step of the process. Nothing is delivered before `SetSignals` or
after `main` has returned. -/
def MainRun.step (m : MainRun) : Act → Option MainRun
  | .main => m.mainStep
  | .signal signo =>
      if signo ∈ m.installed ∧ m.pc ≠ .returned then some (m.dealSignals signo) else none
  | .stopRun =>
      if m.installed ≠ [] ∧ m.pc ≠ .returned then some m.stopRun else none

/-- The process after a schedule, `none` when it cannot be carried out. -/
def MainRun.exec (argv : List String) (acts : List Act) : Option MainRun :=
  Runs.exec MainRun.step (start argv) acts

/-! ## The law of the stop flag -/

/-- No stop request of the schedule is lost: in every state after one the
flag is down, and from there the main thread neither enters `Run` nor
goes round its loop. -/
def StopsKept (argv : List String) (acts : List Act) : Prop :=
  ∀ p q r m, acts = p ++ .stopRun :: q ++ r →
    MainRun.exec argv (p ++ .stopRun :: q) = some m →
    m.is_run_ = false
    ∧ ∀ m', m.step .main = some m' → m'.pc ≠ .runEntry ∧ m'.pc ≠ .runSleep

/-- No stop request of the schedule arrives when the main thread's next
step is one of the two assignments `is_run_ = true`. -/
def SafeStops (argv : List String) (acts : List Act) : Prop :=
  ∀ p q m, acts = p ++ .stopRun :: q → MainRun.exec argv p = some m →
    m.pc ≠ .configRun ∧ m.pc ≠ .runEntry

end Comproject.Server
