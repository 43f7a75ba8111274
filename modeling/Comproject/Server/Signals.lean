/-
Comproject.Server.Signals — the handler `UserSignals` of
`src/main_run.cpp`, step by step.

For the main thread a handled signal is over in one step. The handler has
steps of its own: it starts a thread that runs `DealSignals`, and joins
it. A signal can reach any thread of the process, the main thread or one
that runs `DealSignals`, and it can reach one that is in a handler
already. The thread it interrupts goes on only after the handler has
returned. A signal without a handler ends the process.

The system starts and joins a thread whenever a handler asks for it. It
does not promise that: the constructor of `std::thread` is not made to be
interrupted by itself. A thread is also allowed a signal whose handler it
is running, which `signal` blocks; that only adds runs.
-/
import Comproject.Server.MainRun
import Comproject.Lib.Stacks

namespace Comproject.Server

/-! ## Handlers -/

/-- Where a call of `UserSignals` stands. -/
inductive Stage where
  /-- before `std::thread thr(…)` -/
  | entered
  /-- in `thr.join()`, while `thr` runs `DealSignals` -/
  | started (thr : Nat)
  /-- `DealSignals` has returned, and so will `thr.join()` -/
  | dealt
  deriving DecidableEq

/-- A call of `UserSignals`, and the thread it interrupts. -/
structure Handler where
  signo : Int
  host : Nat
  stage : Stage
  deriving DecidableEq

/-- The thread that takes the call's next step. -/
def Handler.actor (h : Handler) : Nat :=
  match h.stage with
  | .entered | .dealt => h.host
  | .started thr => thr

/-- One of the calls interrupts the thread. -/
def interrupted (hs : List Handler) (t : Nat) : Bool := hs.any (fun h => h.host == t)

/-! ## The process -/

/-- The number of the main thread; the others are numbered as they are
started. -/
def mainThread : Nat := 0

structure Process where
  main : MainRun
  /-- the calls of `UserSignals` that have not returned, newest first -/
  handlers : List Handler
  /-- how many threads have been started -/
  threads : Nat
  /-- the signal that has ended the process, if one has -/
  killed : Option Int
  deriving DecidableEq

def Process.start (argv : List String) : Process := ⟨Server.start argv, [], 0, none⟩

/-- The thread is there to be interrupted. -/
def Process.alive (p : Process) (t : Nat) : Bool :=
  t == mainThread || p.handlers.any (fun h => h.stage == .started t)

/-- The next step of the call `h`, the one at place `i`. -/
def Process.advance (p : Process) (i : Nat) (h : Handler) : Process :=
  match h.stage with
  | .entered =>
    { p with
      handlers := p.handlers.set i { h with stage := .started (p.threads + 1) }
      threads := p.threads + 1 }
  | .started _ =>
    { p with
      main := p.main.dealSignals h.signo
      handlers := p.handlers.set i { h with stage := .dealt } }
  | .dealt => { p with handlers := p.handlers.eraseIdx i }

/-- What can happen next. -/
inductive Move where
  | main
  | stopRun
  /-- a handled signal interrupts the thread `host` -/
  | delivered (signo : Int) (host : Nat)
  /-- the call of `UserSignals` at place `i` goes on -/
  | handler (i : Nat)
  /-- a signal without a handler, whose default action is to end the
  process -/
  | unhandled (signo : Int)
  deriving DecidableEq

/-- One step of the process. A call of `UserSignals` goes on unless a newer
one interrupts the thread that would take its step. -/
def Process.step (p : Process) (move : Move) : Option Process :=
  if p.killed.isSome || p.main.pc == .returned then none
  else
    match move with
    | .main =>
      if interrupted p.handlers mainThread then none
      else (p.main.step .main).map (fun m => { p with main := m })
    | .stopRun => (p.main.step .stopRun).map (fun m => { p with main := m })
    | .delivered signo host =>
      if p.main.installed.contains signo && p.alive host then
        some { p with handlers := ⟨signo, host, .entered⟩ :: p.handlers }
      else none
    | .handler i =>
      match p.handlers[i]? with
      | none => none
      | some h => if interrupted (p.handlers.take i) h.actor then none else some (p.advance i h)
    | .unhandled signo =>
      if p.main.installed.contains signo then none else some { p with killed := some signo }

/-- The process after a schedule. -/
def Process.exec (argv : List String) (moves : List Move) : Option Process :=
  Runs.exec Process.step (Process.start argv) moves

/-! ## What is seen of it in `MainRun` -/

/-- A step of the main thread, or a stop request. -/
def Move.toAct : Move → Option Act
  | .main => some .main
  | .stopRun => some .stopRun
  | .delivered _ _ | .handler _ | .unhandled _ => none

def Move.isHandler : Move → Bool
  | .handler _ => true
  | .main | .stopRun | .delivered _ _ | .unhandled _ => false

/-- The end of the process that the move is, if it is one. -/
def Move.ending : Move → Option Int
  | .unhandled signo => some signo
  | .main | .stopRun | .delivered _ _ | .handler _ => none

/-- The steps a call of `UserSignals` has before it. -/
def Handler.work (h : Handler) : Nat :=
  match h.stage with
  | .entered => 3
  | .started _ => 2
  | .dealt => 1

end Comproject.Server
