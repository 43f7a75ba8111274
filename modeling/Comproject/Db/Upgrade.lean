/-
Comproject.Db.Upgrade — data behind the database guard, and read-upgrade-
write sections on it.

The shared data is written only under a live writer guard, and a thread
has at most one guard at a time. `upgrade2writer` gives the lock back
before it asks for it in write mode, so other threads can run in between.
`seen` remembers, for each thread, the data at its last call of
`upgrade2writer`.

`Counter` is the program in which every thread reads a counter under a
read guard, upgrades, and stores the value it read plus one.
-/
import Comproject.Db.RWMutexScopedLock

namespace Comproject.Db.RWMutexScopedLock

open Rwlock

/-! ## Guarded data -/

/-- The guards of all threads and the data they guard. -/
structure Shared (τ D : Type) where
  guards : State τ
  data : D
  /-- the data just before the thread's last call of `upgrade2writer` -/
  seen : τ → D

def Shared.initial {τ D : Type} (d : D) : Shared τ D := ⟨State.initial, d, fun _ => d⟩

inductive Event (τ D : Type) where
  /-- a step of a guard -/
  | guard (t : τ) (a : Action)
  /-- a thread writes the data -/
  | store (t : τ) (v : D)

/-- The thread's guard is live and in write mode, or upgraded. -/
def mayStore : List Guard → Bool
  | [] => false
  | g :: _ => g.phase == .live && g.isWriter

/-- The thread is inside `upgrade2writer`. -/
def inUpgrade : List Guard → Bool
  | [] => false
  | g :: _ => g.phase == .upgrading

variable {τ D : Type} [DecidableEq τ]

def Shared.step (stray : Lock τ → τ → Lock τ) (s : Shared τ D) : Event τ D → Option (Shared τ D)
  | .guard t (.construct write) =>
    if s.guards.stack t = [] then
      (RWMutexScopedLock.step stray s.guards (t, .construct write)).map (fun g => { s with guards := g })
    else none
  | .guard t .upgrade =>
    (RWMutexScopedLock.step stray s.guards (t, .upgrade)).map
      (fun g => { s with guards := g, seen := Function.update s.seen t s.data })
  | .guard t a => (RWMutexScopedLock.step stray s.guards (t, a)).map (fun g => { s with guards := g })
  | .store t v => if mayStore (s.guards.stack t) then some { s with data := v } else none

/-- The step returns from a lock call that asks for the write lock: from a
writer's constructor, or from `upgrade2writer`. -/
def Action.entersWriting (gs : List Guard) : Action → Bool
  | .constructed =>
    match gs with
    | [] => false
    | g :: _ => g.write
  | .upgraded => true
  | .construct _ | .upgrade | .destroy => false

/-- No thread gets in with the write lock while another one is inside
`upgrade2writer`. -/
def NoWriterInUpgrade (s : Shared τ D) : Event τ D → Prop
  | .guard t a =>
    a.entersWriting (s.guards.stack t) = true → ∀ u, u ≠ t → inUpgrade (s.guards.stack u) = false
  | .store _ _ => True

instance [Fintype τ] (s : Shared τ D) (e : Event τ D) : Decidable (NoWriterInUpgrade s e) :=
  match e with
  | .guard t a =>
    inferInstanceAs (Decidable (a.entersWriting (s.guards.stack t) = true →
      ∀ u, u ≠ t → inUpgrade (s.guards.stack u) = false))
  | .store _ _ => inferInstanceAs (Decidable True)

/-! ## The counter -/

/-- Where a thread of the counter program stands. -/
inductive CounterPc where
  | start
  | constructing
  | guarded
  | loaded (v : Int)
  | upgrading (v : Int)
  | upgraded (v : Int)
  | stored
  | done
  deriving DecidableEq

structure Counter (τ : Type) where
  shared : Shared τ Int
  pc : τ → CounterPc

def Counter.initial {τ : Type} (c : Int) : Counter τ := ⟨Shared.initial c, fun _ => .start⟩

/-- The step on the shared state that comes next, and where the thread
stands after it. The load is not among them, it changes nothing shared. -/
def CounterPc.next (t : τ) : CounterPc → Option (Event τ Int × CounterPc)
  | .start => some (.guard t (.construct false), .constructing)
  | .constructing => some (.guard t .constructed, .guarded)
  | .guarded => none
  | .loaded v => some (.guard t .upgrade, .upgrading v)
  | .upgrading v => some (.guard t .upgraded, .upgraded v)
  | .upgraded v => some (.store t (v + 1), .stored)
  | .stored => some (.guard t .destroy, .done)
  | .done => none

/-- One step of the thread `t`. -/
def Counter.step (stray : Lock τ → τ → Lock τ) (c : Counter τ) (t : τ) : Option (Counter τ) :=
  match c.pc t with
  | .guarded => some { c with pc := Function.update c.pc t (.loaded c.shared.data) }
  | p =>
    match p.next t with
    | none => none
    | some (e, p') =>
      (c.shared.step stray e).map (fun s => ⟨s, Function.update c.pc t p'⟩)

/-- The condition on a step that may leave the shared state alone. -/
def NextNoWriterInUpgrade (s : Shared τ Int) : Option (Event τ Int × CounterPc) → Prop
  | none => True
  | some (e, _) => NoWriterInUpgrade s e

instance [Fintype τ] (s : Shared τ Int) (n : Option (Event τ Int × CounterPc)) :
    Decidable (NextNoWriterInUpgrade s n) :=
  match n with
  | none => inferInstanceAs (Decidable True)
  | some (e, _) => inferInstanceAs (Decidable (NoWriterInUpgrade s e))

/-- The same condition, on the counter's steps. -/
def Counter.NoWriterInUpgrade (c : Counter τ) (t : τ) : Prop :=
  NextNoWriterInUpgrade c.shared ((c.pc t).next t)

instance [Fintype τ] (c : Counter τ) (t : τ) : Decidable (c.NoWriterInUpgrade t) :=
  inferInstanceAs (Decidable (NextNoWriterInUpgrade c.shared ((c.pc t).next t)))

end Comproject.Db.RWMutexScopedLock
