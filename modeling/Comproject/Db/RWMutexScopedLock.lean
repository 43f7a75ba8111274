/-
Comproject.Db.RWMutexScopedLock — `RWMutexScopedLock` of `include/db/sql_handle.h`,
the scoped guard on the database's reader-writer lock.

Any number of threads share one `pthread_rwlock_t`. A thread's guards form
a stack, innermost first, since scopes are properly nested. A constructor
is two steps: it is entered, and its lock call returns. `upgrade2writer`
is two steps as well: `pthread_rwlock_unlock` has run, and
`pthread_rwlock_wrlock` returns. Between the two other threads may run.

The constructor and `upgrade2writer` IGNORE the return code of the lock
call, and the destructor unlocks in every case. The model does the same:
a guard whose call came back with `EDEADLK` is as alive as one whose call
was granted. What the guard really acquired is kept in the field `hold`,
which no step reads.
-/
import Comproject.Lib.Runs
import Comproject.Lib.Rwlock

namespace Comproject.Db.RWMutexScopedLock

open Rwlock

/-! ## Guards -/

inductive Phase where
  /-- inside the constructor, before its lock call has returned -/
  | constructing
  /-- constructed, and not inside `upgrade2writer` -/
  | live
  /-- inside `upgrade2writer`, between the unlock and the lock call -/
  | upgrading
  deriving DecidableEq, Repr

/-- One `RWMutexScopedLock` object. -/
structure Guard where
  write : Bool
  phase : Phase
  /-- some call of `upgrade2writer` has returned -/
  upgraded : Bool
  /-- ghost: what the guard's last lock call acquired and it has not
  given back -/
  hold : Option Mode
  deriving DecidableEq

/-- Constructed with `write = true`, or upgraded. -/
def Guard.isWriter (g : Guard) : Bool := g.write || g.upgraded

/-- The lock call that the constructor chooses. -/
def lockMode (write : Bool) : Mode := if write then .write else .read

/-! ## Threads -/

/-- The shared lock and the guards of each thread, innermost first. -/
structure State (τ : Type) where
  lock : Lock τ
  stack : τ → List Guard

def State.initial {τ : Type} : State τ := ⟨Lock.free, fun _ => []⟩

inductive Action where
  /-- `RWMutexScopedLock(lock, write)` is entered -/
  | construct (write : Bool)
  /-- its lock call returns, and with it the constructor -/
  | constructed
  /-- `upgrade2writer()` is called and has unlocked -/
  | upgrade
  /-- its `pthread_rwlock_wrlock` returns, and it returns true -/
  | upgraded
  /-- `~RWMutexScopedLock()` -/
  | destroy
  deriving DecidableEq

variable {τ : Type} [DecidableEq τ]

/-- The lock call made for the guard `g` on top of `gs` returns, whatever
its code, and `g` is live. -/
def State.lockReturns (s : State τ) (t : τ) (m : Mode) (g : Guard) (gs : List Guard) :
    Option (State τ) :=
  match s.lock.acquire t m with
  | .granted l =>
    some ⟨l, Function.update s.stack t ({ g with phase := .live, hold := some m } :: gs)⟩
  | .deadlock =>
    some ⟨s.lock, Function.update s.stack t ({ g with phase := .live, hold := none } :: gs)⟩
  | .blocks => none

/-- A thread runs its own code only outside constructors and
`upgrade2writer`. -/
def settled : List Guard → Bool
  | [] => true
  | g :: _ => g.phase == .live

/-- One step of one thread. -/
def step (stray : Lock τ → τ → Lock τ) (s : State τ) : τ × Action → Option (State τ)
  | (t, .construct write) =>
    if settled (s.stack t) then
      some { s with
        stack := Function.update s.stack t (⟨write, .constructing, false, none⟩ :: s.stack t) }
    else none
  | (t, .constructed) =>
    match s.stack t with
    | [] => none
    | g :: gs =>
      if g.phase = .constructing then s.lockReturns t (lockMode g.write) g gs else none
  | (t, .upgrade) =>
    match s.stack t with
    | [] => none
    | g :: gs =>
      if g.phase = .live then
        some ⟨s.lock.unlock stray t,
          Function.update s.stack t ({ g with phase := .upgrading, hold := none } :: gs)⟩
      else none
  | (t, .upgraded) =>
    match s.stack t with
    | [] => none
    | g :: gs =>
      if g.phase = .upgrading then s.lockReturns t .write { g with upgraded := true } gs else none
  | (t, .destroy) =>
    match s.stack t with
    | [] => none
    | g :: gs =>
      if g.phase = .live then some ⟨s.lock.unlock stray t, Function.update s.stack t gs⟩ else none

/-! ## What the guards are for -/

/-- A live writer guard shuts out the live guards of every other thread. -/
def State.WritersExclusive (s : State τ) : Prop :=
  ∀ t u g k, t ≠ u → g ∈ s.stack t → g.phase = .live → g.isWriter = true →
    k ∈ s.stack u → k.phase ≠ .live

/-- A destructor that runs now gives back what its own guard acquired. -/
def State.DestructorsOwn (s : State τ) : Prop :=
  ∀ t g gs, s.stack t = g :: gs → g.phase = .live →
    ∃ m, g.hold = some m ∧ s.lock.releases t = some m

def State.FreeAtRest (s : State τ) : Prop :=
  (∀ t, s.stack t = []) → s.lock = Lock.free

/-- A live guard really holds the lock. -/
structure GuardsHold (s : State τ) : Prop where
  exclusive : s.WritersExclusive
  own : s.DestructorsOwn
  free : s.FreeAtRest

/-- No guard is opened inside a writer guard of the same thread. -/
def NoNestingInWriter (s : State τ) : τ × Action → Prop
  | (t, .construct _) => ∀ g ∈ s.stack t, g.isWriter = false
  | _ => True

instance (s : State τ) (e : τ × Action) : Decidable (NoNestingInWriter s e) :=
  match e with
  | (t, .construct _) => inferInstanceAs (Decidable (∀ g ∈ s.stack t, g.isWriter = false))
  | (_, .constructed) => inferInstanceAs (Decidable True)
  | (_, .upgrade) => inferInstanceAs (Decidable True)
  | (_, .upgraded) => inferInstanceAs (Decidable True)
  | (_, .destroy) => inferInstanceAs (Decidable True)

end Comproject.Db.RWMutexScopedLock
