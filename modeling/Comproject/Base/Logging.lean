/-
Comproject.Base.Logging — the class `Logging` of `include/base/logger.h`.

`Logging` allocates a `Logger` in its constructor and deletes it in its
destructor, and holds it by a plain pointer. It declares nothing else, so
the compiler adds a copy constructor and an assignment that copy the
pointer. There are no moves: a class with a destructor of its own has
none, and a move is a copy.

`Connection`, `ConnectionPool` and `SqlHandle` derive from `Logging`.
`Connection` is `Noncopyable` and `SqlHandle` has the deleted copy
operations of `Singleton`; `ConnectionPool` can be copied and assigned.
The state below has all the `Logging` objects of a program, in whatever
class they sit, and the loggers on the heap.
-/
import Comproject.Lib.Runs
import Mathlib.Logic.Function.Basic

namespace Comproject.Base

/-- `class Logging`. The address 0 is the null pointer. -/
structure Logging where
  logger_ : Nat

namespace Logging

/-- `O` names the objects, and `L` is the class `Logger`. -/
structure State (O L : Type) where
  /-- by address -/
  loggers : Nat → Option L
  objects : O → Option Logging
  /-- a logger was deleted that is not there -/
  fault : Bool

def State.initial {O L : Type} : State O L := ⟨fun _ => none, fun _ => none, false⟩

inductive Action (O : Type) where
  /-- `Logging()`; `new Logger` returns an address, or throws -/
  | construct (o : O) (new : Option Nat)
  /-- `Logging(const Logging&)`, a new `o` from `p` -/
  | copyConstruct (o p : O)
  /-- `operator=(const Logging&)`, `o = p` -/
  | copyAssign (o p : O)
  /-- `~Logging()` -/
  | destroy (o : O)

variable {O L : Type} [DecidableEq O]

/-- `~Logging()` of the object `o`, which holds `l`. A second `delete` of
a logger is undefined; the model notes the fault and goes on. -/
def State.destroy (s : State O L) (o : O) (l : Logging) : State O L :=
  let objects := Function.update s.objects o none
  if l.logger_ = 0 then { s with objects := objects }
  else
    match s.loggers l.logger_ with
    | none => { s with objects := objects, fault := true }
    | some _ => { s with loggers := Function.update s.loggers l.logger_ none, objects := objects }

/-- One step. `logger` is what `Logger(bool)` makes; that constructor is
not in the repository. -/
def step (logger : Bool → L) (s : State O L) : Action O → Option (State O L)
  | .construct o new =>
    if (s.objects o).isSome then none
    else
      match new with
      | none => some s
      | some a =>
        -- `new` returns an address that is not null and not in use
        if a = 0 || (s.loggers a).isSome then none
        else
          some { s with
            loggers := Function.update s.loggers a (some (logger false))
            objects := Function.update s.objects o (some ⟨a⟩) }
  | .copyConstruct o p =>
    if (s.objects o).isSome then none
    else (s.objects p).map (fun l => { s with objects := Function.update s.objects o (some l) })
  | .copyAssign o p =>
    if (s.objects o).isSome then
      (s.objects p).map (fun l => { s with objects := Function.update s.objects o (some l) })
    else none
  | .destroy o => (s.objects o).map (s.destroy o)

/-! ## Statements about the program -/

/-- The step gives the pointer of one object to another. -/
def Action.Shares : Action O → Prop
  | .construct _ _ => False
  | .copyConstruct _ _ => True
  | .copyAssign o p => o ≠ p
  | .destroy _ => False

instance (e : Action O) : Decidable e.Shares :=
  match e with
  | .construct _ _ => inferInstanceAs (Decidable False)
  | .copyConstruct _ _ => inferInstanceAs (Decidable True)
  | .copyAssign o p => inferInstanceAs (Decidable (o ≠ p))
  | .destroy _ => inferInstanceAs (Decidable False)

end Logging

end Comproject.Base
