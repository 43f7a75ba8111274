/-
Comproject.Base.Singleton — the parameterised singleton,
`Singleton<T, false>` of `include/base/singleton.h`.

The class keeps two pieces of static state, the once flag and the owning
pointer. `Instance(args...)` constructs through `std::call_once` and then
dereferences the pointer; `Instance()` checks the pointer and throws;
`Release()` destroys the held object and empties the pointer. `Release`
is modelled by what its body spells out: `delete` and a null assignment
on `static_ptr_instance_`.

`T`'s constructor is a parameter: `ctor args` is the constructed value or
the exception it throws. Every object built through the class gets a
fresh number, so that two objects with equal values stay two objects, and
`alive` lists those not yet destroyed.
-/
import Mathlib.Tactic.Common

namespace Comproject.Base

/-- An object on the heap: which construction made it, and its value. -/
structure Object (T : Type) where
  id : Nat
  value : T

/-- The static state of `Singleton<T, false>` and the objects it made. -/
structure Singleton (T : Type) where
  static_ptr_instance_ : Option (Object T)
  static_inited_once_flag_ : Bool
  alive : List (Object T)
  constructed : Nat

/-- Before any call. -/
def Singleton.initial (T : Type) : Singleton T := ⟨none, false, [], 0⟩

/-- What one call does to its caller. -/
inductive Outcome (T E : Type) where
  | reference (o : Object T)
  | threw (e : E)
  | logicError (what : String)
  | released
  | nullDereference

/-- A call on the class. -/
inductive Call (Args : Type) where
  | instanceArgs (args : Args)
  | instanceNoArgs
  | release

variable {T E Args : Type}

/-- The heap after the pointer gives up what it holds. -/
def Singleton.aliveWithout (s : Singleton T) : List (Object T) :=
  match s.static_ptr_instance_ with
  | none => s.alive
  | some o => s.alive.filter (fun p => p.id != o.id)

/-- `std::call_once`: the callable runs when no earlier call on the flag
completed normally. An exception leaves the flag unset and propagates. -/
def callOnce (flag : Bool) (callable : Singleton T → Except E (Singleton T))
    (s : Singleton T) : Except E (Singleton T) :=
  if flag then .ok s
  else
    match callable s with
    | .error e => .error e
    | .ok s' => .ok { s' with static_inited_once_flag_ := true }

/-- The lambda of `Instance(args...)`: `new T(args...)` into the
`unique_ptr`, which destroys what it held before. -/
def Singleton.construct (ctor : Args → Except E T) (args : Args) (s : Singleton T) :
    Except E (Singleton T) :=
  match ctor args with
  | .error e => .error e
  | .ok v =>
      let o : Object T := ⟨s.constructed, v⟩
      .ok { s with
            static_ptr_instance_ := some o
            alive := o :: s.aliveWithout
            constructed := s.constructed + 1 }

/-- `return *static_ptr_instance_`. -/
def Singleton.dereference (s : Singleton T) : Outcome T E :=
  match s.static_ptr_instance_ with
  | none => .nullDereference
  | some o => .reference o

/-- `Instance(args...)`. -/
def Singleton.instanceArgs (ctor : Args → Except E T) (args : Args) (s : Singleton T) :
    Outcome T E × Singleton T :=
  match callOnce s.static_inited_once_flag_ (Singleton.construct ctor args) s with
  | .error e => (.threw e, s)
  | .ok s' => (s'.dereference, s')

/-- `Instance()`. `typeName` is `typeid(T).name()`. -/
def Singleton.instanceNoArgs (typeName : String) (s : Singleton T) :
    Outcome T E × Singleton T :=
  match s.static_ptr_instance_ with
  | none => (.logicError (typeName ++ " is not inited!\n"), s)
  | some o => (.reference o, s)

/-- `Release()`. The once flag is not touched. -/
def Singleton.release (s : Singleton T) : Outcome T E × Singleton T :=
  (.released, { s with static_ptr_instance_ := none, alive := s.aliveWithout })

/-- One call. -/
def Singleton.step (ctor : Args → Except E T) (typeName : String) (s : Singleton T) :
    Call Args → Outcome T E × Singleton T
  | .instanceArgs args => s.instanceArgs ctor args
  | .instanceNoArgs => s.instanceNoArgs typeName
  | .release => s.release

/-- The state after a sequence of calls. -/
def Singleton.run (ctor : Args → Except E T) (typeName : String) (calls : List (Call Args)) :
    Singleton T :=
  calls.foldl (fun s c => (s.step ctor typeName c).2) (Singleton.initial T)

/-! ## The life cycle the class is for -/

/-- What a call made in the state `s` should do. With arguments it may
throw only while no object is alive; with one alive it returns that one,
whatever the constructor would do with its arguments. -/
def Singleton.CallMeets (ctor : Args → Except E T) (typeName : String) (s : Singleton T)
    (c : Call Args) : Prop :=
  (s.step ctor typeName c).2.alive.length ≤ 1
  ∧ match c with
    | .instanceArgs args =>
        (s.alive = [] ∧ ∃ e, ctor args = .error e ∧ s.step ctor typeName c = (.threw e, s))
        ∨ (∃ o, (s.step ctor typeName c).1 = .reference o
            ∧ o ∈ (s.step ctor typeName c).2.alive
            ∧ (∀ p ∈ s.alive, o = p)
            ∧ (s.alive = [] → ctor args = .ok o.value ∧ o.id = s.constructed))
    | .instanceNoArgs =>
        ((∃ what, (s.step ctor typeName c).1 = .logicError what) ↔ s.alive = [])
        ∧ (∀ o ∈ s.alive, (s.step ctor typeName c).1 = .reference o)
    | .release => True

/-- Every call of the sequence does what it should. -/
def Singleton.AllMeet (ctor : Args → Except E T) (typeName : String)
    (calls : List (Call Args)) : Prop :=
  ∀ pre c post, calls = pre ++ c :: post →
    (Singleton.run ctor typeName pre).CallMeets ctor typeName c

/-- The sequence initialises the singleton, releases it, and later asks
for it again with arguments. -/
def ReusesAfterRelease (ctor : Args → Except E T) (calls : List (Call Args)) : Prop :=
  ∃ p a q r b t, calls = p ++ .instanceArgs a :: (q ++ .release :: (r ++ .instanceArgs b :: t))
    ∧ ∃ v, ctor a = .ok v

end Comproject.Base
