/-
Comproject.Base.SingletonThreads — several threads ask for the singleton.

Both templates of `include/base/singleton.h` leave the race for the first
construction to the language: `Singleton<T, false>::Instance(args...)` to
`std::call_once`, and the default `Singleton<T>::Instance()` to the
initialisation of a function-local static, which C++11 makes once and
under a lock. Each is an instance of `Once.Initialiser`; the threads'
steps are those of `Once.step`.

`Instance()` without arguments and `Release()` of the parameterised
template read and write the pointer with no synchronisation, so two
threads may not run them against each other. They have no place in the
threads' model; `Comproject.Base.Singleton` has them for one thread.
-/
import Comproject.Base.Singleton
import Comproject.Lib.Once

namespace Comproject.Base

variable {T E Args : Type} {τ : Type}

/-! ## `Singleton<T, false>` -/

theorem flag_of_callOnce {callable : Singleton T → Except E (Singleton T)} {s s' : Singleton T}
    (h : callOnce s.static_inited_once_flag_ callable s = .ok s') :
    s'.static_inited_once_flag_ = true := by
  unfold callOnce at h
  split at h
  · cases h
    assumption
  · split at h
    · cases h
    · cases h
      rfl

/-- `Instance(args...)`: `call_once` on the flag, then the dereference. -/
def Singleton.once (ctor : Args → Except E T) :
    Once.Initialiser Args (Singleton T) E (Outcome T E) where
  done s := s.static_inited_once_flag_
  init args s := callOnce s.static_inited_once_flag_ (Singleton.construct ctor args) s
  read s := s.dereference
  done_init _ _ _ h := flag_of_callOnce h

/-- What the call does to its caller. -/
def Outcome.ofResult : Except E (Outcome T E) → Outcome T E
  | .error e => .threw e
  | .ok r => r

/-- The threads, and the class they share. -/
abbrev Singleton.Threads (τ Args T E : Type) : Type :=
  Once.State τ Args (Singleton T) E (Outcome T E)

def Singleton.Threads.initial (τ Args T E : Type) : Singleton.Threads τ Args T E :=
  Once.State.initial (Singleton.initial T)

/-- A call and what came of it. -/
structure Answer (τ Args T E : Type) where
  thread : τ
  args : Args
  outcome : Outcome T E

/-- What the calls give when they are made one after the other. -/
def Singleton.answers (ctor : Args → Except E T) (typeName : String) :
    Singleton T → List (τ × Args) → List (Answer τ Args T E)
  | _, [] => []
  | s, c :: cs =>
    ⟨c.1, c.2, (s.step ctor typeName (.instanceArgs c.2)).1⟩
      :: Singleton.answers ctor typeName (s.step ctor typeName (.instanceArgs c.2)).2 cs

/-- What has come of the calls that have returned to `t`. -/
def Singleton.Threads.answersTo [DecidableEq τ] (s : Singleton.Threads τ Args T E) (t : τ) :
    List (Answer τ Args T E) :=
  (Once.of t s.returned).map (fun x => ⟨x.thread, x.arg, .ofResult x.result⟩)

/-- The threads see the class as if the calls of `order` had been made
one after the other: the class is where that leaves it, and each thread
has got the answers to its own calls, but for one that it is about to
get. -/
structure Singleton.Threads.Explained [DecidableEq τ] (ctor : Args → Except E T)
    (typeName : String) (s : Singleton.Threads τ Args T E) (order : List (τ × Args)) : Prop where
  store : s.store = Singleton.run ctor typeName (order.map (fun c => .instanceArgs c.2))
  answers : ∀ t, ∃ rest,
    (Singleton.answers ctor typeName (Singleton.initial T) order).filter (fun x => x.thread = t)
      = s.answersTo t ++ rest
    ∧ rest.length ≤ 1
    ∧ ((∀ args, s.phase t ≠ .passed args) → rest = [])

/-! ## `Singleton<T>` -/

/-- The static of `Instance()`, and how often it has been built. -/
structure DefaultSingleton (T : Type) where
  static_instance_ : Option (Object T)
  constructed : Nat

def DefaultSingleton.initial (T : Type) : DefaultSingleton T := ⟨none, 0⟩

/-- `static T static_instance_`: the default constructor, which may throw
one time and not the next. -/
def DefaultSingleton.construct (ctor : Except E T) (s : DefaultSingleton T) :
    Except E (DefaultSingleton T) :=
  match ctor with
  | .error e => .error e
  | .ok v => .ok ⟨some ⟨s.constructed, v⟩, s.constructed + 1⟩

theorem isSome_of_construct {ctor : Except E T} {s s' : DefaultSingleton T}
    (h : s.construct ctor = .ok s') : s'.static_instance_.isSome = true := by
  unfold DefaultSingleton.construct at h
  split at h
  · cases h
  · cases h
    rfl

/-- `Instance()`: the static is built by the first whose constructor
returns, and the call returns it. A call brings with it what the
constructor does if this call is the one to run it. -/
def DefaultSingleton.once (T E : Type) :
    Once.Initialiser (Except E T) (DefaultSingleton T) E (Option (Object T)) where
  done s := s.static_instance_.isSome
  init ctor s := s.construct ctor
  read s := s.static_instance_
  done_init _ _ _ h := isSome_of_construct h

/-- The threads, and the static they share. -/
abbrev DefaultSingleton.Threads (τ T E : Type) : Type :=
  Once.State τ (Except E T) (DefaultSingleton T) E (Option (Object T))

def DefaultSingleton.Threads.initial (τ T E : Type) : DefaultSingleton.Threads τ T E :=
  Once.State.initial (DefaultSingleton.initial T)

end Comproject.Base
