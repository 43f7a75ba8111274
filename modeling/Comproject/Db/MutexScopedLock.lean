/-
Comproject.Db.MutexScopedLock — `MutexScopedLock` of
`include/db/sql_handle.h`, the scoped guard on a `pthread_mutex_t`.

The class is the plain sibling of `RWMutexScopedLock`: the constructor
locks, the destructor unlocks, and both ignore the return codes. Which
kind of mutex it gets is up to the code that initialises it, so the kind
is a parameter. The other attributes are the defaults, without a priority
protocol and not robust, and the count of a recursive mutex stays below
its maximum. Under that a normal or a recursive mutex returns from a lock
call only when it has granted it, so the ignored code does no harm. With
an error-checking mutex a nested guard has the fault of the reader-writer
one.
-/
import Comproject.Lib.Runs
import Comproject.Lib.Mutex

namespace Comproject.Db.MutexScopedLock

open Mutex

/-! ## Threads and guards -/

/-- One `MutexScopedLock` object: whether its constructor has returned,
and, as a ghost, whether its lock call was granted. -/
structure Guard where
  live : Bool
  hold : Bool
  deriving DecidableEq

/-- The shared mutex and the guards of each thread, innermost first. -/
structure State (τ : Type) where
  mutex : Lock τ
  stack : τ → List Guard

def State.initial {τ : Type} : State τ := ⟨Lock.free, fun _ => []⟩

inductive Action where
  /-- `MutexScopedLock(lock)` is entered -/
  | construct
  /-- its `pthread_mutex_lock` returns -/
  | constructed
  /-- `~MutexScopedLock()` -/
  | destroy
  deriving DecidableEq

variable {τ : Type} [DecidableEq τ]

def settled : List Guard → Bool
  | [] => true
  | g :: _ => g.live

/-- One step of one thread. -/
def step (kind : Kind) (stray : Lock τ → τ → Lock τ) (s : State τ) :
    τ × Action → Option (State τ)
  | (t, .construct) =>
    if settled (s.stack t) then
      some { s with stack := Function.update s.stack t (⟨false, false⟩ :: s.stack t) }
    else none
  | (t, .constructed) =>
    match s.stack t with
    | ⟨false, _⟩ :: gs =>
      match s.mutex.lock kind t with
      | .granted m => some ⟨m, Function.update s.stack t (⟨true, true⟩ :: gs)⟩
      | .deadlock => some ⟨s.mutex, Function.update s.stack t (⟨true, false⟩ :: gs)⟩
      | .blocks => none
    | _ => none
  | (t, .destroy) =>
    match s.stack t with
    | ⟨true, _⟩ :: gs => some ⟨s.mutex.unlock stray t, Function.update s.stack t gs⟩
    | _ => none

variable {kind : Kind} {stray : Lock τ → τ → Lock τ} {s s' : State τ} {t : τ}

/-! ## What a step can do -/

theorem step_construct_iff :
    step kind stray s (t, .construct) = some s' ↔
      settled (s.stack t) = true ∧
      s' = { s with stack := Function.update s.stack t (⟨false, false⟩ :: s.stack t) } := by
  simp only [step]
  split
  case isTrue hset => simp [hset, eq_comm]
  case isFalse hset => simp [hset]

theorem step_constructed_iff :
    step kind stray s (t, .constructed) = some s' ↔
      ∃ h gs, s.stack t = ⟨false, h⟩ :: gs ∧
        ((∃ m, s.mutex.lock kind t = .granted m ∧
            s' = ⟨m, Function.update s.stack t (⟨true, true⟩ :: gs)⟩) ∨
          (s.mutex.lock kind t = .deadlock ∧
            s' = ⟨s.mutex, Function.update s.stack t (⟨true, false⟩ :: gs)⟩)) := by
  simp only [step]
  cases hst : s.stack t with
  | nil => simp
  | cons g gs =>
    obtain ⟨live, h⟩ := g
    cases live with
    | true => simp
    | false =>
      cases hl : s.mutex.lock kind t with
      | granted m => simp [eq_comm]
      | deadlock => simp [eq_comm]
      | blocks => simp

theorem step_destroy_iff :
    step kind stray s (t, .destroy) = some s' ↔
      ∃ h gs, s.stack t = ⟨true, h⟩ :: gs ∧
        s' = ⟨s.mutex.unlock stray t, Function.update s.stack t gs⟩ := by
  simp only [step]
  cases hst : s.stack t with
  | nil => simp
  | cons g gs =>
    obtain ⟨live, h⟩ := g
    cases live with
    | true => simp [eq_comm]
    | false => simp

/-! ## What the guards are for -/

/-- Live guards are those of one thread, a destructor gives back what its
own guard acquired, and without guards the mutex is free. -/
structure GuardsHold (s : State τ) : Prop where
  exclusive : ∀ t u g k, g ∈ s.stack t → g.live = true → k ∈ s.stack u → k.live = true → t = u
  own : ∀ t g gs, s.stack t = g :: gs → g.live = true →
    g.hold = true ∧ s.mutex.owner = some t
  free : (∀ t, s.stack t = []) → s.mutex = Lock.free

/-- With an error-checking mutex, no guard is opened inside another of the
same thread. -/
def NoNesting (kind : Kind) (s : State τ) : τ × Action → Prop
  | (t, .construct) => kind = .errorcheck → s.stack t = []
  | _ => True

instance (kind : Kind) (s : State τ) (e : τ × Action) : Decidable (NoNesting kind s e) :=
  match e with
  | (t, .construct) => inferInstanceAs (Decidable (kind = .errorcheck → s.stack t = []))
  | (_, .constructed) => inferInstanceAs (Decidable True)
  | (_, .destroy) => inferInstanceAs (Decidable True)

/-! ## The invariant -/

/-- How many holds the guards of a thread have. -/
def State.holds (s : State τ) (t : τ) : Nat := (s.stack t).countP Guard.hold

structure Inv (kind : Kind) (s : State τ) : Prop where
  owns : Owns s.mutex s.holds
  hold : ∀ t, ∀ g ∈ s.stack t, g.hold = g.live
  below : ∀ t, ∀ g ∈ (s.stack t).tail, g.live = true
  flat : kind = .errorcheck → ∀ t, (s.stack t).length ≤ 1

theorem inv_initial : Inv kind (State.initial : State τ) where
  owns := Owns.initial
  hold := by simp [State.initial]
  below := by simp [State.initial]
  flat := by simp [State.initial]

/-- A step changes the stack of one thread. -/
theorem Inv.update (hi : Inv kind s) {m : Lock τ} {gs : List Guard}
    (howns : Owns m (Function.update s.holds t (gs.countP Guard.hold)))
    (hhold : ∀ g ∈ gs, g.hold = g.live) (hbelow : ∀ g ∈ gs.tail, g.live = true)
    (hflat : kind = .errorcheck → gs.length ≤ 1) :
    Inv kind ⟨m, Function.update s.stack t gs⟩ := by
  have hother : ∀ u, u ≠ t → Function.update s.stack t gs u = s.stack u :=
    fun u hu => Function.update_of_ne hu ..
  refine ⟨?_, fun u => ?_, fun u => ?_, fun hk u => ?_⟩
  · have hholds : (State.mk m (Function.update s.stack t gs)).holds
        = Function.update s.holds t (gs.countP Guard.hold) := by
      funext u
      by_cases hu : u = t
      · subst hu; simp [State.holds]
      · simp [State.holds, hu]
    rw [hholds]
    exact howns
  · by_cases hu : u = t
    · subst hu; simpa using hhold
    · simpa [hu] using hi.hold u
  · by_cases hu : u = t
    · subst hu; simpa using hbelow
    · simpa [hu] using hi.below u
  · by_cases hu : u = t
    · subst hu; simpa using hflat hk
    · simpa [hu] using hi.flat hk u

/-! ## One step -/

theorem Inv.construct (hi : Inv kind s) (hset : settled (s.stack t) = true)
    (hok : kind = .errorcheck → s.stack t = []) :
    Inv kind { s with stack := Function.update s.stack t (⟨false, false⟩ :: s.stack t) } := by
  refine hi.update ?_ ?_ ?_ ?_
  · have hsame : (⟨false, false⟩ :: s.stack t).countP Guard.hold = s.holds t := by
      simp [State.holds]
    rw [hsame, Function.update_eq_self]
    exact hi.owns
  · exact List.forall_mem_cons.mpr ⟨rfl, hi.hold t⟩
  · -- the innermost of the older guards is settled, the others are live anyway
    intro g hg
    cases hst : s.stack t with
    | nil => simp [hst] at hg
    | cons k ks =>
      rw [List.tail_cons, hst, List.mem_cons] at hg
      rw [hst] at hset
      obtain rfl | hg := hg
      · exact hset
      · exact hi.below t g (by simpa [hst] using hg)
  · intro hk
    simp [hok hk]

theorem Inv.constructed {h : Bool} {gs : List Guard} (hi : Inv kind s)
    (hst : s.stack t = ⟨false, h⟩ :: gs) {m : Lock τ} (hl : s.mutex.lock kind t = .granted m) :
    Inv kind ⟨m, Function.update s.stack t (⟨true, true⟩ :: gs)⟩ := by
  have hfalse : h = false := hi.hold t ⟨false, h⟩ (by simp [hst])
  have hholds : s.holds t = gs.countP Guard.hold := by
    simp [State.holds, hst, hfalse]
  refine hi.update ?_ ?_ ?_ ?_
  · have howns := hi.owns.lock hl
    rw [hholds] at howns
    simpa using howns
  · refine List.forall_mem_cons.mpr ⟨rfl, fun g hg => hi.hold t g (by simp [hst, hg])⟩
  · intro g hg
    exact hi.below t g (by simpa [hst] using hg)
  · intro hk
    have hlen := hi.flat hk t
    rw [hst] at hlen
    exact hlen

theorem Inv.destroy {h : Bool} {gs : List Guard} (hi : Inv kind s) (stray : Lock τ → τ → Lock τ)
    (hst : s.stack t = ⟨true, h⟩ :: gs) :
    Inv kind ⟨s.mutex.unlock stray t, Function.update s.stack t gs⟩ := by
  have htrue : h = true := hi.hold t ⟨true, h⟩ (by simp [hst])
  have hholds : s.holds t = gs.countP Guard.hold + 1 := by
    simp [State.holds, hst, htrue]
  refine hi.update (hi.owns.unlock stray hholds) ?_ ?_ ?_
  · intro g hg
    exact hi.hold t g (by simp [hst, hg])
  · intro g hg
    exact hi.below t g (by simpa [hst] using List.mem_of_mem_tail hg)
  · intro hk
    have hlen := hi.flat hk t
    rw [hst, List.length_cons] at hlen
    omega

/-- Every step keeps the invariant, an error-checking mutex and nested
guards apart. -/
theorem inv_step (e : τ × Action) (hi : Inv kind s) (hok : NoNesting kind s e)
    (h : step kind stray s e = some s') : Inv kind s' := by
  obtain ⟨t, a⟩ := e
  cases a with
  | construct =>
    obtain ⟨hset, rfl⟩ := step_construct_iff.mp h
    exact hi.construct hset hok
  | constructed =>
    obtain ⟨h0, gs, hst, ⟨m, hl, rfl⟩ | ⟨hl, -⟩⟩ := step_constructed_iff.mp h
    · exact hi.constructed hst hl
    · -- the refused thread would have another guard
      obtain ⟨hk, hpos⟩ := hi.owns.deadlock hl
      have hfalse : h0 = false := hi.hold t ⟨false, h0⟩ (by simp [hst])
      have hgs : gs = [] := by simpa [hst] using hi.flat hk t
      simp [State.holds, hst, hfalse, hgs] at hpos
  | destroy =>
    obtain ⟨h0, gs, hst, rfl⟩ := step_destroy_iff.mp h
    exact hi.destroy stray hst

/-! ## The guards hold the mutex -/

theorem Inv.holds_pos (hi : Inv kind s) {g : Guard} (hg : g ∈ s.stack t) (hlive : g.live = true) :
    0 < s.holds t :=
  List.countP_pos_iff.mpr ⟨g, hg, by rw [hi.hold t g hg, hlive]⟩

theorem Inv.guardsHold (hi : Inv kind s) : GuardsHold s where
  exclusive t u g k hg hgl hk hkl := hi.owns.unique (hi.holds_pos hg hgl) (hi.holds_pos hk hkl)
  own := by
    intro t g gs hst hlive
    have hg : g ∈ s.stack t := by simp [hst]
    exact ⟨by rw [hi.hold t g hg, hlive], hi.owns.owner (hi.holds_pos hg hlive)⟩
  free := by
    intro hempty
    exact hi.owns.eq_free (fun t => by simp [State.holds, hempty t])

/-- In every run without nested guards on an error-checking mutex the live
guards hold the mutex. -/
theorem mutexGuards_hold (hs : Runs.Reach (step kind stray) (NoNesting kind) State.initial s) :
    GuardsHold s := by
  have hi : Inv kind s := hs.invariant inv_initial (fun _ e _ hi hok h => inv_step e hi hok h)
  exact hi.guardsHold

/-- With any other kind of mutex there is nothing to avoid. -/
theorem mutexGuards_hold_of_ne_errorcheck (hkind : kind ≠ .errorcheck)
    (hs : Runs.Reach (step kind stray) (fun _ _ => True) State.initial s) : GuardsHold s := by
  have hok : ∀ (s : State τ) (e : τ × Action), NoNesting kind s e := by
    intro s e
    obtain ⟨t, a⟩ := e
    cases a with
    | construct => exact fun hk => absurd hk hkind
    | constructed | destroy => trivial
  have hi : Inv kind s := hs.invariant inv_initial (fun s e _ hi _ h => inv_step e hi (hok s e) h)
  exact hi.guardsHold

end Comproject.Db.MutexScopedLock
