/-
Comproject.Db.RWMutexScopedLockTheorems — when a live guard holds the lock.

The lock word is the sum of what the guards hold (`Rwlock.Accounts`), a
live guard holds what its mode says, and only the innermost guard of a
thread can be a writer. These three are kept by every step except one: a
guard opened inside a writer guard of the same thread. Its lock call comes
back with `EDEADLK`, the code is ignored, and its destructor gives back
the hold of the OUTER guard.
-/
import Comproject.Db.RWMutexScopedLock

namespace Comproject.Db.RWMutexScopedLock

open Rwlock

variable {τ : Type} [DecidableEq τ]

/-! ## What a step can do -/

section Steps

variable {stray : Lock τ → τ → Lock τ} {s s' : State τ} {t : τ}

theorem step_construct_iff {w : Bool} :
    step stray s (t, .construct w) = some s' ↔
      settled (s.stack t) = true ∧
      s' = { s with
        stack := Function.update s.stack t (⟨w, .constructing, false, none⟩ :: s.stack t) } := by
  simp only [step]
  split
  case isTrue hset => simp [hset, eq_comm]
  case isFalse hset => simp [hset]

theorem step_constructed_iff :
    step stray s (t, .constructed) = some s' ↔
      ∃ g gs, s.stack t = g :: gs ∧ g.phase = .constructing ∧
        s.lockReturns t (lockMode g.write) g gs = some s' := by
  simp only [step]
  cases hst : s.stack t <;> simp

theorem step_upgrade_iff :
    step stray s (t, .upgrade) = some s' ↔
      ∃ g gs, s.stack t = g :: gs ∧ g.phase = .live ∧
        s' = ⟨s.lock.unlock stray t,
          Function.update s.stack t ({ g with phase := .upgrading, hold := none } :: gs)⟩ := by
  simp only [step]
  cases hst : s.stack t <;> simp [eq_comm]

theorem step_upgraded_iff :
    step stray s (t, .upgraded) = some s' ↔
      ∃ g gs, s.stack t = g :: gs ∧ g.phase = .upgrading ∧
        s.lockReturns t .write { g with upgraded := true } gs = some s' := by
  simp only [step]
  cases hst : s.stack t <;> simp

theorem step_destroy_iff :
    step stray s (t, .destroy) = some s' ↔
      ∃ g gs, s.stack t = g :: gs ∧ g.phase = .live ∧
        s' = ⟨s.lock.unlock stray t, Function.update s.stack t gs⟩ := by
  simp only [step]
  cases hst : s.stack t <;> simp [eq_comm]

end Steps

/-! ## Holds -/

/-- The holds of each thread's guards, innermost first. -/
def State.holds (s : State τ) (t : τ) : List Mode := (s.stack t).filterMap Guard.hold

/-- What a guard holds when all is well. -/
def Guard.due (g : Guard) : Option Mode :=
  if g.phase = .live then some (lockMode g.isWriter) else none

theorem Guard.due_live {g : Guard} (h : g.phase = .live) : g.due = some (lockMode g.isWriter) := by
  unfold Guard.due
  rw [if_pos h]

theorem Guard.due_not_live {g : Guard} (h : g.phase ≠ .live) : g.due = none := by
  unfold Guard.due
  rw [if_neg h]

/-- A change of one thread's stack is a change of that thread's holds. -/
theorem holds_update (l : Lock τ) (f : τ → List Guard) (t : τ) (gs : List Guard) :
    (State.mk l (Function.update f t gs)).holds
      = Function.update (State.mk l f).holds t (gs.filterMap Guard.hold) := by
  funext u
  unfold State.holds
  by_cases hu : u = t
  · subst hu; simp
  · simp [hu]

/-! ## The invariant -/

/-- One thread's stack: every guard holds what it should, and the guards
below the innermost one are live readers. -/
structure StackOk (gs : List Guard) : Prop where
  due : ∀ g ∈ gs, g.hold = g.due
  fresh : ∀ g ∈ gs, g.phase = .constructing → g.upgraded = false
  below : ∀ k ∈ gs.tail, k.phase = .live ∧ k.isWriter = false

theorem StackOk.nil : StackOk [] := ⟨by simp, by simp, by simp⟩

theorem StackOk.tail {g : Guard} {gs : List Guard} (h : StackOk (g :: gs)) : StackOk gs where
  due k hk := h.due k (List.mem_cons_of_mem g hk)
  fresh k hk := h.fresh k (List.mem_cons_of_mem g hk)
  below k hk := h.below k (List.mem_of_mem_tail hk)

/-- Another innermost guard over the same older ones. -/
theorem StackOk.replace {g g' : Guard} {gs : List Guard} (h : StackOk (g :: gs))
    (hdue : g'.hold = g'.due) (hfresh : g'.phase ≠ .constructing) : StackOk (g' :: gs) where
  due := List.forall_mem_cons.mpr ⟨hdue, h.tail.due⟩
  fresh := List.forall_mem_cons.mpr ⟨fun hph => absurd hph hfresh, h.tail.fresh⟩
  below := h.below

/-- The guards below the innermost one hold no write lock. -/
theorem StackOk.write_notMem_below {g : Guard} {gs : List Guard} (h : StackOk (g :: gs)) :
    Mode.write ∉ gs.filterMap Guard.hold := by
  intro hmem
  obtain ⟨k, hk, hold⟩ := List.mem_filterMap.mp hmem
  obtain ⟨hlive, hreader⟩ := h.below k hk
  rw [h.tail.due k hk, Guard.due_live hlive, hreader] at hold
  simp [lockMode] at hold

/-- The holds on a stack, the innermost guard set apart. -/
theorem StackOk.holds_cons {g : Guard} {gs : List Guard} (h : StackOk (g :: gs)) :
    (g :: gs).filterMap Guard.hold = g.due.toList ++ gs.filterMap Guard.hold := by
  have hg := h.due g List.mem_cons_self
  cases hd : g.due with
  | none => simp [hg, hd]
  | some m => simp [hg, hd]

section Invariant

variable [Fintype τ]

structure Inv (s : State τ) : Prop where
  accounts : Accounts s.lock s.holds
  nesting : ∀ t, StackOk (s.stack t)

omit [DecidableEq τ] in
theorem inv_initial : Inv (State.initial : State τ) where
  accounts := Accounts.initial
  nesting _ := StackOk.nil

variable {s s' : State τ} {t : τ} {g : Guard} {gs : List Guard}

omit [DecidableEq τ] in
theorem Inv.stackOk (hi : Inv s) (hst : s.stack t = g :: gs) : StackOk (g :: gs) :=
  hst ▸ hi.nesting t

omit [DecidableEq τ] in
theorem Inv.holds_eq (hi : Inv s) (hst : s.stack t = g :: gs) :
    s.holds t = g.due.toList ++ gs.filterMap Guard.hold := by
  unfold State.holds
  rw [hst]
  exact (hi.stackOk hst).holds_cons

omit [DecidableEq τ] in
theorem Inv.holds_live (hi : Inv s) (hst : s.stack t = g :: gs) (hph : g.phase = .live) :
    s.holds t = lockMode g.isWriter :: gs.filterMap Guard.hold := by
  rw [hi.holds_eq hst, Guard.due_live hph]
  rfl

/-- A step changes the stack of one thread; the others are as before. -/
theorem Inv.update (hi : Inv s) {l : Lock τ} {gs' : List Guard} (hok : StackOk gs')
    (hacc : Accounts l (Function.update s.holds t (gs'.filterMap Guard.hold))) :
    Inv ⟨l, Function.update s.stack t gs'⟩ where
  accounts := by
    rw [holds_update]
    exact hacc
  nesting u := by
    show StackOk (Function.update s.stack t gs' u)
    by_cases hu : u = t
    · subst hu
      rw [Function.update_self]
      exact hok
    · rw [Function.update_of_ne hu]
      exact hi.nesting u

/-! ## One step -/

/-- Opening a guard takes no lock yet. -/
theorem Inv.construct (hi : Inv s) (w : Bool) (hset : settled (s.stack t) = true)
    (hok : ∀ g ∈ s.stack t, g.isWriter = false) :
    Inv { s with
      stack := Function.update s.stack t (⟨w, .constructing, false, none⟩ :: s.stack t) } := by
  have hst := hi.nesting t
  refine hi.update ⟨?_, ?_, ?_⟩ ?_
  · exact List.forall_mem_cons.mpr ⟨rfl, hst.due⟩
  · exact List.forall_mem_cons.mpr ⟨fun _ => rfl, hst.fresh⟩
  · -- the innermost of the older guards is settled, the others are live anyway
    intro k hk
    refine ⟨?_, hok k hk⟩
    cases hgs : s.stack t with
    | nil => simp [hgs] at hk
    | cons g gs =>
      rw [List.tail_cons, hgs, List.mem_cons] at hk
      rw [hgs] at hset
      obtain rfl | hk := hk
      · simpa [settled] using hset
      · exact ((hi.stackOk hgs).below k hk).1
  · show Accounts s.lock (Function.update s.holds t (s.holds t))
    rw [Function.update_eq_self]
    exact hi.accounts

/-- A lock call that returns for a guard without a hold was granted. -/
theorem Inv.lockReturns (hi : Inv s) (hst : s.stack t = g :: gs) (hph : g.phase ≠ .live)
    {g' : Guard} {m : Mode} (hm : m = lockMode g'.isWriter)
    (h : s.lockReturns t m g' gs = some s') : Inv s' := by
  have hholds : s.holds t = gs.filterMap Guard.hold := by
    rw [hi.holds_eq hst, Guard.due_not_live hph]
    rfl
  have hno : Mode.write ∉ s.holds t := hholds ▸ (hi.stackOk hst).write_notMem_below
  unfold State.lockReturns at h
  cases hacq : s.lock.acquire t m with
  | granted l =>
    rw [hacq] at h
    cases h
    refine hi.update ((hi.stackOk hst).replace ?_ (by simp)) ?_
    · rw [Guard.due_live rfl, hm]
      rfl
    · have hacc := hi.accounts.acquire hacq
      rw [hholds] at hacc
      exact hacc
  | deadlock => exact absurd hacq (hi.accounts.ne_deadlock hno m)
  | blocks =>
    rw [hacq] at h
    cases h

/-- The accounts after the innermost guard, a live one, has unlocked. -/
theorem Inv.unlock (hi : Inv s) (stray : Lock τ → τ → Lock τ) (hst : s.stack t = g :: gs)
    (hph : g.phase = .live) :
    Accounts (s.lock.unlock stray t)
      (Function.update s.holds t (gs.filterMap Guard.hold)) :=
  hi.accounts.unlock stray (hi.holds_live hst hph)

/-- Every step keeps the invariant, unless it opens a guard inside a
writer guard. -/
theorem inv_step (stray : Lock τ → τ → Lock τ) (e : τ × Action) (hi : Inv s)
    (hok : NoNestingInWriter s e) (h : step stray s e = some s') : Inv s' := by
  obtain ⟨t, a⟩ := e
  cases a with
  | construct w =>
    obtain ⟨hset, rfl⟩ := step_construct_iff.mp h
    exact hi.construct w hset hok
  | constructed =>
    obtain ⟨g, gs, hst, hph, h⟩ := step_constructed_iff.mp h
    refine hi.lockReturns hst (by simp [hph]) ?_ h
    have hfresh := (hi.stackOk hst).fresh g List.mem_cons_self hph
    simp [Guard.isWriter, hfresh]
  | upgrade =>
    obtain ⟨g, gs, hst, hph, rfl⟩ := step_upgrade_iff.mp h
    refine hi.update ((hi.stackOk hst).replace ?_ (by simp)) ?_
    · exact (Guard.due_not_live (by simp)).symm
    · have hacc := hi.unlock stray hst hph
      exact hacc
  | upgraded =>
    obtain ⟨g, gs, hst, hph, h⟩ := step_upgraded_iff.mp h
    refine hi.lockReturns hst (by simp [hph]) ?_ h
    simp [Guard.isWriter, lockMode]
  | destroy =>
    obtain ⟨g, gs, hst, hph, rfl⟩ := step_destroy_iff.mp h
    exact hi.update (hi.stackOk hst).tail (hi.unlock stray hst hph)

/-! ## The guards hold the lock -/

omit [DecidableEq τ] in
/-- A live guard's mode is among its thread's holds. -/
theorem Inv.mem_holds (hi : Inv s) (hg : g ∈ s.stack t) (hph : g.phase = .live) :
    lockMode g.isWriter ∈ s.holds t := by
  refine List.mem_filterMap.mpr ⟨g, hg, ?_⟩
  rw [(hi.nesting t).due g hg, Guard.due_live hph]

theorem Inv.guardsHold (hi : Inv s) : GuardsHold s where
  exclusive := by
    intro t u g k htu hg hgl hgw hk hkl
    have hwrite : Mode.write ∈ s.holds t := by
      have := hi.mem_holds hg hgl
      rwa [hgw] at this
    have hmode := hi.mem_holds hk hkl
    cases hkw : k.isWriter with
    | false =>
      rw [hkw] at hmode
      exact hi.accounts.read_excluded hwrite hmode
    | true =>
      rw [hkw] at hmode
      exact htu (hi.accounts.writer_unique hwrite hmode)
  own := by
    intro t g gs hst hph
    refine ⟨lockMode g.isWriter, ?_, ?_⟩
    · rw [(hi.stackOk hst).due g List.mem_cons_self, Guard.due_live hph]
    · exact hi.accounts.releases_eq (hi.holds_live hst hph)
  free := by
    intro hempty
    refine hi.accounts.eq_free (fun t => ?_)
    unfold State.holds
    rw [hempty t]
    rfl

theorem Inv.of_reach {stray : Lock τ → τ → Lock τ}
    (h : Runs.Reach (step stray) NoNestingInWriter State.initial s) : Inv s :=
  h.invariant inv_initial (fun _ e _ hi hok hs => inv_step stray e hi hok hs)

/-! ## A guard inside a writer guard -/

omit [DecidableEq τ] in
/-- A writer guard is innermost and live in a settled thread, and its
thread owns the write lock. -/
theorem Inv.write_mem_holds (hi : Inv s) (hset : settled (s.stack t) = true)
    (hg : g ∈ s.stack t) (hw : g.isWriter = true) : Mode.write ∈ s.holds t := by
  cases hst : s.stack t with
  | nil => simp [hst] at hg
  | cons k ks =>
    rw [hst, List.mem_cons] at hg
    obtain rfl | hg := hg
    · have hph : g.phase = .live := by
        rw [hst] at hset
        simpa [settled] using hset
      have := hi.mem_holds (t := t) (by simp [hst]) hph
      rwa [hw] at this
    · have := ((hi.stackOk hst).below g hg).2
      rw [hw] at this
      cases this

/-- Its constructor returns at once, and its destructor would give back
what it never acquired. -/
theorem Inv.nested_breaks (hi : Inv s) (stray : Lock τ → τ → Lock τ) {w : Bool}
    (hbad : ¬ NoNestingInWriter s (t, .construct w))
    (h : step stray s (t, .construct w) = some s') :
    ∃ s'', step stray s' (t, .constructed) = some s'' ∧ ¬ s''.DestructorsOwn := by
  obtain ⟨hset, rfl⟩ := step_construct_iff.mp h
  simp only [NoNestingInWriter, not_forall] at hbad
  obtain ⟨g, hg, hw⟩ := hbad
  have hwrite := hi.write_mem_holds hset hg (by simpa using hw)
  have hdead := hi.accounts.deadlock hwrite (lockMode w)
  refine ⟨⟨s.lock, Function.update
    (Function.update s.stack t (⟨w, .constructing, false, none⟩ :: s.stack t)) t
    (⟨w, .live, false, none⟩ :: s.stack t)⟩, ?_, ?_⟩
  · refine step_constructed_iff.mpr ⟨_, _, Function.update_self .., rfl, ?_⟩
    simp only [State.lockReturns, hdead]
  · intro hown
    obtain ⟨m, hm, -⟩ := hown t ⟨w, .live, false, none⟩ (s.stack t) (by simp) rfl
    cases hm

/-- In every run in which no thread opens a guard inside one of its own
writer guards, the live guards hold the lock in every state reached. A run
that does open one goes on to a state where they do not. -/
theorem guardsHold_of_noNestingInWriter (stray : Lock τ → τ → Lock τ) (s : State τ)
    (hs : Runs.Reach (step stray) NoNestingInWriter State.initial s) :
    GuardsHold s ∧
    ∀ t w s', ¬ NoNestingInWriter s (t, .construct w) →
      step stray s (t, .construct w) = some s' →
      ∃ s'', step stray s' (t, .constructed) = some s'' ∧ ¬ GuardsHold s'' := by
  have hi := Inv.of_reach hs
  refine ⟨hi.guardsHold, fun t w s' hbad h => ?_⟩
  obtain ⟨s'', h', hown⟩ := hi.nested_breaks stray hbad h
  exact ⟨s'', h', fun hg => hown hg.own⟩

end Invariant

/-- The two threads of the sample runs. -/
def threadA : Fin 2 := 0

def threadB : Fin 2 := 1

/-- The undefined unlock of the sample runs, in which there is none. -/
def keepLock (l : Lock (Fin 2)) (_ : Fin 2) : Lock (Fin 2) := l

/-- Two threads hold read guards together; thread B leaves, and thread A
upgrades. -/
def readThenUpgrade : List (Fin 2 × Action) :=
  [(threadB, .construct false), (threadA, .construct false), (threadA, .constructed),
   (threadB, .constructed), (threadB, .destroy), (threadA, .upgrade), (threadA, .upgraded)]

/-- The guards hold the lock after that run, and no longer when thread A
opens another guard. -/
theorem guardsHold_readThenUpgrade :
    ∃ s s' s'', Runs.exec (step keepLock) State.initial readThenUpgrade = some s ∧ GuardsHold s ∧
      step keepLock s (threadA, .construct false) = some s' ∧
      step keepLock s' (threadA, .constructed) = some s'' ∧ ¬ GuardsHold s'' := by
  have hreach := Runs.Reach.of_exec (step keepLock) NoNestingInWriter State.initial readThenUpgrade
    rfl
  obtain ⟨hold, hbreak⟩ := guardsHold_of_noNestingInWriter keepLock _ hreach
  obtain ⟨s'', h, hnot⟩ := hbreak threadA false _ (by decide) rfl
  exact ⟨_, _, s'', rfl, hold, rfl, h, hnot⟩

/-- Thread A opens a write guard inside a write guard and leaves the inner
scope; thread B then gets the write lock. -/
def nestedWriters : List (Fin 2 × Action) :=
  [(threadA, .construct true), (threadA, .constructed), (threadA, .construct true),
   (threadA, .constructed), (threadA, .destroy), (threadB, .construct true),
   (threadB, .constructed)]

/-- Two live write guards in two threads. -/
theorem nestedWriters_not_exclusive :
    ¬ ∀ s, Runs.Reach (step keepLock) (fun _ _ => True) State.initial s → GuardsHold s := by
  intro h
  have hreach := Runs.Reach.of_exec (step keepLock) (fun _ _ => True) State.initial nestedWriters rfl
  refine (h _ hreach).exclusive threadA threadB ⟨true, .live, false, some .write⟩
    ⟨true, .live, false, some .write⟩ ?_ ?_ rfl rfl ?_ rfl <;> decide

end Comproject.Db.RWMutexScopedLock
