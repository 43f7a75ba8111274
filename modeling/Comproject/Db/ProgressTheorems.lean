/-
Comproject.Db.ProgressTheorems — which guards on the database's reader-
writer lock come to their end.

A guard ends when its lock call has returned and its destructor has run.
These steps are the CLOSING ones; opening a guard and calling
`upgrade2writer` are not among them. A thread whose innermost guard waits
for the write lock inside an older guard of its own waits for itself: the
older guard's read hold goes only after the inner scope. As long as no
guard is opened inside a writer guard, such a thread never moves again
(`waits_for_ever`), and it keeps every other writer out. Without such a
thread every run of closing steps is bounded, and it can be carried on
until all guards are gone and the lock is free (`guards_close_iff`): the
general facts about stacks of scopes, of which these guards keep the
discipline.
-/
import Comproject.Db.UpgradeTheorems
import Comproject.Lib.Stacks

namespace Comproject.Db.RWMutexScopedLock

open Rwlock

variable {τ : Type} [DecidableEq τ]

/-! ## Closing -/

def Action.closes : Action → Bool
  | .construct _ | .upgrade => false
  | .constructed | .upgraded | .destroy => true

/-- The guard's lock call, still to return, asks for the write lock. -/
def Guard.awaitsWrite (g : Guard) : Bool :=
  match g.phase with
  | .constructing => g.write
  | .live => false
  | .upgrading => true

/-- The innermost guard waits for the write lock, and there is an older
one. -/
def waitsForItself : List Guard → Bool
  | g :: _ :: _ => g.awaitsWrite
  | _ => false

/-- No guard is left. -/
def State.Closed (s : State τ) : Prop := Stacks.Closed s.stack (s.lock = Lock.free)

/-- The closing steps a guard has before it. -/
def Guard.work (g : Guard) : Nat := if g.phase = .live then 1 else 2

def State.work [Fintype τ] (s : State τ) : Nat := Stacks.total Guard.work s.stack

theorem Guard.work_live {g : Guard} (h : g.phase = .live) : g.work = 1 := if_pos h

theorem Guard.work_not_live {g : Guard} (h : g.phase ≠ .live) : g.work = 2 := if_neg h

theorem Guard.awaitsWrite_live {g : Guard} (h : g.phase = .live) : g.awaitsWrite = false := by
  simp [Guard.awaitsWrite, h]

/-- A closing step takes one from the work of its thread. -/
theorem Moves.work {a : Action} {gs gs' : List Guard} (h : Moves a gs gs')
    (ha : a.closes = true) :
    Stacks.work Guard.work gs' + 1 = Stacks.work Guard.work gs := by
  cases h with
  | construct | upgrade => cases ha
  | constructed g gs m hph =>
    have hold : g.work = 2 := Guard.work_not_live (by simp [hph])
    simp only [Stacks.work_cons, hold,
      Guard.work_live (g := { g with phase := .live, hold := m }) rfl]
    omega
  | upgraded g gs m hph =>
    have hold : g.work = 2 := Guard.work_not_live (by simp [hph])
    simp only [Stacks.work_cons, hold,
      Guard.work_live (g := { g with phase := .live, upgraded := true, hold := m }) rfl]
    omega
  | destroy g gs hph =>
    simp only [Stacks.work_cons, Guard.work_live hph]
    omega

/-- A closing step brings no thread to wait for itself: what it leaves on
top is live. -/
theorem Moves.not_waitsForItself {a : Action} {gs gs' : List Guard} (h : Moves a gs gs')
    (ha : a.closes = true) (hlive : ∀ k ∈ gs.tail, k.phase = .live) :
    waitsForItself gs' = false := by
  cases h with
  | construct | upgrade => cases ha
  | constructed g gs m hph | upgraded g gs m hph =>
    cases gs with
    | nil => rfl
    | cons k ks => rfl
  | destroy g gs hph =>
    match gs' with
    | [] | [_] => rfl
    | k :: _ :: _ => exact Guard.awaitsWrite_live (hlive k (by simp))

/-! ## A lock call that returns -/

theorem acquire_read_of_no_writer {l : Lock τ} (t : τ) (h : l.writer = none) :
    l.acquire t .read = .granted { l with readers := l.readers + 1 } := by
  simp [Lock.acquire, Lock.rdlock, h]

theorem acquire_free (t : τ) (m : Mode) : ∃ l, (Lock.free : Lock τ).acquire t m = .granted l := by
  cases m with
  | read => exact ⟨_, acquire_read_of_no_writer t rfl⟩
  | write => exact ⟨⟨some t, 0⟩, by simp [Lock.acquire, Lock.wrlock, Lock.free]⟩

theorem lockReturns_of_granted {s : State τ} {t : τ} {m : Mode} {l : Lock τ}
    (h : s.lock.acquire t m = .granted l) (g : Guard) (gs : List Guard) :
    ∃ s', s.lockReturns t m g gs = some s' := by
  simp only [State.lockReturns, h]
  exact ⟨_, rfl⟩

theorem lockReturns_of_blocks {s : State τ} {t : τ} {m : Mode}
    (h : s.lock.acquire t m = .blocks) (g : Guard) (gs : List Guard) :
    s.lockReturns t m g gs = none := by
  simp only [State.lockReturns, h]

/-- The lock call that a guard has still to return from. -/
def Guard.awaited (g : Guard) : Mode :=
  if g.awaitsWrite then .write else .read

/-- A waiting guard whose call is granted goes on. -/
theorem closes_of_granted (stray : Lock τ → τ → Lock τ) {s : State τ} {t : τ} {g : Guard}
    {gs : List Guard} (hst : s.stack t = g :: gs) (hph : g.phase ≠ .live) {l : Lock τ}
    (h : s.lock.acquire t g.awaited = .granted l) :
    ∃ a s', a.closes = true ∧ step stray s (t, a) = some s' := by
  cases hp : g.phase with
  | live => exact absurd hp hph
  | constructing =>
    have hm : lockMode g.write = g.awaited := by
      simp [Guard.awaited, Guard.awaitsWrite, hp, lockMode]
    obtain ⟨s', hs'⟩ := lockReturns_of_granted (hm ▸ h) g gs
    exact ⟨.constructed, s', rfl, step_constructed_iff.mpr ⟨g, gs, hst, hp, hs'⟩⟩
  | upgrading =>
    have hm : Mode.write = g.awaited := by simp [Guard.awaited, Guard.awaitsWrite, hp]
    obtain ⟨s', hs'⟩ := lockReturns_of_granted (hm ▸ h) { g with upgraded := true } gs
    exact ⟨.upgraded, s', rfl, step_upgraded_iff.mpr ⟨g, gs, hst, hp, hs'⟩⟩

section Progress

variable [Fintype τ] {stray : Lock τ → τ → Lock τ} {s s' : State τ} {t : τ}

/-! ## Somebody can go on -/

omit [DecidableEq τ] in
/-- Who has the write lock has a live innermost guard. -/
theorem Inv.live_of_write (hi : Inv s) (hw : Mode.write ∈ s.holds t) :
    ∃ g gs, s.stack t = g :: gs ∧ g.phase = .live := by
  cases hst : s.stack t with
  | nil => simp [State.holds, hst] at hw
  | cons g gs =>
    refine ⟨g, gs, rfl, ?_⟩
    by_contra hph
    rw [hi.holds_eq hst, Guard.due_not_live hph] at hw
    exact (hi.stackOk hst).write_notMem_below hw

omit [DecidableEq τ] in
theorem Inv.no_writer (hi : Inv s) (hno : ∀ t g gs, s.stack t = g :: gs → g.phase ≠ .live) :
    s.lock.writer = none := by
  cases hw : s.lock.writer with
  | none => rfl
  | some t =>
    obtain ⟨g, gs, hst, hlive⟩ := hi.live_of_write ((hi.accounts.writer_iff t).mp hw)
    exact absurd hlive (hno t g gs hst)

/-- When no thread waits for itself and a guard is left, some closing step
can be taken. -/
theorem Inv.closing_step (hi : Inv s) (stray : Lock τ → τ → Lock τ)
    (hself : ∀ t, waitsForItself (s.stack t) = false) (hopen : ∃ t, s.stack t ≠ []) :
    ∃ e s', Action.closes e.2 = true ∧ step stray s e = some s' := by
  by_cases hlive : ∃ t g gs, s.stack t = g :: gs ∧ g.phase = .live
  · obtain ⟨t, g, gs, hst, hph⟩ := hlive
    exact ⟨(t, .destroy), _, rfl, step_destroy_iff.mpr ⟨g, gs, hst, hph, rfl⟩⟩
  · -- nobody is live on top, so nobody has the write lock
    have hno : ∀ t g gs, s.stack t = g :: gs → g.phase ≠ .live :=
      fun t g gs hst hph => hlive ⟨t, g, gs, hst, hph⟩
    by_cases hread : ∃ t g gs, s.stack t = g :: gs ∧ g.awaitsWrite = false
    · obtain ⟨t, g, gs, hst, haw⟩ := hread
      have hm : g.awaited = .read := by simp [Guard.awaited, haw]
      obtain ⟨a, s', ha, hs'⟩ := closes_of_granted stray hst (hno t g gs hst)
        (hm ▸ acquire_read_of_no_writer t (hi.no_writer hno))
      exact ⟨(t, a), s', ha, hs'⟩
    · -- all wait for the write lock, each with its only guard: nobody holds anything
      have hfree : s.lock = Lock.free := by
        refine hi.eq_free_of_not_live (fun t g hg hph => ?_)
        cases hst : s.stack t with
        | nil => simp [hst] at hg
        | cons k ks =>
          have haw : k.awaitsWrite = true := by
            by_contra hfalse
            exact hread ⟨t, k, ks, hst, by simpa using hfalse⟩
          cases ks with
          | nil =>
            rw [hst, List.mem_singleton] at hg
            exact hno t k [] hst (hg ▸ hph)
          | cons k' ks =>
            have := hself t
            rw [hst] at this
            simp [waitsForItself, haw] at this
      obtain ⟨t, hne⟩ := hopen
      obtain ⟨g, gs, hst⟩ := List.exists_cons_of_ne_nil hne
      obtain ⟨l, hl⟩ := acquire_free t g.awaited
      obtain ⟨a, s', ha, hs'⟩ := closes_of_granted stray hst (hno t g gs hst) (hfree ▸ hl)
      exact ⟨(t, a), s', ha, hs'⟩

/-! ## A thread that waits for itself -/

omit [DecidableEq τ] in
/-- Its older guard is a live reader. -/
theorem Inv.read_of_waiting (hi : Inv s) (hself : waitsForItself (s.stack t) = true) :
    Mode.read ∈ s.holds t := by
  match hst : s.stack t with
  | [] | [_] => simp [hst, waitsForItself] at hself
  | g :: k :: ks =>
    obtain ⟨hlive, hreader⟩ := (hi.stackOk hst).below k (by simp)
    have := hi.mem_holds (t := t) (g := k) (by simp [hst]) hlive
    rwa [hreader] at this

/-- So its call for the write lock blocks. -/
theorem Inv.blocks (hi : Inv s) (hself : waitsForItself (s.stack t) = true) :
    s.lock.acquire t .write = .blocks := by
  have hread := hi.read_of_waiting hself
  have hnot : s.lock.writer ≠ some t := fun hw =>
    hi.accounts.read_excluded ((hi.accounts.writer_iff t).mp hw) hread
  have hpos := hi.accounts.readers_pos hread
  simp [Lock.acquire, Lock.wrlock, hnot, hpos]

omit [Fintype τ] in
/-- A thread whose call for the write lock blocks takes no step, of
whatever kind. -/
theorem no_step_of_blocks {g : Guard} {gs : List Guard} (hst : s.stack t = g :: gs)
    (haw : g.awaitsWrite = true) (hblocks : s.lock.acquire t .write = .blocks) (a : Action) :
    RWMutexScopedLock.step stray s (t, a) = none := by
  have hnot : g.phase ≠ .live := by
    intro hph
    rw [Guard.awaitsWrite_live hph] at haw
    cases haw
  cases a with
  | construct w => simp [RWMutexScopedLock.step, hst, settled, hnot]
  | constructed =>
    by_cases hph : g.phase = .constructing
    · have hm : lockMode g.write = .write := by
        have : g.write = true := by simpa [Guard.awaitsWrite, hph] using haw
        simp [lockMode, this]
      simp [RWMutexScopedLock.step, hst, hph, hm, lockReturns_of_blocks hblocks]
    · simp [RWMutexScopedLock.step, hst, hph]
  | upgrade => simp [RWMutexScopedLock.step, hst, hnot]
  | upgraded => simp [RWMutexScopedLock.step, hst, lockReturns_of_blocks hblocks]
  | destroy => simp [RWMutexScopedLock.step, hst, hnot]

theorem Inv.no_step (hi : Inv s) (stray : Lock τ → τ → Lock τ)
    (hself : waitsForItself (s.stack t) = true) (a : Action) :
    RWMutexScopedLock.step stray s (t, a) = none := by
  match hst : s.stack t with
  | [] | [_] => simp [hst, waitsForItself] at hself
  | g :: k :: ks =>
    have haw : g.awaitsWrite = true := by simpa [hst, waitsForItself] using hself
    exact no_step_of_blocks hst haw (hi.blocks hself) a

/-! ## The discipline -/

omit [DecidableEq τ] [Fintype τ] in
/-- A closing step opens no guard. -/
theorem noNestingInWriter_of_closes {e : τ × Action} (h : e.2.closes = true) :
    NoNestingInWriter s e := by
  obtain ⟨t, a⟩ := e
  cases a with
  | construct w => cases h
  | constructed | upgrade | upgraded | destroy => trivial

/-- A closing step takes from the work of its thread, and does not leave it
waiting for itself. -/
theorem Inv.closing (hi : Inv s) {a : Action} (ha : a.closes = true)
    (h : RWMutexScopedLock.step stray s (t, a) = some s') :
    Stacks.work Guard.work (s'.stack t) < Stacks.work Guard.work (s.stack t) ∧
    waitsForItself (s'.stack t) = false := by
  obtain ⟨gs, hmoves, hstack⟩ := step_stack h
  have hwork := hmoves.work ha
  rw [hstack, Function.update_self]
  exact ⟨by omega, hmoves.not_waitsForItself ha (fun k hk => ((hi.nesting t).below k hk).1)⟩

/-- The guards of a lock as stacks of scopes. -/
def scopes (stray : Lock τ → τ → Lock τ) : Stacks.System (State τ) τ Action Guard where
  step := RWMutexScopedLock.step stray
  stack := State.stack
  ok := NoNestingInWriter
  closes := Action.closes
  cost := Guard.work
  stuck := waitsForItself
  free s := s.lock = Lock.free

theorem discipline (stray : Lock τ → τ → Lock τ) : Stacks.Discipline (scopes stray) Inv where
  keeps _ e _ hi hok h := inv_step stray e hi hok h
  own _ _ _ _ h := by
    obtain ⟨gs, -, hstack⟩ := step_stack h
    exact ⟨gs, hstack⟩
  ok_of_closes _ _ h := noNestingInWriter_of_closes h
  closing _ _ _ _ hi ha h := hi.closing ha h
  moves _ hi hself hopen := hi.closing_step stray hself hopen
  waits _ _ hi hself a := hi.no_step stray hself a
  stuck_nil := rfl
  free _ hi hempty := hi.guardsHold.free hempty

/-! ## Main results -/

/-- **Guards that end.** In every state of every run without a guard opened
inside a writer guard, all guards can be closed by closing steps alone if
and only if no thread waits for itself. In such a state a run of closing
steps never takes more steps than the open guards have before them, and
however far it has gone it can go on until everything is closed. -/
theorem guards_close_iff (stray : Lock τ → τ → Lock τ) (s : State τ)
    (hs : Runs.Reach (step stray) NoNestingInWriter State.initial s) :
    ((∃ es s', (∀ e ∈ es, Action.closes e.2 = true) ∧ Runs.exec (step stray) s es = some s' ∧
        s'.Closed) ↔ ∀ t, waitsForItself (s.stack t) = false) ∧
    ((∀ t, waitsForItself (s.stack t) = false) →
      ∀ es s', (∀ e ∈ es, Action.closes e.2 = true) → Runs.exec (step stray) s es = some s' →
        es.length + s'.work ≤ s.work ∧
        ∃ fs s'', (∀ e ∈ fs, Action.closes e.2 = true) ∧
          Runs.exec (step stray) s' fs = some s'' ∧ s''.Closed) := by
  have hi := Inv.of_reach hs
  refine ⟨(discipline stray).closes_iff hi, fun hself es s' hes hx => ?_⟩
  obtain ⟨hc, hle⟩ := (discipline stray).drains.length_le es ⟨hi, hself⟩ hes hx
  exact ⟨hle, (discipline stray).drains.exists_run hc⟩

end Progress

/-- Both threads have read guards, and thread A calls `upgrade2writer`. -/
def upgradeBesideReader : List (Fin 2 × Action) :=
  [(threadA, .construct false), (threadA, .constructed), (threadB, .construct false),
   (threadB, .constructed), (threadA, .upgrade)]

/-- Thread A waits for the write lock, for thread B and not for itself. -/
theorem guards_close_upgradeBesideReader :
    ∃ s es s', Runs.exec (step keepLock) State.initial upgradeBesideReader = some s ∧
      s.work = 3 ∧ Runs.exec (step keepLock) s es = some s' ∧ s'.Closed := by
  have hreach := Runs.Reach.of_exec (step keepLock) NoNestingInWriter State.initial
    upgradeBesideReader rfl
  obtain ⟨es, s', -, hx, hclosed⟩ := (guards_close_iff keepLock _ hreach).1.mpr (by decide)
  exact ⟨_, es, s', rfl, by decide, hx, hclosed⟩

/-- **A thread that waits for itself** waits for ever, as long as no thread
opens a guard inside a writer guard, before or after: none of its steps is
ever possible again, and no thread ever gets a writer guard. -/
theorem waits_for_ever [Fintype τ] (stray : Lock τ → τ → Lock τ) (s s' : State τ) (t : τ)
    (hs : Runs.Reach (step stray) NoNestingInWriter State.initial s)
    (hself : waitsForItself (s.stack t) = true)
    (hs' : Runs.Reach (step stray) NoNestingInWriter s s') :
    s'.stack t = s.stack t ∧ (∀ a, step stray s' (t, a) = none) ∧
    ∀ u g, g ∈ s'.stack u → g.phase = .live → g.isWriter = false := by
  obtain ⟨hi', hsame⟩ := (discipline stray).stays_stuck (Inv.of_reach hs) hself hs'
  have hself' : waitsForItself (s'.stack t) = true := by
    rw [show s'.stack t = s.stack t from hsame]
    exact hself
  refine ⟨hsame, hi'.no_step stray hself', fun u g hg hlive => ?_⟩
  by_contra hw
  -- a live writer would own the write lock, and the thread has a read hold
  have hwrite := hi'.mem_holds hg hlive
  rw [show g.isWriter = true by simpa using hw] at hwrite
  exact hi'.accounts.read_excluded hwrite (hi'.read_of_waiting hself')

/-- Thread A opens a write guard inside its read guard. -/
def writerInReader : List (Fin 2 × Action) :=
  [(threadA, .construct false), (threadA, .constructed), (threadA, .construct true)]

/-- It waits for itself, and thread B, a reader meanwhile, does not help. -/
theorem waits_for_ever_writerInReader :
    ∃ s s', Runs.exec (step keepLock) State.initial writerInReader = some s ∧
      Runs.exec (step keepLock) s [(threadB, .construct false), (threadB, .constructed)] = some s' ∧
      step keepLock s' (threadA, .constructed) = none := by
  have hreach := Runs.Reach.of_exec (step keepLock) NoNestingInWriter State.initial
    writerInReader rfl
  refine ⟨_, _, rfl, rfl, ?_⟩
  exact (waits_for_ever keepLock _ _ threadA hreach (by decide)
    (Runs.Reach.of_exec (step keepLock) NoNestingInWriter _
      [(threadB, .construct false), (threadB, .constructed)] rfl)).2.1 .constructed

end Comproject.Db.RWMutexScopedLock
