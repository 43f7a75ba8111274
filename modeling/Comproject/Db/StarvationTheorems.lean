/-
Comproject.Db.StarvationTheorems — a writer that never gets the lock.

`guards_close_iff` says that the guards of a state can be closed. It does
not say that they will be. The lock is a default one, which prefers
readers: it grants a read call while a writer waits. So two readers who
overlap keep a writer in the constructor of its guard, or a reader inside
`upgrade2writer`, for as long as they go on (`writer_may_starve`).
-/
import Comproject.Db.ProgressTheorems

namespace Comproject.Db.RWMutexScopedLock

open Rwlock

variable {τ : Type} [DecidableEq τ]

/-! ## A writer that is kept out -/

/-- Somebody reads while `w` waits with the guard `g`, and nobody nests. -/
structure KeptOut (w : τ) (g : Guard) (s : State τ) : Prop where
  writer : s.lock.writer = none
  readers : 0 < s.lock.readers
  waiting : s.stack w = [g]
  one : ∀ t, (s.stack t).length ≤ 1

theorem KeptOut.no_step {w : τ} {g : Guard} {s : State τ} (h : KeptOut w g s)
    (haw : g.awaitsWrite = true) (stray : Lock τ → τ → Lock τ) (a : Action) :
    step stray s (w, a) = none := by
  have hblocks : s.lock.acquire w .write = .blocks := by
    simp [Lock.acquire, Lock.wrlock, h.writer, h.readers]
  exact no_step_of_blocks h.waiting haw hblocks a

/-- A reader inside its guard. -/
def readerGuard : Guard := ⟨false, .live, false, some .read⟩

/-- The reader `r` is inside, `w` waits, and nobody else is there. -/
def readerInside (r w : τ) (g : Guard) : State τ :=
  ⟨⟨none, 1⟩, fun t => if t = r then [readerGuard] else if t = w then [g] else []⟩

/-- The reader `u` comes in, and then `r` leaves. -/
def relieve (r u : τ) : List (τ × Action) :=
  [(u, .construct false), (u, .constructed), (r, .destroy)]

/-- The two readers relieve each other `n` times. -/
def rounds (r u : τ) : Nat → List (τ × Action)
  | 0 => []
  | n + 1 => relieve r u ++ rounds u r n

/-! ## One round -/

section Rounds

variable (stray : Lock τ → τ → Lock τ) {r u w : τ} (g : Guard)

theorem length_readerInside (t : τ) : ((readerInside r w g).stack t).length ≤ 1 := by
  show (if t = r then [readerGuard] else if t = w then [g] else []).length ≤ 1
  split
  · exact Nat.le_refl 1
  · split
    · exact Nat.le_refl 1
    · exact Nat.zero_le 1

/-- One more thread comes in with a guard of its own. -/
theorem length_update_readerInside (k : Guard) (t : τ) :
    (Function.update (readerInside r w g).stack u [k] t).length ≤ 1 := by
  by_cases ht : t = u
  · subst ht
    simp
  · rw [Function.update_of_ne ht]
    exact length_readerInside g t

theorem keptOut_readerInside (hrw : r ≠ w) : KeptOut w g (readerInside r w g) where
  writer := rfl
  readers := Nat.one_pos
  waiting := by simp [readerInside, hrw.symm]
  one := length_readerInside g

/-- Two steps on, both readers are inside. -/
theorem exec_enter (hru : r ≠ u) (huw : u ≠ w) :
    Runs.exec (step stray) (readerInside r w g) [(u, .construct false), (u, .constructed)]
      = some ⟨⟨none, 2⟩, Function.update (readerInside r w g).stack u [readerGuard]⟩ := by
  simp [readerInside, Runs.exec_cons, step, hru.symm, huw, settled, State.lockReturns, lockMode,
    Lock.acquire, Lock.rdlock, readerGuard]

theorem exec_leave (hru : r ≠ u) (hrw : r ≠ w) :
    step stray ⟨⟨none, 2⟩, Function.update (readerInside r w g).stack u [readerGuard]⟩
      (r, .destroy) = some (readerInside u w g) := by
  have hstack : Function.update (Function.update (readerInside r w g).stack u [readerGuard]) r []
      = (readerInside u w g).stack := by
    funext x
    by_cases hx : x = r
    · simp [hx, readerInside, hru, hrw]
    · by_cases hxu : x = u
      · simp [hxu, readerInside, hru.symm]
      · simp [hx, hxu, readerInside]
  refine step_destroy_iff.mpr ⟨readerGuard, [], ?_, rfl, ?_⟩
  · simp [readerInside, hru]
  · rw [hstack]
    rfl

/-- After a round the readers have changed places. -/
theorem exec_relieve (hru : r ≠ u) (hrw : r ≠ w) (huw : u ≠ w) :
    Runs.exec (step stray) (readerInside r w g) (relieve r u) = some (readerInside u w g) := by
  have hsplit : relieve r u = [(u, .construct false), (u, .constructed)] ++ [(r, .destroy)] := rfl
  rw [hsplit, Runs.exec_append, exec_enter stray g hru huw, Option.bind_some, Runs.exec_cons,
    exec_leave stray g hru hrw]
  rfl

/-- `w` is kept out at every point of a round. -/
theorem keptOut_relieve (hru : r ≠ u) (hrw : r ≠ w) (huw : u ≠ w) (p q : List (τ × Action))
    (h : relieve r u = p ++ q) :
    ∃ s, Runs.exec (step stray) (readerInside r w g) p = some s ∧ KeptOut w g s := by
  rcases p with _ | ⟨e, _ | ⟨f, _ | ⟨k, p⟩⟩⟩
  · exact ⟨_, rfl, keptOut_readerInside g hrw⟩
  · obtain ⟨rfl, -⟩ := List.cons_eq_cons.mp h
    refine ⟨⟨⟨none, 1⟩, Function.update (readerInside r w g).stack u
      [⟨false, .constructing, false, none⟩]⟩, ?_, rfl, Nat.one_pos, ?_,
      length_update_readerInside g _⟩
    · simp [readerInside, Runs.exec_cons, step, hru.symm, huw, settled]
    · simp [readerInside, hrw.symm, huw.symm]
  · obtain ⟨rfl, hrest⟩ := List.cons_eq_cons.mp h
    obtain ⟨rfl, -⟩ := List.cons_eq_cons.mp hrest
    refine ⟨_, exec_enter stray g hru huw, rfl, Nat.two_pos, ?_, length_update_readerInside g _⟩
    simp [readerInside, hrw.symm, huw.symm]
  · have hlen := congrArg List.length h
    simp only [relieve, List.length_cons, List.length_nil, List.length_append] at hlen
    have hq : q = [] := List.eq_nil_of_length_eq_zero (by omega)
    rw [hq, List.append_nil] at h
    rw [← h, exec_relieve stray g hru hrw huw]
    exact ⟨_, rfl, keptOut_readerInside g huw⟩

/-! ## Any number of rounds -/

theorem keptOut_rounds (hru : r ≠ u) (hrw : r ≠ w) (huw : u ≠ w) (n : Nat)
    (p q : List (τ × Action)) (h : rounds r u n = p ++ q) :
    ∃ s, Runs.exec (step stray) (readerInside r w g) p = some s ∧ KeptOut w g s := by
  induction n generalizing r u p with
  | zero =>
    obtain ⟨rfl, -⟩ := List.append_eq_nil_iff.mp h.symm
    exact ⟨_, rfl, keptOut_readerInside g hrw⟩
  | succ n ih =>
    rcases List.append_eq_append_iff.mp h with ⟨p', rfl, hrest⟩ | ⟨p', hp, -⟩
    · rw [Runs.exec_append, exec_relieve stray g hru hrw huw, Option.bind_some]
      exact ih hru.symm huw hrw p' hrest
    · exact keptOut_relieve stray g hru hrw huw p p' hp

/-! ## How it comes to that -/

/-- The schedule that brings `w` to wait with `g`: in the constructor, or
in `upgrade2writer`. -/
def comesToWait (r w : τ) (upgrade : Bool) : List (τ × Action) :=
  if upgrade then
    [(w, .construct false), (w, .constructed), (r, .construct false), (r, .constructed),
      (w, .upgrade)]
  else [(r, .construct false), (r, .constructed), (w, .construct true)]

/-- The guard that `w` waits with. -/
def waitingGuard (upgrade : Bool) : Guard :=
  if upgrade then ⟨false, .upgrading, false, none⟩ else ⟨true, .constructing, false, none⟩

theorem awaitsWrite_waitingGuard (upgrade : Bool) : (waitingGuard upgrade).awaitsWrite = true := by
  cases upgrade <;> rfl

theorem readerInside_eq (hrw : r ≠ w) (before : τ → List Guard)
    (hothers : ∀ t, t ≠ w → before t = []) :
    readerInside r w g
      = ⟨⟨none, 1⟩, Function.update (Function.update before r [readerGuard]) w [g]⟩ := by
  unfold readerInside
  congr 1
  funext x
  by_cases hx : x = w
  · simp [hx, hrw.symm]
  · simp [hx, hothers x hx, Function.update_apply]

theorem reach_readerInside (hrw : r ≠ w) (upgrade : Bool) :
    Runs.Reach (step stray) NoNestingInWriter State.initial
      (readerInside r w (waitingGuard upgrade)) := by
  have hx : Runs.exec (Runs.guarded (step stray) NoNestingInWriter) State.initial
      (comesToWait r w upgrade) = some (readerInside r w (waitingGuard upgrade)) := by
    cases upgrade with
    | false =>
      rw [readerInside_eq _ hrw (fun _ => []) (fun _ _ => rfl)]
      simp [comesToWait, waitingGuard, readerGuard, Runs.exec_cons, Runs.guarded,
        NoNestingInWriter, State.initial, step, settled, State.lockReturns, lockMode, Lock.acquire,
        Lock.rdlock, Lock.free, hrw.symm]
    | true =>
      -- here `w` came in first, as a reader
      rw [readerInside_eq _ hrw (Function.update (fun _ => []) w [readerGuard])
        (fun t ht => Function.update_of_ne ht _ _)]
      simp [comesToWait, waitingGuard, readerGuard, Runs.exec_cons, Runs.guarded,
        NoNestingInWriter, State.initial, step, settled, State.lockReturns, lockMode, Lock.acquire,
        Lock.rdlock, Lock.free, Lock.unlock, Lock.releases, hrw, hrw.symm]
  exact Runs.Reach.of_exec _ _ _ _ hx

end Rounds

/-! ## Main result -/

/-- **A writer may starve.** Three threads, none of which ever has more
than one guard: `w` is inside the constructor of a writer guard, or inside
`upgrade2writer`, and the readers `r` and `u` relieve each other, for any
number of rounds. At every point of that run `w` is where it was and has
no step, so giving it its turn does not help. -/
theorem writer_may_starve (stray : Lock τ → τ → Lock τ) (r u w : τ) (upgrade : Bool) (hru : r ≠ u)
    (hrw : r ≠ w) (huw : u ≠ w) :
    ∃ s, Runs.Reach (step stray) NoNestingInWriter State.initial s ∧
      (∀ t, (s.stack t).length ≤ 1) ∧ (∀ t, waitsForItself (s.stack t) = false) ∧
      ∀ n p q, rounds r u n = p ++ q → ∃ s', Runs.exec (step stray) s p = some s' ∧
        (∀ t, (s'.stack t).length ≤ 1) ∧ s'.stack w = [waitingGuard upgrade] ∧
        ∀ a, step stray s' (w, a) = none := by
  refine ⟨readerInside r w (waitingGuard upgrade), reach_readerInside stray hrw upgrade,
    length_readerInside _, fun t => ?_, fun n p q h => ?_⟩
  · unfold readerInside
    by_cases ht : t = r
    · simp [ht, waitsForItself]
    · by_cases htw : t = w
      · simp [htw, hrw.symm, waitsForItself]
      · simp [ht, htw, waitsForItself]
  · obtain ⟨s', hx, hout⟩ := keptOut_rounds stray _ hru hrw huw n p q h
    exact ⟨s', hx, hout.one, hout.waiting, hout.no_step (awaitsWrite_waitingGuard upgrade) stray⟩

/-- An unlock with nothing to give back does nothing. -/
def keepWord (l : Lock Nat) (_ : Nat) : Lock Nat := l

theorem writer_may_starve_three :
    ∃ s, Runs.Reach (step keepWord) NoNestingInWriter State.initial s ∧
      (∀ t, (s.stack t).length ≤ 1) ∧ (∀ t, waitsForItself (s.stack t) = false) ∧
      ∀ n p q, rounds 1 2 n = p ++ q → ∃ s', Runs.exec (step keepWord) s p = some s' ∧
        (∀ t, (s'.stack t).length ≤ 1) ∧ s'.stack 0 = [waitingGuard true] ∧
        ∀ a, step keepWord s' (0, a) = none :=
  writer_may_starve keepWord 1 2 0 true (by decide) (by decide) (by decide)

end Comproject.Db.RWMutexScopedLock
