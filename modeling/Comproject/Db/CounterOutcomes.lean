/-
Comproject.Db.CounterOutcomes — what the counter program can end with.

Since `upgrade2writer` lets other threads in, the final value depends on
the schedule. The values that complete runs end with are EXACTLY those
from `c₀ + 1` to `c₀ + n` (`counter_outcomes`): one increment always
survives, and it may be the only one.

The bounds are invariants of all runs. For the other direction a run is
put together from two pieces, each of which starts and ends with a free
lock: a thread ENTERS (up to and including the unlock of
`upgrade2writer`), and it LEAVES (from the return of `upgrade2writer` on).
Threads that enter before any of them leaves all store the same value.
-/
import Comproject.Db.CounterTheorems

namespace Comproject.Db.RWMutexScopedLock

open Rwlock

variable {τ : Type} [DecidableEq τ]

/-- A complete run keeps at least one increment and at most all. -/
theorem bounds_of_done [Fintype τ] [Nonempty τ] {stray : Lock τ → τ → Lock τ} {c : Counter τ}
    {c₀ : Int} (es : List τ)
    (h : Runs.exec (Counter.step stray) (Counter.initial c₀) es = some c)
    (hdone : ∀ t, c.pc t = .done) :
    c₀ + 1 ≤ c.shared.data ∧ c.shared.data ≤ c₀ + Fintype.card τ := by
  have hb := Bounded.of_exec es h
  obtain ⟨t⟩ := ‹Nonempty τ›
  have hlow := hb.stored t (by rw [hdone t]; rfl)
  have hup := hb.upper
  have hstores := stores_done hdone
  omega

/-! ## Pieces of runs -/

section Pieces

variable {c c' : Counter τ} {t : τ} (stray : Lock τ → τ → Lock τ)

/-- Between two pieces: the lock is free, and a thread has not begun, is
inside `upgrade2writer`, or is done. -/
structure Parked (c : Counter τ) : Prop where
  free : c.shared.guards.lock = Lock.free
  start : ∀ t, c.pc t = .start → c.shared.guards.stack t = []
  upgrading : ∀ t v, c.pc t = .upgrading v →
    c.shared.guards.stack t = [⟨false, .upgrading, false, none⟩]

omit [DecidableEq τ] in
theorem parked_initial (c₀ : Int) : Parked (Counter.initial c₀ : Counter τ) :=
  ⟨rfl, fun _ _ => rfl, fun _ _ h => by cases h⟩

/-- A piece changes the place and the guards of one thread. -/
theorem Parked.update (hp : Parked c) (hfree : c'.shared.guards.lock = Lock.free)
    {gs : List Guard} {p : CounterPc} (hpc : c'.pc = Function.update c.pc t p)
    (hst : c'.shared.guards.stack = Function.update c.shared.guards.stack t gs)
    (hstart : p = .start → gs = [])
    (hup : ∀ v, p = .upgrading v → gs = [⟨false, .upgrading, false, none⟩]) : Parked c' := by
  refine ⟨hfree, fun u hu => ?_, fun u v hu => ?_⟩
  · rw [hpc] at hu
    rw [hst]
    by_cases hut : u = t
    · subst hut
      rw [Function.update_self] at hu ⊢
      exact hstart hu
    · rw [Function.update_of_ne hut] at hu ⊢
      exact hp.start u hu
  · rw [hpc] at hu
    rw [hst]
    by_cases hut : u = t
    · subst hut
      rw [Function.update_self] at hu ⊢
      exact hup v hu
    · rw [Function.update_of_ne hut] at hu ⊢
      exact hp.upgrading u v hu

/-- A thread enters: constructor, load, and the unlock of
`upgrade2writer`. -/
theorem Parked.enter (hp : Parked c) (hpc : c.pc t = .start) :
    ∃ c', Runs.exec (Counter.step stray) c [t, t, t, t] = some c' ∧ Parked c' ∧
      c'.shared.data = c.shared.data ∧
      c'.pc = Function.update c.pc t (.upgrading c.shared.data) := by
  have hst := hp.start t hpc
  have hfree := hp.free
  obtain ⟨⟨⟨lock, stack⟩, data, seen⟩, pc⟩ := c
  simp only at hpc hst hfree
  subst hfree
  refine ⟨⟨⟨⟨Lock.free, Function.update stack t [⟨false, .upgrading, false, none⟩]⟩, data,
    Function.update seen t data⟩, Function.update pc t (.upgrading data)⟩, ?_, ?_, rfl, rfl⟩
  · simp [Runs.exec_cons, Counter.step, CounterPc.next, Shared.step, RWMutexScopedLock.step,
      State.lockReturns, lockMode, Lock.acquire, Lock.rdlock, Lock.free, Lock.unlock,
      Lock.releases, settled, hpc, hst]
  · exact hp.update rfl rfl rfl (by simp) (by simp)

/-- A thread leaves: `upgrade2writer` returns, the store, the
destructor. -/
theorem Parked.leave (hp : Parked c) {v : Int} (hpc : c.pc t = .upgrading v) :
    ∃ c', Runs.exec (Counter.step stray) c [t, t, t] = some c' ∧ Parked c' ∧
      c'.shared.data = v + 1 ∧ c'.pc = Function.update c.pc t .done := by
  have hst := hp.upgrading t v hpc
  have hfree := hp.free
  obtain ⟨⟨⟨lock, stack⟩, data, seen⟩, pc⟩ := c
  simp only at hpc hst hfree
  subst hfree
  refine ⟨⟨⟨⟨Lock.free, Function.update stack t []⟩, v + 1, seen⟩,
    Function.update pc t .done⟩, ?_, ?_, rfl, rfl⟩
  · simp [Runs.exec_cons, Counter.step, CounterPc.next, Shared.step, RWMutexScopedLock.step,
      State.lockReturns, Lock.acquire, Lock.wrlock, Lock.free, Lock.unlock, Lock.releases,
      mayStore, Guard.isWriter, hpc, hst]
  · exact hp.update rfl rfl rfl (by simp) (by simp)

/-- The schedule of several threads that each take one piece. -/
def pieces (n : Nat) (ts : List τ) : List τ := ts.flatMap (List.replicate n)

/-- Several threads take the same piece, from the place `a` to the place
`b`. `I j` is what is known of the counter after `j` pieces. -/
theorem Parked.takeAll {n : Nat} {a b : CounterPc} {I : Nat → Int → Prop}
    (hpiece : ∀ (c : Counter τ) (t : τ) (j : Nat), Parked c → c.pc t = a → I j c.shared.data →
      ∃ c', Runs.exec (Counter.step stray) c (List.replicate n t) = some c' ∧ Parked c' ∧
        I (j + 1) c'.shared.data ∧ c'.pc = Function.update c.pc t b)
    (ts : List τ) (hnodup : ts.Nodup) (j : Nat) (hp : Parked c) (ha : ∀ t ∈ ts, c.pc t = a)
    (hI : I j c.shared.data) :
    ∃ c', Runs.exec (Counter.step stray) c (pieces n ts) = some c' ∧ Parked c' ∧
      I (j + ts.length) c'.shared.data ∧ ∀ t, c'.pc t = if t ∈ ts then b else c.pc t := by
  induction ts generalizing c j with
  | nil => exact ⟨c, rfl, hp, hI, by simp⟩
  | cons t ts ih =>
    obtain ⟨hmem, hnodup⟩ := List.nodup_cons.mp hnodup
    obtain ⟨c₁, hx₁, hp₁, hI₁, hpc₁⟩ := hpiece c t j hp (ha t List.mem_cons_self) hI
    have ha₁ : ∀ u ∈ ts, c₁.pc u = a := by
      intro u hu
      have hne : u ≠ t := fun h => hmem (h ▸ hu)
      rw [hpc₁, Function.update_of_ne hne]
      exact ha u (List.mem_cons_of_mem t hu)
    obtain ⟨c', hx, hp', hI', hpc⟩ := ih hnodup (j + 1) hp₁ ha₁ hI₁
    refine ⟨c', ?_, hp', ?_, fun u => ?_⟩
    · rw [pieces, List.flatMap_cons, Runs.exec_append, hx₁, Option.bind_some]
      exact hx
    · rw [List.length_cons, show j + (ts.length + 1) = j + 1 + ts.length by omega]
      exact hI'
    · rw [hpc u, hpc₁]
      by_cases hu : u ∈ ts
      · simp [hu]
      · by_cases hut : u = t
        · subst hut; simp [hu]
        · simp [hu, hut]

/-- Several threads enter. They all read the same value. -/
theorem Parked.enterAll (hp : Parked c) (ts : List τ) (hnodup : ts.Nodup)
    (hstart : ∀ t ∈ ts, c.pc t = .start) :
    ∃ c', Runs.exec (Counter.step stray) c (pieces 4 ts) = some c' ∧ Parked c' ∧
      c'.shared.data = c.shared.data ∧
      ∀ t, c'.pc t = if t ∈ ts then .upgrading c.shared.data else c.pc t := by
  refine Parked.takeAll stray (I := fun _ d => d = c.shared.data) ?_ ts hnodup 0 hp hstart rfl
  intro c₁ t j hp₁ hpc hdata
  obtain ⟨c', hx, hp', hdata', hpc'⟩ := hp₁.enter stray hpc
  rw [hdata] at hdata' hpc'
  exact ⟨c', hx, hp', hdata', hpc'⟩

/-- Several threads that read the same value leave. The counter ends one
above it, however many they are. -/
theorem Parked.leaveAll (hp : Parked c) (ts : List τ) (hnodup : ts.Nodup) (hne : ts ≠ []) {v : Int}
    (hup : ∀ t ∈ ts, c.pc t = .upgrading v) :
    ∃ c', Runs.exec (Counter.step stray) c (pieces 3 ts) = some c' ∧ Parked c' ∧
      c'.shared.data = v + 1 ∧ ∀ t, c'.pc t = if t ∈ ts then .done else c.pc t := by
  obtain ⟨c', hx, hp', hdata, hpc⟩ := Parked.takeAll stray (n := 3) (b := .done)
    (I := fun j d => 0 < j → d = v + 1) (fun c₁ t j hp₁ hpc _ => by
      obtain ⟨c', hx, hp', hdata, hpc'⟩ := hp₁.leave stray hpc
      exact ⟨c', hx, hp', fun _ => hdata, hpc'⟩) ts hnodup 0 hp hup (by simp)
  have hlen := List.length_pos_iff.mpr hne
  exact ⟨c', hx, hp', hdata (by omega), hpc⟩

/-- Several threads enter and leave one after the other. -/
theorem Parked.oneByOne (hp : Parked c) (ts : List τ) (hnodup : ts.Nodup)
    (hstart : ∀ t ∈ ts, c.pc t = .start) :
    ∃ c', Runs.exec (Counter.step stray) c (pieces 7 ts) = some c' ∧ Parked c' ∧
      c'.shared.data = c.shared.data + ts.length ∧
      ∀ t, c'.pc t = if t ∈ ts then .done else c.pc t := by
  obtain ⟨c', hx, hp', hdata, hpc⟩ := Parked.takeAll stray (n := 7) (b := .done)
    (I := fun j d => d = c.shared.data + j) (fun c₁ t j hp₁ hpc hdata => by
      obtain ⟨c₂, hx₂, hp₂, -, hpc₂⟩ := hp₁.enter stray hpc
      obtain ⟨c₃, hx₃, hp₃, hdata₃, hpc₃⟩ := hp₂.leave stray (t := t) (v := c₁.shared.data)
        (by rw [hpc₂, Function.update_self])
      refine ⟨c₃, ?_, hp₃, by omega, by rw [hpc₃, hpc₂, Function.update_idem]⟩
      rw [show List.replicate 7 t = [t, t, t, t] ++ [t, t, t] from rfl, Runs.exec_append, hx₂,
        Option.bind_some, hx₃]) ts hnodup 0 hp hstart (by simp)
  refine ⟨c', hx, hp', ?_, hpc⟩
  rw [hdata, Nat.zero_add]

end Pieces

/-- The first `k` threads run one by one; the others, at least one, enter
together and leave together. -/
theorem exists_complete_run [Fintype τ] (stray : Lock τ → τ → Lock τ) (c₀ : Int) {k : Nat}
    (hk : k < Fintype.card τ) :
    ∃ es c, Runs.exec (Counter.step stray) (Counter.initial c₀) es = some c ∧
      (∀ t : τ, c.pc t = .done) ∧ c.shared.data = c₀ + k + 1 := by
  have hmem : ∀ t : τ, t ∈ Finset.univ.toList := by simp
  have hlen : (Finset.univ : Finset τ).toList.length = Fintype.card τ := by simp
  have hnodup : (Finset.univ : Finset τ).toList.Nodup := Finset.nodup_toList _
  generalize (Finset.univ : Finset τ).toList = all at hmem hlen hnodup
  have hsplit : all.take k ++ all.drop k = all := List.take_append_drop k all
  rw [← hsplit] at hnodup
  obtain ⟨hnodup₁, hnodup₂, hdisj⟩ := List.nodup_append.mp hnodup
  have hne : all.drop k ≠ [] := by
    intro h
    have := List.drop_eq_nil_iff.mp h
    omega
  obtain ⟨c₁, hx₁, hp₁, hdata₁, hpc₁⟩ :=
    (parked_initial c₀).oneByOne stray (all.take k) hnodup₁ (fun _ _ => rfl)
  obtain ⟨c₂, hx₂, hp₂, hdata₂, hpc₂⟩ :=
    hp₁.enterAll stray (all.drop k) hnodup₂ (fun t ht => by
      rw [hpc₁ t, if_neg (fun h => hdisj t h t ht rfl)]
      rfl)
  obtain ⟨c₃, hx₃, -, hdata₃, hpc₃⟩ :=
    hp₂.leaveAll stray (all.drop k) hnodup₂ hne (v := c₁.shared.data) (fun t ht => by
      rw [hpc₂ t, if_pos ht])
  refine ⟨pieces 7 (all.take k) ++ pieces 4 (all.drop k) ++ pieces 3 (all.drop k), c₃, ?_,
    fun t => ?_, ?_⟩
  · rw [Runs.exec_append, Runs.exec_append, hx₁, Option.bind_some, hx₂, Option.bind_some, hx₃]
  · rw [hpc₃ t, hpc₂ t, hpc₁ t]
    by_cases ht : t ∈ all.drop k
    · simp [ht]
    · have ht' : t ∈ all.take k := by
        have := hmem t
        rw [← hsplit, List.mem_append] at this
        exact this.resolve_right ht
      simp [ht, ht']
  · have hinit : (Counter.initial c₀ : Counter τ).shared.data = c₀ := rfl
    rw [hdata₃, hdata₁, hinit, List.length_take, Nat.min_eq_left (by omega)]

/-- **What the counter can end with.** Without any condition on the
schedule, a value is the final value of a complete run of `n` threads if
and only if it is one of `c₀ + 1` to `c₀ + n`. -/
theorem counter_outcomes [Fintype τ] [Nonempty τ] (stray : Lock τ → τ → Lock τ) (c₀ v : Int) :
    (∃ es c, Runs.exec (Counter.step stray) (Counter.initial c₀) es = some c ∧
      (∀ t : τ, c.pc t = .done) ∧ c.shared.data = v) ↔
    c₀ + 1 ≤ v ∧ v ≤ c₀ + Fintype.card τ := by
  constructor
  · rintro ⟨es, c, hx, hdone, rfl⟩
    exact bounds_of_done es hx hdone
  · intro ⟨hlow, hup⟩
    obtain ⟨k, hk⟩ : ∃ k : Nat, v = c₀ + k + 1 := ⟨(v - c₀ - 1).toNat, by omega⟩
    obtain ⟨es, c, hx, hdone, hdata⟩ := exists_complete_run stray c₀ (k := k) (by omega)
    exact ⟨es, c, hx, hdone, hdata.trans hk.symm⟩

/-- Two threads may leave a counter that started at 0 at 1. -/
theorem counter_outcomes_two :
    ∃ es c, Runs.exec (Counter.step keepLock) (Counter.initial 0) es = some c ∧
      (∀ t, c.pc t = .done) ∧ c.shared.data = 1 :=
  (counter_outcomes keepLock 0 1).mpr ⟨by decide, by decide⟩

end Comproject.Db.RWMutexScopedLock
