/-
Comproject.Db.CounterTheorems — read-upgrade-write sections, counted.

Every thread reads the counter under a read guard, upgrades, and stores
the value it read plus one. As long as no thread gets in with the write
lock while another one is inside `upgrade2writer`, every value in a
thread's hands is the counter's, so no increment is lost. Where one does,
two threads have values in their hands at once, and whoever stores first
leaves the other with an old one (`Overlaps`). That is never made up for:
a complete run adds one for each thread if and only if all its steps meet
the condition.
-/
import Comproject.Db.UpgradeTheorems

namespace Comproject.Db.RWMutexScopedLock

open Rwlock

variable {τ : Type} [DecidableEq τ]

/-! ## Places -/

/-- The guards of a counter thread, by where it stands. -/
def CounterPc.Fits : CounterPc → List Guard → Prop
  | .start, gs | .done, gs => gs = []
  | .constructing, gs => ∃ m, gs = [⟨false, .constructing, false, m⟩]
  | .guarded, gs | .loaded _, gs => ∃ m, gs = [⟨false, .live, false, m⟩]
  | .upgrading _, gs => ∃ m, gs = [⟨false, .upgrading, false, m⟩]
  | .upgraded _, gs | .stored, gs => ∃ m, gs = [⟨false, .live, true, m⟩]

/-- The value the thread has read and not yet stored. -/
def CounterPc.pending : CounterPc → Option Int
  | .loaded v | .upgrading v | .upgraded v => some v
  | _ => none

/-- What the thread has added so far. -/
def CounterPc.added : CounterPc → Nat
  | .stored | .done => 1
  | _ => 0

section Threads

variable {τ : Type} {p p' : CounterPc} {t u : τ} {a : Action}

/-- The guards keep in step with the program. -/
theorem CounterPc.Fits.moves {gs gs' : List Guard} (hf : p.Fits gs)
    (hn : p.next t = some (.guard u a, p')) (hm : Moves a gs gs') : p'.Fits gs' := by
  cases p with
  | start =>
    cases hn
    obtain rfl : gs = [] := hf
    cases hm
    exact ⟨none, rfl⟩
  | constructing =>
    cases hn
    obtain ⟨m, rfl⟩ := hf
    cases hm
    exact ⟨_, rfl⟩
  | guarded => cases hn
  | loaded v =>
    cases hn
    obtain ⟨m, rfl⟩ := hf
    cases hm
    exact ⟨none, rfl⟩
  | upgrading v =>
    cases hn
    obtain ⟨m, rfl⟩ := hf
    cases hm
    exact ⟨_, rfl⟩
  | upgraded v => cases hn
  | stored =>
    cases hn
    obtain ⟨m, rfl⟩ := hf
    cases hm
    rfl
  | done => cases hn

/-- A guard's step neither reads the counter nor adds to it. -/
theorem CounterPc.next_guard (hn : p.next t = some (.guard u a, p')) :
    u = t ∧ p'.pending = p.pending ∧ p'.added = p.added := by
  cases p <;> cases hn <;> exact ⟨rfl, rfl, rfl⟩

theorem CounterPc.next_store {v : Int} (hn : p.next t = some (.store u v, p')) :
    u = t ∧ p' = .stored ∧ ∃ w, p = .upgraded w ∧ v = w + 1 := by
  cases p <;> cases hn
  exact ⟨rfl, rfl, _, rfl, rfl⟩

/-- A thread with a pending value is inside `upgrade2writer`, or it has a
live guard. -/
theorem CounterPc.Fits.pending {gs : List Guard} {v : Int} (hf : p.Fits gs)
    (hp : p.pending = some v) :
    inUpgrade gs = true ∨ ∃ g ∈ gs, g.phase = .live := by
  cases p with
  | start | constructing | guarded | stored | done => cases hp
  | loaded w =>
    obtain ⟨m, rfl⟩ := hf
    exact .inr ⟨_, List.mem_singleton_self _, rfl⟩
  | upgrading w =>
    obtain ⟨m, rfl⟩ := hf
    exact .inl rfl
  | upgraded w =>
    obtain ⟨m, rfl⟩ := hf
    exact .inr ⟨_, List.mem_singleton_self _, rfl⟩

theorem CounterPc.Fits.upgrading {gs : List Guard} (hf : p.Fits gs) (hup : inUpgrade gs = true) :
    ∃ v, p = .upgrading v := by
  cases p with
  | upgrading v => exact ⟨v, rfl⟩
  | start | done =>
    obtain rfl : gs = [] := hf
    cases hup
  | constructing | guarded | loaded _ | upgraded _ | stored =>
    obtain ⟨m, rfl⟩ := hf
    cases hup

/-- The program constructs no writer guards, so it gets in with the write
lock by `upgrade2writer`. -/
theorem CounterPc.Fits.entersWriting {gs : List Guard} (hf : p.Fits gs)
    (hn : p.next t = some (.guard u a, p')) (henters : a.entersWriting gs = true) :
    ∃ v, p = .upgrading v := by
  cases p with
  | upgrading v => exact ⟨v, rfl⟩
  | constructing =>
    cases hn
    obtain ⟨m, rfl⟩ := hf
    cases henters
  | start | loaded _ | stored =>
    cases hn
    cases henters
  | guarded | upgraded _ | done => cases hn

end Threads

section Counter

variable {stray : Lock τ → τ → Lock τ} {c c' : Counter τ} {t : τ}

theorem Counter.step_cases (h : c.step stray t = some c') :
    (c.pc t = .guarded ∧
      c' = { c with pc := Function.update c.pc t (.loaded c.shared.data) }) ∨
    ∃ e p, (c.pc t).next t = some (e, p) ∧ c.shared.step stray e = some c'.shared ∧
      c'.pc = Function.update c.pc t p := by
  unfold Counter.step at h
  split at h
  · rename_i hpc
    cases h
    exact .inl ⟨hpc, rfl⟩
  · split at h
    · cases h
    · rename_i e p hn
      obtain ⟨s, hs, rfl⟩ := Option.map_eq_some_iff.mp h
      exact .inr ⟨e, p, hn, hs, rfl⟩

variable [Fintype τ]

/-- The guards of every thread are where the program is. -/
def Fitting (c : Counter τ) : Prop := ∀ t, (c.pc t).Fits (c.shared.guards.stack t)

omit [DecidableEq τ] [Fintype τ] in
theorem fitting_initial (n : Int) : Fitting (Counter.initial n : Counter τ) := fun _ => rfl

omit [Fintype τ] in
theorem fitting_step (hf : Fitting c) (h : c.step stray t = some c') : Fitting c' := by
  obtain ⟨hpc, rfl⟩ | ⟨e, p, hn, hs, hpc⟩ := Counter.step_cases h
  · intro u
    by_cases hu : u = t
    · subst hu
      have hfu := hf u
      rw [hpc] at hfu
      simp only [Function.update_self]
      exact hfu
    · simpa [hu] using hf u
  · cases e with
    | guard u a =>
      obtain ⟨rfl, -, -⟩ := CounterPc.next_guard hn
      obtain ⟨hg, -, -, -⟩ := Shared.step_guard hs
      obtain ⟨gs, hmoves, hstack⟩ := step_stack hg
      intro w
      rw [hpc, hstack]
      by_cases hw : w = u
      · subst hw
        rw [Function.update_self, Function.update_self]
        exact (hf w).moves hn hmoves
      · rw [Function.update_of_ne hw, Function.update_of_ne hw]
        exact hf w
    | store u v =>
      obtain ⟨rfl, rfl, w, hw, rfl⟩ := CounterPc.next_store hn
      obtain ⟨-, hs'⟩ := Shared.step_store_iff.mp hs
      have hfu := hf u
      rw [hw] at hfu
      intro x
      rw [hpc, hs']
      by_cases hx : x = u
      · subst hx
        rw [Function.update_self]
        exact hfu
      · rw [Function.update_of_ne hx]
        exact hf x

/-! ## Values -/

/-- The increments made so far, lost ones included. -/
def Counter.stores (c : Counter τ) : Nat := ∑ t, (c.pc t).added

theorem stores_update {p : CounterPc} (hpc : c'.pc = Function.update c.pc t p) :
    c'.stores + (c.pc t).added = c.stores + p.added := by
  unfold Counter.stores
  rw [hpc]
  exact UpdateSum.sum_update_add CounterPc.added c.pc t p

omit [DecidableEq τ] in
/-- When every thread is done each has stored once. -/
theorem stores_done (hdone : ∀ t, c.pc t = .done) : c.stores = Fintype.card τ := by
  simp [Counter.stores, hdone, CounterPc.added]

omit [Fintype τ] in
/-- What holds of the new place of one thread and of those of the others. -/
theorem forall_pc {P : CounterPc → Prop} {p : CounterPc} (hpc : c'.pc = Function.update c.pc t p)
    (hnew : P p) (hold : ∀ u, u ≠ t → P (c.pc u)) (u : τ) : P (c'.pc u) := by
  rw [hpc]
  exact (Function.forall_update_iff c.pc (fun _ q => P q)).mpr ⟨hnew, hold⟩ u

/-- What a step does to the counter and to the values in the threads'
hands: a load, a guard's step, or a store. -/
theorem Counter.step_values (h : c.step stray t = some c') :
    ∃ p, c'.pc = Function.update c.pc t p ∧
      ((c.pc t).pending = none ∧ p.pending = some c.shared.data ∧ p.added = 0 ∧
          c'.shared.data = c.shared.data ∧ c'.stores = c.stores ∨
        p.pending = (c.pc t).pending ∧ p.added = (c.pc t).added ∧
          c'.shared.data = c.shared.data ∧ c'.stores = c.stores ∨
        ∃ w, c.pc t = .upgraded w ∧ p.pending = none ∧
          c'.shared.data = w + 1 ∧ c'.stores = c.stores + 1) := by
  obtain ⟨hpc, rfl⟩ | ⟨e, p, hn, hs, hpc⟩ := Counter.step_cases h
  · have hst : Counter.stores { c with pc := Function.update c.pc t (.loaded c.shared.data) }
        + (c.pc t).added = c.stores + (CounterPc.loaded c.shared.data).added := stores_update rfl
    rw [hpc] at hst
    exact ⟨_, rfl, .inl ⟨by rw [hpc]; rfl, rfl, rfl, rfl, hst⟩⟩
  · refine ⟨p, hpc, .inr ?_⟩
    have hst := stores_update hpc
    cases e with
    | guard u a =>
      obtain ⟨rfl, hpend, hadd⟩ := CounterPc.next_guard hn
      obtain ⟨-, hdata, -, -⟩ := Shared.step_guard hs
      exact .inl ⟨hpend, hadd, hdata, by omega⟩
    | store u v =>
      obtain ⟨rfl, rfl, w, hw, rfl⟩ := CounterPc.next_store hn
      obtain ⟨-, hs'⟩ := Shared.step_store_iff.mp hs
      rw [hw] at hst
      exact .inr ⟨w, hw, rfl, by rw [hs'], hst⟩

/-! ## Sections that do not overlap -/

/-- Every pending value is the counter's, and the counter is what the
threads have added. -/
structure CounterInv (c₀ : Int) (c : Counter τ) : Prop where
  shared : SharedInv c.shared
  fits : Fitting c
  pending : ∀ t v, (c.pc t).pending = some v → v = c.shared.data
  count : c.shared.data = c₀ + c.stores

omit [DecidableEq τ] in
theorem counterInv_initial (c₀ : Int) : CounterInv c₀ (Counter.initial c₀ : Counter τ) where
  shared := sharedInv_initial c₀
  fits := fitting_initial c₀
  pending _ _ h := by cases h
  count := by simp [Counter.initial, Shared.initial, Counter.stores, CounterPc.added]

variable {c₀ : Int}

/-- The guards' part of a step. -/
theorem CounterInv.shared_step (hi : CounterInv c₀ c) (hok : c.NoWriterInUpgrade t)
    (h : c.step stray t = some c') : SharedInv c'.shared := by
  obtain ⟨-, rfl⟩ | ⟨e, p, hn, hs, -⟩ := Counter.step_cases h
  · exact hi.shared
  · unfold Counter.NoWriterInUpgrade at hok
    rw [hn] at hok
    exact sharedInv_step e hi.shared hok hs

/-- Who stores is the only one with a value. A live guard of another
thread is shut out by the storing one, and while that is live no thread
is inside `upgrade2writer`. -/
theorem CounterInv.alone (hi : CounterInv c₀ c) {w : Int} (hw : c.pc t = .upgraded w) {u : τ}
    (hu : u ≠ t) : (c.pc u).pending = none := by
  obtain ⟨m, hgs⟩ : ∃ m, c.shared.guards.stack t = [⟨false, .live, true, m⟩] := by
    have hft := hi.fits t
    rwa [hw] at hft
  cases hp : (c.pc u).pending with
  | none => rfl
  | some v =>
    obtain hup | ⟨k, hk, hlive⟩ := (hi.fits u).pending hp
    · rw [hi.shared.alone t u hu.symm (by simp [hgs, mayStore, Guard.isWriter])] at hup
      cases hup
    · exact absurd hlive (hi.shared.guards.guardsHold.exclusive t u ⟨false, .live, true, m⟩ k
        hu.symm (by simp [hgs]) rfl rfl hk)

theorem counterInv_step (hi : CounterInv c₀ c) (hok : c.NoWriterInUpgrade t)
    (h : c.step stray t = some c') : CounterInv c₀ c' := by
  have hshared := hi.shared_step hok h
  have hfits := fitting_step hi.fits h
  have hcount := hi.count
  obtain ⟨p, hpc, ⟨-, hp, -, hdata, hst⟩ | ⟨hp, -, hdata, hst⟩ | ⟨w, hw, hp, hdata, hst⟩⟩ :=
    Counter.step_values h
  · refine ⟨hshared, hfits, ?_, by omega⟩
    rw [hdata]
    refine forall_pc (P := fun q => ∀ v, q.pending = some v → v = c.shared.data) hpc ?_
      (fun u _ => hi.pending u)
    rw [hp]
    intro v hv
    exact (Option.some.inj hv).symm
  · refine ⟨hshared, hfits, ?_, by omega⟩
    rw [hdata]
    refine forall_pc (P := fun q => ∀ v, q.pending = some v → v = c.shared.data) hpc ?_
      (fun u _ => hi.pending u)
    rw [hp]
    exact hi.pending t
  · have hwdata : w = c.shared.data := hi.pending t w (by rw [hw]; rfl)
    refine ⟨hshared, hfits, ?_, by omega⟩
    refine forall_pc (P := fun q => ∀ v, q.pending = some v → v = c'.shared.data) hpc ?_ ?_
    · rw [hp]
      nofun
    · intro u hu
      rw [hi.alone hw hu]
      nofun

theorem CounterInv.of_reach
    (h : Runs.Reach (Counter.step stray) Counter.NoWriterInUpgrade (Counter.initial c₀) c) :
    CounterInv c₀ c :=
  h.invariant (counterInv_initial c₀) (fun _ _ _ hi hok hs => counterInv_step hi hok hs)

omit [DecidableEq τ] in
theorem CounterInv.done (hi : CounterInv c₀ c) (hdone : ∀ t, c.pc t = .done) :
    c.shared.data = c₀ + Fintype.card τ := by
  rw [hi.count, stores_done hdone]

/-! ## Bounds -/

/-- The counter and the values read lie between the start and the number
of increments. -/
structure Bounded (c₀ : Int) (c : Counter τ) : Prop where
  lower : c₀ ≤ c.shared.data
  stored : ∀ t, (c.pc t).added = 1 → c₀ + 1 ≤ c.shared.data
  upper : c.shared.data ≤ c₀ + c.stores
  pending : ∀ t v, (c.pc t).pending = some v → c₀ ≤ v ∧ v ≤ c₀ + c.stores

omit [DecidableEq τ] in
theorem bounded_initial (c₀ : Int) : Bounded c₀ (Counter.initial c₀ : Counter τ) where
  lower := Int.le_refl c₀
  stored _ h := by cases h
  upper := by simp [Counter.initial, Shared.initial, Counter.stores, CounterPc.added]
  pending _ _ h := by cases h

theorem bounded_step (hb : Bounded c₀ c) (h : c.step stray t = some c') : Bounded c₀ c' := by
  obtain ⟨hlower, hstored, hupper, hpending⟩ := hb
  obtain ⟨p, hpc, ⟨-, hp, hadd, hdata, hst⟩ | ⟨hp, hadd, hdata, hst⟩ | ⟨w, hw, hp, hdata, hst⟩⟩ :=
    Counter.step_values h
  · constructor
    · rw [hdata]
      exact hlower
    · rw [hdata]
      refine forall_pc (P := fun q => q.added = 1 → c₀ + 1 ≤ c.shared.data) hpc ?_
        (fun u _ => hstored u)
      rw [hadd]
      nofun
    · rw [hdata, hst]
      exact hupper
    · rw [hst]
      refine forall_pc (P := fun q => ∀ v, q.pending = some v → c₀ ≤ v ∧ v ≤ c₀ + c.stores) hpc ?_
        (fun u _ => hpending u)
      rw [hp]
      intro v hv
      cases hv
      exact ⟨hlower, hupper⟩
  · constructor
    · rw [hdata]
      exact hlower
    · rw [hdata]
      refine forall_pc (P := fun q => q.added = 1 → c₀ + 1 ≤ c.shared.data) hpc ?_
        (fun u _ => hstored u)
      rw [hadd]
      exact hstored t
    · rw [hdata, hst]
      exact hupper
    · rw [hst]
      refine forall_pc (P := fun q => ∀ v, q.pending = some v → c₀ ≤ v ∧ v ≤ c₀ + c.stores) hpc ?_
        (fun u _ => hpending u)
      rw [hp]
      exact hpending t
  · have hread := hpending t w (by rw [hw]; rfl)
    constructor
    · omega
    · intro _ _
      omega
    · omega
    · refine forall_pc (P := fun q => ∀ v, q.pending = some v → c₀ ≤ v ∧ v ≤ c₀ + c'.stores) hpc ?_
        ?_
      · rw [hp]
        nofun
      · intro u _ v hv
        have := hpending u v hv
        omega

theorem Bounded.of_exec (es : List τ)
    (h : Runs.exec (Counter.step stray) (Counter.initial c₀) es = some c) : Bounded c₀ c :=
  Runs.exec_invariant (Counter.step stray) (P := Bounded c₀)
    (fun _ _ _ hb hs => bounded_step hb hs) es (bounded_initial c₀) h

/-! ## Sections that overlap -/

/-- The thread has a value that is older than the increments made, or will
be: some other thread has one as well. -/
def Late (c₀ : Int) (c : Counter τ) (t : τ) : Prop :=
  ∃ v, (c.pc t).pending = some v ∧
    (v < c₀ + c.stores ∨ ∃ u, u ≠ t ∧ (c.pc u).pending ≠ none)

/-- An increment is lost, or will be. -/
def Overlaps (c₀ : Int) (c : Counter τ) : Prop :=
  (∃ t, Late c₀ c t) ∨
  (c.shared.data < c₀ + c.stores ∧ ∀ t v, (c.pc t).pending = some v → v < c₀ + c.stores)

omit [DecidableEq τ] in
theorem Overlaps.of_pending {v : Int} (hv : (c.pc t).pending = some v) (hlt : v < c₀ + c.stores) :
    Overlaps c₀ c :=
  .inl ⟨t, v, hv, .inl hlt⟩

/-- A step that leaves the counter and the pending values of the threads
alone, or loads, mends nothing. -/
theorem Overlaps.of_kept (ho : Overlaps c₀ c) {p : CounterPc}
    (hpc : c'.pc = Function.update c.pc t p) (hdata : c'.shared.data = c.shared.data)
    (hst : c'.stores = c.stores)
    (hp : p.pending = (c.pc t).pending ∨
      (c.pc t).pending = none ∧ p.pending = some c.shared.data) :
    Overlaps c₀ c' := by
  -- what is pending stays so
  have hkept : ∀ u v, (c.pc u).pending = some v → (c'.pc u).pending = some v := by
    intro u v hv
    rw [hpc]
    by_cases hu : u = t
    · subst hu
      rw [Function.update_self]
      obtain hp | ⟨hnone, -⟩ := hp
      · rw [hp, hv]
      · rw [hnone] at hv
        cases hv
    · rw [Function.update_of_ne hu]
      exact hv
  obtain ⟨u, v, hv, hlt | ⟨x, hxu, hx⟩⟩ | ⟨hlt, hall⟩ := ho
  · exact .of_pending (hkept u v hv) (by omega)
  · obtain ⟨w, hw⟩ := Option.ne_none_iff_exists'.mp hx
    refine .inl ⟨u, v, hkept u v hv, .inr ⟨x, hxu, ?_⟩⟩
    rw [hkept x w hw]
    nofun
  · refine .inr ⟨by omega, ?_⟩
    rw [hst]
    refine forall_pc (P := fun q => ∀ v, q.pending = some v → v < c₀ + c.stores) hpc ?_
      (fun u _ => hall u)
    intro v hv
    obtain hp | ⟨-, hp⟩ := hp
    · exact hall t v (by rw [← hp, hv])
    · rw [hp] at hv
      cases hv
      exact hlt

/-- A store leaves every other pending value with less than the increments
made. -/
theorem Overlaps.of_store (hb : Bounded c₀ c) (ho : Overlaps c₀ c) {p : CounterPc} {w : Int}
    (hpc : c'.pc = Function.update c.pc t p) (hw : c.pc t = .upgraded w) (hp : p.pending = none)
    (hdata : c'.shared.data = w + 1) (hst : c'.stores = c.stores + 1) : Overlaps c₀ c' := by
  have hwt : (c.pc t).pending = some w := by rw [hw]; rfl
  have hothers : ∀ u, u ≠ t → (c'.pc u).pending = (c.pc u).pending := by
    intro u hu
    rw [hpc, Function.update_of_ne hu]
  have hpast : ∀ u v, (c'.pc u).pending = some v → v < c₀ + c'.stores := by
    refine forall_pc (P := fun q => ∀ v, q.pending = some v → v < c₀ + c'.stores) hpc ?_ ?_
    · rw [hp]
      nofun
    · intro u _ v hv
      have := (hb.pending u v hv).2
      omega
  -- an old value is stored, or somebody else has one
  have hold : w < c₀ + c.stores → Overlaps c₀ c' := fun hlt => .inr ⟨by omega, hpast⟩
  have hlate : ∀ u v, u ≠ t → (c.pc u).pending = some v → Overlaps c₀ c' := by
    intro u v hu hv
    have hv' : (c'.pc u).pending = some v := by rw [hothers u hu, hv]
    exact .of_pending hv' (hpast u v hv')
  obtain ⟨u, v, hv, h⟩ | ⟨-, hall⟩ := ho
  · by_cases hu : u = t
    · subst hu
      obtain rfl : w = v := Option.some.inj (hwt.symm.trans hv)
      obtain hlt | ⟨x, hx, hpend⟩ := h
      · exact hold hlt
      · obtain ⟨y, hy⟩ := Option.ne_none_iff_exists'.mp hpend
        exact hlate x y hx hy
    · exact hlate u v hu hv
  · exact hold (hall t w hwt)

theorem overlaps_step (hb : Bounded c₀ c) (ho : Overlaps c₀ c) (h : c.step stray t = some c') :
    Overlaps c₀ c' := by
  obtain ⟨p, hpc, ⟨hnone, hp, -, hdata, hst⟩ | ⟨hp, -, hdata, hst⟩ | ⟨w, hw, hp, hdata, hst⟩⟩ :=
    Counter.step_values h
  · exact ho.of_kept hpc hdata hst (.inr ⟨hnone, hp⟩)
  · exact ho.of_kept hpc hdata hst (.inl hp)
  · exact .of_store hb ho hpc hw hp hdata hst

omit [DecidableEq τ] in
/-- A step against the condition is taken by a thread with a value, and
the thread under whose upgrade it is has one too. -/
theorem overlaps_of_bad (hf : Fitting c) (hbad : ¬ c.NoWriterInUpgrade t) : Overlaps c₀ c := by
  unfold Counter.NoWriterInUpgrade at hbad
  cases hn : (c.pc t).next t with
  | none =>
    rw [hn] at hbad
    exact absurd trivial hbad
  | some n =>
    obtain ⟨e, p⟩ := n
    rw [hn] at hbad
    cases e with
    | store u v => exact absurd trivial hbad
    | guard u a =>
      obtain ⟨rfl, -, -⟩ := CounterPc.next_guard hn
      simp only [NextNoWriterInUpgrade, RWMutexScopedLock.NoWriterInUpgrade, not_forall] at hbad
      obtain ⟨henters, x, hx, hup⟩ := hbad
      obtain ⟨v, hv⟩ := (hf u).entersWriting hn henters
      obtain ⟨w, hw⟩ := (hf x).upgrading (by simpa using hup)
      refine .inl ⟨u, v, by rw [hv]; rfl, .inr ⟨x, hx, ?_⟩⟩
      rw [hw]
      exact Option.some_ne_none w

omit [DecidableEq τ] in
theorem overlaps_done (ho : Overlaps c₀ c) (hdone : ∀ t, c.pc t = .done) :
    c.shared.data < c₀ + Fintype.card τ := by
  obtain ⟨t, v, hv, -⟩ | ⟨hlt, -⟩ := ho
  · rw [hdone t] at hv
    cases hv
  · rwa [stores_done hdone] at hlt

theorem data_lt_of_overlaps (es : List τ) (hb : Bounded c₀ c) (ho : Overlaps c₀ c)
    (h : Runs.exec (Counter.step stray) c es = some c') (hdone : ∀ t, c'.pc t = .done) :
    c'.shared.data < c₀ + Fintype.card τ := by
  have hi : Bounded c₀ c' ∧ Overlaps c₀ c' :=
    Runs.exec_invariant (Counter.step stray) (P := fun b => Bounded c₀ b ∧ Overlaps c₀ b)
      (fun _ _ _ hi hs => ⟨bounded_step hi.1 hs, overlaps_step hi.1 hi.2 hs⟩) es ⟨hb, ho⟩ h
  exact overlaps_done hi.2 hdone

/-- A complete run adds one for each thread exactly when all its steps
meet the condition. -/
theorem data_eq_iff_allMeet (es : List τ)
    (h : Runs.exec (Counter.step stray) (Counter.initial c₀) es = some c)
    (hdone : ∀ t, c.pc t = .done) :
    c.shared.data = c₀ + Fintype.card τ ↔
      Runs.AllMeet (Counter.step stray) Counter.NoWriterInUpgrade (Counter.initial c₀) es := by
  constructor
  · intro hdata p t q b hes hb
    by_contra hbad
    have hfits : Fitting b :=
      Runs.exec_invariant (Counter.step stray) (fun _ _ _ hf hs => fitting_step hf hs) p
        (fitting_initial c₀) hb
    have hrest : Runs.exec (Counter.step stray) b (t :: q) = some c := by
      rw [hes, Runs.exec_append, hb, Option.bind_some] at h
      exact h
    have hlt := data_lt_of_overlaps (t :: q) (Bounded.of_exec p hb) (overlaps_of_bad hfits hbad)
      hrest hdone
    omega
  · intro hall
    exact (CounterInv.of_reach (Runs.Reach.of_allMeet es .init hall h)).done hdone

end Counter

/-! ## What the condition is worth -/

/-- In every run in which no thread gets in with the write lock while
another one is inside `upgrade2writer`, the data after the call is the
data before it; one that does get in can store, leave, and let the call
return to other data. A complete run of the counter program adds one for
each thread if and only if no step of it lets a thread in so. -/
theorem upgrade_keeps_data_of_noWriterInUpgrade [Fintype τ] (stray : Lock τ → τ → Lock τ) :
    (∀ (D : Type) (d : D) (s : Shared τ D),
      Runs.Reach (Shared.step stray) NoWriterInUpgrade (Shared.initial d) s →
      (∀ t s', s.step stray (.guard t .upgraded) = some s' → s'.data = s.seen t) ∧
      ∀ t a v s', ¬ NoWriterInUpgrade s (.guard t a) → v ≠ s.data →
        s.step stray (.guard t a) = some s' →
        ∃ u s₁ s₂ s₃, s'.step stray (.store t v) = some s₁ ∧
          s₁.step stray (.guard t .destroy) = some s₂ ∧
          s₂.step stray (.guard u .upgraded) = some s₃ ∧ s₃.data ≠ s₂.seen u) ∧
    ∀ (c₀ : Int) (es : List τ) (c : Counter τ),
      Runs.exec (Counter.step stray) (Counter.initial c₀) es = some c → (∀ t, c.pc t = .done) →
      (c.shared.data = c₀ + Fintype.card τ ↔
        Runs.AllMeet (Counter.step stray) Counter.NoWriterInUpgrade (Counter.initial c₀) es) := by
  refine ⟨fun D d s hs => ?_, fun c₀ es c h hdone => data_eq_iff_allMeet es h hdone⟩
  have hi := SharedInv.of_reach hs
  exact ⟨fun t s' h => hi.upgraded h, fun t a v s' hbad hv h => hi.breaks hbad hv h⟩

/-- Two threads run the counter program one after the other. -/
def oneAfterTheOther : List (Fin 2) := List.replicate 7 threadA ++ List.replicate 7 threadB

/-- Thread A upgrades its read guard while nobody else has one. -/
def aloneInUpgrade : List (Event (Fin 2) Int) :=
  [.guard threadA (.construct false), .guard threadA .constructed, .guard threadA .upgrade]

/-- Both threads are inside `upgrade2writer`. -/
def bothInUpgrade : List (Event (Fin 2) Int) :=
  [.guard threadA (.construct false), .guard threadA .constructed,
   .guard threadB (.construct false), .guard threadB .constructed,
   .guard threadA .upgrade, .guard threadB .upgrade]

theorem upgrade_keeps_data_oneAfterTheOther :
    (∃ s s', Runs.exec (Shared.step keepLock) (Shared.initial 7) aloneInUpgrade = some s ∧
      s.step keepLock (.guard threadA .upgraded) = some s' ∧ s'.data = s.seen threadA) ∧
    (∃ s s', Runs.exec (Shared.step keepLock) (Shared.initial 7) bothInUpgrade = some s ∧
      s.step keepLock (.guard threadA .upgraded) = some s' ∧
      ∃ u s₁ s₂ s₃, s'.step keepLock (.store threadA 8) = some s₁ ∧
        s₁.step keepLock (.guard threadA .destroy) = some s₂ ∧
        s₂.step keepLock (.guard u .upgraded) = some s₃ ∧ s₃.data ≠ s₂.seen u) ∧
    Runs.AllMeet (Counter.step keepLock) Counter.NoWriterInUpgrade (Counter.initial 5)
      oneAfterTheOther := by
  obtain ⟨hdata, hcount⟩ := upgrade_keeps_data_of_noWriterInUpgrade keepLock
  refine ⟨⟨_, _, rfl, rfl, ?_⟩, ⟨_, _, rfl, rfl, ?_⟩, ?_⟩
  · exact (hdata Int 7 _ (Runs.Reach.of_exec _ NoWriterInUpgrade _ aloneInUpgrade rfl)).1 threadA
      _ rfl
  · exact (hdata Int 7 _ (Runs.Reach.of_exec _ NoWriterInUpgrade _ bothInUpgrade rfl)).2 threadA
      .upgraded 8 _ (by decide) (by decide) rfl
  · exact (hcount 5 oneAfterTheOther _ rfl (by decide)).mp (by decide)

/-- Both threads read the counter and give their read locks back; thread A
gets the write lock and stores, then thread B does. -/
def bothUpgrade : List (Fin 2) :=
  [threadA, threadA, threadA, threadB, threadB, threadB, threadA, threadB,
   threadA, threadA, threadA, threadB, threadB, threadB]

/-- The same on the shared data, up to the return of thread B's
`upgrade2writer`. -/
def storeInUpgrade : List (Event (Fin 2) Int) :=
  bothInUpgrade ++ [.guard threadA .upgraded, .store threadA 1, .guard threadA .destroy]

/-- Thread B comes back from `upgrade2writer` to other data than it saw,
and the counter goes from 0 to 1 in a complete run of two threads. -/
theorem update_lost_in_upgrade :
    (∃ s s', Runs.Reach (Shared.step keepLock) (fun _ _ => True) (Shared.initial (0 : Int)) s ∧
      s.step keepLock (.guard threadB .upgraded) = some s' ∧ s'.data ≠ s.seen threadB) ∧
    ∃ c, Runs.Reach (Counter.step keepLock) (fun _ _ => True) (Counter.initial 0) c ∧
      (∀ t, c.pc t = .done) ∧ c.shared.data ≠ 0 + Fintype.card (Fin 2) := by
  refine ⟨?_, ⟨_, Runs.Reach.of_exec _ _ _ bothUpgrade rfl, by decide, by decide⟩⟩
  have hreach := Runs.Reach.of_exec (Shared.step keepLock) (fun _ _ => True)
    (Shared.initial (0 : Int)) storeInUpgrade rfl
  exact ⟨_, _, hreach, rfl, by decide⟩

end Comproject.Db.RWMutexScopedLock
