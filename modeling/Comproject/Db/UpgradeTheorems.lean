/-
Comproject.Db.UpgradeTheorems — what is left of a critical section across
`upgrade2writer`.

`upgrade2writer` gives the lock back and then waits for it. As long as no
other thread gets the write lock in between, the data that a thread saw
before the call is the data after it (`SharedInv`): a store needs a live
writer guard, the lock keeps one out while the thread's own guard is live,
and the condition keeps it out while the thread is inside
`upgrade2writer`. Once a writer is let in there, it can change the data,
leave, and let the upgrade return (`SharedInv.breaks`).
-/
import Comproject.Db.Upgrade
import Comproject.Db.RWMutexScopedLockTheorems

namespace Comproject.Db.RWMutexScopedLock

open Rwlock

variable {τ D : Type} [DecidableEq τ]

/-! ## What a step does to the stack -/

/-- The stack of the thread that takes the step, before and after. What a
lock call acquired is left open. -/
inductive Moves : Action → List Guard → List Guard → Prop
  | construct (w : Bool) (gs : List Guard) (h : settled gs = true) :
      Moves (.construct w) gs (⟨w, .constructing, false, none⟩ :: gs)
  | constructed (g : Guard) (gs : List Guard) (m : Option Mode) (h : g.phase = .constructing) :
      Moves .constructed (g :: gs) ({ g with phase := .live, hold := m } :: gs)
  | upgrade (g : Guard) (gs : List Guard) (h : g.phase = .live) :
      Moves .upgrade (g :: gs) ({ g with phase := .upgrading, hold := none } :: gs)
  | upgraded (g : Guard) (gs : List Guard) (m : Option Mode) (h : g.phase = .upgrading) :
      Moves .upgraded (g :: gs) ({ g with phase := .live, upgraded := true, hold := m } :: gs)
  | destroy (g : Guard) (gs : List Guard) (h : g.phase = .live) :
      Moves .destroy (g :: gs) gs

theorem lockReturns_stack {s s' : State τ} {t : τ} {m : Mode} {g : Guard} {gs : List Guard}
    (h : s.lockReturns t m g gs = some s') :
    ∃ m', s'.stack
      = Function.update s.stack t ({ g with phase := .live, hold := m' } :: gs) := by
  unfold State.lockReturns at h
  split at h
  · cases h
    exact ⟨some m, rfl⟩
  · cases h
    exact ⟨none, rfl⟩
  · cases h

theorem step_stack {stray : Lock τ → τ → Lock τ} {s s' : State τ} {t : τ} {a : Action}
    (h : step stray s (t, a) = some s') :
    ∃ gs, Moves a (s.stack t) gs ∧ s'.stack = Function.update s.stack t gs := by
  cases a with
  | construct w =>
    obtain ⟨hset, rfl⟩ := step_construct_iff.mp h
    exact ⟨_, .construct w _ hset, rfl⟩
  | constructed =>
    obtain ⟨g, gs, hst, hph, h⟩ := step_constructed_iff.mp h
    obtain ⟨m, hs'⟩ := lockReturns_stack h
    exact ⟨_, hst ▸ .constructed g gs m hph, hs'⟩
  | upgrade =>
    obtain ⟨g, gs, hst, hph, rfl⟩ := step_upgrade_iff.mp h
    exact ⟨_, hst ▸ .upgrade g gs hph, rfl⟩
  | upgraded =>
    obtain ⟨g, gs, hst, hph, h⟩ := step_upgraded_iff.mp h
    obtain ⟨m, hs'⟩ := lockReturns_stack h
    exact ⟨_, hst ▸ .upgraded g gs m hph, hs'⟩
  | destroy =>
    obtain ⟨g, gs, hst, hph, rfl⟩ := step_destroy_iff.mp h
    exact ⟨_, hst ▸ .destroy g gs hph, rfl⟩

/-! ## Steps on guarded data -/

section Steps

variable {stray : Lock τ → τ → Lock τ} {s s' : Shared τ D} {t : τ}

/-- The data as the thread remembers it after a guard's step. -/
def Shared.seenAfter (s : Shared τ D) (t : τ) : Action → τ → D
  | .upgrade => Function.update s.seen t s.data
  | _ => s.seen

theorem Shared.seenAfter_of_ne (s : Shared τ D) (a : Action) {u : τ} (h : u ≠ t) :
    s.seenAfter t a u = s.seen u := by
  cases a with
  | upgrade => exact Function.update_of_ne h ..
  | construct | constructed | upgraded | destroy => rfl

/-- A guard's step leaves the data alone. -/
theorem Shared.step_guard {a : Action} (h : s.step stray (.guard t a) = some s') :
    RWMutexScopedLock.step stray s.guards (t, a) = some s'.guards ∧ s'.data = s.data ∧
    s'.seen = s.seenAfter t a ∧ ∀ w, a = .construct w → s.guards.stack t = [] := by
  cases a with
  | construct w =>
    simp only [Shared.step] at h
    split at h
    case isTrue hempty =>
      obtain ⟨g, hg, rfl⟩ := Option.map_eq_some_iff.mp h
      exact ⟨hg, rfl, rfl, fun _ _ => hempty⟩
    case isFalse => cases h
  | constructed | upgrade | upgraded | destroy =>
    obtain ⟨g, hg, rfl⟩ := Option.map_eq_some_iff.mp h
    exact ⟨hg, rfl, rfl, nofun⟩

/-- A thread has no guard when it opens one, so it has no writer guard. -/
theorem Shared.step_noNesting {a : Action} (h : s.step stray (.guard t a) = some s') :
    NoNestingInWriter s.guards (t, a) := by
  obtain ⟨-, -, -, hempty⟩ := Shared.step_guard h
  cases a with
  | construct w =>
    simp only [NoNestingInWriter, hempty w rfl]
    simp
  | constructed | upgrade | upgraded | destroy => trivial

theorem Shared.step_store_iff {v : D} :
    s.step stray (.store t v) = some s' ↔
      mayStore (s.guards.stack t) = true ∧ s' = { s with data := v } := by
  simp only [Shared.step]
  split
  case isTrue h => simp [h, eq_comm]
  case isFalse h => simp [h]

end Steps

/-! ## The data across `upgrade2writer` -/

theorem mayStore_iff {gs : List Guard} :
    mayStore gs = true ↔ ∃ g rest, gs = g :: rest ∧ g.phase = .live ∧ g.isWriter = true := by
  cases gs with
  | nil => simp [mayStore]
  | cons g rest => simp [mayStore]

theorem inUpgrade_iff {gs : List Guard} :
    inUpgrade gs = true ↔ ∃ g rest, gs = g :: rest ∧ g.phase = .upgrading := by
  cases gs with
  | nil => simp [inUpgrade]
  | cons g rest => simp [inUpgrade]

theorem not_inUpgrade_of_mayStore {gs : List Guard} (h : mayStore gs = true) :
    inUpgrade gs = false := by
  obtain ⟨g, rest, rfl, hlive, -⟩ := mayStore_iff.mp h
  simp [inUpgrade, hlive]

/-- Only a step of the thread itself brings it into `upgrade2writer`, and
from a live guard. -/
theorem Moves.inUpgrade {a : Action} {gs gs' : List Guard} (h : Moves a gs gs')
    (hone : gs.length ≤ 1) (hup : inUpgrade gs' = true) :
    a = .upgrade ∧ ∃ g, gs = [g] ∧ g.phase = .live := by
  cases h with
  | construct w gs hset => simp [RWMutexScopedLock.inUpgrade] at hup
  | constructed g gs m hph => simp [RWMutexScopedLock.inUpgrade] at hup
  | upgrade g gs hph =>
    have hnil : gs = [] := by simpa using hone
    exact ⟨rfl, g, by rw [hnil], hph⟩
  | upgraded g gs m hph => simp [RWMutexScopedLock.inUpgrade] at hup
  | destroy g gs hph =>
    have hnil : gs' = [] := by simpa using hone
    subst hnil
    simp [RWMutexScopedLock.inUpgrade] at hup

/-- Whoever has a live writer guard after a step has got in with the write
lock by it. -/
theorem Moves.entersWriting {a : Action} {gs gs' : List Guard} (h : Moves a gs gs')
    (hone : gs.length ≤ 1) (hfresh : ∀ g ∈ gs, g.phase = .constructing → g.upgraded = false)
    (hmay : mayStore gs' = true) : a.entersWriting gs = true := by
  cases h with
  | construct w gs hset => simp [mayStore] at hmay
  | constructed g gs m hph =>
    have hold : g.upgraded = false := hfresh g List.mem_cons_self hph
    show g.write = true
    simpa [mayStore, Guard.isWriter, hold] using hmay
  | upgrade g gs hph => simp [mayStore] at hmay
  | upgraded g gs m hph => rfl
  | destroy g gs hph =>
    have hnil : gs' = [] := by simpa using hone
    subst hnil
    cases hmay

/-- And whoever gets in with the write lock has one. -/
theorem Moves.mayStore {a : Action} {gs gs' : List Guard} (h : Moves a gs gs')
    (henters : a.entersWriting gs = true) : mayStore gs' = true := by
  cases h with
  | construct w gs hset => cases henters
  | constructed g gs m hph =>
    have hw : g.write = true := henters
    simp [RWMutexScopedLock.mayStore, Guard.isWriter, hw]
  | upgrade g gs hph => cases henters
  | upgraded g gs m hph => simp [RWMutexScopedLock.mayStore, Guard.isWriter]
  | destroy g gs hph => cases henters

theorem Moves.length_le_one {a : Action} {gs gs' : List Guard} (h : Moves a gs gs')
    (hone : gs.length ≤ 1) (hempty : ∀ w, a = .construct w → gs = []) : gs'.length ≤ 1 := by
  cases h with
  | construct w gs hset => simp [hempty w rfl]
  | constructed g gs m hph => simpa using hone
  | upgrade g gs hph => simpa using hone
  | upgraded g gs m hph => simpa using hone
  | destroy g gs hph =>
    simp only [List.length_cons] at hone
    omega

section Upgrade

variable [Fintype τ] {stray : Lock τ → τ → Lock τ}

/-- The guards are in order. While a thread is inside `upgrade2writer` no
other one has a live writer guard, and the data is what the thread saw. -/
structure SharedInv (s : Shared τ D) : Prop where
  guards : Inv s.guards
  one : ∀ t, (s.guards.stack t).length ≤ 1
  alone : ∀ t u, t ≠ u → mayStore (s.guards.stack t) = true → inUpgrade (s.guards.stack u) = false
  seen : ∀ t, inUpgrade (s.guards.stack t) = true → s.seen t = s.data

omit [DecidableEq τ] in
theorem sharedInv_initial (d : D) : SharedInv (Shared.initial d : Shared τ D) where
  guards := inv_initial
  one _ := Nat.zero_le _
  alone _ _ _ h := by cases h
  seen _ _ := rfl

variable {s s' : Shared τ D} {t u : τ} {a : Action}

/-- The lock keeps writers out of a guard that is live before
`upgrade2writer`, and the condition keeps them out inside it. -/
theorem SharedInv.alone_step (hi : SharedInv s) (hok : NoWriterInUpgrade s (.guard t a))
    {gs : List Guard} (hmoves : Moves a (s.guards.stack t) gs) (p q : τ) (hpq : p ≠ q)
    (hmay : mayStore (Function.update s.guards.stack t gs p) = true) :
    inUpgrade (Function.update s.guards.stack t gs q) = false := by
  by_cases hp : p = t
  · subst hp
    rw [Function.update_self] at hmay
    rw [Function.update_of_ne hpq.symm]
    exact hok (hmoves.entersWriting (hi.one p) (hi.guards.nesting p).fresh hmay) q hpq.symm
  · rw [Function.update_of_ne hp] at hmay
    by_cases hq : q = t
    · subst hq
      rw [Function.update_self, Bool.eq_false_iff]
      intro hup
      obtain ⟨-, k, hk, hklive⟩ := hmoves.inUpgrade (hi.one q) hup
      obtain ⟨g, rest, hg, hglive, hgwriter⟩ := mayStore_iff.mp hmay
      exact hi.guards.guardsHold.exclusive p q g k hpq (by simp [hg]) hglive hgwriter
        (by simp [hk]) hklive
    · rw [Function.update_of_ne hq]
      exact hi.alone p q hpq hmay

theorem SharedInv.guard (hi : SharedInv s) (hok : NoWriterInUpgrade s (.guard t a))
    (h : s.step stray (.guard t a) = some s') : SharedInv s' := by
  obtain ⟨hg, hdata, hseen, hempty⟩ := Shared.step_guard h
  obtain ⟨gs, hmoves, hstack⟩ := step_stack hg
  refine ⟨inv_step stray (t, a) hi.guards (Shared.step_noNesting h) hg, fun u => ?_, ?_,
    fun u hup => ?_⟩
  · rw [hstack]
    by_cases hu : u = t
    · subst hu
      rw [Function.update_self]
      exact hmoves.length_le_one (hi.one u) hempty
    · rw [Function.update_of_ne hu]
      exact hi.one u
  · rw [hstack]
    exact hi.alone_step hok hmoves
  · rw [hdata, hseen]
    rw [hstack] at hup
    by_cases hu : u = t
    · subst hu
      rw [Function.update_self] at hup
      obtain ⟨rfl, -⟩ := hmoves.inUpgrade (hi.one u) hup
      simp [Shared.seenAfter]
    · rw [Function.update_of_ne hu] at hup
      rw [s.seenAfter_of_ne a hu]
      exact hi.seen u hup

/-- Every step keeps the invariant, unless it lets a writer in under
another thread's upgrade. A store does: whoever can store is alone. -/
theorem sharedInv_step (e : Event τ D) (hi : SharedInv s) (hok : NoWriterInUpgrade s e)
    (h : s.step stray e = some s') : SharedInv s' := by
  cases e with
  | guard t a => exact hi.guard hok h
  | store t v =>
    obtain ⟨hmay, rfl⟩ := Shared.step_store_iff.mp h
    refine ⟨hi.guards, hi.one, hi.alone, fun u hup => ?_⟩
    have hnot : inUpgrade (s.guards.stack u) = false := by
      by_cases hu : t = u
      · exact hu ▸ not_inUpgrade_of_mayStore hmay
      · exact hi.alone t u hu hmay
    rw [hnot] at hup
    cases hup

theorem SharedInv.of_reach {d : D}
    (h : Runs.Reach (Shared.step stray) NoWriterInUpgrade (Shared.initial d) s) : SharedInv s :=
  h.invariant (sharedInv_initial d) (fun _ e _ hi hok hs => sharedInv_step e hi hok hs)

theorem SharedInv.upgraded (hi : SharedInv s) (h : s.step stray (.guard t .upgraded) = some s') :
    s'.data = s.seen t := by
  obtain ⟨hg, hdata, -, -⟩ := Shared.step_guard h
  obtain ⟨g, gs, hst, hph, -⟩ := step_upgraded_iff.mp hg
  rw [hdata]
  exact (hi.seen t (by simp [hst, inUpgrade, hph])).symm

/-! ## A writer under another thread's upgrade -/

omit [DecidableEq τ] in
/-- With no live guard anywhere the lock is free. -/
theorem Inv.eq_free_of_not_live {s : State τ} (hi : Inv s)
    (h : ∀ t, ∀ g ∈ s.stack t, g.phase ≠ .live) : s.lock = Lock.free := by
  refine hi.accounts.eq_free (fun t => List.filterMap_eq_nil_iff.mpr (fun g hg => ?_))
  rw [(hi.nesting t).due g hg, Guard.due_not_live (h t g hg)]

/-- A thread's only guard, a live writer one, leaves the lock free: no
other thread has a live guard. -/
theorem Inv.unlock_eq_free (stray : Lock τ → τ → Lock τ) {s : State τ} {g : Guard} (hi : Inv s)
    (hst : s.stack t = [g]) (hlive : g.phase = .live) (hwriter : g.isWriter = true) :
    s.lock.unlock stray t = Lock.free := by
  have hdes : step stray s (t, .destroy)
      = some ⟨s.lock.unlock stray t, Function.update s.stack t []⟩ :=
    step_destroy_iff.mpr ⟨g, [], hst, hlive, rfl⟩
  refine (inv_step stray (t, .destroy) hi trivial hdes).eq_free_of_not_live (fun u k hk => ?_)
  by_cases hu : u = t
  · subst hu
    simp at hk
  · simp only [Function.update_of_ne hu] at hk
    exact hi.guardsHold.exclusive t u g k (Ne.symm hu) (by simp [hst]) hlive hwriter hk

/-- The writer can store and leave its scope, the upgrading thread can then
return, and it finds other data than it saw. -/
theorem store_breaks (stray : Lock τ → τ → Lock τ) (hi : Inv s.guards)
    (hone : (s.guards.stack t).length ≤ 1) (hmay : mayStore (s.guards.stack t) = true)
    (hut : u ≠ t) (hup : inUpgrade (s.guards.stack u) = true) {v : D} (hv : v ≠ s.seen u) :
    ∃ s₁ s₂ s₃, s.step stray (.store t v) = some s₁ ∧ s₁.step stray (.guard t .destroy) = some s₂ ∧
      s₂.step stray (.guard u .upgraded) = some s₃ ∧ s₃.data ≠ s₂.seen u := by
  obtain ⟨g, rest, hst, hlive, hwriter⟩ := mayStore_iff.mp hmay
  have hnil : rest = [] := by simpa [hst] using hone
  subst hnil
  obtain ⟨k, ks, hsu, hk⟩ := inUpgrade_iff.mp hup
  have hfree := hi.unlock_eq_free stray hst hlive hwriter
  have hdes : RWMutexScopedLock.step stray s.guards (t, .destroy)
      = some ⟨Lock.free, Function.update s.guards.stack t []⟩ :=
    step_destroy_iff.mpr ⟨g, [], hst, hlive, by rw [hfree]⟩
  have hreturns : RWMutexScopedLock.step stray
      ⟨Lock.free, Function.update s.guards.stack t []⟩ (u, .upgraded)
      = some ⟨⟨some u, 0⟩, Function.update (Function.update s.guards.stack t []) u
          ({ k with phase := .live, upgraded := true, hold := some .write } :: ks)⟩ := by
    refine step_upgraded_iff.mpr ⟨k, ks, ?_, hk, rfl⟩
    simp [hut, hsu]
  refine ⟨{ s with data := v }, ⟨⟨Lock.free, Function.update s.guards.stack t []⟩, v, s.seen⟩,
    ⟨⟨⟨some u, 0⟩, Function.update (Function.update s.guards.stack t []) u
      ({ k with phase := .live, upgraded := true, hold := some .write } :: ks)⟩, v, s.seen⟩,
    Shared.step_store_iff.mpr ⟨hmay, rfl⟩, ?_, ?_, hv⟩
  · simp [Shared.step, hdes]
  · simp [Shared.step, hreturns]

/-- A step against the condition lets a writer in that can change the data
under the other thread's upgrade. -/
theorem SharedInv.breaks (hi : SharedInv s) (hbad : ¬ NoWriterInUpgrade s (.guard t a)) {v : D}
    (hv : v ≠ s.data) (h : s.step stray (.guard t a) = some s') :
    ∃ u s₁ s₂ s₃, s'.step stray (.store t v) = some s₁ ∧
      s₁.step stray (.guard t .destroy) = some s₂ ∧
      s₂.step stray (.guard u .upgraded) = some s₃ ∧ s₃.data ≠ s₂.seen u := by
  simp only [NoWriterInUpgrade, not_forall] at hbad
  obtain ⟨henters, u, hut, hup⟩ := hbad
  have hup' : inUpgrade (s.guards.stack u) = true := by simpa using hup
  obtain ⟨hg, -, hseen, hempty⟩ := Shared.step_guard h
  obtain ⟨gs, hmoves, hstack⟩ := step_stack hg
  have hkeep : s'.seen u = s.data := by
    rw [hseen, s.seenAfter_of_ne a hut]
    exact hi.seen u hup'
  refine ⟨u, store_breaks stray (inv_step stray (t, a) hi.guards (Shared.step_noNesting h) hg)
    ?_ ?_ hut ?_ (hkeep ▸ hv)⟩
  · rw [hstack, Function.update_self]
    exact hmoves.length_le_one (hi.one t) hempty
  · rw [hstack, Function.update_self]
    exact hmoves.mayStore henters
  · rw [hstack, Function.update_of_ne hut]
    exact hup'

end Upgrade

end Comproject.Db.RWMutexScopedLock
