/-
Comproject.Base.LoggingTheorems — when each logger is deleted once.

As long as no pointer is handed from one object to another, every object
owns its logger (`Owned`), so every `delete` finds a logger and the last
object takes the last logger with it. One copy or assignment is enough to
end that. From then on some object has a logger that is gone or has a
second owner, whatever is constructed, copied, assigned or destroyed
after it and whichever addresses are used again, until a logger is
deleted twice (`Spoiled`).

So a program that ends its objects' lives is free of double deletes if
and only if it has copied and assigned none (`deleted_once_iff`).
-/
import Comproject.Base.Logging
import Comproject.Lib.Ownership

namespace Comproject.Base.Logging

variable {O L : Type} [DecidableEq O] {logger : Bool → L} {s s' : State O L} {e : Action O}

/-! ## Steps -/

/-- What can happen next. -/
theorem step_cases (h : step logger s e = some s') :
    (∃ o, (e = .construct o none ∨ e = .copyAssign o o) ∧ s' = s) ∨
    (∃ o a, e = .construct o (some a) ∧ s.objects o = none ∧ a ≠ 0 ∧ s.loggers a = none ∧
      s' = { s with
        loggers := Function.update s.loggers a (some (logger false))
        objects := Function.update s.objects o (some ⟨a⟩) }) ∨
    (∃ o p l, (e = .copyConstruct o p ∨ e = .copyAssign o p) ∧ o ≠ p ∧ s.objects p = some l ∧
      s' = { s with objects := Function.update s.objects o (some l) }) ∨
    (∃ o l, e = .destroy o ∧ s.objects o = some l ∧ s' = s.destroy o l) := by
  cases e with
  | construct o new =>
    simp only [step] at h
    split at h
    · cases h
    · rename_i ho
      cases new with
      | none =>
        cases h
        exact .inl ⟨o, .inl rfl, rfl⟩
      | some a =>
        simp only at h
        split at h
        · cases h
        · rename_i ha
          cases h
          have hfresh : a ≠ 0 ∧ s.loggers a = none := by simpa using ha
          exact .inr (.inl ⟨o, a, rfl, by simpa using ho, hfresh.1, hfresh.2, rfl⟩)
  | copyConstruct o p =>
    simp only [step] at h
    split at h
    · cases h
    · rename_i ho
      obtain ⟨l, hl, rfl⟩ := Option.map_eq_some_iff.mp h
      have hne : o ≠ p := by
        rintro rfl
        simp [hl] at ho
      exact .inr (.inr (.inl ⟨o, p, l, .inl rfl, hne, hl, rfl⟩))
  | copyAssign o p =>
    simp only [step] at h
    split at h
    · obtain ⟨l, hl, rfl⟩ := Option.map_eq_some_iff.mp h
      by_cases hne : o = p
      · subst hne
        refine .inl ⟨o, .inr rfl, ?_⟩
        rw [← hl, Function.update_eq_self]
      · exact .inr (.inr (.inl ⟨o, p, l, .inr rfl, hne, hl, rfl⟩))
    · cases h
  | destroy o =>
    obtain ⟨l, hl, rfl⟩ := Option.map_eq_some_iff.mp h
    exact .inr (.inr (.inr ⟨o, l, rfl, hl, rfl⟩))

/-- The destructor deletes the logger or finds it gone. -/
theorem destroy_eq (s : State O L) (o : O) {l : Logging} (hl : l.logger_ ≠ 0) :
    (∃ v, s.loggers l.logger_ = some v ∧
      s.destroy o l = { s with
        loggers := Function.update s.loggers l.logger_ none
        objects := Function.update s.objects o none }) ∨
    (s.loggers l.logger_ = none ∧
      s.destroy o l = { s with objects := Function.update s.objects o none, fault := true }) := by
  unfold State.destroy
  rw [if_neg hl]
  cases hv : s.loggers l.logger_ with
  | none => exact .inr ⟨rfl, rfl⟩
  | some v => exact .inl ⟨v, rfl, rfl⟩

/-! ## Pointers are not null -/

def NonNull (objects : O → Option Logging) : Prop := ∀ o l, objects o = some l → l.logger_ ≠ 0

theorem NonNull.update {objects : O → Option Logging} (h : NonNull objects) (o : O)
    {new : Option Logging} (hnew : ∀ l, new = some l → l.logger_ ≠ 0) :
    NonNull (Function.update objects o new) := by
  intro o' l' ho'
  rw [Function.update_apply] at ho'
  split at ho'
  · exact hnew l' ho'
  · exact h o' l' ho'

theorem nonNull_step (hs : NonNull s.objects) (h : step logger s e = some s') :
    NonNull s'.objects := by
  obtain ⟨o, -, rfl⟩ | ⟨o, a, -, -, ha, -, rfl⟩ | ⟨o, p, l, -, -, hp, rfl⟩ | ⟨o, l, -, ho, rfl⟩ :=
    step_cases h
  · exact hs
  · exact hs.update o (fun l hl => Option.some.inj hl ▸ ha)
  · exact hs.update o (fun l' hl' => Option.some.inj hl' ▸ hs p l hp)
  · obtain ⟨v, -, heq⟩ | ⟨-, heq⟩ := destroy_eq s o (hs o l ho)
    · rw [heq]
      exact hs.update o nofun
    · rw [heq]
      exact hs.update o nofun

/-! ## Objects that own their loggers -/

structure Owned (s : State O L) : Prop where
  loggers : Ownership.Owned logger_ s.loggers s.objects
  nonNull : NonNull s.objects
  sound : s.fault = false

omit [DecidableEq O] in
theorem owned_initial : Owned (State.initial : State O L) :=
  ⟨Ownership.owned_empty, nofun, rfl⟩

/-- A step that hands no pointer on keeps the ownership. -/
theorem owned_step (s : State O L) (e : Action O) (s' : State O L) (hs : Owned s)
    (hok : ¬ e.Shares) (h : step logger s e = some s') : Owned s' := by
  have hnull := nonNull_step hs.nonNull h
  obtain ⟨o, -, rfl⟩ | ⟨o, a, -, ho, -, ha, rfl⟩ | ⟨o, p, l, he, hne, -⟩ | ⟨o, l, -, ho, rfl⟩ :=
    step_cases h
  · exact hs
  · exact ⟨hs.loggers.alloc (r := ⟨a⟩) ho ha _, hnull, hs.sound⟩
  · obtain rfl | rfl := he
    · exact absurd trivial hok
    · exact absurd hne hok
  · obtain ⟨v, -, heq⟩ | ⟨hgone, -⟩ := destroy_eq s o (hs.nonNull o l ho)
    · rw [heq] at hnull ⊢
      exact ⟨hs.loggers.free ho, hnull, hs.sound⟩
    · obtain ⟨v, hv⟩ := hs.loggers.live o l ho
      rw [hgone] at hv
      cases hv

/-! ## Objects that share a logger -/

/-- A logger was deleted twice, or will be. -/
structure Spoiled (s : State O L) : Prop where
  nonNull : NonNull s.objects
  shared : s.fault = true ∨ Ownership.Entangled logger_ s.loggers s.objects

/-- It takes one step that hands a pointer on. -/
theorem spoiled_of_shares (hs : NonNull s.objects) (he : e.Shares)
    (h : step logger s e = some s') : Spoiled s' := by
  refine ⟨nonNull_step hs h, .inr ?_⟩
  obtain ⟨o, rfl | rfl, -⟩ | ⟨o, a, rfl, -⟩ | ⟨o, p, l, -, hne, hp, rfl⟩ | ⟨o, l, rfl, -⟩ :=
    step_cases h
  · cases he
  · exact absurd rfl he
  · cases he
  · exact Ownership.entangled_share hp hne rfl
  · cases he

/-- No step mends it. -/
theorem spoiled_step (s : State O L) (e : Action O) (s' : State O L) (hs : Spoiled s)
    (h : step logger s e = some s') : Spoiled s' := by
  refine ⟨nonNull_step hs.nonNull h, ?_⟩
  obtain ⟨o, -, rfl⟩ | ⟨o, a, -, ho, -, -, rfl⟩ | ⟨o, p, l, -, hne, hp, rfl⟩ | ⟨o, l, -, ho, rfl⟩ :=
    step_cases h
  · exact hs.shared
  · exact hs.shared.imp_right (fun hx => hx.alloc (r := ⟨a⟩) ho _)
  · exact .inr (Ownership.entangled_share hp hne rfl)
  · obtain ⟨v, hv, heq⟩ | ⟨-, heq⟩ := destroy_eq s o (hs.nonNull o l ho)
    · rw [heq]
      exact hs.shared.imp_right (fun hx => hx.free ho hv)
    · rw [heq]
      exact .inl rfl

/-! ## Runs -/

/-- A run that hands no pointer on. -/
theorem owned_run {es : List (Action O)} (hes : ∀ e ∈ es, ¬ e.Shares)
    (h : Runs.exec (step logger) State.initial es = some s) : Owned s := by
  have hreach : Runs.Reach (step logger) (fun _ e => ¬ e.Shares) State.initial s :=
    Runs.Reach.of_forall es (fun e he _ => hes e he) .init h
  exact hreach.invariant owned_initial owned_step

/-- A run that hands one on, at some point. -/
theorem spoiled_run {es : List (Action O)} (hes : ∃ e ∈ es, e.Shares)
    (h : Runs.exec (step logger) State.initial es = some s) : Spoiled s := by
  obtain ⟨e, hmem, he⟩ := hes
  obtain ⟨before, after, rfl⟩ := List.append_of_mem hmem
  obtain ⟨u, hu, hrest⟩ := Runs.exec_append_some h
  rw [Runs.exec_cons] at hrest
  obtain ⟨v, hv, hafter⟩ := Option.bind_eq_some_iff.mp hrest
  have hnull : NonNull u.objects :=
    Runs.exec_invariant (step logger) (P := fun s => NonNull s.objects)
      (fun _ _ _ hs hstep => nonNull_step hs hstep) before owned_initial.nonNull hu
  exact Runs.exec_invariant (step logger) spoiled_step after (spoiled_of_shares hnull he hv) hafter

/-! ## Main result -/

/-- **Each logger is deleted once.** A run of constructions, copies,
assignments and destructions, in any order and with any addresses, after
which no object is left: it has deleted no logger twice if and only if it
has copied no object and assigned none to another. It has then deleted
every logger. -/
theorem deleted_once_iff (logger : Bool → L) (es : List (Action O)) (s : State O L)
    (h : Runs.exec (step logger) State.initial es = some s) (hdone : ∀ o, s.objects o = none) :
    (s.fault = false ↔ ∀ e ∈ es, ¬ e.Shares) ∧
      (s.fault = false → ∀ a, s.loggers a = none) := by
  have hnone : s.fault = false → ∀ e ∈ es, ¬ e.Shares := by
    intro hsound e he hshares
    rcases (spoiled_run ⟨e, he, hshares⟩ h).shared with hfault | ⟨o, l, ho, -⟩
    · rw [hsound] at hfault
      cases hfault
    · rw [hdone o] at ho
      cases ho
  refine ⟨⟨hnone, fun hes => (owned_run hes h).sound⟩, fun hsound a => ?_⟩
  cases ha : s.loggers a with
  | none => rfl
  | some v =>
    obtain ⟨o, l, ho, -⟩ := (owned_run (hnone hsound) h).loggers.owned a v ha
    rw [hdone o] at ho
    cases ho

/-- The copy `true` goes first, and its name and the address of the logger
are used again. -/
def copyGoesFirst : List (Action Bool) :=
  [.construct false (some 16), .copyConstruct true false, .destroy true,
    .construct true (some 16), .destroy false, .destroy true]

/-- The original deletes the logger of the new object, which is then the
one that finds it gone. -/
theorem deleted_once_iff_copyGoesFirst :
    ∃ s, Runs.exec (step (fun _ => ())) State.initial copyGoesFirst = some s ∧
      s.fault ≠ false := by
  refine ⟨_, rfl, ?_⟩
  rw [Ne, (deleted_once_iff (fun _ => ()) copyGoesFirst _ rfl (by decide)).1]
  decide

end Comproject.Base.Logging
