/-
Comproject.Lib.Once — one-time initialisation by several threads.

Threads call an operation that first makes sure that some store has been
initialised and then reads it. This is the protocol of `std::call_once`
and of a function-local static in C++11: a caller that finds the store
initialised goes on; a caller that finds it not, and nobody at it, runs
the initialiser; everybody else waits. An initialiser that throws leaves
the store as it was, its caller gets the exception, and the next caller
tries again.

`Initialiser.call` is the operation as if one thread were alone, and
`replay` a sequence of such calls. `Inv` ties every reachable state of the
concurrent machine to the replay of ONE sequence: the calls in the order
in which the protocol was through with them. Each thread has got what the
replay gives it (`Inv.returns`), and a call enters that order between its
arrival and its return, so the order never contradicts real time
(`order_prefix`). Everybody who gets a value gets the same one
(`Inv.result`). A call takes at most three steps (`count_steps_le`), and
while one is under way some thread can go on (`exists_move`), provided
that the initialiser itself comes to an end.
-/
import Comproject.Lib.Runs
import Mathlib.Data.List.Basic
import Mathlib.Data.List.Induction

namespace Once

/-- What is initialised, and how. -/
structure Initialiser (A σ E O : Type) where
  done : σ → Bool
  init : A → σ → Except E σ
  read : σ → O
  done_init : ∀ a s s', init a s = .ok s' → done s' = true

variable {τ A σ E O : Type}

/-! ## One thread alone -/

/-- One call. -/
def Initialiser.call (I : Initialiser A σ E O) (a : A) (s : σ) : Except E O × σ :=
  if I.done s then (.ok (I.read s), s)
  else
    match I.init a s with
    | .error e => (.error e, s)
    | .ok s' => (.ok (I.read s'), s')

/-- A call that has returned: who made it, with what, and what came of it. -/
structure Entry (τ A E O : Type) where
  thread : τ
  arg : A
  result : Except E O

/-- A sequence of calls, one after the other. -/
def replay (I : Initialiser A σ E O) (s₀ : σ) (order : List (τ × A)) :
    List (Entry τ A E O) × σ :=
  order.foldl (fun h c => (h.1 ++ [⟨c.1, c.2, (I.call c.2 h.2).1⟩], (I.call c.2 h.2).2)) ([], s₀)

variable {I : Initialiser A σ E O} {s₀ : σ}

theorem call_of_done {s : σ} (h : I.done s = true) (a : A) : I.call a s = (.ok (I.read s), s) :=
  if_pos h

theorem call_of_ok {s s' : σ} {a : A} (h : I.done s = false) (hinit : I.init a s = .ok s') :
    I.call a s = (.ok (I.read s'), s') := by
  simp [Initialiser.call, h, hinit]

theorem call_of_error {s : σ} {a : A} {e : E} (h : I.done s = false)
    (hinit : I.init a s = .error e) : I.call a s = (.error e, s) := by
  simp [Initialiser.call, h, hinit]

/-- One more call at the end. -/
theorem replay_append (order : List (τ × A)) (t : τ) (a : A) :
    replay I s₀ (order ++ [(t, a)])
      = ((replay I s₀ order).1 ++ [⟨t, a, (I.call a (replay I s₀ order).2).1⟩],
          (I.call a (replay I s₀ order).2).2) := by
  simp [replay, List.foldl_append]

/-- Nothing is initialised, or one of the calls has initialised a fresh
store. -/
theorem replay_store (hnew : I.done s₀ = false) (order : List (τ × A)) :
    (replay I s₀ order).2 = s₀ ∨ ∃ c ∈ order, I.init c.2 s₀ = .ok (replay I s₀ order).2 := by
  induction order using List.reverseRecOn with
  | nil => exact .inl rfl
  | append_singleton order c ih =>
    rw [replay_append]
    rcases ih with hs | ⟨d, hd, hok⟩
    · rw [hs]
      cases hinit : I.init c.2 s₀ with
      | error e =>
        rw [call_of_error hnew hinit]
        exact .inl rfl
      | ok st =>
        rw [call_of_ok hnew hinit]
        exact .inr ⟨c, by simp, hinit⟩
    · rw [call_of_done (I.done_init _ _ _ hok)]
      exact .inr ⟨d, by simp [hd], hok⟩

/-- A call got its own initialiser's exception, or what is read at the
end. -/
theorem replay_result (hnew : I.done s₀ = false) (order : List (τ × A)) :
    ∀ x ∈ (replay I s₀ order).1,
      (∃ e, I.init x.arg s₀ = .error e ∧ x.result = .error e) ∨
      (I.done (replay I s₀ order).2 = true ∧ x.result = .ok (I.read (replay I s₀ order).2)) := by
  induction order using List.reverseRecOn with
  | nil => nofun
  | append_singleton order c ih =>
    rw [replay_append]
    intro x hx
    -- what an earlier call got, and what the last one gets
    cases hdone : I.done (replay I s₀ order).2 with
    | true =>
      rw [call_of_done hdone] at hx ⊢
      rcases List.mem_append.mp hx with hx | hx
      · exact ih x hx
      · obtain rfl := List.mem_singleton.mp hx
        exact .inr ⟨hdone, rfl⟩
    | false =>
      have hs : (replay I s₀ order).2 = s₀ := by
        rcases replay_store hnew order with hs | ⟨d, -, hok⟩
        · exact hs
        · rw [I.done_init _ _ _ hok] at hdone
          cases hdone
      have hold : ∀ y ∈ (replay I s₀ order).1,
          ∃ e, I.init y.arg s₀ = .error e ∧ y.result = .error e := by
        intro y hy
        rcases ih y hy with he | ⟨hd, -⟩
        · exact he
        · rw [hdone] at hd
          cases hd
      rw [hs] at hx ⊢
      cases hinit : I.init c.2 s₀ with
      | error e =>
        rw [call_of_error hnew hinit] at hx ⊢
        rcases List.mem_append.mp hx with hx | hx
        · exact .inl (hold x hx)
        · obtain rfl := List.mem_singleton.mp hx
          exact .inl ⟨e, hinit, rfl⟩
      | ok st =>
        rw [call_of_ok hnew hinit] at hx ⊢
        rcases List.mem_append.mp hx with hx | hx
        · exact .inl (hold x hx)
        · obtain rfl := List.mem_singleton.mp hx
          exact .inr ⟨I.done_init _ _ _ hinit, rfl⟩

/-! ## Threads -/

/-- Where a thread stands. -/
inductive Phase (A : Type) where
  | outside
  /-- it has called, and the protocol has not dealt with it -/
  | arrived (a : A)
  /-- it runs the initialiser -/
  | active (a : A)
  /-- the store is initialised, and it is about to read it -/
  | passed (a : A)

structure State (τ A σ E O : Type) where
  store : σ
  active : Option τ
  phase : τ → Phase A
  /-- the calls that have returned -/
  returned : List (Entry τ A E O)
  /-- ghost: the calls in the order in which the protocol was through with
  them -/
  order : List (τ × A)

def State.initial (s₀ : σ) : State τ A σ E O := ⟨s₀, none, fun _ => .outside, [], []⟩

inductive Action (A : Type) where
  /-- the call is made -/
  | arrive (a : A)
  /-- the store is not initialised and nobody is at it: run the initialiser -/
  | enter
  /-- the store is initialised -/
  | skip
  /-- the initialiser ends, by a value or by an exception -/
  | finish
  /-- the store is read, and the call returns -/
  | leave

variable [DecidableEq τ]

/-- One step of one thread. -/
def step (I : Initialiser A σ E O) (s : State τ A σ E O) :
    τ × Action A → Option (State τ A σ E O)
  | (t, .arrive a) =>
    match s.phase t with
    | .outside => some { s with phase := Function.update s.phase t (.arrived a) }
    | _ => none
  | (t, .enter) =>
    match s.phase t with
    | .arrived a =>
      if s.active.isNone && !I.done s.store then
        some { s with active := some t, phase := Function.update s.phase t (.active a) }
      else none
    | _ => none
  | (t, .skip) =>
    match s.phase t with
    | .arrived a =>
      if I.done s.store then
        some { s with
          phase := Function.update s.phase t (.passed a)
          order := s.order ++ [(t, a)] }
      else none
    | _ => none
  | (t, .finish) =>
    match s.phase t with
    | .active a =>
      match I.init a s.store with
      | .ok st =>
        some { s with
          store := st
          active := none
          phase := Function.update s.phase t (.passed a)
          order := s.order ++ [(t, a)] }
      | .error e =>
        some { s with
          active := none
          phase := Function.update s.phase t .outside
          returned := s.returned ++ [⟨t, a, .error e⟩]
          order := s.order ++ [(t, a)] }
    | _ => none
  | (t, .leave) =>
    match s.phase t with
    | .passed a =>
      some { s with
        phase := Function.update s.phase t .outside
        returned := s.returned ++ [⟨t, a, .ok (I.read s.store)⟩] }
    | _ => none

/-! ## What a step can do -/

section Steps

variable {s s' : State τ A σ E O} {t : τ}

theorem step_arrive {a : A} (h : step I s (t, .arrive a) = some s') :
    s.phase t = .outside ∧ s' = { s with phase := Function.update s.phase t (.arrived a) } := by
  simp only [step] at h
  split at h
  · cases h
    exact ⟨‹_›, rfl⟩
  · cases h

theorem step_enter (h : step I s (t, .enter) = some s') :
    ∃ a, s.phase t = .arrived a ∧ s.active = none ∧ I.done s.store = false ∧
      s' = { s with active := some t, phase := Function.update s.phase t (.active a) } := by
  simp only [step] at h
  split at h
  · rename_i a hph
    split at h
    · rename_i hfree
      cases h
      simp only [Bool.and_eq_true, Option.isNone_iff_eq_none, Bool.not_eq_true'] at hfree
      exact ⟨a, hph, hfree.1, hfree.2, rfl⟩
    · cases h
  · cases h

theorem step_skip (h : step I s (t, .skip) = some s') :
    ∃ a, s.phase t = .arrived a ∧ I.done s.store = true ∧
      s' = { s with
        phase := Function.update s.phase t (.passed a)
        order := s.order ++ [(t, a)] } := by
  simp only [step] at h
  split at h
  · rename_i a hph
    split at h
    · cases h
      exact ⟨a, hph, ‹_›, rfl⟩
    · cases h
  · cases h

theorem step_finish (h : step I s (t, .finish) = some s') :
    ∃ a, s.phase t = .active a ∧
      ((∃ st, I.init a s.store = .ok st ∧
          s' = { s with
            store := st
            active := none
            phase := Function.update s.phase t (.passed a)
            order := s.order ++ [(t, a)] }) ∨
        (∃ e, I.init a s.store = .error e ∧
          s' = { s with
            active := none
            phase := Function.update s.phase t .outside
            returned := s.returned ++ [⟨t, a, .error e⟩]
            order := s.order ++ [(t, a)] })) := by
  simp only [step] at h
  split at h
  · rename_i a hph
    refine ⟨a, hph, ?_⟩
    split at h
    · rename_i st hinit
      cases h
      exact .inl ⟨st, hinit, rfl⟩
    · rename_i e hinit
      cases h
      exact .inr ⟨e, hinit, rfl⟩
  · cases h

theorem step_leave (h : step I s (t, .leave) = some s') :
    ∃ a, s.phase t = .passed a ∧
      s' = { s with
        phase := Function.update s.phase t .outside
        returned := s.returned ++ [⟨t, a, .ok (I.read s.store)⟩] } := by
  simp only [step] at h
  split at h
  · rename_i a hph
    cases h
    exact ⟨a, hph, rfl⟩
  · cases h

end Steps

/-! ## The invariant -/

/-- The calls of one thread. -/
def of (t : τ) (es : List (Entry τ A E O)) : List (Entry τ A E O) :=
  es.filter (fun e => e.thread = t)

theorem of_append (t : τ) (es fs : List (Entry τ A E O)) : of t (es ++ fs) = of t es ++ of t fs :=
  List.filter_append ..

theorem of_self (t : τ) (a : A) (r : Except E O) : of t [⟨t, a, r⟩] = [⟨t, a, r⟩] := by
  simp [of]

theorem of_other {t u : τ} (h : u ≠ t) (a : A) (r : Except E O) : of u [⟨t, a, r⟩] = [] := by
  simp [of, h.symm]

/-- What the thread is about to return. -/
def State.pending (I : Initialiser A σ E O) (s : State τ A σ E O) (t : τ) :
    List (Entry τ A E O) :=
  match s.phase t with
  | .passed a => [⟨t, a, .ok (I.read s.store)⟩]
  | _ => []

/-- The store is the replay's, each thread has got what the replay gives
it, and only a thread that runs the initialiser can change the store. -/
structure Inv (I : Initialiser A σ E O) (s₀ : σ) (s : State τ A σ E O) : Prop where
  store : s.store = (replay I s₀ s.order).2
  returns : ∀ t, of t (replay I s₀ s.order).1 = of t s.returned ++ s.pending I t
  active : ∀ t a, s.phase t = .active a → s.active = some t
  fresh : ∀ t, s.active = some t → I.done s.store = false ∧ ∃ a, s.phase t = .active a
  passed : ∀ t a, s.phase t = .passed a → I.done s.store = true

theorem inv_initial : Inv I s₀ (State.initial s₀ : State τ A σ E O) where
  store := rfl
  returns t := by simp [State.initial, replay, of, State.pending]
  active _ _ h := by cases h
  fresh _ h := by cases h
  passed _ _ h := by cases h

section Invariant

variable {s s' : State τ A σ E O} {t u : τ} {a : A}

omit [DecidableEq τ] in
theorem pending_passed (h : s.phase t = .passed a) :
    s.pending I t = [⟨t, a, .ok (I.read s.store)⟩] := by
  simp only [State.pending, h]

omit [DecidableEq τ] in
theorem pending_nil (h : ∀ a, s.phase t ≠ .passed a) : s.pending I t = [] := by
  unfold State.pending
  split
  · exact absurd ‹_› (h _)
  · rfl

/-- Another thread's step leaves alone what this one is about to return. -/
theorem pending_other (hu : u ≠ t) (p : Phase A) (act : Option τ) (returned : List (Entry τ A E O))
    (order : List (τ × A)) :
    State.pending I ⟨s.store, act, Function.update s.phase t p, returned, order⟩ u
      = s.pending I u := by
  simp only [State.pending, Function.update_of_ne hu]

/-- While the initialiser runs nobody is about to read. -/
theorem Inv.pending_of_active (hi : Inv I s₀ s) (h : s.phase t = .active a) (u : τ) :
    s.pending I u = [] := by
  have hfresh := (hi.fresh t (hi.active t a h)).1
  apply pending_nil
  intro b hb
  rw [hi.passed u b hb] at hfresh
  cases hfresh

/-- A call that the replay makes right after those of `order`. -/
theorem replay_next (hi : Inv I s₀ s) (t : τ) (a : A) :
    replay I s₀ (s.order ++ [(t, a)])
      = ((replay I s₀ s.order).1 ++ [⟨t, a, (I.call a s.store).1⟩], (I.call a s.store).2) := by
  rw [hi.store, replay_append]

/-- A step of `t` changes the place of `t`. -/
theorem phase_cases {p q : Phase A} (h : Function.update s.phase t p u = q) :
    (u = t ∧ p = q) ∨ (u ≠ t ∧ s.phase u = q) := by
  rcases eq_or_ne u t with rfl | hu
  · rw [Function.update_self] at h
    exact .inl ⟨rfl, h⟩
  · rw [Function.update_of_ne hu] at h
    exact .inr ⟨hu, h⟩

/-- Only a step into the initialiser makes a thread active. -/
theorem Inv.active_update (hi : Inv I s₀ s) {p : Phase A} (hp : ∀ b, p ≠ .active b) (u : τ) (b : A)
    (h : Function.update s.phase t p u = .active b) : s.active = some u := by
  rcases phase_cases h with ⟨-, hq⟩ | ⟨-, hq⟩
  · exact absurd hq (hp b)
  · exact hi.active u b hq

/-- Only a step past the initialiser takes a thread to its read. -/
theorem Inv.passed_update (hi : Inv I s₀ s) {p : Phase A} (hp : ∀ b, p ≠ .passed b) (u : τ) (b : A)
    (h : Function.update s.phase t p u = .passed b) : I.done s.store = true := by
  rcases phase_cases h with ⟨-, hq⟩ | ⟨-, hq⟩
  · exact absurd hq (hp b)
  · exact hi.passed u b hq

/-- The active thread stays where it is while another one moves. -/
theorem Inv.fresh_update (hi : Inv I s₀ s) (hold : ∀ b, s.phase t ≠ .active b) (p : Phase A) (u : τ)
    (h : s.active = some u) :
    I.done s.store = false ∧ ∃ b, Function.update s.phase t p u = .active b := by
  obtain ⟨hdone, b, hb⟩ := hi.fresh u h
  have hu : u ≠ t := by
    intro he
    exact hold b (he ▸ hb)
  exact ⟨hdone, b, by rw [Function.update_of_ne hu, hb]⟩

/-! ## One step -/

/-- A step before the protocol deals with the call. -/
theorem Inv.before (hi : Inv I s₀ s) {p : Phase A} (hold : ∀ a, s.phase t ≠ .passed a)
    (hnew : ∀ a, p ≠ .passed a) (act : Option τ) (u : τ) :
    of u (replay I s₀ s.order).1
      = of u s.returned ++
        State.pending I ⟨s.store, act, Function.update s.phase t p, s.returned, s.order⟩ u := by
  rw [hi.returns u]
  rcases eq_or_ne u t with rfl | hu
  · rw [pending_nil hold, pending_nil]
    simpa using hnew
  · rw [pending_other hu]

theorem Inv.arrive (hi : Inv I s₀ s) (h : step I s (t, .arrive a) = some s') : Inv I s₀ s' := by
  obtain ⟨hph, rfl⟩ := step_arrive h
  constructor
  · exact hi.store
  · exact hi.before (by simp [hph]) (by simp) _
  · exact hi.active_update (by simp)
  · exact hi.fresh_update (by simp [hph]) _
  · exact hi.passed_update (by simp)

theorem Inv.enter (hi : Inv I s₀ s) (h : step I s (t, .enter) = some s') : Inv I s₀ s' := by
  obtain ⟨a, hph, hnone, hdone, rfl⟩ := step_enter h
  constructor
  · exact hi.store
  · exact hi.before (by simp [hph]) (by simp) _
  · intro u b hb
    rcases phase_cases hb with ⟨rfl, -⟩ | ⟨-, hq⟩
    · rfl
    · rw [hi.active u b hq] at hnone
      cases hnone
  · intro u hu
    cases hu
    exact ⟨hdone, a, Function.update_self ..⟩
  · exact hi.passed_update (by simp)

theorem Inv.skip (hi : Inv I s₀ s) (h : step I s (t, .skip) = some s') : Inv I s₀ s' := by
  obtain ⟨a, hph, hdone, rfl⟩ := step_skip h
  have hreplay := replay_next hi t a
  rw [call_of_done hdone] at hreplay
  constructor
  · rw [hreplay]
  · intro u
    rw [hreplay, of_append, hi.returns u]
    rcases eq_or_ne u t with rfl | hu
    · rw [pending_nil (s := s) (by simp [hph]), of_self, pending_passed (Function.update_self ..)]
      simp
    · rw [of_other hu, List.append_nil, pending_other hu]
  · exact hi.active_update (by simp)
  · exact hi.fresh_update (by simp [hph]) _
  · intro u b _
    exact hdone

theorem Inv.finish (hi : Inv I s₀ s) (h : step I s (t, .finish) = some s') : Inv I s₀ s' := by
  obtain ⟨a, hph, hend⟩ := step_finish h
  have hactive := hi.active t a hph
  have hdone := (hi.fresh t hactive).1
  have hreplay := replay_next hi t a
  have hpend := hi.pending_of_active hph
  -- the only active thread is through with the initialiser
  have hothers : ∀ {p : Phase A}, (∀ b, p ≠ .active b) → ∀ u b,
      Function.update s.phase t p u ≠ .active b := by
    intro p hp u b hb
    rcases phase_cases hb with ⟨-, hq⟩ | ⟨hu, hq⟩
    · exact hp b hq
    · have hactive' := hi.active u b hq
      rw [hactive] at hactive'
      exact hu (Option.some.inj hactive').symm
  rcases hend with ⟨st, hinit, rfl⟩ | ⟨e, hinit, rfl⟩
  · rw [call_of_ok hdone hinit] at hreplay
    constructor
    · rw [hreplay]
    · intro u
      rw [hreplay, of_append, hi.returns u, hpend u]
      rcases eq_or_ne u t with rfl | hu
      · rw [of_self, pending_passed (Function.update_self ..)]
        simp
      · have hnot : ∀ b, Function.update s.phase t (.passed a) u ≠ .passed b := by
          intro b hb
          rw [Function.update_of_ne hu] at hb
          rw [hi.passed u b hb] at hdone
          cases hdone
        rw [of_other hu, pending_nil hnot]
        simp
    · intro u b hb
      exact absurd hb (hothers (by simp) u b)
    · nofun
    · intro u b _
      exact I.done_init a s.store st hinit
  · rw [call_of_error hdone hinit] at hreplay
    constructor
    · rw [hreplay]
    · intro u
      rw [hreplay, of_append, of_append, hi.returns u, hpend u]
      rcases eq_or_ne u t with rfl | hu
      · rw [of_self, pending_nil (by simp)]
        simp
      · rw [of_other hu, pending_other hu, hpend u]
    · intro u b hb
      exact absurd hb (hothers (by simp) u b)
    · nofun
    · exact hi.passed_update (by simp)

theorem Inv.leave (hi : Inv I s₀ s) (h : step I s (t, .leave) = some s') : Inv I s₀ s' := by
  obtain ⟨a, hph, rfl⟩ := step_leave h
  constructor
  · exact hi.store
  · intro u
    rw [hi.returns u, of_append]
    rcases eq_or_ne u t with rfl | hu
    · rw [pending_passed hph, of_self, pending_nil (by simp), List.append_nil]
    · rw [of_other hu, List.append_nil, pending_other hu]
  · exact hi.active_update (by simp)
  · exact hi.fresh_update (by simp [hph]) _
  · exact hi.passed_update (by simp)

end Invariant

theorem inv_step (s : State τ A σ E O) (e : τ × Action A) (s' : State τ A σ E O)
    (hi : Inv I s₀ s) (h : step I s e = some s') : Inv I s₀ s' := by
  obtain ⟨t, act⟩ := e
  cases act with
  | arrive a => exact hi.arrive h
  | enter => exact hi.enter h
  | skip => exact hi.skip h
  | finish => exact hi.finish h
  | leave => exact hi.leave h

/-! ## Whole runs -/

theorem inv_exec (es : List (τ × Action A)) {s : State τ A σ E O}
    (h : Runs.exec (step I) (State.initial s₀) es = some s) : Inv I s₀ s :=
  Runs.exec_invariant (step I) inv_step es inv_initial h

/-- The store is fresh, or a call of the order has initialised it. -/
theorem Inv.init {s : State τ A σ E O} (hi : Inv I s₀ s) (hnew : I.done s₀ = false) :
    s.store = s₀ ∨ ∃ c ∈ s.order, I.init c.2 s₀ = .ok s.store :=
  hi.store ▸ replay_store hnew s.order

/-- Whoever got a value got what is read now; whoever got an exception
got the one of its own call. -/
theorem Inv.result {s : State τ A σ E O} (hi : Inv I s₀ s) (hnew : I.done s₀ = false)
    {x : Entry τ A E O} (hx : x ∈ s.returned) :
    (∃ e, I.init x.arg s₀ = .error e ∧ x.result = .error e) ∨
    (I.done s.store = true ∧ x.result = .ok (I.read s.store)) := by
  have hof : x ∈ of x.thread (replay I s₀ s.order).1 := by
    rw [hi.returns]
    exact List.mem_append_left _ (List.mem_filter.mpr ⟨hx, by simp⟩)
  rw [hi.store]
  exact replay_result hnew s.order x (List.mem_of_mem_filter hof)

/-- The argument of the call the thread is in. -/
def Phase.arg : Phase A → Option A
  | .outside => none
  | .arrived a => some a
  | .active a => some a
  | .passed a => some a

/-- The call the step makes. -/
def Action.call? : Action A → Option A
  | .arrive a => some a
  | _ => none

/-- The calls that `t` makes in a schedule. -/
def callsOf (t : τ) (es : List (τ × Action A)) : List A :=
  es.filterMap (fun e => if e.1 = t then e.2.call? else none)

/-- The calls of `t` that have returned, and the one it is in. -/
def State.calls (s : State τ A σ E O) (t : τ) : List A :=
  (of t s.returned).map Entry.arg ++ (s.phase t).arg.toList

theorem callsOf_append (t : τ) (es fs : List (τ × Action A)) :
    callsOf t (es ++ fs) = callsOf t es ++ callsOf t fs :=
  List.filterMap_append ..

theorem callsOf_other {t u : τ} (hu : u ≠ t) (act : Action A) : callsOf u [(t, act)] = [] := by
  simp [callsOf, hu.symm]

theorem callsOf_self (t : τ) (act : Action A) : callsOf t [(t, act)] = act.call?.toList := by
  cases act <;> simp [callsOf, Action.call?]

theorem mem_of_mem_callsOf {t : τ} {a : A} {es : List (τ × Action A)} (h : a ∈ callsOf t es) :
    (t, Action.arrive a) ∈ es := by
  obtain ⟨⟨u, act⟩, he, hcall⟩ := List.mem_filterMap.mp h
  split at hcall
  · rename_i hu
    cases hu
    cases act <;> cases hcall
    exact he
  · cases hcall

/-- A step of `t` makes a call, goes on with one, or returns from one. -/
theorem calls_step {s s' : State τ A σ E O} {e : τ × Action A} (h : step I s e = some s') (u : τ) :
    s'.calls u = s.calls u ++ callsOf u [e] := by
  obtain ⟨t, act⟩ := e
  rcases eq_or_ne u t with rfl | hu
  · rw [callsOf_self]
    cases act with
    | arrive a =>
      obtain ⟨hph, rfl⟩ := step_arrive h
      simp [State.calls, Action.call?, Phase.arg, hph]
    | enter =>
      obtain ⟨a, hph, -, -, rfl⟩ := step_enter h
      simp [State.calls, Action.call?, Phase.arg, hph]
    | skip =>
      obtain ⟨a, hph, -, rfl⟩ := step_skip h
      simp [State.calls, Action.call?, Phase.arg, hph]
    | finish =>
      obtain ⟨a, hph, ⟨st, -, rfl⟩ | ⟨e, -, rfl⟩⟩ := step_finish h
      · simp [State.calls, Action.call?, Phase.arg, hph]
      · simp [State.calls, Action.call?, Phase.arg, hph, of_append, of_self]
    | leave =>
      obtain ⟨a, hph, rfl⟩ := step_leave h
      simp [State.calls, Action.call?, Phase.arg, hph, of_append, of_self]
  · rw [callsOf_other hu, List.append_nil]
    cases act with
    | arrive a =>
      obtain ⟨-, rfl⟩ := step_arrive h
      simp [State.calls, Function.update_of_ne hu]
    | enter =>
      obtain ⟨a, -, -, -, rfl⟩ := step_enter h
      simp [State.calls, Function.update_of_ne hu]
    | skip =>
      obtain ⟨a, -, -, rfl⟩ := step_skip h
      simp [State.calls, Function.update_of_ne hu]
    | finish =>
      obtain ⟨a, -, ⟨st, -, rfl⟩ | ⟨e, -, rfl⟩⟩ := step_finish h
      · simp [State.calls, Function.update_of_ne hu]
      · simp [State.calls, Function.update_of_ne hu, of_append, of_other hu]
    | leave =>
      obtain ⟨a, -, rfl⟩ := step_leave h
      simp [State.calls, Function.update_of_ne hu, of_append, of_other hu]

/-- No call is lost, and none returns twice. -/
theorem calls_exec (es : List (τ × Action A)) {s s' : State τ A σ E O}
    (h : Runs.exec (step I) s es = some s') (t : τ) : s'.calls t = s.calls t ++ callsOf t es := by
  induction es generalizing s with
  | nil =>
    cases h
    simp [callsOf]
  | cons e es ih =>
    rw [Runs.exec_cons] at h
    obtain ⟨m, he, hm⟩ := Option.bind_eq_some_iff.mp h
    rw [ih hm, calls_step he, List.append_assoc, ← callsOf_append, List.singleton_append]

omit [DecidableEq τ] in
theorem replay_calls (I : Initialiser A σ E O) (s₀ : σ) (order : List (τ × A)) :
    (replay I s₀ order).1.map (fun x => (x.thread, x.arg)) = order := by
  induction order using List.reverseRecOn with
  | nil => rfl
  | append_singleton order c ih =>
    rw [replay_append, List.map_append, ih]
    rfl

/-- The order is made of calls of the run. -/
theorem order_made (es : List (τ × Action A)) {s : State τ A σ E O}
    (h : Runs.exec (step I) (State.initial s₀) es = some s) {c : τ × A} (hc : c ∈ s.order) :
    (c.1, Action.arrive c.2) ∈ es := by
  rw [← replay_calls I s₀ s.order] at hc
  obtain ⟨x, hx, rfl⟩ := List.mem_map.mp hc
  have hcalls := calls_exec es h x.thread
  have hof : x ∈ of x.thread (replay I s₀ s.order).1 := List.mem_filter.mpr ⟨hx, by simp⟩
  rw [(inv_exec es h).returns] at hof
  apply mem_of_mem_callsOf
  have hmine : x.arg ∈ s.calls x.thread := by
    rcases List.mem_append.mp hof with hret | hpend
    · exact List.mem_append_left _ (List.mem_map_of_mem hret)
    · unfold State.pending at hpend
      split at hpend
      · rename_i a hph
        have harg : x.arg = a := congrArg Entry.arg (List.mem_singleton.mp hpend)
        simp [State.calls, hph, Phase.arg, harg]
      · cases hpend
  rw [hcalls] at hmine
  simpa [State.calls, State.initial, of, Phase.arg] using hmine

/-- What the protocol is through with it does not take up again. -/
theorem order_step {s s' : State τ A σ E O} {e : τ × Action A} (h : step I s e = some s') :
    s.order <+: s'.order := by
  obtain ⟨t, act⟩ := e
  cases act with
  | arrive a =>
    obtain ⟨-, rfl⟩ := step_arrive h
    exact List.prefix_rfl
  | enter =>
    obtain ⟨a, -, -, -, rfl⟩ := step_enter h
    exact List.prefix_rfl
  | skip =>
    obtain ⟨a, -, -, rfl⟩ := step_skip h
    exact List.prefix_append _ _
  | finish =>
    obtain ⟨a, -, ⟨st, -, rfl⟩ | ⟨e, -, rfl⟩⟩ := step_finish h
    · exact List.prefix_append _ _
    · exact List.prefix_append _ _
  | leave =>
    obtain ⟨a, -, rfl⟩ := step_leave h
    exact List.prefix_rfl

/-- A later call comes later in the order. -/
theorem order_prefix (es : List (τ × Action A)) {s s' : State τ A σ E O}
    (h : Runs.exec (step I) s es = some s') : s.order <+: s'.order :=
  Runs.exec_invariant (step I) (P := fun m => s.order <+: m.order)
    (fun _ _ _ hm he => hm.trans (order_step he)) es List.prefix_rfl h

/-! ## Every call returns -/

/-- The steps a thread still has to take. -/
def Phase.work : Phase A → Nat
  | .outside => 0
  | .arrived _ => 3
  | .active _ => 2
  | .passed _ => 1

/-- Every step but the making of a call. -/
def Action.closes : Action A → Bool
  | .arrive _ => false
  | _ => true

/-- No call is under way. -/
def State.Quiet (s : State τ A σ E O) : Prop := ∀ t, s.phase t = .outside

theorem Phase.work_le (p : Phase A) : p.work ≤ 3 := by
  cases p <;> simp [Phase.work]

/-- Steps that make no call. -/
theorem callsOf_closing {es : List (τ × Action A)} (h : ∀ e ∈ es, e.2.closes = true) (t : τ) :
    callsOf t es = [] := by
  rw [callsOf, List.filterMap_eq_nil_iff]
  rintro ⟨u, act⟩ he
  cases act with
  | arrive a => cases h _ he
  | enter => exact ite_self none
  | skip => exact ite_self none
  | finish => exact ite_self none
  | leave => exact ite_self none

/-- Where no call is under way, the calls of `t` are those that have
returned. -/
theorem State.Quiet.calls {s : State τ A σ E O} (h : s.Quiet) (t : τ) :
    s.calls t = (of t s.returned).map Entry.arg := by
  simp [State.calls, h t, Phase.arg]

section Progress

variable {s s' : State τ A σ E O}

/-- A step of a call uses up some of its thread's work. -/
theorem step_closes {t : τ} {act : Action A} (ha : act.closes = true)
    (h : step I s (t, act) = some s') :
    ∃ p, s'.phase = Function.update s.phase t p ∧ p.work < (s.phase t).work := by
  cases act with
  | arrive a => cases ha
  | enter =>
    obtain ⟨a, hph, -, -, rfl⟩ := step_enter h
    exact ⟨_, rfl, by simp [hph, Phase.work]⟩
  | skip =>
    obtain ⟨a, hph, -, rfl⟩ := step_skip h
    exact ⟨_, rfl, by simp [hph, Phase.work]⟩
  | finish =>
    obtain ⟨a, hph, ⟨st, -, rfl⟩ | ⟨e, -, rfl⟩⟩ := step_finish h
    · exact ⟨_, rfl, by simp [hph, Phase.work]⟩
    · exact ⟨_, rfl, by simp [hph, Phase.work]⟩
  | leave =>
    obtain ⟨a, hph, rfl⟩ := step_leave h
    exact ⟨_, rfl, by simp [hph, Phase.work]⟩

theorem work_step {e : τ × Action A} (he : e.2.closes = true) (h : step I s e = some s') (t : τ) :
    (s'.phase t).work + (decide (e.1 = t)).toNat ≤ (s.phase t).work := by
  obtain ⟨u, act⟩ := e
  obtain ⟨p, hphase, hlt⟩ := step_closes he h
  rw [hphase]
  by_cases hu : u = t
  · subst hu
    rw [Function.update_self, decide_eq_true rfl]
    exact hlt
  · rw [Function.update_of_ne (Ne.symm hu)]
    simp [hu]

/-- A thread that makes no new call takes at most three steps more. -/
theorem count_steps_le {es : List (τ × Action A)} (hes : ∀ e ∈ es, e.2.closes = true)
    (h : Runs.exec (step I) s es = some s') (t : τ) :
    es.countP (fun e => decide (e.1 = t)) ≤ 3 := by
  have hkeep : ∀ (r : State τ A σ E O) (e : τ × Action A) (r' : State τ A σ E O), True →
      e.2.closes = true → step I r e = some r' →
      True ∧ (r'.phase t).work + (decide (e.1 = t)).toNat ≤ (r.phase t).work :=
    fun _ _ _ _ he hstep => ⟨trivial, work_step he hstep t⟩
  obtain ⟨-, hle⟩ := Runs.exec_countP_le (fun e => decide (e.1 = t)) (fun s => (s.phase t).work)
    hkeep es trivial hes h
  have hthree := (s.phase t).work_le
  omega

/-- A thread that runs the initialiser can end it. -/
theorem exists_finish {t : τ} {a : A} (hph : s.phase t = .active a) :
    ∃ s', step I s (t, .finish) = some s' := by
  simp only [step, hph]
  split
  · exact ⟨_, rfl⟩
  · exact ⟨_, rfl⟩

/-- While a call is under way, some thread can go on. A thread that
waits does so for the one that runs the initialiser, which does not wait. -/
theorem exists_move (hi : Inv I s₀ s) (hnot : ¬ s.Quiet) :
    ∃ e s', e.2.closes = true ∧ step I s e = some s' := by
  obtain ⟨t, ht⟩ : ∃ t, s.phase t ≠ .outside := by
    simpa only [State.Quiet, not_forall] using hnot
  cases hph : s.phase t with
  | outside => exact absurd hph ht
  | active a =>
    obtain ⟨s', hs'⟩ := exists_finish (I := I) hph
    exact ⟨(t, .finish), s', rfl, hs'⟩
  | passed a => exact ⟨(t, .leave), _, rfl, by simp only [step, hph]; rfl⟩
  | arrived a =>
    cases hdone : I.done s.store with
    | true => exact ⟨(t, .skip), _, rfl, by simp only [step, hph, hdone, if_true]; rfl⟩
    | false =>
      cases hactive : s.active with
      | none => exact ⟨(t, .enter), _, rfl, by simp [step, hph, hdone, hactive]; rfl⟩
      | some u =>
        obtain ⟨-, b, hb⟩ := hi.fresh u hactive
        obtain ⟨s', hs'⟩ := exists_finish (I := I) hb
        exact ⟨(u, .finish), s', rfl, hs'⟩

end Progress

end Once
