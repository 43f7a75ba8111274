/-
Comproject.Base.SingletonThreadsTheorems — what several threads get from
the singleton.

One call of `Once.Initialiser` is one call of the class
(`call_eq_instanceArgs`), so the replay of `Comproject.Lib.Once` is a run
of `Singleton.step`, and the threads' runs are linearizable
(`instance_linearizable`): the order in which `call_once` was through
with the calls explains what every thread got, and a later call never
comes earlier in it.

From the same invariant: one object for all threads, whichever of them
built it, and to each failed constructor its own caller's exception
(`instance_one_object`, `defaultInstance_one_object`); and every call
returns if the constructors do (`instance_calls_return`).
-/
import Comproject.Base.SingletonThreads
import Comproject.Base.SingletonTheorems

namespace Comproject.Base

namespace Singleton

variable {T E Args τ : Type} (ctor : Args → Except E T) (typeName : String)

/-! ## One call -/

/-- A call of the initialiser is `Instance(args...)`. -/
theorem call_eq_instanceArgs (s : Singleton T) (args : Args) :
    (Outcome.ofResult ((once ctor).call args s).1, ((once ctor).call args s).2)
      = s.step ctor typeName (.instanceArgs args) := by
  cases hf : s.static_inited_once_flag_ with
  | true =>
    rw [step_instanceArgs_of_flag ctor typeName hf, Once.call_of_done (I := once ctor) hf]
    rfl
  | false =>
    cases hc : ctor args with
    | error e =>
      have hinit : (once ctor).init args s = .error e := by
        simp [once, callOnce, construct, hf, hc]
      rw [step_instanceArgs_error ctor typeName hf hc,
        Once.call_of_error (I := once ctor) hf hinit]
      rfl
    | ok v =>
      have hinit : (once ctor).init args s
          = .ok { static_ptr_instance_ := some ⟨s.constructed, v⟩
                  static_inited_once_flag_ := true
                  alive := ⟨s.constructed, v⟩ :: s.aliveWithout
                  constructed := s.constructed + 1 } := by
        simp [once, callOnce, construct, hf, hc]
      rw [step_instanceArgs_ok ctor typeName hf hc,
        Once.call_of_ok (I := once ctor) hf hinit]
      rfl

/-! ## Calls one after the other -/

theorem run_calls_append (order : List (τ × Args)) (c : τ × Args) :
    run ctor typeName ((order ++ [c]).map (fun c => .instanceArgs c.2))
      = ((run ctor typeName (order.map (fun c => .instanceArgs c.2))).step ctor typeName
          (.instanceArgs c.2)).2 := by
  rw [List.map_append, List.map_singleton, run_append_singleton]

theorem answers_append (order : List (τ × Args)) (c : τ × Args) (s : Singleton T) :
    answers ctor typeName s (order ++ [c])
      = answers ctor typeName s order ++
        [⟨c.1, c.2, ((order.foldl (fun s c => (s.step ctor typeName (.instanceArgs c.2)).2) s).step
          ctor typeName (.instanceArgs c.2)).1⟩] := by
  induction order generalizing s with
  | nil => rfl
  | cons d order ih =>
    simp only [List.cons_append, answers, List.foldl_cons]
    rw [ih]

theorem run_calls_eq_foldl (order : List (τ × Args)) :
    run ctor typeName (order.map (fun c => .instanceArgs c.2))
      = order.foldl (fun s c => (s.step ctor typeName (.instanceArgs c.2)).2) (initial T) := by
  rw [run, List.foldl_map]

/-- The replay of the library is a run of the class. -/
theorem replay_eq_answers (order : List (τ × Args)) :
    (Once.replay (once ctor) (initial T) order).1.map
        (fun x => ⟨x.thread, x.arg, .ofResult x.result⟩)
      = answers ctor typeName (initial T) order
    ∧ (Once.replay (once ctor) (initial T) order).2
      = run ctor typeName (order.map (fun c => .instanceArgs c.2)) := by
  induction order using List.reverseRecOn with
  | nil => exact ⟨rfl, rfl⟩
  | append_singleton order c ih =>
    obtain ⟨hanswers, hstore⟩ := ih
    have hcall := call_eq_instanceArgs ctor typeName
      (run ctor typeName (order.map (fun c => .instanceArgs c.2))) c.2
    rw [Once.replay_append, hstore, answers_append, ← run_calls_eq_foldl, run_calls_append, ← hcall]
    refine ⟨?_, rfl⟩
    rw [List.map_append, hanswers, List.map_singleton]

/-! ## One order for all threads -/

section Threads

variable [DecidableEq τ]

theorem Threads.explained {s : Threads τ Args T E}
    (hi : Once.Inv (once ctor) (Singleton.initial T) s) : s.Explained ctor typeName s.order := by
  obtain ⟨hanswers, hstore⟩ := replay_eq_answers ctor typeName s.order
  refine ⟨hi.store.trans hstore, fun t => ?_⟩
  refine ⟨(s.pending (once ctor) t).map (fun x => ⟨x.thread, x.arg, .ofResult x.result⟩), ?_, ?_, ?_⟩
  · rw [← hanswers, List.filter_map, Threads.answersTo, ← List.map_append, ← hi.returns t]
    rfl
  · unfold Once.State.pending
    split
    · exact Nat.le_refl 1
    · exact Nat.zero_le 1
  · intro hnot
    rw [Once.pending_nil hnot]
    rfl

/-- **Linearizability of `Instance(args...)`.** Cut a run of the threads
anywhere. The calls that `call_once` is through with at the cut, in some
order, explain what every thread has got by then; and the same order,
continued, explains what every thread has got at the end. All of them are
calls of the run. -/
theorem instance_linearizable (es fs : List (τ × Once.Action Args)) (m s : Threads τ Args T E)
    (hm : Runs.exec (Once.step (once ctor)) (Threads.initial τ Args T E) es = some m)
    (hs : Runs.exec (Once.step (once ctor)) m fs = some s) :
    ∃ order later,
      m.Explained ctor typeName order
      ∧ s.Explained ctor typeName (order ++ later)
      ∧ (∀ c ∈ order, (c.1, Once.Action.arrive c.2) ∈ es)
      ∧ ∀ c ∈ later, (c.1, Once.Action.arrive c.2) ∈ es ++ fs := by
  have hall : Runs.exec (Once.step (once ctor)) (Threads.initial τ Args T E) (es ++ fs) = some s := by
    rw [Runs.exec_append, hm]
    exact hs
  obtain ⟨later, hlater⟩ := Once.order_prefix fs hs
  refine ⟨m.order, later, Threads.explained ctor typeName (Once.inv_exec es hm), ?_,
    fun c hc => Once.order_made es hm hc, fun c hc => ?_⟩
  · rw [hlater]
    exact Threads.explained ctor typeName (Once.inv_exec (es ++ fs) hall)
  · refine Once.order_made (es ++ fs) hall ?_
    rw [← hlater]
    exact List.mem_append_right _ hc

/-- The first thread's constructor refuses, the second thread builds, and
the first gets the object the second built when it asks again. -/
theorem instance_linearizable_retry :
    ∃ m s : Threads Bool Nat Nat String,
      Runs.exec (Once.step (once positiveCtor)) (Threads.initial Bool Nat Nat String)
          [(false, .arrive 0), (true, .arrive 5), (false, .enter), (false, .finish),
            (true, .enter), (false, .arrive 7), (true, .finish)] = some m
      ∧ Runs.exec (Once.step (once positiveCtor)) m
          [(false, .skip), (true, .leave), (false, .leave)] = some s
      ∧ ∃ order later,
          m.Explained positiveCtor "T" order
          ∧ s.Explained positiveCtor "T" (order ++ later)
          ∧ (∀ c ∈ order, (c.1, Once.Action.arrive c.2) ∈
              [(false, Once.Action.arrive 0), (true, .arrive 5), (false, .enter), (false, .finish),
                (true, .enter), (false, .arrive 7), (true, .finish)])
          ∧ ∀ c ∈ later, (c.1, Once.Action.arrive c.2) ∈
              [(false, Once.Action.arrive 0), (true, .arrive 5), (false, .enter), (false, .finish),
                (true, .enter), (false, .arrive 7), (true, .finish)]
                ++ [(false, .skip), (true, .leave), (false, .leave)] :=
  ⟨_, _, rfl, rfl, instance_linearizable positiveCtor "T" _ _ _ _ rfl rfl⟩

/-! ## One object -/

/-- A first construction. -/
theorem once_init_ok {args : Args} {s : Singleton T}
    (h : (once ctor).init args (Singleton.initial T) = .ok s) :
    ∃ v, ctor args = .ok v ∧ s = ⟨some ⟨0, v⟩, true, [⟨0, v⟩], 1⟩ := by
  cases hc : ctor args with
  | error e => simp [once, callOnce, construct, Singleton.initial, hc] at h
  | ok v =>
    simp only [once, callOnce, construct, Singleton.initial, aliveWithout, hc, Bool.false_eq_true,
      if_false, Except.ok.injEq] at h
    exact ⟨v, rfl, h.symm⟩

theorem once_init_error {args : Args} {e : E}
    (h : (once ctor).init args (Singleton.initial T) = .error e) : ctor args = .error e := by
  cases hc : ctor args with
  | error e' => simpa [once, callOnce, construct, Singleton.initial, hc] using h
  | ok v => simp [once, callOnce, construct, Singleton.initial, hc] at h

/-- **One object for all threads.** However the threads' calls of
`Instance(args...)` interleave, at most one object is built; every call
that has returned got a reference to it, and it is alive; or its own
arguments' constructor threw, and it got that exception. No call
dereferences a null pointer. -/
theorem instance_one_object (es : List (τ × Once.Action Args)) (s : Threads τ Args T E)
    (h : Runs.exec (Once.step (once ctor)) (Threads.initial τ Args T E) es = some s) :
    s.store.constructed ≤ 1
    ∧ ∀ x ∈ s.returned,
        (∃ e, ctor x.arg = .error e ∧ x.result = .error e)
        ∨ ∃ o, x.result = .ok (.reference o) ∧ s.store.alive = [o]
            ∧ ∃ t args, (t, Once.Action.arrive args) ∈ es ∧ ctor args = .ok o.value := by
  have hi := Once.inv_exec es h
  have hnew : (once ctor).done (Singleton.initial T) = false := rfl
  rcases hi.init hnew with hstore | ⟨c, hc, hinit⟩
  · refine ⟨by simp [hstore, Singleton.initial], fun x hx => ?_⟩
    rcases hi.result hnew hx with ⟨e, he, hres⟩ | ⟨hdone, -⟩
    · exact .inl ⟨e, once_init_error ctor he, hres⟩
    · rw [hstore] at hdone
      cases hdone
  · obtain ⟨v, hv, hstore⟩ := once_init_ok ctor hinit
    refine ⟨by simp [hstore], fun x hx => ?_⟩
    rcases hi.result hnew hx with ⟨e, he, hres⟩ | ⟨-, hres⟩
    · exact .inl ⟨e, once_init_error ctor he, hres⟩
    · rw [hstore] at hres ⊢
      exact .inr ⟨⟨0, v⟩, hres, rfl, c.1, c.2, Once.order_made es h hc, hv⟩

theorem instance_one_object_race :
    ∃ s : Threads Bool Nat Nat String,
      Runs.exec (Once.step (once positiveCtor)) (Threads.initial Bool Nat Nat String)
          [(false, .arrive 3), (true, .arrive 5), (true, .enter), (true, .finish), (false, .skip),
            (false, .leave), (true, .leave)] = some s
      ∧ s.returned.length = 2
      ∧ s.store.constructed ≤ 1
      ∧ ∀ x ∈ s.returned,
        (∃ e, positiveCtor x.arg = .error e ∧ x.result = .error e)
        ∨ ∃ o, x.result = .ok (.reference o) ∧ s.store.alive = [o]
            ∧ ∃ t args, (t, Once.Action.arrive args) ∈
                [(false, Once.Action.arrive 3), (true, .arrive 5), (true, .enter), (true, .finish),
                  (false, .skip), (false, .leave), (true, .leave)]
              ∧ positiveCtor args = .ok o.value :=
  ⟨_, rfl, rfl, instance_one_object positiveCtor _ _ rfl⟩

/-! ## Every call returns -/

/-- **No call is lost.** Let the threads stop making new calls in any
state they can reach. However the calls under way go on, no thread takes
more than three steps for its own; and as long as `T`'s constructor
returns, in the object or in an exception, they never all wait, so that in
the end every call each thread made has returned to it, once and in the
thread's own order. -/
theorem instance_calls_return (es fs : List (τ × Once.Action Args)) (m s : Threads τ Args T E)
    (hm : Runs.exec (Once.step (once ctor)) (Threads.initial τ Args T E) es = some m)
    (hclosing : ∀ e ∈ fs, e.2.closes = true)
    (hs : Runs.exec (Once.step (once ctor)) m fs = some s) :
    (∀ t, fs.countP (fun e => decide (e.1 = t)) ≤ 3)
    ∧ ((∃ e s', e.2.closes = true ∧ Once.step (once ctor) s e = some s')
      ∨ ∀ t, (s.answersTo t).map Answer.args = Once.callsOf t es) := by
  refine ⟨Once.count_steps_le hclosing hs, ?_⟩
  by_cases hquiet : s.Quiet
  · right
    intro t
    calc (s.answersTo t).map Answer.args
        = (Once.of t s.returned).map Once.Entry.arg := by
          rw [Threads.answersTo, List.map_map]
          rfl
      _ = s.calls t := (hquiet.calls t).symm
      _ = m.calls t := by
          rw [Once.calls_exec fs hs t, Once.callsOf_closing hclosing, List.append_nil]
      _ = Once.callsOf t es := Once.calls_exec es hm t
  · have hall : Runs.exec (Once.step (once ctor)) (Threads.initial τ Args T E) (es ++ fs)
        = some s := by
      rw [Runs.exec_append, hm]
      exact hs
    exact .inl (Once.exists_move (Once.inv_exec (es ++ fs) hall) hquiet)

/-- Both calls are under way. The first thread needs two steps and the
second two. -/
theorem instance_calls_return_race :
    ∃ m s : Threads Bool Nat Nat String,
      Runs.exec (Once.step (once positiveCtor)) (Threads.initial Bool Nat Nat String)
          [(false, .arrive 3), (true, .arrive 5), (true, .enter)] = some m
      ∧ Runs.exec (Once.step (once positiveCtor)) m
          [(true, .finish), (false, .skip), (false, .leave), (true, .leave)] = some s
      ∧ (∀ t, [(true, Once.Action.finish), (false, .skip), (false, .leave),
          ((true, .leave) : Bool × Once.Action Nat)].countP (fun e => decide (e.1 = t)) ≤ 3)
      ∧ ((∃ e s', e.2.closes = true ∧ Once.step (once positiveCtor) s e = some s')
        ∨ ∀ t, (s.answersTo t).map Answer.args
            = Once.callsOf t [(false, .arrive 3), (true, .arrive 5), (true, .enter)]) :=
  ⟨_, _, rfl, rfl, instance_calls_return positiveCtor _
    [(true, .finish), (false, .skip), (false, .leave), (true, .leave)] _ _ rfl (by decide) rfl⟩

end Threads

end Singleton

/-! ## The default singleton -/

namespace DefaultSingleton

variable {T E τ : Type}

/-- A first construction. -/
theorem init_initial {ctor : Except E T} {s : DefaultSingleton T}
    (h : (once T E).init ctor (DefaultSingleton.initial T) = .ok s) :
    ∃ v, ctor = .ok v ∧ s = ⟨some ⟨0, v⟩, 1⟩ := by
  cases ctor with
  | error e => cases h
  | ok v =>
    cases h
    exact ⟨v, rfl, rfl⟩

variable [DecidableEq τ]

/-- **The default `Instance()`.** However the threads' calls interleave,
and whichever of the constructor's attempts throw, at most one object is
built. Every call that has returned ran the constructor itself and got
the exception of that attempt, or it got the one object, which some call's
attempt built. -/
theorem defaultInstance_one_object (es : List (τ × Once.Action (Except E T)))
    (s : Threads τ T E)
    (h : Runs.exec (Once.step (once T E)) (Threads.initial τ T E) es = some s) :
    s.store.constructed ≤ 1
    ∧ ∀ x ∈ s.returned,
        (∃ e, x.arg = .error e ∧ x.result = .error e)
        ∨ ∃ o, x.result = .ok (some o) ∧ s.store.static_instance_ = some o
            ∧ ∃ t, (t, Once.Action.arrive (.ok o.value)) ∈ es := by
  have hi := Once.inv_exec es h
  have hnew : (once T E).done (DefaultSingleton.initial T) = false := rfl
  have hthrew : ∀ {ctor : Except E T} {e : E},
      (once T E).init ctor (DefaultSingleton.initial T) = .error e → ctor = .error e := by
    intro ctor e he
    cases ctor with
    | error e' => exact congrArg _ (Except.error.inj he)
    | ok v => cases he
  rcases hi.init hnew with hstore | ⟨c, hc, hinit⟩
  · refine ⟨by simp [hstore, DefaultSingleton.initial], fun x hx => ?_⟩
    rcases hi.result hnew hx with ⟨e, he, hres⟩ | ⟨hdone, -⟩
    · exact .inl ⟨e, hthrew he, hres⟩
    · rw [hstore] at hdone
      cases hdone
  · obtain ⟨v, hv, hstore⟩ := init_initial hinit
    refine ⟨by simp [hstore], fun x hx => ?_⟩
    rcases hi.result hnew hx with ⟨e, he, hres⟩ | ⟨-, hres⟩
    · exact .inl ⟨e, hthrew he, hres⟩
    · rw [hstore] at hres ⊢
      refine .inr ⟨⟨0, v⟩, hres, rfl, c.1, ?_⟩
      rw [← hv]
      exact Once.order_made es h hc

/-- The first attempt throws, the second one succeeds, and the third call
does not run the constructor, which would throw again. -/
def throwsOnce : List (Bool × Once.Action (Except String Nat)) :=
  [(true, .arrive (.error "no memory")), (false, .arrive (.ok 7)), (true, .enter),
    (true, .finish), (true, .arrive (.error "no memory")), (false, .enter), (false, .finish),
    (true, .skip), (true, .leave), (false, .leave)]

theorem defaultInstance_one_object_throwsOnce :
    ∃ s : Threads Bool Nat String,
      Runs.exec (Once.step (once Nat String)) (Threads.initial Bool Nat String) throwsOnce = some s
      ∧ s.returned.length = 3
      ∧ s.store.constructed ≤ 1
      ∧ ∀ x ∈ s.returned,
        (∃ e, x.arg = .error e ∧ x.result = .error e)
        ∨ ∃ o, x.result = .ok (some o) ∧ s.store.static_instance_ = some o
            ∧ ∃ t, (t, Once.Action.arrive (.ok o.value)) ∈ throwsOnce :=
  ⟨_, rfl, rfl, defaultInstance_one_object throwsOnce _ rfl⟩

end DefaultSingleton

end Comproject.Base
