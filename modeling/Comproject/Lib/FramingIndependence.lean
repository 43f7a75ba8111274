/-
Comproject.Lib.FramingIndependence — the streams whose framing does not
depend on how they are cut.

A stream splits into requests, each ending with its first `d d`, and a
rest without the pair (`requests`). Read symbol by symbol, exactly the
requests go out. Another cut gives another result in one of two ways.
Where a rest follows, a read of two symbols takes the first of it along.
Where no rest follows, a flush between the two symbols of the last pair
leaves the last symbol behind: `empties_dropLast_iff` decides that from
the lengths of the requests and the symbols they begin with.
-/
import Comproject.Lib.Framing

namespace Framing

variable {α : Type*} {d : α}

/-! ## Requests -/

variable (d) in
/-- A request: the pair at its end and nowhere before. -/
structure IsRequest (r : List α) : Prop where
  has : Has d r
  not_has_dropLast : ¬ Has d r.dropLast

/-- A request ends with the pair. -/
theorem IsRequest.eq_append {r : List α} (h : IsRequest d r) :
    ∃ b, r = b ++ [d, d] ∧ r.dropLast = b ++ [d] ∧ ¬ Has d (b ++ [d]) := by
  obtain ⟨s, t, hst⟩ := h.has
  rcases List.eq_nil_or_concat t with rfl | ⟨t, a, rfl⟩
  · have hr : r = s ++ [d, d] := by simpa using hst.symm
    have hdrop : r.dropLast = s ++ [d] := by
      rw [hr, show s ++ [d, d] = (s ++ [d]) ++ [d] by simp, List.dropLast_concat]
    exact ⟨s, hr, hdrop, hdrop ▸ h.not_has_dropLast⟩
  · refine absurd ?_ h.not_has_dropLast
    have hr : r = (s ++ [d, d] ++ t) ++ [a] := by
      rw [← hst]
      simp
    rw [hr, List.dropLast_concat]
    exact ⟨s, t, rfl⟩

theorem IsRequest.ne_nil {r : List α} (h : IsRequest d r) : r ≠ [] := by
  obtain ⟨b, rfl, _⟩ := h.eq_append
  simp

/-- Two requests in a row, with the last symbol of the second missing:
the pair is still there. -/
theorem IsRequest.has_append {r : List α} (h : IsRequest d r) (m : List α) :
    Has d (r.dropLast ++ (d :: m)) := by
  obtain ⟨b, _, hdrop, _⟩ := h.eq_append
  rw [hdrop]
  exact ⟨b, m, by simp⟩

variable [DecidableEq α]

variable (d) in
/-- Split a stream into its requests and the rest, after `pending`. -/
def requestsFrom (pending : List α) : List α → List (List α) × List α
  | [] => ([], pending)
  | a :: l =>
      if Has d (pending ++ [a]) then
        ((pending ++ [a]) :: (requestsFrom [] l).1, (requestsFrom [] l).2)
      else requestsFrom (pending ++ [a]) l

variable (d) in
def requests (l : List α) : List (List α) × List α := requestsFrom d [] l

theorem requestsFrom_spec (l pending : List α) (h : ¬ Has d pending) :
    (requestsFrom d pending l).1.flatten ++ (requestsFrom d pending l).2 = pending ++ l
    ∧ (∀ r ∈ (requestsFrom d pending l).1, IsRequest d r)
    ∧ ¬ Has d (requestsFrom d pending l).2 := by
  induction l generalizing pending with
  | nil => simp [requestsFrom, h]
  | cons a l ih =>
    rw [requestsFrom]
    by_cases ha : Has d (pending ++ [a])
    · obtain ⟨hsum, hreq, hrest⟩ := ih [] not_has_nil
      rw [if_pos ha]
      refine ⟨?_, ?_, hrest⟩
      · simpa using hsum
      · intro r hr
        rcases List.mem_cons.mp hr with rfl | hr
        · exact ⟨ha, by simpa using h⟩
        · exact hreq r hr
    · rw [if_neg ha]
      simpa using ih (pending ++ [a]) ha

theorem requests_flatten (l : List α) :
    (requests d l).1.flatten ++ (requests d l).2 = l := by
  unfold requests
  simpa using (requestsFrom_spec l [] (d := d) not_has_nil).1

theorem isRequest_of_mem_requests (l : List α) : ∀ r ∈ (requests d l).1, IsRequest d r :=
  (requestsFrom_spec l [] not_has_nil).2.1

theorem not_has_rest (l : List α) : ¬ Has d (requests d l).2 :=
  (requestsFrom_spec l [] not_has_nil).2.2

/-! ## Emptying cuts, request by request -/

/-- Bytes that complete no pair are kept behind what is out. -/
theorem feedAll_bytewise {s : State α} {l : List α} {N : Nat} (hN : 1 ≤ N)
    (h : ¬ Has d (s.buf ++ l)) : feedAll d s (bytewise l) = ⟨s.out, s.buf ++ l⟩ := by
  have hflat := (cuts_bytewise hN l).flatten_eq
  rw [feedAll_of_not_has s (bytewise l) (by rw [hflat]; exact h), hflat]

/-- Read all but the last symbol of a request one by one, and then in one
read the last symbol with `m` behind it: all of it goes out. -/
theorem Empties.request_append {N : Nat} {x r m : List α} (hx : Empties d N x)
    (hr : IsRequest d r) (hm : m.length + 1 ≤ N) : Empties d N (x ++ (r ++ m)) := by
  have hcuts : Cuts N (bytewise r.dropLast ++ [d :: m]) (r.dropLast ++ (d :: m)) :=
    (cuts_bytewise (by omega) r.dropLast).append (Cuts.single (by simp) (by simpa using hm))
  have hsplit : r.dropLast ++ (d :: m) = r ++ m := by
    obtain ⟨b, hr', hdrop, _⟩ := hr.eq_append
    rw [hdrop, hr']
    simp
  obtain ⟨rs, hrs, hfeed⟩ := hx.extend hcuts
  refine ⟨rs, hsplit ▸ hrs, ?_⟩
  rw [hfeed, feedAll_append,
    feedAll_bytewise (N := N) (by omega) (by simpa using hr.not_has_dropLast),
    feedAll_cons, feedAll_nil, feed_of_has (by simpa using hr.has_append m)]
  simp [hsplit]

theorem Empties.request {N : Nat} (hN : 1 ≤ N) {x r : List α} (hx : Empties d N x)
    (hr : IsRequest d r) : Empties d N (x ++ r) := by
  simpa using hx.request_append (m := []) hr (by simpa using hN)

theorem empties_flatten {N : Nat} (hN : 1 ≤ N) (rs : List (List α))
    (hrs : ∀ r ∈ rs, IsRequest d r) : Empties d N rs.flatten := by
  induction rs using List.reverseRecOn with
  | nil => exact empties_nil N
  | append_singleton rs r ih =>
    rw [List.flatten_append, List.flatten_singleton]
    exact (ih (fun q hq => hrs q (by simp [hq]))).request hN (hrs r (by simp))

/-! ## A flush inside the last pair -/

variable (d) in
/-- One more request `r` after requests that may (`a`) or may not be
emptied up to their own last symbol. -/
def splitStep (N : Nat) (a : Bool) (r : List α) : Bool :=
  decide (r.length ≤ N) || (decide (r.length = N + 1) && decide (r.head? = some d) && a)

variable (d) in
/-- Some cut flushes between the two symbols of the last pair. The first
request alone is never flushed there. -/
def splittable (N : Nat) : List (List α) → Bool
  | [] => false
  | _ :: rs => rs.foldl (splitStep d N) false

theorem splittable_snoc {N : Nat} {rs : List (List α)} (hne : rs ≠ []) (r : List α) :
    splittable d N (rs ++ [r]) = splitStep d N (splittable d N rs) r := by
  obtain ⟨r₀, rs, rfl⟩ := List.exists_cons_of_ne_nil hne
  simp [splittable, List.foldl_append]

/-- A list without the pair cannot be emptied. -/
theorem not_empties_of_not_has {N : Nat} {p : List α} (hp : p ≠ []) (h : ¬ Has d p) :
    ¬ Empties d N p := by
  intro hemp
  obtain ⟨q, b, c, rfl, _, _, hhas, _⟩ := hemp.last_flush hp
  exact h (hhas.append_left q)

/-- The step of the decision, forwards: where the last flush can lie. -/
theorem Empties.split {N : Nat} {x r : List α} {b₀ : List α} (hx : x = b₀ ++ [d, d])
    (hr : IsRequest d r) (h : Empties d N (x ++ r.dropLast)) :
    r.length ≤ N ∨ (r.length = N + 1 ∧ r.head? = some d ∧ Empties d N x.dropLast) := by
  obtain ⟨b', hr', hdrop, hnot⟩ := hr.eq_append
  have hlen : r.length = r.dropLast.length + 1 := by rw [hr', ← hr', hdrop, hr']; simp
  obtain ⟨q, b, c, hp, hq, hb, hbc, hc⟩ := h.last_flush (by simp [hx])
  have hplen := congrArg List.length hp
  simp only [List.length_append] at hplen
  have hxlen : x.length = b₀.length + 2 := by rw [hx]; simp
  -- the two symbols at the end of `x`, as positions of the whole stream
  have hx0 : (x ++ r.dropLast)[b₀.length]? = some d := by
    rw [hx]; simp
  have hx1 : (x ++ r.dropLast)[b₀.length + 1]? = some d := by
    rw [hx]; simp
  rw [has_iff_getElem?] at hb hbc
  by_cases hcase : q.length ≤ b₀.length
  · -- the flush saw the pair that ends `x`, which the buffer did not hold
    left
    have hbshort : b.length ≤ b₀.length - q.length + 1 := by
      by_contra hlong
      refine hb ⟨b₀.length - q.length, ?_, ?_⟩
      · rw [hp, List.getElem?_append_right hcase,
          List.getElem?_append_left (by omega)] at hx0
        exact hx0
      · rw [hp, List.getElem?_append_right (by omega),
          List.getElem?_append_left (by omega)] at hx1
        rw [show b₀.length + 1 - q.length = b₀.length - q.length + 1 by omega] at hx1
        exact hx1
    omega
  · -- the flush saw a pair that begins with the last symbol of `x`
    obtain ⟨j, hj0, hj1⟩ := hbc
    have hpos0 : (x ++ r.dropLast)[q.length + j]? = some d := by
      rw [hp, List.getElem?_append_right (by omega), Nat.add_sub_cancel_left]
      exact hj0
    have hpos1 : (x ++ r.dropLast)[q.length + j + 1]? = some d := by
      rw [hp, List.getElem?_append_right (by omega),
        show q.length + j + 1 - q.length = j + 1 by omega]
      exact hj1
    have hinside : q.length + j < x.length := by
      by_contra hout
      rw [List.getElem?_append_right (by omega)] at hpos0 hpos1
      refine hr.not_has_dropLast ((has_iff_getElem? _).mpr ⟨q.length + j - x.length, hpos0, ?_⟩)
      rw [show q.length + j - x.length + 1 = q.length + j + 1 - x.length by omega]
      exact hpos1
    have hqlen : q.length = x.length - 1 := by omega
    have hj : j = 0 := by omega
    subst hj
    have hhead : r.head? = some d := by
      rw [List.getElem?_append_right (by omega),
        show q.length + 0 + 1 - x.length = 0 by omega, hdrop] at hpos1
      rw [hr']
      cases b' with
      | nil => rfl
      | cons a b' => simpa using hpos1
    have hqx : q = x.dropLast := by
      have hleft : (x ++ r.dropLast).take q.length = q := by rw [hp]; simp
      rw [List.take_append_of_le_length (by omega), hqlen] at hleft
      rw [List.dropLast_eq_take, hleft]
    have hbshort : b.length ≤ 1 := by
      by_contra hlong
      refine hb ⟨0, ?_, ?_⟩
      · rwa [List.getElem?_append_left (by omega)] at hj0
      · rwa [List.getElem?_append_left (by omega)] at hj1
    by_cases hN : r.length ≤ N
    · exact Or.inl hN
    · exact Or.inr ⟨by omega, hhead, hqx ▸ hq⟩

/-- The step of the decision, backwards: the reads that flush there. -/
theorem empties_of_split {N : Nat} {x r r' : List α} (hx : Empties d N x)
    (hr' : IsRequest d r') (hr : IsRequest d r)
    (h : r.length ≤ N
      ∨ (r.length = N + 1 ∧ r.head? = some d ∧ Empties d N (x ++ r').dropLast)) :
    Empties d N (x ++ r' ++ r.dropLast) := by
  obtain ⟨b, hrb, hdrop, _⟩ := hr.eq_append
  rcases h with hlen | ⟨hlen, hhead, hemp⟩
  · rw [List.append_assoc]
    refine hx.request_append hr' ?_
    rw [hrb] at hlen
    rw [hdrop]
    simp only [List.length_append, List.length_cons, List.length_nil] at hlen ⊢
    omega
  · -- the last symbol of `r'` alone, then all of `r` but its last symbol
    have hN : 1 ≤ N := by
      rw [hrb] at hlen
      simp at hlen
      omega
    have hdlen : r.dropLast.length = N := by rw [List.length_dropLast]; omega
    have hdne : r.dropLast ≠ [] := by rw [hdrop]; simp
    obtain ⟨b', hr'b, _, _⟩ := hr'.eq_append
    have hlast : (x ++ r').dropLast ++ ([d] ++ r.dropLast) = x ++ r' ++ r.dropLast := by
      rw [hr'b, show x ++ (b' ++ [d, d]) = (x ++ b' ++ [d]) ++ [d] by simp,
        List.dropLast_concat]
      simp
    have hpair : Has d ([d] ++ r.dropLast) := by
      rw [hrb] at hhead
      rw [hdrop]
      cases b with
      | nil => exact ⟨[], [], rfl⟩
      | cons a b =>
        obtain rfl : a = d := by simpa using hhead
        exact ⟨[], b ++ [a], rfl⟩
    have hcuts : Cuts N [[d], r.dropLast] ([d] ++ r.dropLast) :=
      (Cuts.single (by simp) (by simpa using hN)).append (Cuts.single hdne (by omega))
    obtain ⟨rs, hrs, hfeed⟩ := hemp.extend hcuts
    refine ⟨rs, hlast ▸ hrs, ?_⟩
    rw [hfeed, feedAll_cons, feed_of_not_has (by simpa using not_has_singleton d),
      feedAll_cons, feed_of_has (by simpa using hpair), feedAll_nil, ← hlast]
    simp

/-- The requests can be emptied up to their last symbol exactly when they
are `splittable`. -/
theorem empties_dropLast_iff {N : Nat} (hN : 1 ≤ N) (rs : List (List α)) (hne : rs ≠ [])
    (hrs : ∀ r ∈ rs, IsRequest d r) :
    Empties d N rs.flatten.dropLast ↔ splittable d N rs = true := by
  induction rs using List.reverseRecOn with
  | nil => exact absurd rfl hne
  | append_singleton rs r ih =>
    have hr : IsRequest d r := hrs r (by simp)
    have hrs' : ∀ q ∈ rs, IsRequest d q := fun q hq => hrs q (by simp [hq])
    rw [List.flatten_append, List.flatten_singleton, List.dropLast_append_of_ne_nil hr.ne_nil]
    rcases List.eq_nil_or_concat rs with rfl | ⟨rs, r', rfl⟩
    · -- one request alone: nothing to flush before its pair is complete
      obtain ⟨b, _, hdrop, _⟩ := hr.eq_append
      have hnot : ¬ Empties d N r.dropLast :=
        not_empties_of_not_has (by rw [hdrop]; simp) hr.not_has_dropLast
      simp [splittable, hnot]
    · rw [List.concat_eq_append] at hrs' ih ⊢
      have hr' : IsRequest d r' := hrs' r' (by simp)
      have hx : Empties d N rs.flatten :=
        empties_flatten hN rs (fun q hq => hrs' q (by simp [hq]))
      have ih' := ih (by simp) hrs'
      rw [splittable_snoc (by simp)]
      rw [List.flatten_append, List.flatten_singleton] at ih' ⊢
      obtain ⟨b, hr'b, _, _⟩ := hr'.eq_append
      have hend : rs.flatten ++ r' = (rs.flatten ++ b) ++ [d, d] := by
        rw [hr'b]
        simp
      simp only [splitStep, Bool.or_eq_true, Bool.and_eq_true, decide_eq_true_eq, ← ih']
      rw [and_assoc]
      exact ⟨fun h => h.split hend hr, empties_of_split hx hr' hr⟩

/-! ## Independence of the cut -/

variable (d) in
/-- The streams that are framed the same way under every cut: no request
at all, or requests only and no flush inside the last pair. -/
def CutFree (N : Nat) (s : List α) : Prop :=
  (requests d s).1 = []
  ∨ ((requests d s).2 = [] ∧ splittable d N (requests d s).1 = false)

/-- Without a pair in the stream, every cut just buffers it. -/
theorem independent_of_not_has {N : Nat} {s : List α} (h : ¬ Has d s) :
    Independent d N s := by
  have hall : ∀ rs, Cuts N rs s → feedAll d State.empty rs = ⟨[], s⟩ := by
    intro rs hrs
    rw [feedAll_of_not_has State.empty rs (by rw [hrs.flatten_eq]; exact h), hrs.flatten_eq]
    rfl
  intro rs rs' hrs hrs'
  rw [hall rs hrs, hall rs' hrs']

/-- A stream that ends with the pair leaves nothing or its last symbol in
the buffer. -/
theorem feedAll_ends_with_pair {N : Nat} {s b : List α} (hs : s = b ++ [d, d])
    {rs : List (List α)} (hrs : Cuts N rs s) :
    feedAll d State.empty rs = ⟨s, []⟩ ∨ Empties d N s.dropLast := by
  have hsum := out_append_buf (d := d) State.empty rs
  have hnot : ¬ Has d (feedAll d State.empty rs).buf := not_has_buf not_has_nil rs
  have hout := empties_out (d := d) rs hrs.ne_nil hrs.length_le
  rw [hrs.flatten_eq] at hsum
  simp only [State.empty, List.nil_append] at hsum
  generalize hst : feedAll d (State.empty : State α) rs = st at *
  obtain ⟨out, buf⟩ := st
  rw [State.empty] at hst
  rw [hst] at hsum
  simp only at hsum hnot hout
  rcases List.eq_nil_or_concat buf with rfl | ⟨buf, a, rfl⟩
  · left
    rw [← hsum, List.append_nil]
  · right
    rcases List.eq_nil_or_concat buf with rfl | ⟨buf, a', rfl⟩
    · rw [← hsum]
      simpa using hout
    · -- two symbols in the buffer would be the pair
      exfalso
      apply hnot
      have hends : (out ++ buf) ++ [a', a] = b ++ [d, d] := by
        rw [← hs, ← hsum]
        simp
      obtain ⟨_, hpair⟩ := List.append_inj' hends rfl
      simp only [List.cons.injEq, and_true] at hpair
      obtain ⟨rfl, rfl⟩ := hpair
      exact ⟨buf, [], by simp⟩

/-- Requests only, and a flush inside the last pair: two cuts differ. -/
theorem not_independent_of_split {N : Nat} (hN : 1 ≤ N) {s b : List α} (hs : s = b ++ [d, d])
    (hall : Empties d N s) (hsplit : Empties d N s.dropLast) : ¬ Independent d N s := by
  intro hind
  obtain ⟨rs, hrs, hfeed⟩ := hall
  have hlast : s.dropLast ++ [d] = s := by
    rw [hs, show b ++ [d, d] = (b ++ [d]) ++ [d] by simp, List.dropLast_concat]
  obtain ⟨rs', hrs', hfeed'⟩ := hsplit.extend (Cuts.single (N := N) (r := [d]) (by simp) hN)
  have heq := hind rs rs' hrs (hlast ▸ hrs')
  rw [hfeed, hfeed', feedAll_cons, feedAll_nil,
    feed_of_not_has (by simpa using not_has_singleton d)] at heq
  have := congrArg State.buf heq
  simp at this

/-- A rest behind the requests: a read across the border takes its first
symbol along. -/
theorem not_independent_of_rest {N : Nat} (hN : 2 ≤ N) {x r t : List α} {a : α}
    (hx : Empties d N x) (hr : IsRequest d r) (ht : ¬ Has d (a :: t)) :
    ¬ Independent d N (x ++ r ++ a :: t) := by
  intro hind
  have ht' : ¬ Has d t := fun h => ht (h.append_left [a])
  obtain ⟨rs, hrs, hfeed⟩ := (hx.request (by omega) hr).extend
    (cuts_bytewise (N := N) (by omega) (a :: t))
  obtain ⟨rs', hrs', hfeed'⟩ :=
    (hx.request_append (m := [a]) hr (by simpa using hN)).extend
      (cuts_bytewise (N := N) (by omega) t)
  have heq := hind rs rs' hrs (by simpa using hrs')
  rw [hfeed, hfeed', feedAll_bytewise (N := N) (by omega) (by simpa using ht),
    feedAll_bytewise (N := N) (by omega) (by simpa using ht')] at heq
  have := congrArg (fun st => st.buf.length) heq
  simp at this

/-- **Independence of the cut**, decided from the requests of the
stream. -/
theorem independent_iff {N : Nat} (hN : 2 ≤ N) (s : List α) :
    Independent d N s ↔ CutFree d N s := by
  have hflat := requests_flatten (d := d) s
  have hreq := isRequest_of_mem_requests (d := d) s
  have hrest := not_has_rest (d := d) s
  unfold CutFree
  generalize (requests d s).1 = rs at *
  generalize (requests d s).2 = t at *
  rcases List.eq_nil_or_concat rs with rfl | ⟨rs, r, rfl⟩
  · simp only [List.flatten_nil, List.nil_append] at hflat
    exact ⟨fun _ => Or.inl rfl, fun _ => independent_of_not_has (hflat ▸ hrest)⟩
  · rw [List.concat_eq_append] at *
    have hr : IsRequest d r := hreq r (by simp)
    have hx : Empties d N rs.flatten :=
      empties_flatten (by omega) rs (fun q hq => hreq q (by simp [hq]))
    rw [List.flatten_append, List.flatten_singleton] at hflat
    cases t with
    | cons a t =>
      refine ⟨fun h => ?_, by simp⟩
      rw [← hflat] at h
      exact absurd h (not_independent_of_rest hN hx hr hrest)
    | nil =>
      rw [List.append_nil] at hflat
      obtain ⟨b, hrb, _, _⟩ := hr.eq_append
      have hs : s = (rs.flatten ++ b) ++ [d, d] := by
        rw [← hflat, hrb]
        simp
      have hiff := empties_dropLast_iff (N := N) (by omega) (rs ++ [r]) (by simp) hreq
      rw [List.flatten_append, List.flatten_singleton, hflat] at hiff
      have hall : Empties d N s := hflat ▸ hx.request (by omega) hr
      constructor
      · intro hind
        refine Or.inr ⟨rfl, ?_⟩
        by_contra hsplit
        rw [Bool.not_eq_false, ← hiff] at hsplit
        exact not_independent_of_split (by omega) hs hall hsplit hind
      · rintro (hnil | ⟨_, hsplit⟩)
        · simp at hnil
        · have hno : ¬ Empties d N s.dropLast := by
            rw [hiff, hsplit]
            simp
          intro rs₁ rs₂ h₁ h₂
          rw [(feedAll_ends_with_pair hs h₁).resolve_right hno,
            (feedAll_ends_with_pair hs h₂).resolve_right hno]

/-! ## What every cut has answered -/

/-- Whatever the cut, the buffer holds the rest after the last request, or
that rest and one symbol of the last pair. -/
theorem buf_suffix (rs : List (List α)) :
    (feedAll d State.empty rs).buf <:+ d :: (requests d rs.flatten).2 := by
  have hsum := out_append_buf (d := d) State.empty rs
  simp only [State.empty, List.nil_append] at hsum
  have hsuffix : (feedAll d State.empty rs).buf <:+ rs.flatten := ⟨_, hsum⟩
  have hbuf : ¬ Has d (feedAll d State.empty rs).buf := not_has_buf not_has_nil rs
  have hsplit := requests_flatten (d := d) rs.flatten
  have hreq := isRequest_of_mem_requests (d := d) rs.flatten
  generalize (requests d rs.flatten).1 = reqs at hsplit hreq
  generalize (requests d rs.flatten).2 = rest at hsplit ⊢
  generalize (feedAll d State.empty rs).buf = buf at hsuffix hbuf ⊢
  rw [← hsplit] at hsuffix
  rcases List.eq_nil_or_concat reqs with rfl | ⟨reqs, r, rfl⟩
  · rw [List.flatten_nil, List.nil_append] at hsuffix
    exact hsuffix.trans (List.suffix_cons d rest)
  · -- a longer buffer would hold the pair of the last request
    obtain ⟨b, rfl, -⟩ := (hreq r (by simp)).eq_append
    have hrest : d :: rest <:+ (reqs.concat (b ++ [d, d])).flatten ++ rest :=
      ⟨reqs.flatten ++ b ++ [d], by simp⟩
    have hpair : d :: d :: rest <:+ (reqs.concat (b ++ [d, d])).flatten ++ rest :=
      ⟨reqs.flatten ++ b, by simp⟩
    refine List.suffix_of_suffix_length_le hsuffix hrest ?_
    by_contra hlong
    obtain ⟨front, hfront⟩ := List.suffix_of_suffix_length_le hpair hsuffix (by
      simp only [List.length_cons] at hlong ⊢
      omega)
    refine hbuf ?_
    rw [← hfront]
    exact ⟨front, rest, by simp⟩

end Framing
