/-
Comproject.Echo.ReadCbTheorems — what the echo server does with a stream
that TCP cuts as it likes.

`serve_eq` reads the callbacks as the flushing buffer of
`Comproject.Lib.Framing` with the symbol `=`: grouping the reads into
callbacks does not matter, and the whole evbuffer goes out as soon as it
holds `==`, with whatever stood behind the delimiter in the same read.
The streams for which the cut does not show are then those of
`Framing.independent_iff`, at reads of at most `MAX_LINE` bytes.

Between clients nothing is shared (`run_client`): a client's evbuffer and
output depend on the events of its own descriptor.
-/
import Comproject.Echo.ReadCb
import Comproject.Lib.FramingIndependence

namespace Comproject.Echo

open Framing

/-! ## The search -/

theorem evbufferSearchFrom_ne_iff (what buf : List UInt8) (pos : Nat) :
    evbufferSearchFrom what buf pos ≠ -1 ↔ what <:+: buf := by
  induction buf generalizing pos with
  | nil =>
    rw [evbufferSearchFrom]
    by_cases h : what = []
    · simp [h]
    · simp [h]
  | cons b bs ih =>
    rw [evbufferSearchFrom, List.infix_cons_iff]
    by_cases h : what <+: b :: bs
    · rw [if_pos h]
      simp only [h, true_or, iff_true]
      omega
    · rw [if_neg h, ih (pos + 1)]
      simp [h]

theorem evbufferSearch_ne_iff (buf : List UInt8) :
    evbufferSearch buf delimiter ≠ -1 ↔ Has 61 buf :=
  evbufferSearchFrom_ne_iff delimiter buf 0

/-! ## The callbacks as a flushing buffer -/

/-- The client a state of the flushing buffer stands for. -/
def ofState (s : State UInt8) : Client := ⟨s.buf, s.out⟩

theorem ofState_injective {s t : State UInt8} (h : ofState s = ofState t) : s = t := by
  obtain ⟨out, buf⟩ := s
  obtain ⟨out', buf'⟩ := t
  simp only [ofState, Client.mk.injEq] at h
  rw [h.1, h.2]

theorem readRound_ofState (s : State UInt8) (line : Read) :
    readRound (ofState s) line = ofState (feed 61 s line.bytes) := by
  unfold readRound
  by_cases h : Has 61 (s.buf ++ line.bytes)
  · have hs : evbufferSearch (evbufferAdd (ofState s) line.bytes).buf delimiter ≠ -1 :=
      (evbufferSearch_ne_iff _).mpr h
    rw [feed_of_has h]
    exact if_pos hs
  · have hs : ¬ evbufferSearch (evbufferAdd (ofState s) line.bytes).buf delimiter ≠ -1 :=
      mt (evbufferSearch_ne_iff _).mp h
    rw [feed_of_not_has h]
    exact if_neg hs

theorem readCb_ofState (reads : List Read) (s : State UInt8) :
    readCb (ofState s) reads = ofState (feedAll 61 s (reads.map Read.bytes)) := by
  induction reads generalizing s with
  | nil => rfl
  | cons line reads ih =>
    rw [readCb, readRound_ofState, ih, List.map_cons, feedAll_cons]

/-- **The server is the flushing buffer**, whatever the grouping. -/
theorem serve_eq (callbacks : List (List Read)) :
    serve callbacks
      = ofState (feedAll 61 State.empty (callbacks.flatten.map Read.bytes)) := by
  unfold serve
  have h : ∀ s : State UInt8, callbacks.foldl readCb (ofState s)
      = ofState (feedAll 61 s (callbacks.flatten.map Read.bytes)) := by
    induction callbacks with
    | nil => intro s; rfl
    | cons reads callbacks ih =>
      intro s
      rw [List.foldl_cons, readCb_ofState, ih, List.flatten_cons, List.map_append,
        feedAll_append]
  exact h State.empty

/-- Nothing is lost: what came back and what is buffered is the stream. -/
theorem echoed_append_buf (callbacks : List (List Read)) :
    (serve callbacks).echoed ++ (serve callbacks).buf = stream callbacks := by
  rw [serve_eq]
  have h := out_append_buf (d := (61 : UInt8)) State.empty (callbacks.flatten.map Read.bytes)
  simpa [ofState, State.empty, stream] using h

/-! ## Reads and cuts -/

theorem cuts_reads (callbacks : List (List Read)) :
    Cuts maxLine (callbacks.flatten.map Read.bytes) (stream callbacks) where
  ne_nil := by
    intro r hr
    obtain ⟨line, _, rfl⟩ := List.mem_map.mp hr
    exact line.ne_nil
  length_le := by
    intro r hr
    obtain ⟨line, _, rfl⟩ := List.mem_map.mp hr
    exact line.length_le
  flatten_eq := rfl

/-- Every cut is delivered by some sequence of reads. -/
theorem exists_reads {rs : List (List UInt8)} {s : List UInt8} (h : Cuts maxLine rs s) :
    ∃ reads : List Read, reads.map Read.bytes = rs := by
  refine ⟨rs.attach.map (fun r => ⟨r.val, h.ne_nil r.val r.property,
    h.length_le r.val r.property⟩), ?_⟩
  rw [List.map_map]
  exact List.attach_map_subtype_val rs

theorem segmentationIndependent_iff_independent (s : List UInt8) :
    SegmentationIndependent s ↔ Independent 61 maxLine s := by
  constructor
  · intro h rs rs' hrs hrs'
    obtain ⟨reads, rfl⟩ := exists_reads hrs
    obtain ⟨reads', rfl⟩ := exists_reads hrs'
    have heq := h [reads] [reads'] (by simpa [stream] using hrs.flatten_eq)
      (by simpa [stream] using hrs'.flatten_eq)
    rw [serve_eq, serve_eq] at heq
    simpa using ofState_injective heq
  · intro h callbacks callbacks' hs hs'
    rw [serve_eq, serve_eq,
      h _ _ (hs ▸ cuts_reads callbacks) (hs' ▸ cuts_reads callbacks')]

/-! ## Main results -/

/-- **Framing and segmentation.** What the server sends back for a stream
and what it keeps is independent of how the stream is cut if and only if
the stream contains no `==`, or it consists of complete requests only and
no read of at most `MAX_LINE` bytes can end, with an unanswered delimiter
in the evbuffer, between the two `=` of the last delimiter. -/
theorem segmentationIndependent_iff_cutFree (s : List UInt8) :
    SegmentationIndependent s ↔ CutFree 61 maxLine s := by
  rw [segmentationIndependent_iff_independent]
  exact independent_iff (by decide) s

/-- `a==b` in one read comes back whole; in two reads the `b` stays. -/
theorem echo_depends_on_segmentation : ¬ SegmentationIndependent [97, 61, 61, 98] := by
  intro h
  have heq := h [[⟨[97, 61, 61, 98], by decide, by decide⟩]]
    [[⟨[97, 61, 61], by decide, by decide⟩], [⟨[98], by decide, by decide⟩]] rfl rfl
  exact absurd heq (by decide)

/-! ## Clients do not share anything -/

theorem dispatch_other (s : Server) (e : Event) (fd : Nat) (h : e.concerns fd = false) :
    s.dispatch e fd = s fd := by
  cases e with
  | accept fd' =>
    have hne : fd ≠ fd' := fun hfd => by simp [Event.concerns, hfd] at h
    exact if_neg hne
  | readable fd' reads =>
    have hne : fd ≠ fd' := fun hfd => by simp [Event.concerns, hfd] at h
    exact if_neg hne
  | error fd' =>
    have hne : fd ≠ fd' := fun hfd => by simp [Event.concerns, hfd] at h
    exact if_neg hne

theorem dispatch_congr (s s' : Server) (e : Event) (fd : Nat) (h : s fd = s' fd) :
    s.dispatch e fd = s'.dispatch e fd := by
  cases e with
  | accept fd' => by_cases hfd : fd = fd' <;> simp [Server.dispatch, hfd, ← h]
  | readable fd' reads =>
    by_cases hfd : fd = fd'
    · subst hfd; simp [Server.dispatch, h]
    · simp [Server.dispatch, hfd, h]
  | error fd' => by_cases hfd : fd = fd' <;> simp [Server.dispatch, hfd, ← h]

/-- A client's state depends on the events of its own descriptor only. -/
theorem run_client (events : List Event) (fd : Nat) :
    Server.run events fd = Server.run (events.filter (Event.concerns fd)) fd := by
  have h : ∀ s s' : Server, s fd = s' fd →
      events.foldl Server.dispatch s fd
        = (events.filter (Event.concerns fd)).foldl Server.dispatch s' fd := by
    induction events with
    | nil => intro s s' hs; exact hs
    | cons e events ih =>
      intro s s' hs
      cases he : e.concerns fd with
      | true =>
        rw [List.foldl_cons, List.filter_cons_of_pos he, List.foldl_cons]
        exact ih _ _ (dispatch_congr s s' e fd hs)
      | false =>
        rw [List.foldl_cons, List.filter_cons_of_neg (by simp [he])]
        exact ih _ _ (by rw [dispatch_other s e fd he, hs])
  exact h _ _ rfl

end Comproject.Echo
