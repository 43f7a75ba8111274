/-
Comproject.Echo.EventServerTheorems — the echo process on its heap.

Every evbuffer belongs to exactly one open connection (`Owned`), in every
order of connections, reads and errors. So no callback ever touches a
freed evbuffer, none is freed twice, none is left behind, and the process
is the server of `Comproject.Echo.ReadCb` with a value per client
(`process_refines_server`). A failed `accept` ends it, or a signal, such as
the `SIGPIPE` of a client that is gone; nothing follows that end.

What a client has got back and what is still buffered for it is, from its
own `accept` on, the bytes it has sent, and the buffer is never more than
one `=` behind the requests it has completed (`client_is_answered`).
Nothing of it depends on another client (`clients_isolated`).
-/
import Comproject.Echo.EventServer
import Comproject.Echo.ReadCbTheorems
import Comproject.Lib.Ownership

namespace Comproject.Echo

open Framing

/-! ## Ownership -/

/-- Connections and evbuffers belong to each other, one to one, and no
callback has found its evbuffer gone. -/
structure Process.Owned (s : Process) : Prop where
  buffers : Ownership.Owned Bufferevent.arg s.evbuffers s.bufferevents
  sound : s.fault = false

theorem owned_main (socket bind : Int) (method : String) :
    (Process.main socket bind method).Owned := by
  unfold Process.main
  split
  · exact ⟨Ownership.owned_empty, rfl⟩
  · split
    · exact ⟨Ownership.owned_empty, rfl⟩
    · exact ⟨Ownership.owned_empty, rfl⟩

/-- What the process does next. A callback always finds its evbuffer. -/
theorem Process.Owned.step_cases {s s' : Process} (hs : s.Owned) {e : LoopEvent}
    (h : s.step e = some s') :
    s.ended = none ∧
    ((∃ fd peer sent buf, e = .accepted fd peer sent buf ∧ s.bufferevents fd = none ∧
        s.evbuffers buf = none ∧ s' = s.doAccept fd peer sent buf) ∨
     (∃ how printed, e.ending = some how ∧ e.toEvent = none ∧
        s' = { s with printed := printed, ended := some how }) ∨
     (∃ fd reads bev buf, e = .readable fd reads ∧ s.bufferevents fd = some bev ∧
        s.evbuffers bev.arg = some buf ∧
        s' = { s with
          evbuffers := Function.update s.evbuffers bev.arg
            (some (Echo.readCb ⟨buf, bev.output⟩ reads).buf)
          bufferevents := Function.update s.bufferevents fd
            (some { bev with output := (Echo.readCb ⟨buf, bev.output⟩ reads).echoed }) }) ∨
     (∃ fd event bev, e = .error fd event ∧ s.bufferevents fd = some bev ∧
        s' = { s with
          evbuffers := Function.update s.evbuffers bev.arg none
          bufferevents := Function.update s.bufferevents fd none
          printed := s.printed ++ [errorLine fd event] })) := by
  unfold Process.step at h
  split at h
  · cases h
  · rename_i hgo
    have hgo' : s.ended = none ∧ s.fault = false := by simpa using hgo
    refine ⟨hgo'.1, ?_⟩
    cases e with
    | accepted fd peer sent buf =>
      simp only at h
      split at h
      · rename_i hfresh
        cases h
        simp only [Bool.and_eq_true, Option.isNone_iff_eq_none] at hfresh
        exact .inl ⟨fd, peer, sent, buf, rfl, hfresh.1, hfresh.2, rfl⟩
      · cases h
    | acceptFailed | acceptedReset peer | killed =>
      cases h
      exact .inr (.inl ⟨_, _, rfl, rfl, rfl⟩)
    | readable fd reads =>
      obtain ⟨bev, hbev, rfl⟩ := Option.map_eq_some_iff.mp h
      obtain ⟨buf, hbuf⟩ := hs.buffers.live fd bev hbev
      refine .inr (.inr (.inl ⟨fd, reads, bev, buf, rfl, hbev, hbuf, ?_⟩))
      simp only [Process.readCb, hbuf]
    | error fd event =>
      obtain ⟨bev, hbev, rfl⟩ := Option.map_eq_some_iff.mp h
      obtain ⟨buf, hbuf⟩ := hs.buffers.live fd bev hbev
      refine .inr (.inr (.inr ⟨fd, event, bev, rfl, hbev, ?_⟩))
      simp only [Process.errorCb, hbuf]

/-- Each callback keeps the ownership. -/
theorem owned_step (s : Process) (e : LoopEvent) (s' : Process) (hs : s.Owned)
    (h : s.step e = some s') : s'.Owned := by
  obtain ⟨-, ⟨fd, peer, sent, buf, -, hfd, hbuf, rfl⟩ | ⟨_, _, -, -, rfl⟩ |
    ⟨fd, reads, bev, buf, -, hbev, -, rfl⟩ | ⟨fd, event, bev, -, hbev, rfl⟩⟩ := hs.step_cases h
  · exact ⟨hs.buffers.alloc (r := ⟨buf, welcome.take sent.toNat, []⟩) hfd hbuf [], hs.sound⟩
  · exact ⟨hs.buffers, hs.sound⟩
  · refine ⟨hs.buffers.write hbev ?_ _, hs.sound⟩
    rfl
  · exact ⟨hs.buffers.free hbev, hs.sound⟩

/-! ## The server with values -/

/-- A client is what its descriptor stands for. -/
theorem client_eq_look (s : Process) (fd : Nat) :
    s.client fd = (Ownership.look Bufferevent.arg s.evbuffers s.bufferevents fd).map
      (fun p => ⟨p.2, p.1.output⟩) := by
  unfold Process.client Ownership.look
  cases s.bufferevents fd with
  | none => rfl
  | some bev =>
    simp only [Option.bind_some, Option.map_map]
    rfl

theorem client_eq {s : Process} {fd : Nat} {bev : Bufferevent} {buf : List UInt8}
    (hbev : s.bufferevents fd = some bev) (hbuf : s.evbuffers bev.arg = some buf) :
    s.client fd = some ⟨buf, bev.output⟩ := by
  rw [client_eq_look, Ownership.look_some hbev hbuf, Option.map_some]

/-- A step on another descriptor. -/
theorem client_other {s s' : Process} {fd fd' a : Nat} {newV : Option (List UInt8)}
    {newR : Option Bufferevent} (hbuf : s'.evbuffers = Function.update s.evbuffers a newV)
    (hbev : s'.bufferevents = Function.update s.bufferevents fd newR) (hne : fd' ≠ fd)
    (hothers : ∀ bev, s.bufferevents fd' = some bev → bev.arg ≠ a) :
    s'.client fd' = s.client fd' := by
  rw [client_eq_look, client_eq_look, hbuf, hbev, Ownership.look_other hne hothers]

/-- The process as the server with values. -/
def Process.clients (s : Process) : Server := s.client

/-- One round of the loop, seen from the clients. -/
def Server.dispatchAll (s : Server) (e : LoopEvent) : Server :=
  match e.toEvent with
  | none => s
  | some e => s.dispatch e

theorem client_step {s s' : Process} {e : LoopEvent} (hs : s.Owned) (h : s.step e = some s') :
    s'.clients = s.clients.dispatchAll e := by
  funext fd'
  show s'.client fd' = _
  obtain ⟨-, ⟨fd, peer, sent, buf, rfl, hfd, hbuf, rfl⟩ | ⟨_, _, -, hnone, rfl⟩ |
    ⟨fd, reads, bev, buf, rfl, hbev, hbuf, rfl⟩ | ⟨fd, event, bev, rfl, hbev, rfl⟩⟩ :=
    hs.step_cases h
  · by_cases hfd' : fd' = fd
    · subst hfd'
      have hclient : (s.doAccept fd' peer sent buf).client fd' = some Client.accepted :=
        client_eq (show (s.doAccept fd' peer sent buf).bufferevents fd'
          = some ⟨buf, welcome.take sent.toNat, []⟩ from Function.update_self ..)
          (Function.update_self ..)
      simp only [hclient, Server.dispatchAll, LoopEvent.toEvent, Server.dispatch, if_true]
    · simp only [Server.dispatchAll, LoopEvent.toEvent, Server.dispatch, hfd', if_false]
      exact client_other rfl rfl hfd' (fun bev hbev => hs.buffers.ne_of_unused hbuf hbev)
  · rw [Server.dispatchAll, hnone]
    rfl
  · by_cases hfd' : fd' = fd
    · subst hfd'
      simp only [Server.dispatchAll, LoopEvent.toEvent, Server.dispatch, if_true,
        Process.clients, client_eq hbev hbuf, Option.map_some]
      simp [Process.client]
    · simp only [Server.dispatchAll, LoopEvent.toEvent, Server.dispatch, hfd', if_false]
      exact client_other rfl rfl hfd' (fun bev' hbev' => hs.buffers.ne_of_ne hbev hbev' hfd')
  · by_cases hfd' : fd' = fd
    · subst hfd'
      simp only [Server.dispatchAll, LoopEvent.toEvent, Server.dispatch, if_true]
      rw [client_eq_look, Ownership.look_none (Function.update_self ..), Option.map_none]
    · simp only [Server.dispatchAll, LoopEvent.toEvent, Server.dispatch, hfd', if_false]
      exact client_other rfl rfl hfd' (fun bev' hbev' => hs.buffers.ne_of_ne hbev hbev' hfd')

theorem client_exec (es : List LoopEvent) {s s' : Process} (hs : s.Owned)
    (h : Runs.exec Process.step s es = some s') :
    s'.Owned ∧ s'.clients = (es.filterMap LoopEvent.toEvent).foldl Server.dispatch s.clients := by
  induction es generalizing s with
  | nil =>
    cases h
    exact ⟨hs, rfl⟩
  | cons e es ih =>
    rw [Runs.exec_cons] at h
    obtain ⟨s₁, hstep, hrest⟩ := Option.bind_eq_some_iff.mp h
    obtain ⟨hs', hclient⟩ := ih (owned_step s e s₁ hs hstep) hrest
    refine ⟨hs', hclient.trans ?_⟩
    rw [client_step hs hstep]
    cases he : e.toEvent with
    | none => simp [he, Server.dispatchAll]
    | some e' => simp [he, Server.dispatchAll]

/-- An event that ends the process sets how it has ended, and no other
does. -/
theorem ended_step (s : Process) (e : LoopEvent) (s' : Process) (hs : s.Owned)
    (h : s.step e = some s') : s'.Owned ∧ s.ended = none ∧ s'.ended = e.ending := by
  refine ⟨owned_step s e s' hs h, ?_⟩
  obtain ⟨hgo, ⟨fd, peer, sent, buf, rfl, -, -, rfl⟩ | ⟨how, printed, hend, -, rfl⟩ |
    ⟨fd, reads, bev, buf, rfl, -, -, rfl⟩ | ⟨fd, event, bev, rfl, -, rfl⟩⟩ := hs.step_cases h
  · exact ⟨hgo, hgo⟩
  · exact ⟨hgo, hend.symm⟩
  · exact ⟨hgo, hgo⟩
  · exact ⟨hgo, hgo⟩

/-- `main` with a socket and a port: no client yet. -/
theorem main_serves {socket bind : Int} (method : String) (hsocket : 0 ≤ socket)
    (hbind : 0 ≤ bind) :
    (Process.main socket bind method).ended = none ∧
    (Process.main socket bind method).clients = fun _ => none := by
  simp only [Process.main, if_neg (Int.not_lt.mpr hsocket), if_neg (Int.not_lt.mpr hbind),
    true_and]
  rfl

/-- The clients after a run. -/
theorem clients_run {socket bind : Int} {method : String} {es : List LoopEvent} {s : Process}
    (hsocket : 0 ≤ socket) (hbind : 0 ≤ bind)
    (h : Runs.exec Process.step (Process.main socket bind method) es = some s) (fd : Nat) :
    s.client fd = Server.run (es.filterMap LoopEvent.toEvent) fd := by
  have hclients := (client_exec es (owned_main socket bind method) h).2
  rw [(main_serves method hsocket hbind).2] at hclients
  exact congrFun hclients fd

/-- **The process refines the server.** After every run of the event loop,
with every choice of descriptors and addresses, connections and evbuffers
belong to each other one to one and no callback has touched an evbuffer
that is not there; each client is in the state that the server with values
gives it; and the process has ended exactly when an `accept` has failed,
by `exit(1)`, or a signal nobody handles has arrived, and that event was
the only one of its kind. -/
theorem process_refines_server (socket bind : Int) (method : String) (es : List LoopEvent)
    (s : Process) (hsocket : 0 ≤ socket) (hbind : 0 ≤ bind)
    (h : Runs.exec Process.step (Process.main socket bind method) es = some s) :
    s.Owned ∧ (∀ fd, s.client fd = Server.run (es.filterMap LoopEvent.toEvent) fd) ∧
    es.filterMap LoopEvent.ending = s.ended.toList := by
  have hmain := owned_main socket bind method
  exact ⟨(client_exec es hmain h).1, clients_run hsocket hbind h,
    Runs.exec_ends Process.ended LoopEvent.ending ended_step es hmain
      (main_serves method hsocket hbind).1 h⟩

/-- Two clients; the first one leaves, and the third gets its descriptor
and its evbuffer's address. -/
def sampleEvents : List LoopEvent :=
  [.accepted 7 "10.0.0.1" 20 100, .accepted 8 "10.0.0.2" 20 101,
   .readable 7 [⟨[97, 61, 61], by decide, by decide⟩], .error 7 bevEventEof,
   .accepted 7 "10.0.0.3" (-1) 100, .readable 8 [⟨[98], by decide, by decide⟩]]

/-- Then a client that has gone already makes `send` raise `SIGPIPE`. -/
theorem process_refines_server_sample :
    ∃ s, Runs.exec Process.step (Process.main 3 0 "epoll")
        (sampleEvents ++ [.acceptedReset "10.0.0.4"]) = some s ∧
      s.client 7 = some ⟨[], []⟩ ∧ s.client 8 = some ⟨[98], []⟩ ∧ s.ended.toList = [.signal] := by
  obtain ⟨-, hclient, hend⟩ := process_refines_server 3 0 "epoll"
    (sampleEvents ++ [.acceptedReset "10.0.0.4"]) _ (by decide) (by decide) rfl
  refine ⟨_, rfl, (hclient 7).trans ?_, (hclient 8).trans ?_, hend.symm⟩
  · decide
  · decide

/-! ## What a client gets back -/

theorem serve_append (callbacks : List (List Read)) (reads : List Read) :
    serve (callbacks ++ [reads]) = readCb (serve callbacks) reads := by
  simp [serve, List.foldl_append]

theorem stream_append (callbacks : List (List Read)) (reads : List Read) :
    stream (callbacks ++ [reads]) = stream callbacks ++ (reads.map Read.bytes).flatten := by
  simp [stream]

/-- A client is in the state that the reads since its own `accept` give
it. -/
theorem run_eq_serve (events : List Event) (fd : Nat) (c : Client)
    (h : Server.run events fd = some c) :
    ∃ callbacks, c = serve callbacks ∧ stream callbacks = received fd events := by
  induction events using List.reverseRecOn generalizing c with
  | nil => cases h
  | append_singleton events e ih =>
    have hrun : Server.run (events ++ [e]) = (Server.run events).dispatch e := List.foldl_append
    have hrecv : received fd (events ++ [e]) = receive fd (received fd events) e := by
      simp [received, List.foldl_append]
    rw [hrun] at h
    rw [hrecv]
    cases e with
    | accept fd' =>
      by_cases hfd : fd = fd'
      · subst hfd
        simp only [Server.dispatch, if_true, Option.some.injEq] at h
        exact ⟨[], h.symm, by simp [receive, stream]⟩
      · simp only [Server.dispatch, hfd, if_false] at h
        obtain ⟨callbacks, hc, hstream⟩ := ih c h
        exact ⟨callbacks, hc, by simp [receive, Ne.symm hfd, hstream]⟩
    | readable fd' reads =>
      by_cases hfd : fd = fd'
      · subst hfd
        simp only [Server.dispatch, if_true] at h
        obtain ⟨c', hc', rfl⟩ := Option.map_eq_some_iff.mp h
        obtain ⟨callbacks, rfl, hstream⟩ := ih c' hc'
        refine ⟨callbacks ++ [reads], (serve_append callbacks reads).symm, ?_⟩
        rw [stream_append, hstream]
        simp [receive]
      · simp only [Server.dispatch, hfd, if_false] at h
        obtain ⟨callbacks, hc, hstream⟩ := ih c h
        exact ⟨callbacks, hc, by simp [receive, Ne.symm hfd, hstream]⟩
    | error fd' =>
      by_cases hfd : fd = fd'
      · subst hfd
        simp [Server.dispatch] at h
      · simp only [Server.dispatch, hfd, if_false] at h
        exact ih c h

/-- **What a client gets back.** In every run of the event loop, whatever
the other clients do and however TCP cuts the stream, what has been echoed
to a client and what is buffered for it make up the bytes it has sent
since its `accept`, in order; and of the requests it has completed at most
the last `=` is still buffered. -/
theorem client_is_answered (socket bind : Int) (method : String) (es : List LoopEvent)
    (s : Process) (fd : Nat) (c : Client) (hsocket : 0 ≤ socket) (hbind : 0 ≤ bind)
    (h : Runs.exec Process.step (Process.main socket bind method) es = some s)
    (hc : s.client fd = some c) :
    let sent := received fd (es.filterMap LoopEvent.toEvent)
    c.echoed ++ c.buf = sent ∧ c.buf <:+ 61 :: (requests 61 sent).2 := by
  intro sent
  rw [clients_run hsocket hbind h] at hc
  obtain ⟨callbacks, rfl, hstream⟩ := run_eq_serve _ fd c hc
  have hsent : stream callbacks = sent := hstream
  refine ⟨hsent ▸ echoed_append_buf callbacks, ?_⟩
  rw [← hsent, serve_eq]
  exact buf_suffix (callbacks.flatten.map Read.bytes)

/-- `a==b==`, cut before the last `=`. -/
def cutInDelimiter : List LoopEvent :=
  [.accepted 7 "10.0.0.1" 20 100,
   .readable 7 [⟨[97, 61, 61, 98, 61], by decide, by decide⟩, ⟨[61], by decide, by decide⟩]]

/-- Both requests are complete, and the last `=` stays behind. -/
theorem client_is_answered_cutInDelimiter :
    ∃ s c, Runs.exec Process.step (Process.main 3 0 "epoll") cutInDelimiter = some s ∧
      s.client 7 = some c ∧ c.echoed ++ c.buf = [97, 61, 61, 98, 61, 61] ∧ c.buf <:+ [61] ∧
      c.buf ≠ [] := by
  obtain ⟨hsum, hlag⟩ := client_is_answered 3 0 "epoll" cutInDelimiter _ 7
    ⟨[61], [97, 61, 61, 98, 61]⟩ (by decide) (by decide) rfl (by decide)
  exact ⟨_, ⟨[61], [97, 61, 61, 98, 61]⟩, rfl, by decide, hsum, hlag, by decide⟩

/-! ## Clients are isolated -/

/-- **What a client can see.** Take any two runs of the event loop in which
the events of one descriptor are the same. Whatever the other clients do,
whichever addresses `evbuffer_new` hands out and whether an `accept` fails
in one of them, that descriptor's evbuffer and output are the same. -/
theorem clients_isolated (socket socket' bind bind' : Int) (method method' : String)
    (es es' : List LoopEvent) (s s' : Process) (fd : Nat) (hsocket : 0 ≤ socket)
    (hsocket' : 0 ≤ socket') (hbind : 0 ≤ bind) (hbind' : 0 ≤ bind')
    (h : Runs.exec Process.step (Process.main socket bind method) es = some s)
    (h' : Runs.exec Process.step (Process.main socket' bind' method') es' = some s')
    (hsame : (es.filterMap LoopEvent.toEvent).filter (Event.concerns fd)
      = (es'.filterMap LoopEvent.toEvent).filter (Event.concerns fd)) :
    s.client fd = s'.client fd := by
  rw [clients_run hsocket hbind h, clients_run hsocket' hbind' h', run_client, hsame, ← run_client]

/-- The client of descriptor 8, alone and among the others. -/
theorem clients_isolated_sample :
    ∃ s s', Runs.exec Process.step (Process.main 3 0 "epoll") sampleEvents = some s ∧
      Runs.exec Process.step (Process.main 4 0 "select")
        [.accepted 8 "10.0.0.9" 20 7, .readable 8 [⟨[98], by decide, by decide⟩],
          .acceptFailed] = some s' ∧
      s.client 8 = s'.client 8 :=
  ⟨_, _, rfl, rfl, clients_isolated 3 4 0 0 "epoll" "select" sampleEvents
    [.accepted 8 "10.0.0.9" 20 7, .readable 8 [⟨[98], by decide, by decide⟩], .acceptFailed] _ _ 8
    (by decide) (by decide) (by decide) (by decide) rfl rfl rfl⟩

end Comproject.Echo
