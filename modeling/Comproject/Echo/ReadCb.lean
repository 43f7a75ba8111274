/-
Comproject.Echo.ReadCb — the echo server of `test/event_test.cpp`.

`do_accept` gives every client an evbuffer of its own. `read_cb` is
called when a client has sent something: it reads up to `MAX_LINE` bytes
at a time until there is nothing left, appends each read to the client's
evbuffer, and when the evbuffer then contains `==` it writes the evbuffer
back to the client. `error_cb` frees the client.

libevent is modelled by what it documents: `bufferevent_read` hands out
the next bytes of the stream, `evbuffer_add` appends, `evbuffer_search`
gives the position of the first occurrence or -1, and
`bufferevent_write_buffer` moves the whole evbuffer to the output.
-/
import Comproject.Lib.Framing

namespace Comproject.Echo

/-- `MAX_LINE`. -/
def maxLine : Nat := 256

/-- `const char *x = "=="`. -/
def delimiter : List UInt8 := [61, 61]

/-- A call of `bufferevent_read(bev, line, MAX_LINE)` that returned
`n > 0`, and the bytes it put into `line`. -/
structure Read where
  bytes : List UInt8
  ne_nil : bytes ≠ []
  length_le : bytes.length ≤ maxLine

/-- One client: its evbuffer, and what has been written back to it. -/
structure Client where
  buf : List UInt8
  echoed : List UInt8
  deriving DecidableEq

/-- `evbuffer_new()`, nothing written yet. -/
def Client.accepted : Client := ⟨[], []⟩

/-! ## libevent -/

/-- `evbuffer_add(buf, data, n)`. -/
def evbufferAdd (c : Client) (data : List UInt8) : Client := { c with buf := c.buf ++ data }

/-- The search from the position `pos` on. -/
def evbufferSearchFrom (what : List UInt8) : List UInt8 → Nat → Int
  | [], pos => if what = [] then pos else -1
  | b :: bs, pos => if what <+: b :: bs then pos else evbufferSearchFrom what bs (pos + 1)

/-- `evbuffer_search(buf, what, len, 0).pos`. -/
def evbufferSearch (buf what : List UInt8) : Int := evbufferSearchFrom what buf 0

/-- `bufferevent_write_buffer(bev, buf)`. -/
def buffereventWriteBuffer (c : Client) : Client := ⟨[], c.echoed ++ c.buf⟩

/-! ## The callbacks -/

/-- One round of the loop in `read_cb`. -/
def readRound (c : Client) (line : Read) : Client :=
  let c := evbufferAdd c line.bytes
  if evbufferSearch c.buf delimiter ≠ -1 then buffereventWriteBuffer c else c

/-- `read_cb`: `reads` are the reads until `bufferevent_read` returns 0. -/
def readCb (c : Client) : List Read → Client
  | [] => c
  | line :: reads => readCb (readRound c line) reads

/-- A client after a sequence of callback invocations. -/
def serve (callbacks : List (List Read)) : Client :=
  callbacks.foldl readCb Client.accepted

/-- The bytes a sequence of callbacks reads. -/
def stream (callbacks : List (List Read)) : List UInt8 :=
  (callbacks.flatten.map Read.bytes).flatten

/-- What comes back for the stream `s`, and what stays buffered, is the
same for all cuts of `s` into reads and all groupings of the reads. -/
def SegmentationIndependent (s : List UInt8) : Prop :=
  ∀ callbacks callbacks' : List (List Read), stream callbacks = s → stream callbacks' = s →
    serve callbacks = serve callbacks'

/-! ## The server -/

/-- What the event loop dispatches. -/
inductive Event where
  | accept (fd : Nat)
  | readable (fd : Nat) (reads : List Read)
  | error (fd : Nat)

/-- The clients by file descriptor. -/
def Server : Type := Nat → Option Client

/-- `do_accept`, `read_cb` and `error_cb`, each on the client it was
registered for. -/
def Server.dispatch (s : Server) : Event → Server
  | .accept fd => fun fd' => if fd' = fd then some Client.accepted else s fd'
  | .readable fd reads =>
      fun fd' => if fd' = fd then (s fd).map (fun c => readCb c reads) else s fd'
  | .error fd => fun fd' => if fd' = fd then none else s fd'

/-- `event_base_dispatch` from the start, with no client. -/
def Server.run (events : List Event) : Server :=
  events.foldl Server.dispatch (fun _ => none)

/-- The events of one file descriptor. -/
def Event.concerns (fd : Nat) : Event → Bool
  | .accept fd' => fd' == fd
  | .readable fd' _ => fd' == fd
  | .error fd' => fd' == fd

end Comproject.Echo
