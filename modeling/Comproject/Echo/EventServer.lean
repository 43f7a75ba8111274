/-
Comproject.Echo.EventServer — the process of `test/event_test.cpp`: `main`,
`do_accept`, `read_cb` and `error_cb`, with the objects they allocate and
free.

`Comproject.Echo.ReadCb` gives every client an evbuffer of its own as a
value. Here the evbuffers are heap objects. `do_accept` allocates one per
connection and hands its address to both callbacks as their argument,
`read_cb` works on whatever lies there, and `error_cb` frees it together
with the bufferevent. Addresses and descriptors are chosen by the
allocator and the kernel, which promise only that they are not in use. A
callback that touches an evbuffer that is not there is a fault.

`accept` may fail, and `do_accept` then ends the process with `exit(1)`.
`send` may take any number of bytes of the greeting; its result is not
looked at. Its flags are 0 and nobody handles `SIGPIPE`, so on a
connection that the client has reset it can end the process, and so can
the output that the loop writes.
-/
import Comproject.Echo.ReadCb
import Comproject.Lib.Runs

namespace Comproject.Echo

/-- `const char *msg`, "Welcome to My socket". -/
def welcome : List UInt8 :=
  [87, 101, 108, 99, 111, 109, 101, 32, 116, 111, 32, 77, 121, 32, 115, 111, 99, 107, 101, 116]

/-- A `bufferevent` on a client's socket. -/
structure Bufferevent where
  /-- the evbuffer that `bufferevent_setcb` registered as argument -/
  arg : Nat
  /-- what `send` put on the socket before the bufferevent was there -/
  greeting : List UInt8
  output : List UInt8

/-- How the process ended. -/
inductive Ending where
  | exit (status : Int)
  /-- by a signal that nobody handles -/
  | signal
  deriving DecidableEq

structure Process where
  /-- by address -/
  evbuffers : Nat → Option (List UInt8)
  /-- by file descriptor -/
  bufferevents : Nat → Option Bufferevent
  printed : List String
  ended : Option Ending
  /-- an evbuffer was used or freed that is not there -/
  fault : Bool

/-- `main` up to `event_base_dispatch`, given what `socket` and `bind`
return and what `event_base_get_method` says. -/
def Process.main (socket bind : Int) (method : String) : Process :=
  let s : Process := ⟨fun _ => none, fun _ => none, [], none, false⟩
  if socket < 0 then { s with printed := ["socket error\n"], ended := some (.exit 0) }
  else if bind < 0 then { s with printed := ["bind error\n"], ended := some (.exit 0) }
  else { s with printed := ["METHOD:" ++ method ++ "\n"] }

/-- What the event loop dispatches, with what the system calls return. -/
inductive LoopEvent where
  /-- `do_accept`: `accept` returns `fd`, `send` returns `sent`, and
  `evbuffer_new` returns the address `buf` -/
  | accepted (fd : Nat) (peer : String) (sent : Int) (buf : Nat)
  /-- `do_accept`: `accept` fails -/
  | acceptFailed
  /-- `do_accept`: `accept` returns, and `send` raises `SIGPIPE` -/
  | acceptedReset (peer : String)
  /-- `read_cb` -/
  | readable (fd : Nat) (reads : List Read)
  /-- `error_cb` with the flags `event` -/
  | error (fd : Nat) (event : UInt16)
  /-- a signal from outside, or the `SIGPIPE` of output that the loop
  writes -/
  | killed

def bevEventEof : UInt16 := 0x10
def bevEventError : UInt16 := 0x20
def bevEventTimeout : UInt16 := 0x40

/-- The line that `error_cb` prints. -/
def errorLine (fd : Nat) (event : UInt16) : String :=
  "fd = " ++ toString fd ++ ", " ++
    if event &&& bevEventTimeout ≠ 0 then "Timed out\n"
    else if event &&& bevEventEof ≠ 0 then "connection closed\n"
    else if event &&& bevEventError ≠ 0 then "some other error\n"
    else ""

/-- The line that `do_accept` prints of a client. -/
def loginLine (peer : String) : String := "client [" ++ peer ++ "] login success\n"

/-- `do_accept` after a successful `accept`. -/
def Process.doAccept (s : Process) (fd : Nat) (peer : String) (sent : Int) (buf : Nat) : Process :=
  { s with
    evbuffers := Function.update s.evbuffers buf (some [])
    bufferevents := Function.update s.bufferevents fd (some ⟨buf, welcome.take sent.toNat, []⟩)
    printed := s.printed ++ [loginLine peer] }

/-- `read_cb(bev, arg)`. -/
def Process.readCb (s : Process) (fd : Nat) (bev : Bufferevent) (reads : List Read) : Process :=
  match s.evbuffers bev.arg with
  | none => { s with fault := true }
  | some buf =>
    let c := Echo.readCb ⟨buf, bev.output⟩ reads
    { s with
      evbuffers := Function.update s.evbuffers bev.arg (some c.buf)
      bufferevents := Function.update s.bufferevents fd (some { bev with output := c.echoed }) }

/-- `error_cb(bev, event, arg)`. -/
def Process.errorCb (s : Process) (fd : Nat) (bev : Bufferevent) (event : UInt16) : Process :=
  match s.evbuffers bev.arg with
  | none => { s with fault := true }
  | some _ =>
    { s with
      evbuffers := Function.update s.evbuffers bev.arg none
      bufferevents := Function.update s.bufferevents fd none
      printed := s.printed ++ [errorLine fd event] }

/-- One round of the event loop. Events arrive for open descriptors only,
and nothing happens after the end of the process or a fault. -/
def Process.step (s : Process) (e : LoopEvent) : Option Process :=
  if s.ended.isSome || s.fault then none
  else
    match e with
    | .accepted fd peer sent buf =>
      if (s.bufferevents fd).isNone && (s.evbuffers buf).isNone then
        some (s.doAccept fd peer sent buf)
      else none
    | .acceptFailed =>
      some { s with printed := s.printed ++ ["accpet error\n"], ended := some (.exit 1) }
    | .acceptedReset peer =>
      some { s with printed := s.printed ++ [loginLine peer], ended := some .signal }
    | .killed => some { s with ended := some .signal }
    | .readable fd reads => (s.bufferevents fd).map (fun bev => s.readCb fd bev reads)
    | .error fd event => (s.bufferevents fd).map (fun bev => s.errorCb fd bev event)

/-- The client behind a descriptor. -/
def Process.client (s : Process) (fd : Nat) : Option Client :=
  (s.bufferevents fd).bind (fun bev => (s.evbuffers bev.arg).map (fun buf => ⟨buf, bev.output⟩))

/-- The event as the server with values sees it. -/
def LoopEvent.toEvent : LoopEvent → Option Event
  | .accepted fd _ _ _ => some (.accept fd)
  | .acceptFailed | .acceptedReset _ | .killed => none
  | .readable fd reads => some (.readable fd reads)
  | .error fd _ => some (.error fd)

/-- The end of the process that the event is, if it is one. -/
def LoopEvent.ending : LoopEvent → Option Ending
  | .acceptFailed => some (.exit 1)
  | .acceptedReset _ | .killed => some .signal
  | .accepted _ _ _ _ | .readable _ _ | .error _ _ => none

/-- What one event adds to the bytes read from a descriptor since its
connection was accepted. -/
def receive (fd : Nat) (bytes : List UInt8) : Event → List UInt8
  | .accept fd' => if fd' = fd then [] else bytes
  | .readable fd' reads => if fd' = fd then bytes ++ (reads.map Read.bytes).flatten else bytes
  | .error _ => bytes

/-- The bytes read from a descriptor since its connection was accepted. -/
def received (fd : Nat) (events : List Event) : List UInt8 := events.foldl (receive fd) []

end Comproject.Echo
