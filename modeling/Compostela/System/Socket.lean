import Compostela.Aggregator.Receive
import Compostela.Follower.Rotate
import Compostela.Lib.Tagged

/-!
# `Compostela.System.Socket`: the follower's socket, one system call at a time

A SIGALRM can arrive between any two system calls. `Socket` is the follower's socket with the
aggregator behind it, at the level of the `send` and `recv` calls, so there is a place for the
signals. `sendLoop` and `recvLoop` are the loops of `common/supports.c` with a hook for what
runs between their calls, and `Socket.net` makes them a `Net`.

`handlerAlarm` is the handler. It runs the real `do_rotate` on the same socket. SIGALRM is
blocked while it runs, so its own calls are not interrupted.

Each `sendall` starts an exchange and takes the next number. `Trace` remembers whose bytes are
on the stream and who read whose response. No function of the programs depends on it.
-/

set_option autoImplicit false

namespace Compostela.System

open Compostela.Common
open Compostela.Memory
open Compostela.Segments
open Compostela.Tagged
open Compostela.Aggregator
open Compostela.Follower

/-! ### The socket -/

/-- What one system call does: it moves at most `k + 1` bytes, or finds that the connection
has ended. -/
inductive Turn
  | upTo (k : Nat)
  | ends (ending : Ending)

/-- A SIGALRM as its handler finds the program: the time, the memory, and the context list of
the moment. -/
structure Alarm where
  clock : Clock
  heap : Nat → Heap
  contexts : List Listed

/-- The signals of one exchange: those before its first `send`, and those before each later
system call. -/
structure Interruption where
  before : List Alarm
  during : List (List Alarm)

/-- The signals to come: `during` is what is left of the current exchange, and `next` are the
exchanges after it. -/
structure Signals where
  during : List (List Alarm)
  next : List Interruption

/-- What happened on one connection. `requests` lists the `sendall` calls, and the place of a
call in it is the number of its exchange. `wire` is the stream to the aggregator, and `reads`
has an entry for each received byte: the exchange that received it, and the exchange whose
frame it is the response to. -/
structure Trace where
  requests : List Bytes
  wire : List (Nat × UInt8)
  reads : List (Nat × Nat)

/-- The follower's socket and the aggregator behind it. `arrived` is the beginning of a frame
at the aggregator, and `unread` the responses that were not received yet. `closed` says that
the handler closed the socket. `owner` is the current exchange. -/
structure Socket where
  fs : Fs
  conn : ScConnection
  arrived : List (Nat × UInt8)
  unread : List (Nat × UInt8)
  lost : Bool
  closed : Bool
  turns : List Turn
  calls : List Call
  signals : Signals
  owner : Nat
  trace : Trace

namespace Socket

/-- The connection has ended. What was on its way is gone. -/
def hangUp (s : Socket) : Socket := { s with lost := true, arrived := [], unread := [] }

/-- What the next system call does. Past the end of the script it moves a whole frame. -/
def turn (s : Socket) : Turn := s.turns.headD (.upTo (headerSize + BUFSIZE))

/-- The number of bytes of the frame at the front of a byte string with a whole header. -/
def frameSize (bytes : Bytes) : Nat :=
  headerSize + (seenHeader zeroHeap (bytes.take headerSize)).contentLength.toInt.toNat

/-- `do_receive` runs when the frame that it reads is there. Its response belongs to the
exchange that sent the first byte of the frame. -/
def serve (cfg : Config) (s : Socket) : Except Trap Socket :=
  let bytes := s.arrived.map Prod.snd
  if headerSize ≤ bytes.length ∧ frameSize bytes ≤ bytes.length then do
    let call := s.calls.headD ⟨zeroHeap, []⟩
    let o ← doReceive cfg call.heap call.chunks s.conn s.fs
      ⟨arrivalsOf (bytes.take (frameSize bytes)), .eof⟩
    let owner := (s.arrived.map Prod.fst).headD 0
    let s := { s with
      fs := o.fs, calls := s.calls.tail, arrived := s.arrived.drop (frameSize bytes) }
    match o.conn with
    | some conn => .ok { s with conn := conn, unread := s.unread ++ tag owner o.sent }
    | none => .ok s.hangUp
  else .ok s

/-- The bytes of one `send` call reach the aggregator. -/
def arrive (cfg : Config) (s : Socket) (bytes : Bytes) : Except Trap Socket :=
  let s := { s with trace := { s.trace with wire := s.trace.wire ++ tag s.owner bytes } }
  if s.lost then .ok s
  else serve cfg { s with arrived := s.arrived ++ tag s.owner bytes }

/-- `send`. -/
def send (cfg : Config) (s : Socket) (data : Bytes) : Except Trap (Int × Socket) :=
  if s.closed then .ok (-1, s.hangUp)
  else
    match s.turn with
    | .ends _ => .ok (-1, { s with turns := s.turns.tail }.hangUp)
    | .upTo k => do
        let s ← arrive cfg { s with turns := s.turns.tail } (data.take (k + 1))
        .ok ((data.take (k + 1)).length, s)

/-- The result of a `recv` at the end of the connection. -/
def endCode : Ending → Int
  | .eof => 0
  | .error => -1

/-- `recv` on a blocking socket. With nothing to read it waits, and as the aggregator answers
at once, it waits until the connection ends. -/
def recv (s : Socket) (size : Nat) : Int × Bytes × Socket :=
  if s.closed then (-1, [], s.hangUp)
  else
    match s.turn with
    | .ends ending => (endCode ending, [], { s with turns := s.turns.tail }.hangUp)
    | .upTo k =>
        let got := s.unread.take (min size (k + 1))
        if got = [] then (0, [], { s with turns := s.turns.tail }.hangUp)
        else
          (got.length, got.map Prod.snd,
            { s with
                turns := s.turns.tail
                unread := s.unread.drop got.length
                trace := { s.trace with
                  reads := s.trace.reads ++ got.map fun p => (s.owner, p.1) } })

/-- A new connection from the same host. The aggregator's files stay. -/
def reconnect (addr : Option Bytes) (s : Socket) : Socket :=
  { s with
      conn := ⟨addr, []⟩, arrived := [], unread := [], lost := false, closed := false
      trace := ⟨[], [], []⟩ }

/-- The next exchange starts. -/
def start (s : Socket) (data : Bytes) : Socket :=
  { s with
      owner := s.trace.requests.length
      trace := { s.trace with requests := s.trace.requests ++ [data] } }

/-! ### The loops -/

/-- What runs before the first system call of an exchange, and before each later one. -/
structure Hooks where
  first : Socket → Except Trap Socket
  later : Socket → Except Trap Socket

section
variable (cfg : Config) (h : Hooks)

/-- The loop of `sendall`: the result of its last call, and the number of bytes sent. Each
call that does not end the loop sends a byte, so `data.length` iterations are enough. -/
def sendLoop : Nat → Socket → Bytes → Except Trap (Int × Nat × Socket)
  | 0, s, _ => .ok (0, 0, s)
  | fuel + 1, s, data => do
      let (cb, s) ← send cfg s data
      if cb ≤ 0 then .ok (cb, 0, s)
      else if data.drop cb.toNat = [] then .ok (cb, cb.toNat, s)
      else do
        let s ← h.later s
        let (cb', n, s) ← sendLoop fuel s (data.drop cb.toNat)
        .ok (cb', cb.toNat + n, s)

/-- `sendall`. -/
def sendall (s : Socket) (data : Bytes) : Except Trap (Int × Socket) := do
  let s ← h.first s
  let (cb, n, s) ← sendLoop cfg h data.length (s.start data) data
  .ok (if n ≠ 0 then n else cb, s)

/-- The loop of `recvall`: the result of its last call, and the bytes received. -/
def recvLoop : Nat → Socket → Nat → Except Trap (Int × Bytes × Socket)
  | 0, s, _ => .ok (0, [], s)
  | fuel + 1, s, size =>
      if size = 0 then .ok (0, [], s)
      else do
        let s ← h.later s
        let (cb, bytes, s) := recv s size
        if cb ≤ 0 then .ok (cb, [], s)
        else do
          let (cb', more, s) ← recvLoop fuel s (size - bytes.length)
          .ok (cb', bytes ++ more, s)

/-- `recvall`. -/
def recvall (s : Socket) (size : Nat) : Except Trap (Int × Bytes × Socket) := do
  let (cb, bytes, s) ← recvLoop h size s size
  .ok (if bytes ≠ [] then bytes.length else cb, bytes, s)

/-- The calls of the socket with hooks. -/
def net : Net Socket where
  sendall := sendall cfg h
  recvall := recvall h

end

/-! ### The handler -/

/-- Nothing runs between the calls while SIGALRM is blocked. -/
def blocked : Hooks := ⟨.ok, .ok⟩

section
variable (cfg : Config) (patterns : List ScConfigPatternEntry)

/-- `handler_alarm`. Whatever it did, the exchange that it interrupts goes on. -/
def handlerAlarm (s : Socket) (a : Alarm) : Except Trap Socket := do
  let (_, conn) ← doRotate (fun _ => net cfg blocked) a.clock a.heap patterns a.contexts
    ⟨!s.closed, s⟩
  .ok { conn.net with closed := !conn.opened, owner := s.owner }

/-- The signals of the main loop. -/
def interrupted : Hooks where
  first s :=
    match s.signals.next with
    | [] => .ok { s with signals := ⟨[], []⟩ }
    | x :: rest =>
        x.before.foldlM (handlerAlarm cfg patterns) { s with signals := ⟨x.during, rest⟩ }
  later s :=
    match s.signals.during with
    | [] => .ok s
    | as :: rest =>
        as.foldlM (handlerAlarm cfg patterns) { s with signals := ⟨rest, s.signals.next⟩ }

end

end Socket

end Compostela.System
