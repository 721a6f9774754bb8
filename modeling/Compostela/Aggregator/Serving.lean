import Compostela.Aggregator.HandlerBlocks
import Compostela.Aggregator.Session

/-!
# `Compostela.Aggregator.Serving`: the calls of `run_main`, on values and in memory

`run_main` accepts connections and calls `do_receive` for them, in any order. `Serving` has these
calls on values. `Machine` has them in memory: what is registered with the `epoll` for a socket is
the address of an `sc_connection`. A socket that is open is not accepted again.

Every call has its own `malloc`, so that addresses that were freed can come back in any way.
-/

set_option autoImplicit false

namespace Compostela.Aggregator

open Compostela.Common
open Compostela.Memory
open Compostela.Segments

/-- What happens at the sockets. A connection is accepted, with its address and the name that
`getnameinfo` has for it, or `do_receive` is called for a socket with what is to arrive there. -/
inductive ServingEvent
  | accept (socket : Nat) (sockaddr : Bytes) (name : Option Bytes)
  | receive (socket : Nat) (call : Call) (s : Incoming)

/-- The open connections by socket, the files, and the responses. `inits` is the number of calls of
`handler_init`. -/
structure Serving where
  conns : List (Nat × ScConnection)
  fs : Fs
  sent : List (Nat × Bytes)
  inits : Nat

/-- The entry for a socket. -/
def entryFor {κ : Type} (socket : Nat) (conns : List (Nat × κ)) : Option (Nat × κ) :=
  conns.find? fun c => c.1 = socket

namespace Serving

def start (fs : Fs) : Serving := ⟨[], fs, [], 0⟩

/-- One call. -/
def step (cfg : Config) (s : Serving) : ServingEvent → Except Trap Serving
  | .accept socket _ name =>
      match entryFor socket s.conns with
      | some _ => .ok s
      | none => .ok { s with conns := (socket, ⟨name, []⟩) :: s.conns }
  | .receive socket call incoming =>
      match entryFor socket s.conns with
      | none => .ok s
      | some (_, conn) => do
          let o ← doReceive cfg call.heap call.chunks conn s.fs incoming
          .ok
            { conns :=
                match o.conn with
                | none => s.conns.filter fun c => c.1 ≠ socket
                | some conn => s.conns.map fun c => if c.1 = socket then (socket, conn) else c
              fs := o.fs
              sent := s.sent ++ [(socket, o.sent)]
              inits := s.inits + Blocks.initsOf (o.called.map Prod.fst) }

end Serving

namespace Blocks

/-- The aggregator in memory. `interest` is what is registered: a socket, and `data.ptr`. -/
structure Machine where
  interest : List (Nat × Nat)
  memory : Memory
  fs : Fs
  sent : List (Nat × Bytes)

namespace Machine

def start (fs : Fs) : Machine := ⟨[], Separation.Mem.empty, fs, []⟩

/-- One call. A connection that `do_receive` closes takes its socket out of the `epoll`. -/
def step (cfg : Config) (fuel : Nat) (t : Machine) : Allocator × ServingEvent → Except Trap Machine
  | (alloc, .accept socket sa name) =>
      match entryFor socket t.interest with
      | some _ => .ok t
      | none => do
          let (conn, memory) ← scConnectionNew alloc sa socket name t.memory
          .ok { t with interest := (socket, conn) :: t.interest, memory := memory }
  | (alloc, .receive socket call incoming) =>
      match entryFor socket t.interest with
      | none => .ok t
      | some (_, conn) => do
          let (r, memory) ←
            doReceive alloc cfg call.heap fuel call.chunks conn t.fs incoming t.memory
          .ok
            { interest :=
                match r.closed with
                | none => t.interest
                | some fd => t.interest.filter fun c => c.1 ≠ fd
              memory := memory
              fs := r.fs
              sent := t.sent ++ [(socket, r.sent)] }

end Machine

end Blocks

end Compostela.Aggregator
