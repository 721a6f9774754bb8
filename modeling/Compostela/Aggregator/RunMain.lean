import Compostela.Aggregator.Session

/-!
# `Compostela.Aggregator.RunMain`: the event loop

`run_main` waits in `epoll_wait` and calls `do_receive` for each connection that has an event.
The connections are registered with `EPOLLET`: an event comes when bytes arrive, and it is gone
when `epoll_wait` has reported it. `do_receive` reads one frame and waits in `recvall` for what
is missing of it, so bytes can also arrive during the call, and they make a new event.

`RunMain` is the state between two calls. `RunMain.wake_queue` says what a call leaves in the
receive queue: everything behind the first frame.
-/

set_option autoImplicit false

namespace Compostela.Aggregator

open Compostela.Common
open Compostela.Memory
open Compostela.Segments

/-- A socket as `epoll` watches it: the connection, the bytes in its receive queue, and whether
an event is pending. -/
structure Watched where
  conn : Option ScConnection
  queue : Bytes
  pending : Bool

/-- The state of `run_main` between two calls. -/
structure RunMain where
  watched : Nat → Watched
  fs : Fs

/-- What happens at the sockets. -/
inductive LoopEvent
  /-- A connection is accepted and registered, with the bytes that are already there. -/
  | accept (socket : Nat) (addr : Option Bytes) (early : Bytes)
  /-- A segment arrives. -/
  | arrive (socket : Nat) (segment : Bytes)
  /-- `epoll_wait` reports the socket. `during` is what arrives before `do_receive` returns. -/
  | wake (socket : Nat) (call : Call) (during : List Arrival)

namespace RunMain

/-- The state with another value for one socket. -/
def set (s : RunMain) (socket : Nat) (w : Watched) : RunMain :=
  { s with watched := fun i => if i = socket then w else s.watched i }

/-- The socket that was set is as it was set. -/
@[simp] theorem watched_set_self (s : RunMain) (socket : Nat) (w : Watched) :
    (s.set socket w).watched socket = w := if_pos rfl

/-- Setting one socket leaves the others alone. -/
theorem watched_set_of_ne (s : RunMain) {socket i : Nat} (h : i ≠ socket) (w : Watched) :
    (s.set socket w).watched i = s.watched i := if_neg h

/-- One event of the loop. There is a wake-up only for a pending event, and `do_receive` returns
when a frame is there. -/
def step (cfg : Config) (s : RunMain) : LoopEvent → Except Trap RunMain
  -- `epoll_ctl` adds the socket, and reports what has arrived before.
  | .accept socket addr early =>
      .ok (s.set socket ⟨some ⟨addr, []⟩, early, decide (early ≠ [])⟩)
  | .arrive socket segment =>
      let w := s.watched socket
      .ok (s.set socket
        { w with queue := w.queue ++ segment, pending := w.pending || decide (segment ≠ []) })
  | .wake socket call during =>
      let w := s.watched socket
      match w.conn with
      | none => .ok s
      | some conn =>
          -- Edge-triggered: without a new event there is no call. A call takes one frame, and
          -- blocks in `recvall` until it is whole.
          if w.pending = true ∧ HoldsFrame (w.queue ++ bytesOf during) then do
            let o ← doReceive cfg call.heap call.chunks conn s.fs
              ⟨arrivalsOf w.queue ++ during, .eof⟩
            .ok { s.set socket ⟨o.conn, o.rest.bytes, decide (bytesOf during ≠ [])⟩ with
              fs := o.fs }
          else .ok s

end RunMain

/-- What `do_receive` leaves of a stream that starts with a complete frame. -/
theorem rest_of_frame {cfg : Config} {heap : Heap} {chunks : List Nat} {conn : ScConnection}
    {fs : Fs} {s : Incoming} {f : Frame} {tail : Bytes} {o : Outcome}
    (hs : s.bytes = f.bytes ++ tail) (h : doReceive cfg heap chunks conn fs s = .ok o) :
    o.rest.bytes = tail := by
  obtain ⟨rest, hrest, -, hrecv⟩ := receiveFrame_of_front heap hs
  -- The call ends, so its content fitted the block.
  obtain ⟨⟨msg, rest'⟩, hframe, h⟩ := bind_eq_ok.mp h
  rw [hrecv] at hframe
  cases hstore : (receiveBuffer heap).content.store 0 f.content with
  | error t =>
    rw [hstore] at hframe
    cases hframe
  | ok content =>
    rw [hstore] at hframe
    cases hframe
    obtain ⟨r, -, h⟩ := bind_eq_ok.mp h
    cases h
    exact hrest

/-- A wake-up that has an event and a frame leaves what is behind the frame, and an event when
something has arrived during the call. -/
theorem RunMain.wake_queue {cfg : Config} {s s' : RunMain} {socket : Nat} {call : Call}
    {during : List Arrival} {conn : ScConnection} (hconn : (s.watched socket).conn = some conn)
    (hpending : (s.watched socket).pending = true) {f : Frame} {tail : Bytes}
    (hqueue : (s.watched socket).queue ++ bytesOf during = f.bytes ++ tail)
    (h : s.step cfg (.wake socket call during) = .ok s') :
    (s'.watched socket).queue = tail ∧
      (s'.watched socket).pending = decide (bytesOf during ≠ []) ∧
      ∀ i, i ≠ socket → s'.watched i = s.watched i := by
  have hguard : (s.watched socket).pending = true ∧
      HoldsFrame ((s.watched socket).queue ++ bytesOf during) :=
    ⟨hpending, (holdsFrame_iff _).mpr ⟨f, tail, hqueue⟩⟩
  have hbytes : Incoming.bytes ⟨arrivalsOf (s.watched socket).queue ++ during, .eof⟩
      = f.bytes ++ tail := by
    rw [← hqueue]
    simp [Incoming.bytes]
  simp only [RunMain.step, hconn] at h
  -- A whole frame is there, so the call does not wait for more of it.
  rw [if_pos hguard] at h
  obtain ⟨o, hdo, h⟩ := bind_eq_ok.mp h
  cases h
  refine ⟨?_, ?_, ?_⟩
  · show ((s.set socket _).watched socket).queue = tail
    rw [watched_set_self]
    exact rest_of_frame hbytes hdo
  · show ((s.set socket _).watched socket).pending = _
    rw [watched_set_self]
  · intro i hi
    exact watched_set_of_ne s hi _

end Compostela.Aggregator
