import Compostela.Aggregator.Receive
import Compostela.Follower.Client

/-!
# `Compostela.System.Network`: the old and the new connections of a follower

A follower that gives up a connection opens a new one and registers again. The aggregator
knows nothing of this. What was sent on the old connection is still there for it to be read,
and `run_main` reads it whenever it comes to that socket, before or after the frames of the
new connection.

`Network` is the aggregator with every connection that the follower has opened. A frame that
was sent is in flight until `poll` wakes the aggregator for its connection, and only the
responses of the newest connection reach the follower. `Network.net` makes it a `Net`. The
aggregator works while a call of the follower waits, and `Moment` says for which connections
it wakes there, so its work and the follower's calls interleave in every way.

`Reconnecting` is the followed file, its context and the connection over the network.
`Network.log` is the history of the frames that were handled, newest first. No function of
the programs depends on it.
-/

set_option autoImplicit false

namespace Compostela.System

open Compostela.Common
open Compostela.Memory
open Compostela.Runs
open Compostela.Segments
open Compostela.Aggregator
open Compostela.Follower

/-- One connection: the aggregator's side of it, the frames in flight, oldest first, and the
response bytes that were not received yet. `alive` says whether frames that are sent on it
still arrive. -/
structure Connection where
  conn : ScConnection
  inFlight : List Bytes
  replies : Bytes
  alive : Bool

/-- `poll` wakes the aggregator: the connection that it reads, by number, and what its
`do_receive` finds besides the frame. -/
structure Wake where
  connection : Nat
  call : Call

/-- One call of the follower: how the aggregator is woken until the call returns, whether the
call fails, with what, and whether the connection works in spite of that. -/
structure Moment where
  wakes : List Wake
  fails : Bool
  ending : Ending
  survives : Bool

/-- One frame that was handled: the number of its connection, its bytes, and the
aggregator's files before and after it. -/
structure Handling where
  connection : Nat
  request : Bytes
  before : Fs
  after : Fs

/-- The aggregator with the connections of a follower. They are numbered in the order in
which they were opened, and `moments` are those of the calls to come. -/
structure Network where
  fs : Fs
  connections : Nat → Connection
  newest : Nat
  moments : List Moment
  log : List Handling

namespace Network

/-- The connection that the follower uses. -/
def front (n : Network) : Connection := n.connections n.newest

/-- The network with another connection of a number. -/
def set (n : Network) (k : Nat) (c : Connection) : Network :=
  { n with connections := Function.update n.connections k c }

/-- A call on the newest connection failed. -/
def fail (n : Network) (survives : Bool) : Network :=
  n.set n.newest { n.front with replies := [], alive := n.front.alive && survives }

/-- A new connection from the same host. -/
def reconnect (addr : Option Bytes) (n : Network) : Network :=
  { n with newest := n.newest + 1 }.set (n.newest + 1) ⟨⟨addr, []⟩, [], [], true⟩

/-- The moment of the next call. -/
def moment (n : Network) : Moment := n.moments.headD ⟨[], true, .eof, false⟩

section
variable (cfg : Config)

/-- The aggregator receives one frame of a connection and answers it. A connection that it
closes delivers nothing any more. -/
def wake (n : Network) (w : Wake) : Except Trap Network :=
  let c := n.connections w.connection
  match c.inFlight with
  | [] => .ok n
  | data :: rest => do
      let o ← doReceive cfg w.call.heap w.call.chunks c.conn n.fs ⟨arrivalsOf data, .eof⟩
      let c := match o.conn with
        | some conn => ⟨conn, rest, c.replies ++ o.sent, c.alive⟩
        | none => ⟨c.conn, [], c.replies ++ o.sent, false⟩
      .ok
        { n.set w.connection c with
          fs := o.fs
          log := ⟨w.connection, data, n.fs, o.fs⟩ :: n.log }

/-- What the aggregator does in a moment. -/
def wakes (n : Network) (ws : List Wake) : Except Trap Network := ws.foldlM (wake cfg) n

/-- `sendall` of one frame. -/
def sendall (n : Network) (data : Bytes) : Except Trap (Int × Network) := do
  let m := n.moment
  let n ← wakes cfg { n with moments := n.moments.tail } m.wakes
  if m.fails then .ok (-1, n.fail m.survives)
  else if n.front.alive then
    .ok (data.length, n.set n.newest { n.front with inFlight := n.front.inFlight ++ [data] })
  else .ok (data.length, n)

/-- `recvall`. With nothing to read it fails. -/
def recvall (n : Network) (size : Nat) : Except Trap (Int × Bytes × Network) := do
  let m := n.moment
  let n ← wakes cfg { n with moments := n.moments.tail } m.wakes
  if m.fails = true ∨ n.front.replies = [] then
    .ok (match m.ending with
      | .eof => 0
      | .error => -1, [], n.fail m.survives)
  else
    .ok ((n.front.replies.take size).length, n.front.replies.take size,
      n.set n.newest { n.front with replies := n.front.replies.drop size })

/-- The calls of a socket over the network. -/
def net : Net Network where
  sendall := sendall cfg
  recvall := recvall cfg

end

/-- A change of one connection leaves the files alone. -/
@[simp] theorem set_fs (n : Network) (k : Nat) (c : Connection) : (n.set k c).fs = n.fs := rfl

/-- A change of one connection does not make another one the newest. -/
@[simp] theorem set_newest (n : Network) (k : Nat) (c : Connection) :
    (n.set k c).newest = n.newest := rfl

/-- A change of one connection leaves the history alone. -/
@[simp] theorem set_log (n : Network) (k : Nat) (c : Connection) : (n.set k c).log = n.log := rfl

/-- The connection that was set is the one that is there. -/
@[simp] theorem set_self (n : Network) (k : Nat) (c : Connection) :
    (n.set k c).connections k = c := Function.update_self ..

/-- When the newest connection is set, it is the one in front. -/
@[simp] theorem front_set (n : Network) (c : Connection) : (n.set n.newest c).front = c :=
  set_self ..

/-- A change of one connection leaves the others alone. -/
theorem set_of_ne (n : Network) {k j : Nat} (c : Connection) (h : j ≠ k) :
    (n.set k c).connections j = n.connections j := Function.update_of_ne h ..

/-- The aggregator handles a complete frame that fits its block. -/
theorem wake_of_frame {cfg : Config} {n n' : Network} {w : Wake} {f : Frame} {rest : List Bytes}
    (hflight : (n.connections w.connection).inFlight = f.bytes :: rest)
    (hfit : f.content.length ≤ BUFSIZE) (h : wake cfg n w = .ok n') :
    ∃ msg r, msg.frame = f ∧ msg.content.size = BUFSIZE ∧
      handle cfg w.call.heap w.call.chunks msg (n.connections w.connection).conn n.fs = .ok r ∧
      n' = { n.set w.connection ⟨r.conn, rest,
          (n.connections w.connection).replies ++ r.sent,
          (n.connections w.connection).alive⟩ with
        fs := r.fs
        log := ⟨w.connection, f.bytes, n.fs, r.fs⟩ :: n.log } := by
  -- The call reads the first frame in flight, and that one alone.
  have hbytes : (⟨arrivalsOf f.bytes, .eof⟩ : Incoming).bytes = f.bytes ++ [] := by
    rw [List.append_nil]
    exact bytesOf_arrivalsOf f.bytes
  obtain ⟨msg, tail, hframe, hsize, -, -, hrecv⟩ := doReceive_of_frame cfg w.call.heap
    w.call.chunks (n.connections w.connection).conn n.fs hbytes hfit
  unfold wake at h
  simp only [hflight] at h
  rw [hrecv] at h
  cases hhandle : handle cfg w.call.heap w.call.chunks msg (n.connections w.connection).conn
      n.fs with
  | error e =>
    rw [hhandle] at h
    cases h
  | ok r =>
    rw [hhandle] at h
    cases h
    exact ⟨msg, r, hframe, hsize, hhandle, rfl⟩

/-- Nothing is in flight on the connection, and nothing happens. -/
theorem wake_of_nil {cfg : Config} {n : Network} {w : Wake}
    (h : (n.connections w.connection).inFlight = []) : n.wake cfg w = .ok n := by
  unfold wake
  simp only [h]

/-- The history only grows. -/
theorem wake_log {cfg : Config} {n n' : Network} {w : Wake} (h : n.wake cfg w = .ok n') :
    n.log <:+ n'.log := by
  unfold wake at h
  simp only at h
  split at h
  · cases h
    exact List.suffix_refl _
  · obtain ⟨o, -, h⟩ := bind_eq_ok.mp h
    cases h
    exact List.suffix_cons _ _

/-- The history only grows when connections wake up. -/
theorem wakes_log {cfg : Config} {n n' : Network} {ws : List Wake}
    (h : n.wakes cfg ws = .ok n') : n.log <:+ n'.log := by
  refine run_invariant (I := fun n1 : Network => n.log <:+ n1.log) ?_ (List.suffix_refl _) h
  intro n1 w n2 h1 hwake
  exact h1.trans (wake_log hwake)

/-- What no frame of another connection changes for the follower. -/
structure Calm (n n' : Network) : Prop where
  newest : n'.newest = n.newest
  front : n'.front = n.front
  log : ∃ others, n'.log = others ++ n.log ∧ ∀ h ∈ others, h.connection ≠ n.newest

/-- A network that nothing happens to is calm. -/
theorem Calm.refl (n : Network) : Calm n n := ⟨rfl, rfl, [], rfl, nofun⟩

/-- Two calm steps are calm together. -/
theorem Calm.trans {n n' n'' : Network} (h : Calm n n') (h' : Calm n' n'') : Calm n n'' := by
  obtain ⟨others, hlog, hne⟩ := h.log
  obtain ⟨others', hlog', hne'⟩ := h'.log
  refine ⟨h'.newest.trans h.newest, h'.front.trans h.front, others' ++ others, ?_, ?_⟩
  · rw [hlog', hlog, List.append_assoc]
  · intro e he
    rcases List.mem_append.mp he with he | he
    · rw [← h.newest]
      exact hne' e he
    · exact hne e he

/-- The aggregator is woken for another connection. -/
theorem wake_calm_of_ne {cfg : Config} {n n' : Network} {w : Wake}
    (hne : w.connection ≠ n.newest) (h : n.wake cfg w = .ok n') : Calm n n' := by
  unfold wake at h
  simp only at h
  split at h
  · cases h
    exact .refl n
  · obtain ⟨o, -, h⟩ := bind_eq_ok.mp h
    cases h
    refine ⟨rfl, set_of_ne n _ (Ne.symm hne), [_], rfl, ?_⟩
    intro e he
    rw [List.mem_singleton.mp he]
    exact hne

/-- The aggregator is woken while nothing is in flight on the newest connection. -/
theorem wake_calm {cfg : Config} {n n' : Network} {w : Wake} (hnone : n.front.inFlight = [])
    (h : n.wake cfg w = .ok n') : Calm n n' := by
  by_cases hw : w.connection = n.newest
  · have hnil : (n.connections w.connection).inFlight = [] := by
      rw [hw]
      exact hnone
    rw [wake_of_nil hnil] at h
    cases h
    exact .refl n
  · exact wake_calm_of_ne hw h

/-- Wake-ups are calm while nothing is in flight on the newest connection. -/
theorem wakes_calm {cfg : Config} {n n' : Network} {ws : List Wake}
    (hnone : n.front.inFlight = []) (h : n.wakes cfg ws = .ok n') : Calm n n' := by
  refine run_invariant ?_ (Calm.refl n) h
  intro n1 w n2 h1 hwake
  refine h1.trans (wake_calm ?_ hwake)
  rw [h1.front]
  exact hnone

/-- What a call of `sendall` does: it fails, the frame is in flight, or it goes to a
connection that delivers nothing any more. -/
theorem sendall_cases {cfg : Config} {n n' : Network} {data : Bytes} {ret : Int}
    (h : sendall cfg n data = .ok (ret, n')) :
    ∃ n1, wakes cfg { n with moments := n.moments.tail } n.moment.wakes = .ok n1 ∧
      (ret = -1 ∧ n' = n1.fail n.moment.survives ∨
        ret = data.length ∧ (n1.front.alive = true ∧
            n' = n1.set n1.newest { n1.front with inFlight := n1.front.inFlight ++ [data] } ∨
          n1.front.alive = false ∧ n' = n1)) := by
  unfold sendall at h
  obtain ⟨n1, hwakes, h⟩ := bind_eq_ok.mp h
  refine ⟨n1, hwakes, ?_⟩
  split at h
  · cases h
    exact Or.inl ⟨rfl, rfl⟩
  · split at h
    · rename_i halive
      cases h
      exact Or.inr ⟨rfl, Or.inl ⟨halive, rfl⟩⟩
    · rename_i hdead
      cases h
      exact Or.inr ⟨rfl, Or.inr ⟨by simpa using hdead, rfl⟩⟩

/-- What a call of `recvall` does: it fails, or it takes response bytes that are there. -/
theorem recvall_cases {cfg : Config} {n n' : Network} {size : Nat} {ret : Int} {bytes : Bytes}
    (h : recvall cfg n size = .ok (ret, bytes, n')) :
    ∃ n1, wakes cfg { n with moments := n.moments.tail } n.moment.wakes = .ok n1 ∧
      (ret ≤ 0 ∧ bytes = [] ∧ n' = n1.fail n.moment.survives ∨
        n1.front.replies ≠ [] ∧ bytes = n1.front.replies.take size ∧ ret = bytes.length ∧
          n' = n1.set n1.newest { n1.front with replies := n1.front.replies.drop size }) := by
  unfold recvall at h
  obtain ⟨n1, hwakes, h⟩ := bind_eq_ok.mp h
  refine ⟨n1, hwakes, ?_⟩
  split at h
  · cases h
    refine Or.inl ⟨?_, rfl, rfl⟩
    cases n.moment.ending <;> decide
  · rename_i hsome
    cases h
    exact Or.inr ⟨fun hnil => hsome (Or.inr hnil), rfl, rfl, rfl⟩

/-- Neither call takes anything out of the history. -/
theorem net_log (cfg : Config) (log : List Handling) :
    Keeps (net cfg) (fun n => log <:+ n.log) := by
  constructor
  · intro n data ret n' h hsend
    obtain ⟨n1, hrun, hcase⟩ := sendall_cases hsend
    have hmore := wakes_log hrun
    have h1 : log <:+ n1.log := h.trans hmore
    rcases hcase with ⟨-, rfl⟩ | ⟨-, ⟨-, rfl⟩ | ⟨-, rfl⟩⟩
    · exact h1
    · exact h1
    · exact h1
  · intro n size ret bytes n' h hrecv
    obtain ⟨n1, hrun, hcase⟩ := recvall_cases hrecv
    have hmore := wakes_log hrun
    have h1 : log <:+ n1.log := h.trans hmore
    rcases hcase with ⟨-, -, rfl⟩ | ⟨-, -, -, rfl⟩
    · exact h1
    · exact h1

end Network

/-- A followed file, its context and the connection. -/
structure Reconnecting where
  file : Bytes
  cxt : ScFollowContext
  conn : ScAggregatorConnection Network

/-- What can happen: the file grows, the aggregator is woken, or the main loop passes the
context. `reconnected` says whether `sc_aggregator_connection_open` succeeds if it is
called. -/
inductive Reconnecting.Event
  | grow (bytes : Bytes)
  | wake (w : Wake)
  | pass (inp : RunInput) (moments : List Moment) (reconnected : Bool)

/-- One event. A file never has `2 ^ 63` bytes or more. -/
def Reconnecting.step (cfg : Config) (md5 : Md5) (addr : Option Bytes) (s : Reconnecting) :
    Reconnecting.Event → Except Trap Reconnecting
  | .grow bytes =>
      .ok (if (s.file ++ bytes).length < 2 ^ 63 then { s with file := s.file ++ bytes } else s)
  | .wake w => do
      let n ← s.conn.net.wake cfg w
      .ok { s with conn := { s.conn with net := n } }
  | .pass inp moments reconnected => do
      let (ret, cxt, conn) ← runFollowContext (Network.net cfg) md5 { inp with file := s.file }
        s.cxt { s.conn with net := { s.conn.net with moments := moments } }
      if ret = ERR_MUST_RECONNECT then
        .ok
          { s with
            cxt := scFollowContextReset cxt
            conn := (scAggregatorConnectionOpen
              (if reconnected then some (Network.reconnect addr) else none) conn).2 }
      else if ret = -1 then .error .useAfterFree
      else .ok { s with cxt := cxt, conn := conn }

end Compostela.System
