import Compostela.Proofs.FrameOrder

/-!
# `Compostela.Proofs.Awaited`: a request over connections that come and go

While a call of the follower waits, the aggregator handles frames of any connection. A request
that was sent is `Awaits`: it is in flight, or it was handled and its answer is there, and
`awaits_init` and `awaits_data` say that the frames of a moment leave it so. A connection is
`Settled` between two exchanges, and a connection on which a call failed is `GivenUp`. Its last
frame stays in flight.

* `receive_awaited`: the answer is received, or the connection was given up.
* `Settled.sendMessage`: a request is in flight, or the connection was given up.
* `Settled.initFile`: the registration.
* `givenUp_keeps`: both calls on a connection that was given up.
-/

set_option autoImplicit false

namespace Compostela.Proofs.OldConnections

open Compostela.Common
open Compostela.Memory
open Compostela.Runs
open Compostela.Ranges
open Compostela.Segments
open Compostela.Aggregator
open Compostela.Follower
open Compostela.System
open Compostela.Proofs.Resume

/-! ### The calls of the follower -/

section
variable {cfg : Config} {addr : Option Bytes} {name path file before : Bytes}

/-- The invariant speaks of the files, the history, the aggregator's side of the connections
and what is in flight, and of nothing else. -/
theorem Consistent.congr {n n' : Network} (hcons : Consistent cfg addr path name file before n)
    (hfs : n'.fs = n.fs) (hnewest : n'.newest = n.newest) (hlog : n'.log = n.log)
    (hends : ∀ m ∈ n'.moments, m.survives = false)
    (hconn : ∀ k, (n'.connections k).conn = (n.connections k).conn)
    (hflight : ∀ k, (n'.connections k).inFlight = (n.connections k).inFlight) :
    Consistent cfg addr path name file before n' := by
  constructor
  · rw [hfs]
    exact hcons.results
  · rw [hfs]
    exact hcons.size
  · exact hends
  · rw [hlog, hnewest]
    exact hcons.known
  · rw [hnewest]
    intro k hk
    rw [hflight]
    exact hcons.beyond k hk
  · intro k
    rcases hcons.each k with hun | ⟨c, hreg⟩
    · left
      constructor
      · rw [hconn]
        exact hun.conn
      · rw [hlog]
        exact hun.unlogged
      · rw [hflight]
        exact hun.inFlight
    · right
      refine ⟨c, ?_, hreg.isFor, ?_, ?_, ?_, ?_, ?_⟩
      · rw [hconn]
        exact hreg.conn
      · rw [hlog]
        exact hreg.logged
      · rw [hlog]
        exact hreg.short
      · rw [hlog]
        exact hreg.buffered
      · rw [hlog, hfs]
        exact hreg.stored
      · rw [hflight, hlog]
        exact hreg.inFlight
  · rw [hlog, hfs]
    exact hcons.covered

/-- A call takes its moment. -/
theorem Consistent.next {n : Network} (hcons : Consistent cfg addr path name file before n) :
    Consistent cfg addr path name file before { n with moments := n.moments.tail } :=
  hcons.congr rfl rfl rfl (fun m hm => hcons.ends m (List.mem_of_mem_tail hm)) (fun _ => rfl)
    fun _ => rfl

/-- The newest connection with other responses, or given up. -/
theorem Consistent.front {n : Network} (hcons : Consistent cfg addr path name file before n)
    (replies : Bytes) (alive : Bool) :
    Consistent cfg addr path name file before
      (n.set n.newest { n.front with replies := replies, alive := alive }) := by
  refine hcons.congr rfl rfl rfl hcons.ends ?_ ?_
  · intro k
    by_cases hk : k = n.newest
    · rw [hk, Network.set_self]
      rfl
    · rw [Network.set_of_ne _ _ hk]
  · intro k
    by_cases hk : k = n.newest
    · rw [hk, Network.set_self]
      rfl
    · rw [Network.set_of_ne _ _ hk]

/-- A call that fails ends the connection. -/
theorem survives_moment {n : Network} (hcons : Consistent cfg addr path name file before n) :
    n.moment.survives = false := by
  unfold Network.moment
  cases hm : n.moments with
  | nil => rfl
  | cons m ms =>
    refine hcons.ends m ?_
    rw [hm]
    exact List.mem_cons_self ..

/-- A connection that has failed is not alive. -/
theorem alive_fail (n : Network) : (n.fail false).front.alive = false := by
  show ((n.set n.newest _).connections n.newest).alive = false
  rw [Network.set_self]
  exact Bool.and_false _

/-- The aggregator keeps a connection that was given up as it is for the follower. -/
theorem wake_given_up {n n' : Network} {w : Wake} (hdead : n.front.alive = false)
    (h : n.wake cfg w = .ok n') : n'.front.alive = false := by
  by_cases hw : w.connection = n.newest
  · unfold Network.wake at h
    simp only at h
    split at h
    · cases h
      exact hdead
    · obtain ⟨o, -, h⟩ := bind_eq_ok.mp h
      cases h
      show ((n.set w.connection _).connections n.newest).alive = false
      rw [hw, Network.set_self]
      split
      · exact hdead
      · rfl
  · rw [(Network.wake_calm_of_ne hw h).front]
    exact hdead

end

section
variable {cfg : Config} {addr : Option Bytes} {name path file before : Bytes}
  (hmode : SeparateOnly cfg addr name path) (hfile : file.length < 2 ^ 63)
include hmode hfile

/-- What the frames of a moment keep, as long as they are in order. -/
theorem wakes_consistent {n n' : Network} {ws : List Wake}
    (hcons : Consistent cfg addr path name file before n) (h : n.wakes cfg ws = .ok n')
    (hin : InOrder n'.log) : Consistent cfg addr path name file before n' := by
  refine run_invariant
    (I := fun n1 : Network => InOrder n1.log → Consistent cfg addr path name file before n1)
    ?_ (fun _ => hcons) h hin
  intro n1 w n2 h1 hwake hin2
  exact wake_consistent hmode (h1 (hin2.of_suffix (Network.wake_log hwake))) hfile hwake hin2

/-- A receive keeps the invariant. -/
theorem recvall_consistent {n n' : Network} {size : Nat} {ret : Int} {bytes : Bytes}
    (hcons : Consistent cfg addr path name file before n)
    (h : n.recvall cfg size = .ok (ret, bytes, n')) (hin : InOrder n'.log) :
    Consistent cfg addr path name file before n' := by
  obtain ⟨n1, hwakes, hcase⟩ := Network.recvall_cases h
  rcases hcase with ⟨-, -, rfl⟩ | ⟨-, -, -, rfl⟩
  · exact (wakes_consistent hmode hfile hcons.next hwakes hin).front _ _
  · exact (wakes_consistent hmode hfile hcons.next hwakes hin).front _ _

/-- On a connection that was given up both calls keep the invariant. -/
theorem givenUp_keeps : Keeps (Network.net cfg) (fun n => n.front.alive = false ∧
    (InOrder n.log → Consistent cfg addr path name file before n)) := by
  -- What was handled between two calls keeps it.
  have hwakes : ∀ {n n1 : Network} {ws : List Wake}, n.wakes cfg ws = .ok n1 →
      n.front.alive = false → (InOrder n.log → Consistent cfg addr path name file before n) →
      n1.front.alive = false ∧ (InOrder n1.log → Consistent cfg addr path name file before n1) := by
    intro n n1 ws hrun hdead hcons
    have hback : n.log <:+ n1.log := Network.wakes_log hrun
    refine ⟨?_, fun hin =>
      wakes_consistent hmode hfile (hcons (hin.of_suffix hback)) hrun hin⟩
    exact run_invariant (I := fun n2 : Network => n2.front.alive = false)
      (fun _ _ _ h1 hwake => wake_given_up h1 hwake) hdead hrun
  have hfail : ∀ (n1 : Network) (survives : Bool), n1.front.alive = false →
      (n1.fail survives).front.alive = false := by
    intro n1 survives hdead
    show ((n1.set n1.newest _).connections n1.newest).alive = false
    rw [Network.set_self]
    simp [hdead]
  constructor
  · intro n data ret n' h hsend
    obtain ⟨n1, hrun, hcase⟩ := Network.sendall_cases hsend
    obtain ⟨hdead, hcons⟩ := hwakes hrun h.1 fun hin => (h.2 hin).next
    rcases hcase with ⟨-, rfl⟩ | ⟨-, ⟨halive, -⟩ | ⟨-, rfl⟩⟩
    · exact ⟨hfail n1 _ hdead, fun hin => (hcons hin).front _ _⟩
    · rw [hdead] at halive
      cases halive
    · exact ⟨hdead, hcons⟩
  · intro n size ret bytes n' h hrecv
    obtain ⟨n1, hrun, hcase⟩ := Network.recvall_cases hrecv
    obtain ⟨hdead, hcons⟩ := hwakes hrun h.1 fun hin => (h.2 hin).next
    rcases hcase with ⟨-, -, rfl⟩ | ⟨-, -, -, rfl⟩
    · exact ⟨hfail n1 _ hdead, fun hin => (hcons hin).front _ _⟩
    · refine ⟨?_, fun hin => (hcons hin).front _ _⟩
      show ((n1.set n1.newest _).connections n1.newest).alive = false
      rw [Network.set_self]
      exact hdead

end

/-! ### A request and its answer -/

/-- A request was sent on the newest connection: it is in flight, or it was handled and its
answer is there. The answer may depend on the position that the connection has reached. -/
structure Awaits (path : Bytes) (asked : Network → Prop) (answer : Frame → Nat → Prop)
    (n : Network) : Prop where
  alive : n.front.alive = true
  state : asked n ∧ n.front.replies = [] ∨
    n.front.inFlight = [] ∧ n.front.conn.channelList ≠ [] ∧ ∃ f : Frame,
      n.front.replies = f.bytes ∧ 0 ≤ f.contentLength.toInt ∧
        answer f (reached path n.newest n.log)

/-- The INIT of the newest connection is in flight. -/
def AsksInit (addr : Option Bytes) (name : Bytes) (n : Network) : Prop :=
  Unregistered addr name n n.newest ∧ ∃ cxt : ScFollowContext, cxt.displayName = name ∧
    n.front.inFlight = [(initMessage cxt).frame.bytes]

/-- The answer to INIT gives the position from which the connection goes on. -/
def InitAnswer (cfg : Config) (path : Bytes) (f : Frame) (position : Nat) : Prop :=
  ∃ c chunks fs attr, f = initFrame cfg chunks fs c attr ∧ IsFor cfg path c ∧
    (separate path fs).length = position ∧ position < 2 ^ 63

/-- A line is in flight on the newest connection. -/
def AsksData (addr : Option Bytes) (path : Bytes) (base : Nat) (line : Bytes) (n : Network) :
    Prop :=
  (∃ c, n.front.conn = ⟨addr, [c]⟩) ∧ reached path n.newest n.log = base ∧
    ∃ f : Frame, n.front.inFlight = [f.bytes] ∧ IsLine f line

/-- The answer to a line. -/
def DataAnswer (base : Nat) (line : Bytes) (f : Frame) (position : Nat) : Prop :=
  f = okFrame 1 ∧ position = base + line.length

/-- Frames of other connections do not move a connection. -/
theorem reached_append {path : Bytes} {k : Nat} {others log : List Handling}
    (h : ∀ e ∈ others, e.connection ≠ k) :
    reached path k (others ++ log) = reached path k log := by
  induction others with
  | nil => rfl
  | cons e others ih =>
    rw [List.cons_append, reached_of_ne (h e (List.mem_cons_self ..))]
    exact ih fun e' he' => h e' (List.mem_cons_of_mem e he')

/-- What a calm step handles does not move the position that a connection has reached. -/
theorem reached_calm (path : Bytes) {n n' : Network} (h : Network.Calm n n') :
    reached path n'.newest n'.log = reached path n.newest n.log := by
  obtain ⟨others, hlog, hne⟩ := h.log
  rw [h.newest, hlog, reached_append hne]

section
variable {cfg : Config} {addr : Option Bytes} {name path file before : Bytes}

/-- What happens on other connections leaves the one that is waited for alone. -/
theorem Awaits.calm {asked : Network → Prop} {answer : Frame → Nat → Prop} {n n' : Network}
    (h : Awaits path asked answer n) (hcalm : Network.Calm n n') (hasked : asked n → asked n') :
    Awaits path asked answer n' := by
  constructor
  · rw [hcalm.front]
    exact h.alive
  · rw [hcalm.front, reached_calm path hcalm]
    exact h.state.imp (fun hstill => ⟨hasked hstill.1, hstill.2⟩) id

/-- The request was handled: nothing is in flight, and the front holds the answer. -/
theorem Awaits.answered {asked : Network → Prop} {answer : Frame → Nat → Prop} {n : Network}
    {c : Connection} {f : Frame} (hfront : n.front = c) (halive : c.alive = true)
    (hnil : c.inFlight = []) (hchannels : c.conn.channelList ≠ []) (hreplies : c.replies = f.bytes)
    (hlength : 0 ≤ f.contentLength.toInt) (hanswer : answer f (reached path n.newest n.log)) :
    Awaits path asked answer n := by
  subst hfront
  exact ⟨halive, Or.inr ⟨hnil, hchannels, f, hreplies, hlength, hanswer⟩⟩

/-- A name that no connection has registered is not registered by a calm step. -/
theorem Unregistered.calm {n n' : Network} (h : Unregistered addr name n n.newest)
    (hcalm : Network.Calm n n') : Unregistered addr name n' n'.newest := by
  have hfront : n'.connections n'.newest = n.connections n.newest := hcalm.front
  obtain ⟨others, hlog, hne⟩ := hcalm.log
  refine ⟨?_, ?_, ?_⟩
  · rw [hfront]
    exact h.conn
  · intro e he
    rw [hcalm.newest]
    rw [hlog] at he
    exact (List.mem_append.mp he).elim (hne e) (h.unlogged e)
  · rw [hfront]
    exact h.inFlight

/-- The connection with its INIT in flight. -/
theorem Unregistered.request {n : Network} {cxt : ScFollowContext}
    (h : Unregistered addr name n n.newest) (hname : cxt.displayName = name) :
    Unregistered addr name (n.set n.newest { n.front with
      inFlight := [(initMessage cxt).frame.bytes] }) n.newest := by
  constructor
  · rw [Network.set_self]
    exact h.conn
  · exact h.unlogged
  · rw [Network.set_self]
    exact Or.inr ⟨cxt, hname, rfl⟩

/-- The connection with a line in flight. -/
theorem Registered.request {n : Network} {c : ScChannel} {f : Frame} {line : Bytes}
    (h : Registered cfg addr path file n n.newest c) (hline : IsLine f line)
    (hbytes : line <+: file.drop (reached path n.newest n.log)) :
    Registered cfg addr path file
      (n.set n.newest { n.front with inFlight := [f.bytes] }) n.newest c := by
  refine ⟨?_, h.isFor, h.logged, h.short, h.buffered, h.stored, Or.inr ⟨f, line, ?_, hline, hbytes⟩⟩
  · rw [Network.set_self]
    exact h.conn
  · rw [Network.set_self]

/-- An INIT request that is in flight stays so in a calm step. -/
theorem AsksInit.calm {n n' : Network} (h : AsksInit addr name n) (hcalm : Network.Calm n n') :
    AsksInit addr name n' := by
  obtain ⟨hun, hflight⟩ := h
  refine ⟨hun.calm hcalm, ?_⟩
  rw [hcalm.front]
  exact hflight

/-- A DATA request that is in flight stays so in a calm step. -/
theorem AsksData.calm {base : Nat} {line : Bytes} {n n' : Network}
    (h : AsksData addr path base line n) (hcalm : Network.Calm n n') :
    AsksData addr path base line n' := by
  unfold AsksData
  rw [hcalm.front, reached_calm path hcalm]
  exact h

section
variable (hmode : SeparateOnly cfg addr name path)
include hmode

/-- The INIT request is handled at some time. -/
theorem awaits_init {n n' : Network} {w : Wake}
    (hcons : Consistent cfg addr path name file before n)
    (h : Awaits path (AsksInit addr name) (InitAnswer cfg path) n)
    (hwake : n.wake cfg w = .ok n') :
    Awaits path (AsksInit addr name) (InitAnswer cfg path) n' := by
  -- Only a wake-up of the newest connection can answer the request.
  by_cases hw : w.connection = n.newest
  · obtain ⟨k, call⟩ := w
    change k = n.newest at hw
    subst hw
    rcases h.state with ⟨⟨hun, cxt, hname, hflight⟩, hnone⟩ | ⟨hnil, hchannels, hanswer⟩
    · -- The request is handled now.
      obtain ⟨c, chunks, attr, hfor, -, rfl⟩ := wake_init hmode hname hun.conn hflight hwake
      have hcode : code ⟨n.newest, (initMessage cxt).frame.bytes, n.fs, n.fs⟩ = SCM_MSG_INIT :=
        codeOf_bytes _
      have hreached := reached_of_init path n.log rfl hcode
      refine Awaits.answered (Network.set_self n n.newest _) h.alive rfl (List.cons_ne_nil _ _)
        (f := initFrame cfg chunks n.fs c attr) ?_ ?_
        ⟨c, chunks, n.fs, attr, rfl, hfor, hreached.symm, ?_⟩
      · show n.front.replies ++ _ = _
        rw [hnone, List.nil_append]
      · show 0 ≤ (BitVec.ofNat 32 _).toInt
        rw [toInt_ofNat_of_lt (length_initContent_lt ..)]
        exact Int.natCast_nonneg _
      · show reached path n.newest (_ :: n.log) < 2 ^ 63
        rw [hreached]
        exact hcons.size
    · have hidle : n.wake cfg ⟨n.newest, call⟩ = .ok n := Network.wake_of_nil hnil
      rw [hidle] at hwake
      cases hwake
      exact h
  · have hcalm := Network.wake_calm_of_ne hw hwake
    exact h.calm hcalm fun hasked => hasked.calm hcalm

/-- The line is handled at some time. -/
theorem awaits_data {base : Nat} {line : Bytes} {n n' : Network} {w : Wake}
    (hcons : Consistent cfg addr path name file before n)
    (h : Awaits path (AsksData addr path base line) (DataAnswer base line) n)
    (hwake : n.wake cfg w = .ok n') :
    Awaits path (AsksData addr path base line) (DataAnswer base line) n' := by
  -- A wake-up of an older connection leaves the newest one as it is.
  by_cases hw : w.connection = n.newest
  · obtain ⟨k, call⟩ := w
    change k = n.newest at hw
    subst hw
    rcases h.state with ⟨⟨⟨c, hconn⟩, hbase, f, hflight, hline⟩, hnone⟩ | ⟨hnil, -⟩
    · -- The line is handled now, on the channel of its connection.
      have hfor : IsFor cfg path c := by
        rcases hcons.each n.newest with hun | ⟨c1, hreg⟩
        · have hboth := hun.conn
          rw [show (n.connections n.newest).conn = _ from hconn] at hboth
          cases hboth
        · have hboth := hreg.conn
          rw [show (n.connections n.newest).conn = _ from hconn] at hboth
          cases hboth
          exact hreg.isFor
      obtain ⟨c', fs', -, -, -, -, rfl⟩ :=
        wake_line hmode hconn hfor hflight hline hcons.results hwake
      have hcode : code ⟨n.newest, f.bytes, n.fs, fs'⟩ = SCM_MSG_DATA := by
        obtain ⟨complete, time, hframe, -⟩ := hline
        show codeOf f.bytes = SCM_MSG_DATA
        rw [codeOf_bytes]
        exact hframe.code_eq
      refine Awaits.answered (Network.set_self n n.newest _) h.alive rfl (List.cons_ne_nil _ _)
        (f := okFrame 1) ?_ okFrame_length ⟨rfl, ?_⟩
      · show n.front.replies ++ _ = _
        rw [hnone, List.nil_append]
      · show reached path n.newest (_ :: n.log) = base + line.length
        rw [reached_of_data path n.log rfl hcode, textLength_of_line hline, hbase]
    · have hidle : n.wake cfg ⟨n.newest, call⟩ = .ok n := Network.wake_of_nil hnil
      rw [hidle] at hwake
      cases hwake
      exact h
  · have hcalm := Network.wake_calm_of_ne hw hwake
    exact h.calm hcalm fun hasked => hasked.calm hcalm

end

end

/-! ### The response is received -/

/-- The newest connection works, and nothing is on its way in either direction. -/
structure Settled (conn : ScAggregatorConnection Network) : Prop where
  opened : conn.opened = true
  alive : conn.net.front.alive = true
  inFlight : conn.net.front.inFlight = []
  replies : conn.net.front.replies = []

/-- The connection was given up. -/
def GivenUp (conn : ScAggregatorConnection Network) : Prop := conn.net.front.alive = false

/-- A request in flight on a settled connection is waited for. -/
theorem Settled.awaits {conn : ScAggregatorConnection Network} {n : Network} {path bytes : Bytes}
    {asked : Network → Prop} {answer : Frame → Nat → Prop} (hset : Settled conn)
    (hcalm : Network.Calm conn.net n)
    (hasked : asked (n.set n.newest { n.front with inFlight := [bytes] })) :
    Awaits path asked answer (n.set n.newest { n.front with inFlight := [bytes] }) := by
  constructor
  · rw [Network.front_set]
    show n.front.alive = true
    rw [hcalm.front]
    exact hset.alive
  · refine Or.inl ⟨hasked, ?_⟩
    rw [Network.front_set]
    show n.front.replies = []
    rw [hcalm.front]
    exact hset.replies

section
variable {cfg : Config} {addr : Option Bytes} {name path file before : Bytes}

/-- A receive that finds nothing gives the connection up. -/
theorem receive_failed {heap : Heap} {n : Network} {ret1 ret : Int} {bytes : Bytes}
    {s : Network} {resp : Option ScLogMessage} {conn' : ScAggregatorConnection Network}
    (hle : ret1 ≤ 0) (hdead : s.front.alive = false)
    (hhead : n.recvall cfg headerSize = .ok (ret1, bytes, s))
    (h : scAggregatorConnectionReceiveMessage (Network.net cfg) heap ⟨true, n⟩ =
      .ok (ret, resp, conn')) : ret ≠ 0 ∧ GivenUp conn' := by
  have hcall : (Network.net cfg).recvall n headerSize = .ok (ret1, bytes, s) := hhead
  unfold scAggregatorConnectionReceiveMessage connRecvall at h
  simp only [if_true, hcall, ok_bind] at h
  by_cases hneg : ret1 < 0
  · rw [if_pos hneg] at h
    cases h
    exact ⟨by decide, hdead⟩
  · rw [if_neg hneg, if_pos (by omega)] at h
    cases h
    exact ⟨by decide, hdead⟩

/-- The content of an answer that is there: it is received, and the connection is settled, or
the connection was given up. -/
theorem receive_content {s : Network} {m : ScLogMessage} {f : Frame}
    (hcons : Consistent cfg addr path name file before s) (halive : s.front.alive = true)
    (hnone : s.front.inFlight = []) (hreplies : s.front.replies = f.content)
    (hlen : 0 ≤ f.contentLength.toInt) (hcode : m.code = f.code) (hchannel : m.channel = f.channel)
    (hlength : m.contentLength = f.contentLength) (hsize : m.content.size = f.content.length)
    {conn' : ScAggregatorConnection Network} {ret : Int} {resp : Option ScLogMessage}
    (h : receiveContent (Network.net cfg) ⟨true, s⟩ m = .ok (ret, resp, conn')) :
    ret ≠ 0 ∧ GivenUp conn' ∨
    ret = 0 ∧ ∃ m', resp = some m' ∧ m'.frame = f ∧ Settled conn' ∧
      conn'.net.front.conn = s.front.conn ∧
      reached path conn'.net.newest conn'.net.log = reached path s.newest s.log := by
  by_cases hnil : f.content = []
  · obtain ⟨m', hm', hframe, -⟩ := receiveContent_of_frame (Network.net cfg) hlen hcode
      hchannel hlength hsize (Or.inl ⟨hnil, rfl⟩)
    rw [hm'] at h
    cases h
    exact Or.inr ⟨rfl, m', rfl, hframe, ⟨rfl, halive, hnone, hreplies.trans hnil⟩, rfl, rfl⟩
  · cases hbody : Network.recvall cfg s f.content.length with
    | error t =>
      have hcall : (Network.net cfg).recvall s f.content.length = .error t := hbody
      have hpos := List.length_pos_of_ne_nil hnil
      have hcomplete := f.complete
      unfold receiveContent connRecvall at h
      simp only [hlength, if_true] at h
      rw [if_pos (by omega), ← hcomplete, hcall] at h
      cases h
    | ok out =>
      obtain ⟨ret2, bytes2, s2⟩ := out
      obtain ⟨n, hwakes, hcase⟩ := Network.recvall_cases hbody
      -- Nothing is in flight, so the other connections are all that the aggregator reads.
      have hcalm := Network.wakes_calm (by exact hnone) hwakes
      have hfront : n.front = s.front := hcalm.front
      rcases hcase with ⟨hle, hbytes2, hs2⟩ | ⟨-, hbytes2, hret2, hs2⟩
      · rw [hbytes2] at hbody
        have hfailed := receiveContent_of_failed (Network.net cfg) hnil hlen hlength hle
          hbody
        rw [hfailed] at h
        cases h
        refine Or.inl ⟨by decide, ?_⟩
        show s2.front.alive = false
        rw [hs2, survives_moment hcons]
        exact alive_fail n
      · have hall : bytes2 = f.content := by
          rw [hbytes2, hfront, hreplies, List.take_length]
        have hcall : (Network.net cfg).recvall s f.content.length =
            .ok (f.content.length, f.content, s2) := by
          show Network.recvall cfg s f.content.length = _
          rw [hbody, hret2, hall]
        obtain ⟨m', hm', hframe, -⟩ := receiveContent_of_frame (Network.net cfg) hlen
          hcode hchannel hlength hsize (Or.inr ⟨hnil, hcall⟩)
        rw [hm'] at h
        cases h
        have hfront2 : s2.front = { s.front with replies := [] } := by
          have hset : s2.front = { n.front with
              replies := n.front.replies.drop f.content.length } := by
            rw [hs2]
            exact Network.set_self n n.newest _
          rw [hset, hfront, hreplies, List.drop_length]
        have hreached : reached path s2.newest s2.log = reached path s.newest s.log := by
          have hsame := reached_calm path hcalm
          rw [hs2]
          exact hsame
        refine Or.inr ⟨rfl, m', rfl, hframe, ⟨rfl, ?_, ?_, ?_⟩, ?_, hreached⟩
        · show s2.front.alive = true
          rw [hfront2]
          exact halive
        · show s2.front.inFlight = []
          rw [hfront2]
          exact hnone
        · show s2.front.replies = []
          rw [hfront2]
        · show s2.front.conn = s.front.conn
          rw [hfront2]

section
variable (hmode : SeparateOnly cfg addr name path) (hfile : file.length < 2 ^ 63)
include hmode hfile

/-- A receive on the newest connection. -/
theorem receive_consistent {heap : Heap} {conn conn' : ScAggregatorConnection Network}
    {ret : Int} {resp : Option ScLogMessage}
    (hcons : Consistent cfg addr path name file before conn.net)
    (h : scAggregatorConnectionReceiveMessage (Network.net cfg) heap conn =
      .ok (ret, resp, conn')) (hin : InOrder conn'.net.log) :
    Consistent cfg addr path name file before conn'.net := by
  refine receiveMessage_keeps
    (P := fun n : Network => InOrder n.log → Consistent cfg addr path name file before n)
    ?_ (fun _ => hcons) h hin
  intro n size ret bytes n' hn hrecv hin'
  have hback := (Network.net_log cfg n.log).recvall _ _ _ _ _ (List.suffix_refl _) hrecv
  exact recvall_consistent hmode hfile (hn (hin'.of_suffix hback)) hrecv hin'

/-- The answer that is awaited: it is received, and the connection is settled, or the
connection was given up. -/
theorem receive_awaited {asked : Network → Prop} {answer : Frame → Nat → Prop}
    (hstep : ∀ {n n' : Network} {w : Wake}, Consistent cfg addr path name file before n →
      Awaits path asked answer n → n.wake cfg w = .ok n' → Awaits path asked answer n')
    (hnext : ∀ n : Network, asked n → asked { n with moments := n.moments.tail })
    {heap : Heap} (hmem : ∀ k, heap.malloc k = true) {n : Network}
    (hcons : Consistent cfg addr path name file before n) (hawait : Awaits path asked answer n)
    {conn' : ScAggregatorConnection Network} {ret : Int} {resp : Option ScLogMessage}
    (h : scAggregatorConnectionReceiveMessage (Network.net cfg) heap ⟨true, n⟩ =
      .ok (ret, resp, conn')) (hin : InOrder conn'.net.log) :
    ret ≠ 0 ∧ GivenUp conn' ∨
    ret = 0 ∧ ∃ m, resp = some m ∧ Settled conn' ∧ conn'.net.front.conn.channelList ≠ [] ∧
      answer m.frame (reached path conn'.net.newest conn'.net.log) := by
  obtain ⟨ret1, bytes, s, hhead⟩ := recvall_of_receiveMessage rfl h
  obtain ⟨n1, hwakes, hcase⟩ := Network.recvall_cases hhead
  have hsuffix : s.log <:+ conn'.net.log := receiveMessage_keeps_of_header
    (P := fun n2 : Network => s.log <:+ n2.log) (Network.net_log cfg s.log).recvall rfl hhead
    (List.suffix_refl _) h
  rcases hcase with ⟨hle, -, hs⟩ | ⟨hsome, hbytes, hret1, hs⟩
  · refine Or.inl (receive_failed hle ?_ hhead h)
    rw [hs, survives_moment hcons]
    exact alive_fail n1
  · -- There are response bytes, so the request was handled.
    have hlog1 : s.log = n1.log := by rw [hs]; rfl
    have hin1 : InOrder n1.log := hlog1 ▸ hin.of_suffix hsuffix
    obtain ⟨hcons1, hawait1⟩ : Consistent cfg addr path name file before n1 ∧
        Awaits path asked answer n1 := by
      refine run_invariant (I := fun n2 : Network => InOrder n2.log →
        Consistent cfg addr path name file before n2 ∧ Awaits path asked answer n2)
        ?_ ?_ hwakes hin1
      · intro n2 w n3 h2 hwake hin3
        obtain ⟨hcons2, hawait2⟩ := h2 (hin3.of_suffix (Network.wake_log hwake))
        exact ⟨wake_consistent hmode hcons2 hfile hwake hin3, hstep hcons2 hawait2 hwake⟩
      · intro _
        refine ⟨hcons.next, hawait.alive, ?_⟩
        exact hawait.state.imp (fun hstill => ⟨hnext n hstill.1, hstill.2⟩) id
    obtain ⟨hnone, hchannels, f, hreplies, hlen, hanswer⟩ : n1.front.inFlight = [] ∧
        n1.front.conn.channelList ≠ [] ∧ ∃ f : Frame, n1.front.replies = f.bytes ∧
          0 ≤ f.contentLength.toInt ∧ answer f (reached path n1.newest n1.log) :=
      hawait1.state.resolve_left fun hstill => hsome hstill.2
    have htake : bytes = ScLogMessage.netHeader f.code f.channel f.contentLength := by
      rw [hbytes, hreplies, Frame.bytes, List.take_left' (by simp)]
    have hcall : (Network.net cfg).recvall
        (⟨true, n⟩ : ScAggregatorConnection Network).net headerSize =
        .ok (headerSize, ScLogMessage.netHeader f.code f.channel f.contentLength, s) := by
      have hrun : Network.recvall cfg n headerSize = .ok (ret1, bytes, s) := hhead
      show Network.recvall cfg n headerSize = _
      rw [hrun, hret1, htake, ScLogMessage.length_netHeader]
    -- The content is still to be read.
    have hfront : s.front = { n1.front with replies := f.content } := by
      have hdrop : n1.front.replies.drop headerSize = f.content := by
        rw [hreplies, Frame.bytes, List.drop_left' (by simp)]
      rw [hs, hdrop]
      exact Network.set_self n1 n1.newest _
    obtain ⟨m, hcontent, hcode, hchannel, hlength, hsize⟩ :=
      scAggregatorConnectionReceiveMessage_of_header rfl hlen (hmem _) hcall
    rw [hcontent] at h
    have hcons2 : Consistent cfg addr path name file before s := by
      rw [hs]
      exact hcons1.front _ _
    rcases receive_content hcons2 (by rw [hfront]; exact hawait1.alive)
      (by rw [hfront]; exact hnone) (by rw [hfront]) hlen hcode hchannel hlength hsize h with
      hlost | ⟨hret, m', hresp, hframe, hsettled, hconn, hreached⟩
    · exact Or.inl hlost
    · refine Or.inr ⟨hret, m', hresp, hsettled, ?_, ?_⟩
      · rw [hconn, hfront]
        exact hchannels
      · rw [hframe, hreached, hs]
        exact hanswer

end

end

/-! ### A request is sent -/

section
variable {cfg : Config} {addr : Option Bytes} {name path file before : Bytes}

/-- A frame goes into flight on the newest connection. -/
theorem Consistent.send {n : Network} (hcons : Consistent cfg addr path name file before n)
    {frames : List Bytes}
    (h : Unregistered addr name (n.set n.newest { n.front with inFlight := frames }) n.newest ∨
      ∃ c, Registered cfg addr path file (n.set n.newest { n.front with inFlight := frames })
        n.newest c) :
    Consistent cfg addr path name file before
      (n.set n.newest { n.front with inFlight := frames }) := by
  have hother : ∀ {k}, k ≠ n.newest →
      (n.set n.newest { n.front with inFlight := frames }).connections k = n.connections k :=
    fun hk => Network.set_of_ne n _ hk
  constructor
  · exact hcons.results
  · exact hcons.size
  · exact hcons.ends
  · exact hcons.known
  -- Only the frames in flight of the newest connection have changed.
  · intro k hk
    rw [hother (Nat.ne_of_gt hk)]
    exact hcons.beyond k hk
  · intro k
    by_cases hk : k = n.newest
    · rw [hk]
      exact h
    · rcases hcons.each k with hun | ⟨c, hreg⟩
      · left
        constructor
        · rw [hother hk]
          exact hun.conn
        · exact hun.unlogged
        · rw [hother hk]
          exact hun.inFlight
      · right
        refine ⟨c, ?_, hreg.isFor, hreg.logged, hreg.short, hreg.buffered, hreg.stored, ?_⟩
        · rw [hother hk]
          exact hreg.conn
        · rw [hother hk]
          exact hreg.inFlight
  · exact hcons.covered

section
variable (hmode : SeparateOnly cfg addr name path) (hfile : file.length < 2 ^ 63)
include hmode hfile

/-- A message is sent on a settled connection: it is in flight, or the connection was given
up. -/
theorem Settled.sendMessage {conn conn' : ScAggregatorConnection Network} {msg msg' : ScLogMessage}
    {ret : Int} (hset : Settled conn) (hcons : Consistent cfg addr path name file before conn.net)
    (hlen : 0 ≤ msg.contentLength.toInt) (hfit : msg.contentLength.toInt ≤ msg.content.size)
    (h : scAggregatorConnectionSendMessage (Network.net cfg) conn msg = .ok (ret, conn', msg'))
    (hin : InOrder conn'.net.log) :
    ret ≠ 0 ∧ Consistent cfg addr path name file before conn'.net ∧ GivenUp conn' ∨
    ret = 0 ∧ ∃ n, Network.Calm conn.net n ∧ Consistent cfg addr path name file before n ∧
      conn' = ⟨true, n.set n.newest { n.front with inFlight := [msg.frame.bytes] }⟩ := by
  rw [scAggregatorConnectionSendMessage_of_frame hset.opened hlen hfit] at h
  cases hcall : Network.sendall cfg conn.net msg.frame.bytes with
  | error t =>
    have herr : (Network.net cfg).sendall conn.net msg.frame.bytes = .error t := hcall
    rw [herr] at h
    cases h
  | ok out =>
    obtain ⟨k, n'⟩ := out
    have hok : (Network.net cfg).sendall conn.net msg.frame.bytes = .ok (k, n') := hcall
    rw [hok] at h
    simp only [Except.map, Except.ok.injEq] at h
    obtain ⟨n, hwakes, hcase⟩ := Network.sendall_cases hcall
    have hcalm := Network.wakes_calm (by exact hset.inFlight) hwakes
    have hfront : n.front = conn.net.front := hcalm.front
    -- The send fails and the connection is lost, the frame is in flight, or nobody is there to take
    -- it.
    rcases hcase with ⟨hk, hn'⟩ | ⟨hk, ⟨-, hn'⟩ | ⟨hdead, -⟩⟩
    · rw [hk, if_pos (by decide)] at h
      cases h
      rw [hn'] at hin ⊢
      refine Or.inl ⟨by decide, (wakes_consistent hmode hfile hcons.next hwakes hin).front _ _, ?_⟩
      show (n.fail _).front.alive = false
      rw [survives_moment hcons]
      exact alive_fail n
    · have hpos : 0 < msg.frame.bytes.length := by
        rw [Frame.length_bytes]
        unfold headerSize
        omega
      rw [hk, if_neg (by omega)] at h
      cases h
      rw [hn'] at hin ⊢
      rw [hfront, hset.inFlight, List.nil_append] at hin ⊢
      refine Or.inr ⟨rfl, n, ⟨hcalm.newest, hfront, hcalm.log⟩,
        wakes_consistent hmode hfile hcons.next hwakes hin, ?_⟩
      rw [hfront]
    · rw [hfront, hset.alive] at hdead
      cases hdead

/-- The registration on a settled connection that has no channel yet: the context is at the
position that the connection starts from, or the connection was given up. -/
theorem Settled.initFile {md5 : Md5} {inp : RunInput} {heap : Heap} {cxt cxt' : ScFollowContext}
    {conn conn' : ScAggregatorConnection Network} {ret : Int} (hset : Settled conn)
    (hcons : Consistent cfg addr path name file before conn.net)
    (hun : Unregistered addr name conn.net conn.net.newest) (hname : cxt.displayName = name)
    (hmem : ∀ k, heap.malloc k = true)
    (h : initFile (Network.net cfg) md5 inp heap cxt conn = .ok (ret, cxt', conn'))
    (hin : InOrder conn'.net.log) :
    Consistent cfg addr path name file before conn'.net ∧
      (GivenUp conn' ∨ Settled conn' ∧ conn'.net.front.conn.channelList ≠ [] ∧
        cxt' = { cxt with
          channel := 1
          position := (reached path conn'.net.newest conn'.net.log : Nat)
          offset := reached path conn'.net.newest conn'.net.log }) := by
  have hisName : IsName cxt.displayName := by
    rw [hname]
    exact hmode.isName
  have hsend := hisName.init_built.sendable
  have hlen := hsend.length_eq
  have hle := hsend.length_le
  obtain ⟨sent, conn1, msg1, hcall, hcases⟩ := hisName.initFile_cases hmem h
  -- The log only grows, so what holds of the whole of it holds of the part after the send.
  have hsuffix : conn1.net.log <:+ conn'.net.log := by
    have hkeep := Network.net_log cfg conn1.net.log
    rcases hcases with ⟨-, -, -, rfl⟩ | ⟨-, hinit⟩
    · exact List.suffix_refl _
    · exact hkeep.receiveInitResponse (List.suffix_refl _) hinit
  rcases hset.sendMessage hmode hfile hcons (by omega) (by omega) hcall
    (hin.of_suffix hsuffix) with ⟨hne, hcons1, hlost⟩ | ⟨hzero, n, hcalm, hconsn, rfl⟩
  · rcases hcases with ⟨-, -, -, rfl⟩ | ⟨hsent, -⟩
    · exact ⟨hcons1, Or.inl hlost⟩
    · exact absurd hsent hne
  · -- The request is in flight on a connection without a channel.
    have hun1 := (hun.calm hcalm).request hname
    have hcons1 := hconsn.send (Or.inl hun1)
    have hawait : Awaits path (AsksInit addr name) (InitAnswer cfg path) (n.set n.newest
        { n.front with inFlight := [(initMessage cxt).frame.bytes] }) :=
      hset.awaits hcalm ⟨hun1, cxt, hname, by rw [Network.front_set]⟩
    rcases hcases with ⟨hne, -⟩ | ⟨-, hinit⟩
    · exact absurd hzero hne
    obtain ⟨got, resp, hrecv, hgot⟩ := receiveInitResponse_cases hinit
    refine ⟨receive_consistent hmode hfile hcons1 hrecv hin, ?_⟩
    -- The wait for the answer ends in a loss or in the answer to this very request.
    rcases receive_awaited hmode hfile (fun hc ha hw => awaits_init hmode hc ha hw)
      (fun _ hasked => ⟨⟨hasked.1.conn, hasked.1.unlogged, hasked.1.inFlight⟩, hasked.2⟩) hmem
      hcons1 hawait hrecv hin with
      ⟨hne, hlost⟩ | ⟨hret, m, hresp, hsettled, hchannels, c, chunks, fs, attr, hframe,
        hfor, hposition, hsize⟩
    · exact Or.inl hlost
    · rcases hgot with ⟨hnone, -⟩ | ⟨m1, -, hm, htake⟩
      · rw [hret, hresp] at hnone
        exact hnone.elim (absurd rfl) nofun
      · rw [hresp] at hm
        cases hm
        -- The answer resumes at the number of bytes that were reached.
        obtain ⟨-, hcxt⟩ := takeInitResponse_of_answer hframe htake
        refine Or.inr ⟨hsettled, hchannels, ?_⟩
        rw [hcxt, resumed_of_isFor hfor (by rw [hposition]; exact hsize), hposition]

end

end

end Compostela.Proofs.OldConnections
