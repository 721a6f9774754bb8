import Compostela.Aggregator.Receive
import Compostela.Follower.Connection

/-!
# `Compostela.System.Link`: a follower's socket with the aggregator behind it

`Link` is what the follower's calls reach: the connection as the aggregator keeps it, the
aggregator's files, and the responses on their way back. `Link.net` makes it a `Net`, so the
functions of the follower run against the functions of the aggregator.

A frame is delivered whole or not at all, and `Fate` says which. Once a send failed or a
frame or its response was lost, the link is dead: no call reaches the aggregator any more,
and only a new connection does.

`Link.log` is the history of the frames on connections that worked, each with the context
that sent it. No function of the programs depends on it.

* `Down`: nothing reaches the aggregator. `Down.sendMessage` and `Down.receiveMessage`.
* `Up`: a connection that works. `Up.sendMessage` has the cases of a send.
* `receiveMessage_of_unread`: a response that is there is received as it was sent.
-/

set_option autoImplicit false

namespace Compostela.System

open Compostela.Common
open Compostela.Memory
open Compostela.Segments
open Compostela.Aggregator
open Compostela.Follower

/-- What becomes of a frame: the send fails, the frame is lost, it is handled and the
response is lost, or the response arrives. -/
inductive Delivery
  | refused
  | lost
  | unanswered
  | answered
  deriving DecidableEq, Repr

/-- The fate of one frame: its delivery, what the aggregator's `do_receive` finds besides
it, and what a receive finds when the link is dead. -/
structure Fate where
  delivery : Delivery
  call : Call
  ending : Ending

/-- The context that uses the connection. `serial` tells the contexts apart. -/
structure Sender where
  serial : Nat
  filename : Option Bytes
  displayName : Bytes
  deriving DecidableEq, Repr

/-- One frame that was sent, and the bytes of the aggregator's response. There are none when the
frame was lost. A response that was lost on its way is there. -/
structure Exchange where
  sender : Sender
  request : Bytes
  response : Bytes
  deriving DecidableEq, Repr

/-- An entry of the history: a frame, or a new connection. -/
inductive Item
  | exchange (x : Exchange)
  | connected
  deriving DecidableEq, Repr

/-- The other end of the follower's socket. `unread` holds the response bytes that were not
received yet, and `log` is the history, oldest entry first. -/
structure Link where
  fs : Fs
  conn : ScConnection
  alive : Bool
  unread : Bytes
  ending : Ending
  fates : List Fate
  log : List Item

namespace Link

/-- The link after the connection was lost. -/
def cut (l : Link) (ending : Ending) : Link :=
  { l with alive := false, unread := [], ending := ending }

/-- The fate of the next frame. -/
def fate (l : Link) : Fate := l.fates.headD ⟨.refused, ⟨zeroHeap, []⟩, .eof⟩

/-- A new connection from the same host. The aggregator's files stay. -/
def reconnect (addr : Option Bytes) (l : Link) : Link :=
  { l with conn := ⟨addr, []⟩, alive := true, unread := [], log := l.log ++ [Item.connected] }

section
variable (cfg : Config) (sender : Sender)

/-- The aggregator receives one frame and answers it. -/
def serve (call : Call) (l : Link) (data : Bytes) : Except Trap Link := do
  let o ← doReceive cfg call.heap call.chunks l.conn l.fs ⟨arrivalsOf data, .eof⟩
  let l := { l with fs := o.fs, log := l.log ++ [Item.exchange ⟨sender, data, o.sent⟩] }
  match o.conn with
  | some conn => .ok { l with conn := conn, unread := l.unread ++ o.sent }
  | none => .ok (l.cut .eof)

/-- `sendall` of one frame. -/
def sendall (l : Link) (data : Bytes) : Except Trap (Int × Link) :=
  let fate := l.fate
  let l := { l with fates := l.fates.tail }
  if fate.delivery = .refused then .ok (-1, l.cut fate.ending)
  else if l.alive = false then .ok (data.length, l.cut fate.ending)
  else if fate.delivery = .lost then
    .ok (data.length,
      { l with log := l.log ++ [Item.exchange ⟨sender, data, []⟩] }.cut fate.ending)
  else do
    let l ← serve cfg sender fate.call l data
    .ok (data.length, if fate.delivery = .unanswered then l.cut fate.ending else l)

/-- `recvall`. With nothing to read it finds the end of the connection. -/
def recvall (l : Link) (size : Nat) : Except Trap (Int × Bytes × Link) :=
  if l.unread = [] then
    .ok (match l.ending with
      | .eof => 0
      | .error => -1, [], l.cut l.ending)
  else .ok ((l.unread.take size).length, l.unread.take size,
    { l with unread := l.unread.drop size })

/-- The calls of a socket with an aggregator behind it. -/
def net : Net Link where
  sendall l data := sendall cfg sender l data
  recvall := recvall

end

/-- Nothing changed at the aggregator, and no frame was on the connection. -/
structure Unheard (l l' : Link) : Prop where
  fs : l'.fs = l.fs
  conn : l'.conn = l.conn
  log : l'.log = l.log

/-- Nothing happened, so nothing was heard. -/
theorem Unheard.refl (l : Link) : Unheard l l := ⟨rfl, rfl, rfl⟩

/-- Two steps that nobody hears are one. -/
theorem Unheard.trans {l l' l'' : Link} (h : Unheard l l') (h' : Unheard l' l'') :
    Unheard l l'' := ⟨h'.fs.trans h.fs, h'.conn.trans h.conn, h'.log.trans h.log⟩

/-- A frame was sent and is lost, or not even that. The aggregator knows nothing of it. -/
structure Lost (sender : Sender) (data : Bytes) (l l' : Link) : Prop where
  fs : l'.fs = l.fs
  conn : l'.conn = l.conn
  log : l'.log = l.log ∨ l'.log = l.log ++ [Item.exchange ⟨sender, data, []⟩]

/-- The aggregator handled a frame. -/
structure Handles (cfg : Config) (sender : Sender) (f : Frame) (l l' : Link) (r : Handled) :
    Prop where
  handled : ∃ (call : Call) (msg : ScLogMessage), msg.frame = f ∧ msg.content.size = BUFSIZE ∧
    handle cfg call.heap call.chunks msg l.conn l.fs = .ok r
  fs : l'.fs = r.fs
  conn : l'.conn = r.conn
  log : l'.log = l.log ++ [Item.exchange ⟨sender, f.bytes, r.sent⟩]

/-- What nobody hears afterwards does not undo that a frame was handled. -/
theorem Handles.unheard {cfg : Config} {sender : Sender} {f : Frame} {l l' l'' : Link}
    {r : Handled} (h : Handles cfg sender f l l' r) (h' : Unheard l' l'') :
    Handles cfg sender f l l'' r :=
  ⟨h.handled, h'.fs.trans h.fs, h'.conn.trans h.conn, h'.log.trans h.log⟩

/-- What nobody hears afterwards does not change that a frame was lost. -/
theorem Lost.unheard {sender : Sender} {data : Bytes} {l l' l'' : Link}
    (h : Lost sender data l l') (h' : Unheard l' l'') : Lost sender data l l'' :=
  ⟨h'.fs.trans h.fs, h'.conn.trans h.conn, by rw [h'.log]; exact h.log⟩

/-- No call reaches the aggregator. -/
structure Dead (l : Link) : Prop where
  alive : l.alive = false
  unread : l.unread = []

/-- A link that was cut is dead. -/
theorem dead_cut (l : Link) (ending : Ending) : (l.cut ending).Dead := ⟨rfl, rfl⟩

section
variable {cfg : Config} {sender : Sender} {l l' : Link}

/-- A send on a dead link reaches nobody. -/
theorem Dead.sendall {data : Bytes} {ret : Int} (h : l.Dead)
    (hsend : Link.sendall cfg sender l data = .ok (ret, l')) : l'.Dead ∧ Unheard l l' := by
  unfold Link.sendall at hsend
  simp only at hsend
  split at hsend
  · cases hsend
    exact ⟨dead_cut _ _, rfl, rfl, rfl⟩
  · rw [if_pos h.alive] at hsend
    cases hsend
    exact ⟨dead_cut _ _, rfl, rfl, rfl⟩

/-- A receive on a dead link fails. -/
theorem Dead.recvall {size : Nat} {ret : Int} {bytes : Bytes} (h : l.Dead)
    (hrecv : Link.recvall l size = .ok (ret, bytes, l')) :
    ret ≤ 0 ∧ bytes = [] ∧ l'.Dead ∧ Unheard l l' := by
  unfold Link.recvall at hrecv
  rw [if_pos h.unread] at hrecv
  cases hrecv
  refine ⟨?_, rfl, dead_cut _ _, rfl, rfl, rfl⟩
  cases l.ending <;> decide

/-- The aggregator handles a complete frame that fits its block. -/
theorem serve_eq_ok {call : Call} {f : Frame} (hfit : f.content.length ≤ BUFSIZE)
    (h : serve cfg sender call l f.bytes = .ok l') :
    ∃ msg r, msg.frame = f ∧ msg.content.size = BUFSIZE ∧
      handle cfg call.heap call.chunks msg l.conn l.fs = .ok r ∧
      l' = { l with
        fs := r.fs, conn := r.conn, unread := l.unread ++ r.sent
        log := l.log ++ [Item.exchange ⟨sender, f.bytes, r.sent⟩] } := by
  -- The stream holds this frame and nothing behind it.
  have hbytes : (⟨arrivalsOf f.bytes, .eof⟩ : Incoming).bytes = f.bytes ++ [] := by
    rw [List.append_nil]
    exact bytesOf_arrivalsOf f.bytes
  obtain ⟨msg, rest, hframe, hsize, -, -, hrecv⟩ :=
    doReceive_of_frame cfg call.heap call.chunks l.conn l.fs hbytes hfit
  unfold serve at h
  rw [hrecv] at h
  cases hhandle : handle cfg call.heap call.chunks msg l.conn l.fs with
  | error t =>
    rw [hhandle] at h
    cases h
  | ok r =>
    rw [hhandle] at h
    cases h
    exact ⟨msg, r, hframe, hsize, hhandle, rfl⟩

/-- A frame that fits the message block is handled when it is served, and the response is there to
be read. -/
theorem serve_of_frame {call : Call} {f : Frame} (hfit : f.content.length ≤ BUFSIZE)
    (h : serve cfg sender call l f.bytes = .ok l') :
    ∃ r, Handles cfg sender f l l' r ∧ l'.alive = l.alive ∧ l'.unread = l.unread ++ r.sent := by
  obtain ⟨msg, r, hframe, hsize, hhandle, rfl⟩ := serve_eq_ok hfit h
  exact ⟨r, ⟨⟨call, msg, hframe, hsize, hhandle⟩, rfl, rfl, rfl⟩, rfl, rfl⟩

/-- When the link is still alive after a send, the frame was answered. -/
theorem serve_of_alive {data : Bytes} {ret : Int}
    (h : Link.sendall cfg sender l data = .ok (ret, l')) (halive : l'.alive = true) :
    ret = data.length ∧
      serve cfg sender l.fate.call { l with fates := l.fates.tail } data = .ok l' := by
  -- A link that was cut is dead, so no branch that cuts it is possible.
  have hcut : ∀ (l1 : Link) (ending : Ending), (l1.cut ending).alive ≠ true := fun _ _ => nofun
  unfold Link.sendall at h
  simp only at h
  split at h
  · cases h
    exact absurd halive (hcut _ _)
  · split at h
    · cases h
      exact absurd halive (hcut _ _)
    · split at h
      · cases h
        exact absurd halive (hcut _ _)
      · obtain ⟨l1, hserve, h⟩ := bind_eq_ok.mp h
        cases h
        split at halive
        · exact absurd halive (hcut _ _)
        · rename_i hanswered
          rw [if_neg hanswered]
          exact ⟨rfl, hserve⟩

/-- What a send of a complete frame can do: the aggregator knows nothing of it and the link is
dead, or the aggregator handles the frame. Then the link is dead without a response, or the
response is there to be read. -/
theorem sendall_of_frame {f : Frame} {ret : Int} (hfit : f.content.length ≤ BUFSIZE)
    (hunread : l.unread = []) (h : Link.sendall cfg sender l f.bytes = .ok (ret, l')) :
    (l'.Dead ∧ Lost sender f.bytes l l') ∨
    ∃ r, Handles cfg sender f l l' r ∧
      (l'.Dead ∨ 0 < ret ∧ l'.alive = l.alive ∧ l'.unread = r.sent) := by
  have hpos : (0 : Int) < f.bytes.length := by
    rw [Frame.length_bytes]
    unfold headerSize
    omega
  unfold Link.sendall at h
  simp only at h
  -- The branches are those of the fate: a dead link, a frame that is cut off, a frame that is lost,
  -- a frame that arrives.
  split at h
  · cases h
    exact Or.inl ⟨dead_cut _ _, rfl, rfl, Or.inl rfl⟩
  · split at h
    · cases h
      exact Or.inl ⟨dead_cut _ _, rfl, rfl, Or.inl rfl⟩
    · split at h
      · cases h
        exact Or.inl ⟨dead_cut _ _, rfl, rfl, Or.inr rfl⟩
      · obtain ⟨l1, hserve, h⟩ := bind_eq_ok.mp h
        obtain ⟨r, hr, halive, hl1⟩ := serve_of_frame hfit hserve
        have hhandles : Handles cfg sender f l l1 r := ⟨hr.handled, hr.fs, hr.conn, hr.log⟩
        cases h
        refine Or.inr ⟨r, ?_⟩
        split
        · exact ⟨⟨hhandles.handled, hhandles.fs, hhandles.conn, hhandles.log⟩,
            Or.inl (dead_cut _ _)⟩
        · refine ⟨hhandles, Or.inr ⟨hpos, halive, ?_⟩⟩
          rw [hl1]
          show l.unread ++ r.sent = r.sent
          rw [hunread, List.nil_append]

end

end Link

open Link

/-! ### A connection that is down -/

/-- A connection over which nothing reaches the aggregator: it is closed, or the link is
dead. -/
def Down (conn : ScAggregatorConnection Link) : Prop := conn.opened = true → conn.net.Dead

section
variable {cfg : Config} {sender : Sender} {conn conn' : ScAggregatorConnection Link}

/-- A closed connection is down, whatever the link is. -/
theorem down_of_closed (l : Link) : Down ⟨false, l⟩ := nofun

/-- A send on a connection that is down changes nothing at the aggregator. -/
theorem Down.sendMessage {msg msg' : ScLogMessage} {ret : Int} (h : Down conn)
    (hsend : scAggregatorConnectionSendMessage (Link.net cfg sender) conn msg =
      .ok (ret, conn', msg')) :
    Down conn' ∧ Unheard conn.net conn'.net := by
  -- The `sendall` call.
  have hcall : ∀ {data : Except Trap Bytes} {n : Int} {conn1 : ScAggregatorConnection Link},
      connSendall (Link.net cfg sender) conn data = .ok (n, conn1) →
      Down conn1 ∧ Unheard conn.net conn1.net := by
    intro data n conn1 h1
    unfold connSendall at h1
    split at h1
    · rename_i hopen
      obtain ⟨bs, -, h1⟩ := bind_eq_ok.mp h1
      obtain ⟨⟨n', l'⟩, hl, h1⟩ := bind_eq_ok.mp h1
      cases h1
      obtain ⟨hdead, hsame⟩ := (h hopen).sendall hl
      exact ⟨fun _ => hdead, hsame⟩
    · cases h1
      exact ⟨h, .refl _⟩
  unfold scAggregatorConnectionSendMessage at hsend
  simp only at hsend
  obtain ⟨⟨n, conn1⟩, h1, hsend⟩ := bind_eq_ok.mp hsend
  obtain ⟨hdown, hsame⟩ := hcall h1
  simp only at hsend
  split at hsend
  · cases hsend
    exact ⟨down_of_closed _, hsame⟩
  · cases hsend
    exact ⟨hdown, hsame⟩

/-- A receive on a connection that is down fails. -/
theorem Down.receiveMessage {heap : Heap} {ret : Int} {resp : Option ScLogMessage} (h : Down conn)
    (hrecv : scAggregatorConnectionReceiveMessage (Link.net cfg sender) heap conn
      = .ok (ret, resp, conn')) :
    ret ≠ 0 ∧ Down conn' ∧ Unheard conn.net conn'.net := by
  unfold scAggregatorConnectionReceiveMessage at hrecv
  obtain ⟨⟨n, bytes, conn1⟩, h1, hrecv⟩ := bind_eq_ok.mp hrecv
  -- The `recvall` call for the header.
  have hcall : n ≤ 0 ∧ Down conn1 ∧ Unheard conn.net conn1.net := by
    unfold connRecvall at h1
    split at h1
    · rename_i hopen
      obtain ⟨⟨n', bytes', l'⟩, hl, h1⟩ := bind_eq_ok.mp h1
      cases h1
      obtain ⟨hle, -, hdead, hsame⟩ := (h hopen).recvall hl
      exact ⟨hle, fun _ => hdead, hsame⟩
    · cases h1
      exact ⟨by decide, h, .refl _⟩
  obtain ⟨hle, hdown, hsame⟩ := hcall
  simp only at hrecv
  by_cases hneg : n < 0
  · rw [if_pos hneg] at hrecv
    cases hrecv
    exact ⟨by decide, down_of_closed _, hsame⟩
  · rw [if_neg hneg, if_pos (by omega)] at hrecv
    cases hrecv
    exact ⟨by decide, hdown, hsame⟩

end

/-! ### A connection that works -/

/-- A connection that works, with no response on its way. -/
structure Up (conn : ScAggregatorConnection Link) : Prop where
  opened : conn.opened = true
  alive : conn.net.alive = true
  unread : conn.net.unread = []

/-- What a send on a connection that works can do. Either the aggregator knows nothing of it,
or it handles the frame and its response is lost or there to be read. -/
theorem Up.sendMessage {cfg : Config} {sender : Sender} {conn conn' : ScAggregatorConnection Link}
    {msg msg' : ScLogMessage} {ret : Int} (h : Up conn) (hlen : 0 ≤ msg.contentLength.toInt)
    (hsize : msg.contentLength.toInt ≤ msg.content.size)
    (hfit : msg.contentLength.toInt ≤ BUFSIZE)
    (hsend : scAggregatorConnectionSendMessage (Link.net cfg sender) conn msg
      = .ok (ret, conn', msg')) :
    (Down conn' ∧ Lost sender msg.frame.bytes conn.net conn'.net) ∨
    ∃ r, Handles cfg sender msg.frame conn.net conn'.net r ∧
      (Down conn' ∨ ret = 0 ∧ conn'.opened = true ∧ conn'.net.alive = true ∧
        conn'.net.unread = r.sent) := by
  have hframe : msg.frame.content.length ≤ BUFSIZE := by
    show (msg.content.bytes 0 msg.contentLength.toInt.toNat).length ≤ BUFSIZE
    rw [Block.length_bytes]
    omega
  rw [scAggregatorConnectionSendMessage_of_frame h.opened hlen hsize] at hsend
  cases hcall : Link.sendall cfg sender conn.net msg.frame.bytes with
  | error t =>
    have herr : (Link.net cfg sender).sendall conn.net msg.frame.bytes = .error t := hcall
    rw [herr] at hsend
    cases hsend
  | ok out =>
    obtain ⟨n, l⟩ := out
    have hok : (Link.net cfg sender).sendall conn.net msg.frame.bytes = .ok (n, l) := hcall
    rw [hok] at hsend
    simp only [Except.map, Except.ok.injEq] at hsend
    -- Whatever the send returned, the connection after it has the link after it.
    have hconn : conn'.net = l ∧ (0 < n → ret = 0 ∧ conn'.opened = true) := by
      by_cases hn : n ≤ 0
      · rw [if_pos hn] at hsend
        cases hsend
        exact ⟨rfl, fun hpos => absurd hpos (by omega)⟩
      · rw [if_neg hn] at hsend
        cases hsend
        exact ⟨rfl, fun _ => ⟨rfl, rfl⟩⟩
    obtain ⟨hnet, hpos⟩ := hconn
    rw [hnet]
    have hdown : l.Dead → Down conn' := fun hdead _ => hnet ▸ hdead
    rcases Link.sendall_of_frame hframe h.unread hcall with ⟨hdead, hlost⟩ | ⟨r, hr, hcase⟩
    · exact Or.inl ⟨hdown hdead, hlost⟩
    · refine Or.inr ⟨r, hr, ?_⟩
      rcases hcase with hdead | ⟨hn, halive, hunread⟩
      · exact Or.inl (hdown hdead)
      · obtain ⟨hret, hopen⟩ := hpos hn
        exact Or.inr ⟨hret, hopen, halive.trans h.alive, hunread⟩

/-! ### A response that arrives -/

/-- The follower receives a response that is there to be read. -/
theorem receiveMessage_of_unread (cfg : Config) (sender : Sender) (heap : Heap) {l : Link}
    {f : Frame}
    (hunread : l.unread = f.bytes) (hlen : 0 ≤ f.contentLength.toInt)
    (hmem : heap.malloc (headerSize + f.content.length) = true) :
    ∃ m, scAggregatorConnectionReceiveMessage (Link.net cfg sender) heap ⟨true, l⟩ =
        .ok (0, some m, ⟨true, { l with unread := [] }⟩) ∧ m.frame = f ∧
      m.content.size = f.content.length := by
  have hne : l.unread ≠ [] := by
    rw [hunread]
    apply List.ne_nil_of_length_pos
    rw [Frame.length_bytes]
    unfold headerSize
    omega
  have htake : l.unread.take headerSize
      = ScLogMessage.netHeader f.code f.channel f.contentLength := by
    rw [hunread, Frame.bytes, List.take_left' (by simp)]
  have hdrop : l.unread.drop headerSize = f.content := by
    rw [hunread, Frame.bytes, List.drop_left' (by simp)]
  -- The first `recvall` takes the header, and leaves the content.
  have hhead :
      (Link.net cfg sender).recvall (⟨true, l⟩ : ScAggregatorConnection Link).net headerSize =
        .ok (headerSize, ScLogMessage.netHeader f.code f.channel f.contentLength,
          { l with unread := f.content }) := by
    show Link.recvall l headerSize = _
    rw [Link.recvall, if_neg hne, htake, hdrop, ScLogMessage.length_netHeader]
  by_cases hnil : f.content = []
  · obtain ⟨m, hrecv, hframe, hsize⟩ := scAggregatorConnectionReceiveMessage_of_frame
      rfl hlen hmem hhead (Or.inl ⟨hnil, rfl⟩)
    rw [hnil] at hrecv
    exact ⟨m, hrecv, hframe, hsize⟩
  · have hbody : (Link.net cfg sender).recvall { l with unread := f.content } f.content.length =
        .ok (f.content.length, f.content, { l with unread := [] }) := by
      show Link.recvall _ _ = _
      rw [Link.recvall, if_neg hnil]
      simp only [List.take_length, List.drop_length]
    obtain ⟨m, hrecv, hframe, hsize⟩ := scAggregatorConnectionReceiveMessage_of_frame
      rfl hlen hmem hhead (Or.inr ⟨hnil, hbody⟩)
    exact ⟨m, hrecv, hframe, hsize⟩

end Compostela.System
