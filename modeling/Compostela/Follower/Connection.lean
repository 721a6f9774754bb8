import Compostela.Common.Supports

/-!
# `Compostela.Follower.Connection`: the follower's end of the connection

The functions of `follower/connection.c`. A `Net` gives the two calls that they make on
their socket, `sendall` and `recvall`, over the state of whatever is at the other end, so
the same functions run against a byte stream and against an aggregator. A closed socket is
`-1` in C, and every call on it fails.

`sc_aggregator_connection_send_message` converts the header to network order in place and
leaves it so. The length it sends is the one from before the conversion, and any positive
result of `sendall` counts as success.

`sc_aggregator_connection_receive_message` reads the header into a local buffer, allocates
as many content bytes as the length announces, and reads them.

* `scAggregatorConnectionSendMessage_of_frame`: the send of a message that is all there.
* `scAggregatorConnectionReceiveMessage_of_frame`: a complete frame is received as it was
  sent, when its memory is allocated. `Streams.receive_of_frame` is this on a byte stream.
-/

set_option autoImplicit false

namespace Compostela.Follower

open Compostela.Common
open Compostela.Memory
open Compostela.Segments

/-- The calls of a socket. `sendall` gives its return value, `recvall` its return value and
the bytes it wrote. `σ` is the state of the network and of what is behind it. -/
structure Net (σ : Type) where
  sendall : σ → Bytes → Except Trap (Int × σ)
  recvall : σ → Nat → Except Trap (Int × Bytes × σ)

/-- `sc_aggregator_connection`. `opened` is `socket != -1`. -/
structure ScAggregatorConnection (σ : Type) where
  opened : Bool
  net : σ

section
variable {σ : Type} (net : Net σ)

/-- `sc_aggregator_connection_open`. `connected` is the network after a `connect` that
succeeds, or nothing when every attempt fails. A socket that is still open is replaced. -/
def scAggregatorConnectionOpen (connected : Option (σ → σ)) (conn : ScAggregatorConnection σ) :
    Int × ScAggregatorConnection σ :=
  let conn := match connected with
    | some f => ⟨true, f conn.net⟩
    | none => conn
  (if conn.opened then 0 else -1, conn)

/-- `sendall` on the socket of a connection. -/
def connSendall (conn : ScAggregatorConnection σ) (data : Except Trap Bytes) :
    Except Trap (Int × ScAggregatorConnection σ) :=
  if conn.opened then do
    let (ret, s) ← net.sendall conn.net (← data)
    .ok (ret, { conn with net := s })
  else .ok (-1, conn)

/-- `recvall` on the socket of a connection. -/
def connRecvall (conn : ScAggregatorConnection σ) (size : Nat) :
    Except Trap (Int × Bytes × ScAggregatorConnection σ) :=
  if conn.opened then do
    let (ret, bytes, s) ← net.recvall conn.net size
    .ok (ret, bytes, { conn with net := s })
  else .ok (-1, [], conn)

/-- `sc_aggregator_connection_send_message`. The result is the return code, the connection,
and the message as the call leaves it. -/
def scAggregatorConnectionSendMessage (conn : ScAggregatorConnection σ) (msg : ScLogMessage) :
    Except Trap (Int × ScAggregatorConnection σ × ScLogMessage) := do
  let len := msg.contentLength.toInt
  let msg := msg.toNetwork
  let (ret, conn) ← connSendall net conn (msg.load (toSize (len + headerSize)))
  if ret ≤ 0 then .ok (-1, { conn with opened := false }, msg)
  else .ok (0, conn, msg)

/-- The header in the local buffer after `bytes` were received into it. -/
def stackHeader (heap : Heap) (bytes : Bytes) : ScLogMessage :=
  ScLogMessage.withHeader ⟨0, 0, 0, ⟨0, heap.fresh⟩⟩
    (bytes ++ ((List.range headerSize).map heap.stack).drop bytes.length)

/-- The second half of `sc_aggregator_connection_receive_message`: the content. -/
def receiveContent (conn : ScAggregatorConnection σ) (m : ScLogMessage) :
    Except Trap (Int × Option ScLogMessage × ScAggregatorConnection σ) :=
  if 0 < m.contentLength.toInt then do
    let (n, bytes, conn) ← connRecvall net conn m.contentLength.toInt.toNat
    let content ← m.content.store 0 bytes
    if n ≤ 0 then .ok (-3, none, conn)
    else .ok (0, some { m with content := content }, conn)
  else .ok (0, some m, conn)

/-- `sc_aggregator_connection_receive_message`. The result is the return code, the message
when it is zero, and the connection. Only the first error closes the socket. -/
def scAggregatorConnectionReceiveMessage (heap : Heap) (conn : ScAggregatorConnection σ) :
    Except Trap (Int × Option ScLogMessage × ScAggregatorConnection σ) := do
  let (n, bytes, conn) ← connRecvall net conn headerSize
  if n < 0 then .ok (-1, none, { conn with opened := false })
  else if n = 0 then .ok (-4, none, conn)
  else do
    let m0 := stackHeader heap bytes
    match ← scLogMessageNew heap (htonl m0.contentLength).toInt with
    | none => .ok (-2, none, conn)
    | some m =>
        receiveContent net conn
          { m with code := htons m0.code, channel := htons m0.channel }

end

/-! ### Byte streams -/

/-- One call of `sendall`: the bytes it was given, and those that the socket accepted. -/
structure Sent where
  data : Bytes
  accepted : Bytes
  deriving DecidableEq, Repr

/-- A socket with a byte stream in each direction. `sent` lists the `sendall` calls so far,
oldest first. -/
structure Streams where
  script : List Accept
  incoming : Incoming
  sent : List Sent

namespace Streams

/-- The bytes on the wire. -/
def wire (s : Streams) : Bytes := s.sent.flatMap Sent.accepted

/-- The calls of a stream socket. -/
def net : Net Streams where
  sendall s data :=
    let r := Common.sendall data s.script
    .ok (r.1, { s with script := r.2.2, sent := s.sent ++ [⟨data, r.2.1⟩] })
  recvall s size :=
    let r := Common.recvall s.incoming size
    .ok (r.ret, r.bytes, { s with incoming := r.rest })

end Streams

/-! ### Sending and receiving a frame -/

section
variable {σ : Type} {net : Net σ}

/-- The bytes that a send takes from a message that is all there are those of its frame. -/
theorem load_toNetwork_of_frame {msg : ScLogMessage} (hlen : 0 ≤ msg.contentLength.toInt)
    (hfit : msg.contentLength.toInt ≤ msg.content.size) :
    msg.toNetwork.load (toSize (msg.contentLength.toInt + headerSize)) = .ok msg.frame.bytes := by
  have hlt := BitVec.toInt_lt (x := msg.contentLength)
  have hsize : toSize (msg.contentLength.toInt + headerSize)
      = headerSize + msg.contentLength.toInt.toNat := by
    unfold headerSize
    rw [toSize_of_lt] <;> omega
  rw [hsize, ScLogMessage.load_of_le (by simp only [ScLogMessage.content_toNetwork]; omega),
    ScLogMessage.header_toNetwork]
  rfl

/-- The send of a message that is all there: `sendall` gets the bytes of its frame. -/
theorem scAggregatorConnectionSendMessage_of_frame {conn : ScAggregatorConnection σ}
    (hopen : conn.opened = true) {msg : ScLogMessage} (hlen : 0 ≤ msg.contentLength.toInt)
    (hfit : msg.contentLength.toInt ≤ msg.content.size) :
    scAggregatorConnectionSendMessage net conn msg =
      (net.sendall conn.net msg.frame.bytes).map fun r =>
        if r.1 ≤ 0 then (-1, ⟨false, r.2⟩, msg.toNetwork)
        else (0, ⟨true, r.2⟩, msg.toNetwork) := by
  unfold scAggregatorConnectionSendMessage connSendall
  simp only [hopen, if_true, load_toNetwork_of_frame hlen hfit, ok_bind]
  cases net.sendall conn.net msg.frame.bytes with
  | error t => rfl
  | ok r =>
    simp only [ok_bind, Except.map]
    split <;> rfl

/-- A header in the local buffer that was received whole is as it was sent. -/
theorem stackHeader_netHeader (heap : Heap) (code channel : BitVec 16)
    (contentLength : BitVec 32) :
    (stackHeader heap (ScLogMessage.netHeader code channel contentLength)).toNetwork =
      ⟨code, channel, contentLength, ⟨0, heap.fresh⟩⟩ := by
  have hdrop : ((List.range headerSize).map heap.stack).drop
      (ScLogMessage.netHeader code channel contentLength).length = [] :=
    List.drop_eq_nil_of_le (by simp)
  rw [stackHeader, hdrop, List.append_nil, ScLogMessage.toNetwork_withHeader_netHeader]

/-- A header that is received and whose message is allocated: the content is read into a
message of the announced length. -/
theorem scAggregatorConnectionReceiveMessage_of_header {heap : Heap}
    {conn : ScAggregatorConnection σ} (hopen : conn.opened = true) {f : Frame} {s : σ}
    (hlen : 0 ≤ f.contentLength.toInt)
    (hmem : heap.malloc (headerSize + f.content.length) = true)
    (hhead : net.recvall conn.net headerSize =
      .ok (headerSize, ScLogMessage.netHeader f.code f.channel f.contentLength, s)) :
    ∃ m, scAggregatorConnectionReceiveMessage net heap conn = receiveContent net ⟨true, s⟩ m ∧
      m.code = f.code ∧ m.channel = f.channel ∧ m.contentLength = f.contentLength ∧
      m.content.size = f.content.length := by
  have hlt := BitVec.toInt_lt (x := f.contentLength)
  have hcomplete := f.complete
  have hcast : f.contentLength.toInt = (f.content.length : Int) := by omega
  -- The allocated message has the announced length.
  obtain ⟨m, hnew, hsize, hlength⟩ := scLogMessageNew_of_malloc heap
    f.content.length (by unfold headerSize PTRDIFF_MAX; omega) hmem
  have hword : m.contentLength = f.contentLength := by
    rw [hlength]
    apply BitVec.eq_of_toInt_eq
    rw [toInt_ofNat_of_lt (by omega), hcast]
  have hstack := stackHeader_netHeader heap f.code f.channel f.contentLength
  have hcode := congrArg ScLogMessage.code hstack
  have hchannel := congrArg ScLogMessage.channel hstack
  have hclen := congrArg ScLogMessage.contentLength hstack
  simp only [ScLogMessage.toNetwork] at hcode hchannel hclen
  unfold scAggregatorConnectionReceiveMessage connRecvall
  simp only [hopen, if_true, hhead, ok_bind]
  rw [if_neg (by decide), if_neg (by decide), hcode, hchannel, hclen, hcast, hnew]
  exact ⟨_, rfl, rfl, rfl, hword, by simpa using hsize⟩

/-- The content of a frame is received as it was sent. -/
theorem receiveContent_of_frame (net : Net σ) {m : ScLogMessage} {f : Frame} {s1 s2 : σ}
    (hlen : 0 ≤ f.contentLength.toInt) (hcode : m.code = f.code) (hchannel : m.channel = f.channel)
    (hlength : m.contentLength = f.contentLength) (hsize : m.content.size = f.content.length)
    (hbody : f.content = [] ∧ s2 = s1 ∨ f.content ≠ [] ∧
      net.recvall s1 f.content.length = .ok (f.content.length, f.content, s2)) :
    ∃ m', receiveContent net ⟨true, s1⟩ m = .ok (0, some m', ⟨true, s2⟩) ∧ m'.frame = f ∧
      m'.content.size = f.content.length := by
  have hcomplete := f.complete
  have hcast : f.contentLength.toInt = (f.content.length : Int) := by omega
  unfold receiveContent connRecvall
  simp only [hlength, if_true]
  -- An empty content makes no second call of `recvall`.
  rcases hbody with ⟨hnil, rfl⟩ | ⟨hnil, hbody⟩
  · have hzero : ¬ 0 < f.contentLength.toInt := by simp [hcast, hnil]
    rw [if_neg hzero]
    refine ⟨_, rfl, ?_, hsize⟩
    obtain ⟨code, channel, contentLength, content, complete⟩ := f
    simp only at hnil hcast hlength hcode hchannel
    subst hnil
    simp [ScLogMessage.frame, hlength, hcode, hchannel, hcast]
  · have hpos : 0 < f.content.length := List.length_pos_of_ne_nil hnil
    rw [if_pos (by omega), hcast, Int.toNat_natCast, hbody]
    simp only [ok_bind]
    rw [Block.store_of_le (by omega)]
    simp only [ok_bind]
    rw [if_neg (by omega)]
    refine ⟨_, rfl, ?_, by simpa using hsize⟩
    have hbytes := Block.bytes_put_self m.content 0 f.content
    obtain ⟨code, channel, contentLength, content, complete⟩ := f
    simp only at hbytes hcast hlength hcode hchannel
    simp [ScLogMessage.frame, hcode, hchannel, hcast, hbytes]

/-- The content of a frame is not received. -/
theorem receiveContent_of_failed (net : Net σ) {m : ScLogMessage} {f : Frame} {s1 s2 : σ}
    {ret : Int}
    (hne : f.content ≠ []) (hlen : 0 ≤ f.contentLength.toInt)
    (hlength : m.contentLength = f.contentLength) (hret : ret ≤ 0)
    (hbody : net.recvall s1 f.content.length = .ok (ret, [], s2)) :
    receiveContent net ⟨true, s1⟩ m = .ok (-3, none, ⟨true, s2⟩) := by
  have hcomplete := f.complete
  have hpos : 0 < f.content.length := List.length_pos_of_ne_nil hne
  have hcast : f.contentLength.toInt = (f.content.length : Int) := by omega
  unfold receiveContent connRecvall
  simp only [hlength, if_true]
  rw [if_pos (by omega), hcast, Int.toNat_natCast, hbody]
  simp only [ok_bind]
  rw [Block.store_of_le (by simp)]
  simp only [ok_bind]
  rw [if_pos hret]

/-- A frame is received as it was sent when the two `recvall` calls deliver its header and
its content, and its memory is allocated. -/
theorem scAggregatorConnectionReceiveMessage_of_frame {heap : Heap}
    {conn : ScAggregatorConnection σ} (hopen : conn.opened = true) {f : Frame} {s1 s2 : σ}
    (hlen : 0 ≤ f.contentLength.toInt)
    (hmem : heap.malloc (headerSize + f.content.length) = true)
    (hhead : net.recvall conn.net headerSize =
      .ok (headerSize, ScLogMessage.netHeader f.code f.channel f.contentLength, s1))
    (hbody : f.content = [] ∧ s2 = s1 ∨ f.content ≠ [] ∧
      net.recvall s1 f.content.length = .ok (f.content.length, f.content, s2)) :
    ∃ m, scAggregatorConnectionReceiveMessage net heap conn = .ok (0, some m, ⟨true, s2⟩) ∧
      m.frame = f ∧ m.content.size = f.content.length := by
  obtain ⟨m, hrecv, hcode, hchannel, hlength, hsize⟩ :=
    scAggregatorConnectionReceiveMessage_of_header hopen hlen hmem hhead
  rw [hrecv]
  exact receiveContent_of_frame net hlen hcode hchannel hlength hsize hbody

end

/-- The good case of a receive on a byte stream, whatever its segments are. -/
theorem Streams.receive_of_frame {heap : Heap} {s : Streams} {f : Frame} {tail : Bytes}
    (hs : s.incoming.bytes = f.bytes ++ tail) (hlen : 0 ≤ f.contentLength.toInt)
    (hmem : heap.malloc (headerSize + f.content.length) = true) :
    ∃ m rest, scAggregatorConnectionReceiveMessage Streams.net heap ⟨true, s⟩ =
        .ok (0, some m, ⟨true, { s with incoming := rest }⟩) ∧
      m.frame = f ∧ m.content.size = f.content.length ∧ rest.bytes = tail ∧
      rest.ending = s.incoming.ending := by
  have hlong : headerSize ≤ s.incoming.bytes.length := by
    rw [hs, List.length_append, Frame.length_bytes]
    omega
  have hhead : (Common.recvall s.incoming headerSize).bytes
      = ScLogMessage.netHeader f.code f.channel f.contentLength := by
    rw [recvall_bytes, hs, Frame.bytes, List.append_assoc, List.take_left' (by simp)]
  have hrest : (Common.recvall s.incoming headerSize).rest.bytes = f.content ++ tail := by
    rw [recvall_rest_bytes, hs, Frame.bytes, List.append_assoc, List.drop_left' (by simp)]
  have hret := recvall_ret_of_le (by decide : 0 < headerSize) hlong
  -- The call that reads the header, on a connection over the stream.
  have hcall : Streams.net.recvall (⟨true, s⟩ : ScAggregatorConnection Streams).net headerSize =
      .ok (headerSize, ScLogMessage.netHeader f.code f.channel f.contentLength,
        { s with incoming := (Common.recvall s.incoming headerSize).rest }) := by
    simp only [Streams.net, hret, hhead]
  by_cases hnil : f.content = []
  · obtain ⟨m, hrecv, hframe, hsize⟩ := scAggregatorConnectionReceiveMessage_of_frame rfl hlen
      hmem hcall (Or.inl ⟨hnil, rfl⟩)
    exact ⟨m, _, hrecv, hframe, hsize, by rw [hrest, hnil, List.nil_append], rfl⟩
  · have hpos : 0 < f.content.length := List.length_pos_of_ne_nil hnil
    have hbody : (Common.recvall (Common.recvall s.incoming headerSize).rest
        f.content.length).bytes = f.content := by
      rw [recvall_bytes, hrest, List.take_left]
    have hret2 := recvall_ret_of_le (s := (Common.recvall s.incoming headerSize).rest) hpos
      (by rw [hrest]; simp)
    have hcall2 : Streams.net.recvall
        { s with incoming := (Common.recvall s.incoming headerSize).rest } f.content.length =
        .ok (f.content.length, f.content, { s with incoming :=
          (Common.recvall (Common.recvall s.incoming headerSize).rest
            f.content.length).rest }) := by
      simp only [Streams.net, hret2, hbody]
    obtain ⟨m, hrecv, hframe, hsize⟩ := scAggregatorConnectionReceiveMessage_of_frame rfl hlen
      hmem hcall (Or.inr ⟨hnil, hcall2⟩)
    refine ⟨m, _, hrecv, hframe, hsize, ?_, rfl⟩
    rw [recvall_rest_bytes, hrest, List.drop_left]

end Compostela.Follower
