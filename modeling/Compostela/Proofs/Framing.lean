import Compostela.System.Wire
import Mathlib.Data.List.Forall2

/-!
# `Compostela.Proofs.Framing`: the wire format in both directions

Requests go from the message builders of the follower through
`sc_aggregator_connection_send_message` to `do_receive` and the handlers, and responses from
`_sc_connection_send` through `sc_aggregator_connection_receive_message` to `_init_file`. A
stream carries many of them, and it is cut into sends and receives in any way.

The sender's side of a stream puts the frames on the wire in order, and the receiver's side
takes them off one by one. `framing_round_trip` joins the two: the list that was built is the
list that is read.
-/

set_option autoImplicit false

namespace Compostela.Proofs.Framing

open Compostela.Common
open Compostela.Memory
open Compostela.Segments
open Compostela.Aggregator
open Compostela.Follower
open Compostela.System

/-! ### Streams of requests -/

/-- The connection after one more request. -/
def sendMessage (conn : ScAggregatorConnection Streams) (msg : ScLogMessage) :
    Except Trap (ScAggregatorConnection Streams) :=
  (scAggregatorConnectionSendMessage Streams.net conn msg).map fun r => r.2.1

/-- The requests of a list, sent one after the other on one connection. -/
def sendMessages (conn : ScAggregatorConnection Streams) (msgs : List ScLogMessage) :
    Except Trap (ScAggregatorConnection Streams) := msgs.foldlM sendMessage conn

/-- As many receives as there are memories, until one finds the end of the stream. -/
def receiveFrames : List Heap → Incoming → Except Trap (List ScLogMessage × Incoming)
  | [], s => .ok ([], s)
  | heap :: heaps, s => do
      match ← receiveFrame heap s with
      | (none, rest) => .ok ([], rest)
      | (some msg, rest) => do
          let (msgs, rest) ← receiveFrames heaps rest
          .ok (msg :: msgs, rest)

/-- A `sendall` whose calls all accept something puts all of its data on the wire. -/
theorem sendall_of_accepting {data : Bytes} {script : List Accept} (hne : data ≠ [])
    (h : ∀ r ∈ script, r ≠ .refuse) :
    ∃ script', sendall data script = ((BitVec.ofNat 32 data.length).toInt, data, script') ∧
      ∀ r ∈ script', r ≠ .refuse := by
  obtain ⟨hall, hrest⟩ := writeFull_of_accepting data script h
  refine ⟨(writeFull data script).2, ?_, hrest⟩
  simp only [sendall, hall]
  rw [if_pos hne]

/-- No frame is empty: it has a header. -/
theorem frame_bytes_ne_nil (f : Frame) : f.bytes ≠ [] := by
  apply List.ne_nil_of_length_pos
  rw [Frame.length_bytes]
  unfold headerSize
  omega

/-- One message sent on an accepting socket: the frame is on the wire, and the connection
stays open. -/
theorem send_of_sendable {s : Streams} {msg : ScLogMessage} {code channel : BitVec 16}
    {content : Bytes} (hmsg : Sendable msg code channel content)
    (h : ∀ r ∈ s.script, r ≠ .refuse) :
    ∃ s', sendMessage ⟨true, s⟩ msg = .ok ⟨true, s'⟩ ∧
      s'.wire = s.wire ++ msg.frame.bytes ∧ ∀ r ∈ s'.script, r ≠ .refuse := by
  have hne := frame_bytes_ne_nil msg.frame
  have hpos := List.length_pos_of_ne_nil hne
  obtain ⟨script', hsend, haccept⟩ := sendall_of_accepting hne h
  have hlen := hmsg.length_eq
  have hle := hmsg.length_le
  -- The frame is short enough for the count to be an `int`.
  have hcount : (BitVec.ofNat 32 msg.frame.bytes.length).toInt = msg.frame.bytes.length := by
    have hfits := hmsg.fits
    apply toInt_ofNat_of_lt
    rw [Frame.length_bytes, hmsg.frame.content_eq]
    unfold headerSize BUFSIZE at *
    omega
  refine ⟨{ s with script := script', sent := s.sent ++ [⟨msg.frame.bytes, msg.frame.bytes⟩] },
    ?_, ?_, haccept⟩
  · rw [sendMessage, scAggregatorConnectionSendMessage_of_frame rfl (by omega) (by omega)]
    simp only [Streams.net, hsend, Except.map, hcount]
    rw [if_neg (by omega)]
  · simp [Streams.wire]

/-- The sender's side of a stream of requests: the frames are on the wire in order, and each
of them fits the block of the receiver. -/
theorem sendMessages_of_built {msgs : List ScLogMessage} {reqs : List Req}
    (hbuilt : List.Forall₂ Built msgs reqs) {s : Streams} (h : ∀ r ∈ s.script, r ≠ .refuse) :
    ∃ s', sendMessages ⟨true, s⟩ msgs = .ok ⟨true, s'⟩ ∧
      s'.wire = s.wire ++ (msgs.map ScLogMessage.frame).flatMap Frame.bytes ∧
      ∀ f ∈ msgs.map ScLogMessage.frame, f.content.length ≤ BUFSIZE := by
  induction hbuilt generalizing s with
  | nil =>
    refine ⟨s, rfl, by simp, ?_⟩
    intro f hf
    cases hf
  | @cons msg req msgs reqs hmsg _ ih =>
    obtain ⟨s1, hsend, hwire, haccept⟩ := send_of_sendable hmsg.sendable h
    -- A script that accepts everything still does after one message.
    obtain ⟨s2, hrest, hwire2, hfit⟩ := ih haccept
    refine ⟨s2, ?_, ?_, ?_⟩
    · show (msg :: msgs).foldlM sendMessage _ = _
      rw [List.foldlM_cons, hsend]
      exact hrest
    · rw [hwire2, hwire, List.map_cons, List.flatMap_cons, List.append_assoc]
    · intro f hf
      rcases List.mem_cons.mp hf with rfl | hf
      · rw [hmsg.sendable.frame.content_eq]
        exact hmsg.sendable.fits
      · exact hfit f hf

/-- The receiver's side of a stream of frames. -/
theorem receiveFrames_of_frames {frames : List Frame} {heaps : List Heap} {s : Incoming}
    {tail : Bytes} (hheaps : heaps.length = frames.length)
    (hfit : ∀ f ∈ frames, f.content.length ≤ BUFSIZE)
    (hs : s.bytes = frames.flatMap Frame.bytes ++ tail) :
    ∃ msgs rest, receiveFrames heaps s = .ok (msgs, rest) ∧ rest.bytes = tail ∧
      msgs.map ScLogMessage.frame = frames := by
  induction frames generalizing heaps s with
  | nil =>
    cases List.eq_nil_of_length_eq_zero hheaps
    exact ⟨[], s, rfl, by simpa using hs, rfl⟩
  | cons f frames ih =>
    cases heaps with
    | nil => cases hheaps
    | cons heap heaps =>
      rw [List.flatMap_cons, List.append_assoc] at hs
      obtain ⟨msg, rest, hrecv, hframe, -, hrest, -⟩ :=
        receiveFrame_of_frame heap hs (hfit f (List.mem_cons_self ..))
      obtain ⟨msgs, rest', hrecvs, hrest', hframes⟩ := ih (by simpa using hheaps)
        (fun g hg => hfit g (List.mem_cons_of_mem f hg)) hrest
      refine ⟨msg :: msgs, rest', ?_, hrest', by rw [List.map_cons, hframe, hframes]⟩
      simp only [receiveFrames, hrecv, ok_bind, hrecvs]

/-- Two lists of messages with the same frames: what was built is what is read. -/
theorem forall₂_reads {msgs received : List ScLogMessage} {reqs : List Req}
    (hbuilt : List.Forall₂ Built msgs reqs)
    (hframes : received.map ScLogMessage.frame = msgs.map ScLogMessage.frame) :
    List.Forall₂ Reads received reqs := by
  induction hbuilt generalizing received with
  | nil =>
    cases List.map_eq_nil_iff.mp hframes
    exact .nil
  | cons hmsg _ ih =>
    cases received with
    | nil => cases hframes
    | cons m received =>
      rw [List.map_cons, List.map_cons, List.cons.injEq] at hframes
      refine .cons (reads_of_frame (hframes.1 ▸ hmsg.sendable.frame) ?_) (ih hframes.2)
      intro attr name hreq
      cases hmsg with
      | init cxt hname hlen =>
        cases hreq
        exact hname
      | data => cases hreq
      | rele => cases hreq

/-! ### Responses -/

/-- The bytes on the wire and the calls to come, after one more response. -/
def sendResponse (s : Bytes × List Accept) (resp : Resp) : Except Trap (Bytes × List Accept) :=
  (scConnectionSend resp.message).map fun data =>
    (s.1 ++ (sendall data s.2).2.1, (sendall data s.2).2.2)

/-- The responses of a list, sent one after the other. -/
def sendResponses (script : List Accept) (resps : List Resp) :
    Except Trap (Bytes × List Accept) := resps.foldlM sendResponse ([], script)

/-- As many receives as there are memories, until one fails. -/
def receiveMessages : List Heap → ScAggregatorConnection Streams →
    Except Trap (List ScLogMessage × ScAggregatorConnection Streams)
  | [], conn => .ok ([], conn)
  | heap :: heaps, conn => do
      match ← scAggregatorConnectionReceiveMessage Streams.net heap conn with
      | (0, some msg, conn) => do
          let (msgs, conn) ← receiveMessages heaps conn
          .ok (msg :: msgs, conn)
      | (_, _, conn) => .ok ([], conn)

/-- The aggregator's side of a stream of responses. -/
theorem sendResponses_of_accepting {resps : List Resp}
    (hlen : ∀ resp ∈ resps, resp.content.length < 2 ^ 31) {script : List Accept}
    (h : ∀ r ∈ script, r ≠ .refuse) :
    ∃ script', sendResponses script resps =
      .ok ((resps.map fun resp => resp.message.frame).flatMap Frame.bytes, script') := by
  -- The wire so far is a parameter of the induction.
  suffices hgen : ∀ wire : Bytes, ∃ script', resps.foldlM sendResponse (wire, script) =
      .ok (wire ++ (resps.map fun resp => resp.message.frame).flatMap Frame.bytes, script') by
    simpa [sendResponses] using hgen []
  induction resps generalizing script with
  | nil =>
    intro wire
    exact ⟨script, by simp⟩
  | cons resp resps ih =>
    intro wire
    obtain ⟨hsend, -, -, -⟩ := resp.frame_eq (hlen resp (List.mem_cons_self ..))
    obtain ⟨script1, haccepted, haccept⟩ :=
      sendall_of_accepting (frame_bytes_ne_nil resp.message.frame) h
    obtain ⟨script', hrest⟩ := ih (fun r hr => hlen r (List.mem_cons_of_mem resp hr)) haccept
      (wire ++ resp.message.frame.bytes)
    have hone : sendResponse (wire, script) resp =
        .ok (wire ++ resp.message.frame.bytes, script1) := by
      simp only [sendResponse, hsend, Except.map, haccepted]
    refine ⟨script', ?_⟩
    rw [List.foldlM_cons, hone, ok_bind, hrest, List.map_cons, List.flatMap_cons,
      List.append_assoc]

/-- The follower's side of a stream of responses. -/
theorem receiveMessages_of_frames {frames : List Frame} {heaps : List Heap} {s : Streams}
    {tail : Bytes}
    (hheaps : List.Forall₂ (fun heap f => heap.malloc (headerSize + f.content.length) = true)
      heaps frames)
    (hlen : ∀ f ∈ frames, 0 ≤ f.contentLength.toInt)
    (hs : s.incoming.bytes = frames.flatMap Frame.bytes ++ tail) :
    ∃ msgs s', receiveMessages heaps ⟨true, s⟩ = .ok (msgs, ⟨true, s'⟩) ∧
      s'.incoming.bytes = tail ∧ msgs.map ScLogMessage.frame = frames := by
  induction hheaps generalizing s with
  | nil => exact ⟨[], s, rfl, by simpa using hs, rfl⟩
  | @cons heap f heaps frames hmem _ ih =>
    rw [List.flatMap_cons, List.append_assoc] at hs
    obtain ⟨msg, rest, hrecv, hframe, -, hrest, -⟩ :=
      Streams.receive_of_frame hs (hlen f (List.mem_cons_self ..)) hmem
    obtain ⟨msgs, s', hrecvs, hrest', hframes⟩ :=
      ih (s := { s with incoming := rest }) (fun g hg => hlen g (List.mem_cons_of_mem f hg)) hrest
    refine ⟨msg :: msgs, s', ?_, hrest', by rw [List.map_cons, hframe, hframes]⟩
    simp only [receiveMessages, hrecv, ok_bind, hrecvs]

/-- The memories that serve the responses serve their frames. -/
theorem forall₂_served {heaps : List Heap} {resps : List Resp}
    (hheaps : List.Forall₂ (fun heap resp =>
      heap.malloc (headerSize + resp.content.length) = true) heaps resps)
    (hlen : ∀ resp ∈ resps, resp.content.length < 2 ^ 31) :
    List.Forall₂ (fun heap f => heap.malloc (headerSize + f.content.length) = true) heaps
      (resps.map fun resp => resp.message.frame) := by
  induction hheaps with
  | nil => exact .nil
  | @cons heap resp heaps resps hmem _ ih =>
    refine .cons ?_ (ih fun r hr => hlen r (List.mem_cons_of_mem resp hr))
    rw [(resp.frame_eq (hlen resp (List.mem_cons_self ..))).2.1]
    exact hmem

/-- Two lists of messages with the same frames: what was sent is what is read. -/
theorem forall₂_readsResponse {received : List ScLogMessage} {resps : List Resp}
    (hlen : ∀ resp ∈ resps, resp.content.length < 2 ^ 31)
    (hframes : received.map ScLogMessage.frame = resps.map fun resp => resp.message.frame) :
    List.Forall₂ ReadsResponse received resps := by
  induction resps generalizing received with
  | nil =>
    cases List.map_eq_nil_iff.mp hframes
    exact .nil
  | cons resp resps ih =>
    cases received with
    | nil => cases hframes
    | cons msg received =>
      rw [List.map_cons, List.map_cons, List.cons.injEq] at hframes
      exact .cons (readsResponse_of_frame (hlen resp (List.mem_cons_self ..)) hframes.1)
        (ih (fun r hr => hlen r (List.mem_cons_of_mem resp hr)) hframes.2)

/-! ### Both directions -/

/-- Framing round trip. A list of requests that the follower builds and sends is decoded by
successive receives of the aggregator as that list, and a list of responses that the
aggregator sends is decoded by successive receives of the follower as that list. The scripts
cut the stream into sends in every way, and the arrivals cut it into reads in every way. -/
theorem framing_round_trip :
    (∀ (msgs : List ScLogMessage) (reqs : List Req) (script : List Accept) (incoming : Incoming),
      List.Forall₂ Built msgs reqs → (∀ r ∈ script, r ≠ .refuse) →
      ∃ sent, sendMessages ⟨true, ⟨script, incoming, []⟩⟩ msgs = .ok ⟨true, sent⟩ ∧
        ∀ (heaps : List Heap) (s : Incoming), heaps.length = reqs.length → s.bytes = sent.wire →
          ∃ received rest, receiveFrames heaps s = .ok (received, rest) ∧ rest.bytes = [] ∧
            List.Forall₂ Reads received reqs) ∧
    (∀ (resps : List Resp) (script : List Accept),
      (∀ resp ∈ resps, resp.content.length < 2 ^ 31) → (∀ r ∈ script, r ≠ .refuse) →
      ∃ wire script', sendResponses script resps = .ok (wire, script') ∧
        ∀ (heaps : List Heap) (s : Streams),
          List.Forall₂ (fun heap resp =>
            heap.malloc (headerSize + resp.content.length) = true) heaps resps →
          s.incoming.bytes = wire →
          ∃ received s', receiveMessages heaps ⟨true, s⟩ = .ok (received, ⟨true, s'⟩) ∧
            s'.incoming.bytes = [] ∧ List.Forall₂ ReadsResponse received resps) := by
  refine ⟨?_, ?_⟩
  -- The requests: one call takes one frame off the stream, so `n` calls take all of them.
  · intro msgs reqs script incoming hbuilt haccept
    obtain ⟨sent, hsend, hwire, hfit⟩ :=
      sendMessages_of_built hbuilt (s := ⟨script, incoming, []⟩) haccept
    refine ⟨sent, hsend, ?_⟩
    intro heaps s hheaps hs
    have hbytes : s.bytes = (msgs.map ScLogMessage.frame).flatMap Frame.bytes ++ [] := by
      rw [hs, hwire, List.append_nil]
      rfl
    obtain ⟨received, rest, hrecv, hrest, hframes⟩ := receiveFrames_of_frames
      (by rw [hheaps, List.length_map, List.Forall₂.length_eq hbuilt]) hfit hbytes
    exact ⟨received, rest, hrecv, hrest, forall₂_reads hbuilt hframes⟩
  -- The responses: each length is a natural number, so none of them is taken for an error.
  · intro resps script hlen haccept
    obtain ⟨script', hsend⟩ := sendResponses_of_accepting hlen haccept
    refine ⟨_, script', hsend, ?_⟩
    intro heaps s hheaps hs
    have hnonneg : ∀ f ∈ resps.map fun resp => resp.message.frame, 0 ≤ f.contentLength.toInt := by
      intro f hf
      obtain ⟨resp, hresp, rfl⟩ := List.mem_map.mp hf
      exact (resp.frame_eq (hlen resp hresp)).2.2.1
    have hbytes : s.incoming.bytes
        = (resps.map fun resp => resp.message.frame).flatMap Frame.bytes ++ [] := by
      rw [hs, List.append_nil]
    obtain ⟨received, s', hrecv, hrest, hframes⟩ :=
      receiveMessages_of_frames (forall₂_served hheaps hlen) hnonneg hbytes
    exact ⟨received, s', hrecv, hrest, forall₂_readsResponse hlen hframes⟩

/-! ### A small stream -/

/-- A context for the display name `n`, on channel 1. -/
def smallContext : ScFollowContext :=
  { scFollowContextNew zeroHeap none [110] true BUFSIZE with channel := 1 }

/-- The surroundings of a run at the time 7. -/
def smallInput : RunInput := ⟨⟨3, 0⟩, .chunk 8, 7, [], none, [], fun _ => zeroHeap⟩

/-- The context's message buffer with the line `ab` in it. -/
def smallStored : ScLogMessage :=
  (storeLine smallInput true [97, 98, LF] smallContext.messageBuffer).toOption.getD
    smallContext.messageBuffer

/-- A registration, the line `ab`, and the release of the channel. -/
def smallReqs : List Req := [.init 0 [110], .data 1 true 7 [97, 98, LF], .rele 1]

/-- The messages of the follower for `smallReqs`. -/
def smallMessages : List ScLogMessage :=
  [initMessage smallContext,
    (dataHeader 3 { smallContext with messageBuffer := smallStored }).messageBuffer,
    releMessage smallContext]

/-- The frames of `smallReqs`. -/
def smallWire : Bytes :=
  [0, 101, 0, 0, 0, 0, 0, 5, 0, 0, 0, 0, 110] ++
    [0, 103, 0, 1, 0, 0, 0, 15, 128, 0, 0, 0, 0, 0, 0, 0, 0, 0, 0, 7, 97, 98, LF] ++
    [0, 105, 0, 1, 0, 0, 0, 4, 0, 0, 0, 0]

/-- The responses to the registration and to the line. -/
def smallResps : List Resp := [.init 1 0 [], .ok 1]

/-- The frames of `smallResps`. -/
def smallAnswers : Bytes :=
  [3, 233, 0, 1, 0, 0, 0, 8, 0, 0, 0, 0, 0, 0, 0, 0] ++ [3, 233, 0, 1, 0, 0, 0, 4, 0, 0, 0, 0]

/-- The bytes arrive one by one. -/
def bytewise (bytes : Bytes) : Incoming := ⟨bytes.map fun b => .data b [], .eof⟩

/-- What arrives byte by byte is what was sent. -/
theorem bytes_bytewise (bytes : Bytes) : (bytewise bytes).bytes = bytes := by
  simp [bytewise, Incoming.bytes, bytesOf, Arrival.bytes, List.flatMap_map]

/-- The messages are built as the follower builds them. -/
theorem smallMessages_built : List.Forall₂ Built smallMessages smallReqs :=
  .cons (.init smallContext (by decide) (by decide))
    (.cons (.data smallInput true [97, 98, LF] smallContext.messageBuffer smallStored smallContext
      rfl rfl) (.cons (.rele smallContext) .nil))

/-- The first call of `send` takes three bytes, and every `read` gets one byte. -/
theorem framing_round_trip_small :
    (∃ sent, sendMessages ⟨true, ⟨[.upTo 3], ⟨[], .eof⟩, []⟩⟩ smallMessages = .ok ⟨true, sent⟩ ∧
      sent.wire = smallWire ∧
      ∃ received rest, receiveFrames [zeroHeap, zeroHeap, zeroHeap] (bytewise smallWire) =
          .ok (received, rest) ∧ rest.bytes = [] ∧ List.Forall₂ Reads received smallReqs) ∧
    ∃ script', sendResponses [.upTo 3] smallResps = .ok (smallAnswers, script') ∧
      ∃ received s', receiveMessages [zeroHeap, zeroHeap]
          ⟨true, ⟨[], bytewise smallAnswers, []⟩⟩ = .ok (received, ⟨true, s'⟩) ∧
        s'.incoming.bytes = [] ∧ List.Forall₂ ReadsResponse received smallResps := by
  obtain ⟨hrequests, hresponses⟩ := framing_round_trip
  constructor
  · have hwire : (sendMessages ⟨true, ⟨[.upTo 3], ⟨[], .eof⟩, []⟩⟩ smallMessages).map
        (fun conn => conn.net.wire) = .ok smallWire := rfl
    obtain ⟨sent, hsend, hreceive⟩ := hrequests smallMessages smallReqs [.upTo 3] ⟨[], .eof⟩
      smallMessages_built (by decide)
    rw [hsend] at hwire
    -- The bytes on the wire are those that were evaluated.
    have hsent : sent.wire = smallWire := Except.ok.inj hwire
    refine ⟨sent, hsend, hsent, hreceive _ _ rfl ?_⟩
    rw [bytes_bytewise, hsent]
  · have hwire : (sendResponses [.upTo 3] smallResps).map Prod.fst = .ok smallAnswers := rfl
    obtain ⟨wire, script', hsend, hreceive⟩ :=
      hresponses smallResps [.upTo 3] (by decide) (by decide)
    rw [hsend] at hwire
    obtain rfl : wire = smallAnswers := Except.ok.inj hwire
    refine ⟨script', hsend, hreceive _ _ (.cons rfl (.cons rfl .nil)) (bytes_bytewise _)⟩

end Compostela.Proofs.Framing
