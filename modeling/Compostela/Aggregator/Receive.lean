import Compostela.Aggregator.Handlers
import Compostela.Lib.Runs

/-!
# `Compostela.Aggregator.Receive`: `do_receive`

One call of `do_receive` reads one frame from the connection and hands it to a handler.
`receiveFrame` is the part that reads, `handlerFor` the dispatch on the channel and the
code, and `handle` the call. The message is a block of `BUFSIZE` bytes, and its length field
holds `BUFSIZE` before the header is read. `recvall` returns a positive count for a stream
that ends early, so the header may be completed by what the block held before.

`receiveFrame_of_frame` is the good case: a complete frame that fits the block is received
as it was sent, whatever the segments are and whatever the memory held. `doReceive_of_frame`
follows it through the handler, and `Server.run_of_frames` is a run over a stream that starts
with complete frames.
-/

set_option autoImplicit false

namespace Compostela.Aggregator

open Compostela.Common
open Compostela.Memory
open Compostela.Segments
open Compostela.Runs

/-- The message that `do_receive` allocates, with `BUFSIZE` bytes of content. The
allocation of this fixed size is taken to succeed. -/
def receiveBuffer (heap : Heap) : ScLogMessage where
  code := word 16 ((List.range 2).map heap.fresh)
  channel := word 16 (((List.range 4).drop 2).map heap.fresh)
  contentLength := .ofNat 32 BUFSIZE
  content := ⟨BUFSIZE, fun i => heap.fresh (headerSize + i)⟩

/-- The header that `do_receive` works with after it received `bytes`: these bytes over
the header of the fresh message, converted to host order. -/
def seenHeader (heap : Heap) (bytes : Bytes) : ScLogMessage :=
  ((receiveBuffer heap).withHeader
    (bytes ++ (receiveBuffer heap).header.drop bytes.length)).toNetwork

/-- The reading half of `do_receive`: a message, or nothing when the connection is to be
closed. -/
def receiveFrame (heap : Heap) (s : Incoming) :
    Except Trap (Option ScLogMessage × Incoming) :=
  let h := recvall s headerSize
  if 0 < h.ret then
    let msg := seenHeader heap h.bytes
    if 0 < msg.contentLength.toInt then do
      let b := recvall h.rest msg.contentLength.toInt.toNat
      let content ← msg.content.store 0 b.bytes
      .ok (some { msg with content := content }, b.rest)
    else .ok (some msg, h.rest)
  else .ok (none, h.rest)

/-- The handlers. -/
inductive Handler
  | init
  | dummy
  | seek
  | data
  | rele
  deriving DecidableEq, Repr

/-- The dispatch of `do_receive`. A request with an unknown code on a channel reaches no
handler. -/
def handlerFor (code channel : BitVec 16) : Option Handler :=
  if channel = 0 then
    if code = SCM_MSG_INIT then some .init else some .dummy
  else if code = SCM_MSG_INIT then some .init
  else if code = SCM_MSG_SEEK then some .seek
  else if code = SCM_MSG_DATA then some .data
  else if code = SCM_MSG_RELE then some .rele
  else none

/-- Only a request on a channel can reach no handler, and only with an unknown code. -/
theorem handlerFor_eq_none_iff (code channel : BitVec 16) :
    handlerFor code channel = none ↔ channel ≠ 0 ∧
      code ∉ [SCM_MSG_INIT, SCM_MSG_SEEK, SCM_MSG_DATA, SCM_MSG_RELE] := by
  unfold handlerFor
  by_cases hzero : channel = 0
  · rw [if_pos hzero]
    split <;> simp [hzero]
  · rw [if_neg hzero]
    repeat' split
    all_goals simp_all

/-- Only the INIT code leads to `handler_init`. -/
theorem code_of_handlerFor_init {code channel : BitVec 16}
    (h : handlerFor code channel = some .init) : code = SCM_MSG_INIT := by
  unfold handlerFor at h
  by_contra hcode
  rw [if_neg hcode, if_neg hcode] at h
  split at h
  · cases h
  · repeat' split at h
    all_goals cases h

/-- The call that `do_receive` makes. For a request on a channel the lookup comes first. -/
def handle (cfg : Config) (heap : Heap) (chunks : List Nat) (msg : ScLogMessage)
    (conn : ScConnection) (fs : Fs) : Except Trap Handled :=
  let channel := scConnectionChannel conn msg.channel.toInt
  match handlerFor msg.code msg.channel with
  | some .init => handlerInit cfg heap chunks msg conn fs
  | some .dummy => handlerDummy conn fs
  | some .seek => handlerSeek msg conn channel fs
  | some .data => handlerData cfg heap msg conn channel fs
  | some .rele => handlerRele msg conn channel fs
  | none => .ok ⟨conn, fs, []⟩

/-- What one call of `do_receive` leaves. `conn` is empty when the connection was closed
and destroyed, and `called` is the handler that ran and the frame it got. -/
structure Outcome where
  conn : Option ScConnection
  fs : Fs
  rest : Incoming
  called : Option (Handler × Frame)
  sent : Bytes

/-- `do_receive`. -/
def doReceive (cfg : Config) (heap : Heap) (chunks : List Nat) (conn : ScConnection) (fs : Fs)
    (s : Incoming) : Except Trap Outcome := do
  let (msg, rest) ← receiveFrame heap s
  match msg with
  | none => .ok ⟨none, fs, rest, none, []⟩
  | some msg => do
      let r ← handle cfg heap chunks msg conn fs
      .ok ⟨some r.conn, r.fs, rest,
        (handlerFor msg.code msg.channel).map fun h => (h, msg.frame), r.sent⟩

/-! ### Receiving -/

/-- Whatever the header says, the content has the 8192 bytes that were allocated. -/
@[simp] theorem size_content_seenHeader (heap : Heap) (bytes : Bytes) :
    (seenHeader heap bytes).content.size = BUFSIZE := rfl

/-- A complete header is seen as it was sent. -/
theorem seenHeader_netHeader (heap : Heap) (code channel : BitVec 16)
    (contentLength : BitVec 32) :
    seenHeader heap (ScLogMessage.netHeader code channel contentLength) =
      { receiveBuffer heap with
        code := code, channel := channel, contentLength := contentLength } := by
  have hdrop : (receiveBuffer heap).header.drop
      (ScLogMessage.netHeader code channel contentLength).length = [] :=
    List.drop_eq_nil_of_le (by simp)
  rw [seenHeader, hdrop, List.append_nil, ScLogMessage.toNetwork_withHeader_netHeader]

/-- A stream with at least one byte gives a positive result. -/
theorem recvall_ret_pos {s : Incoming} {size : Nat} (h0 : 0 < size) (h : s.bytes ≠ []) :
    0 < (recvall s size).ret := by
  rw [recvall_ret_pos_iff, recvall_bytes]
  intro hnil
  rcases List.take_eq_nil_iff.mp hnil with hzero | hempty
  · omega
  · exact h hempty

/-- A stream that has ended gives no message, and the connection is closed. -/
theorem receiveFrame_of_ended (heap : Heap) {s : Incoming} (h : s.bytes = []) :
    ∃ rest, receiveFrame heap s = .ok (none, rest) ∧ rest.bytes = [] := by
  have hret : ¬ 0 < (recvall s headerSize).ret := by
    rw [recvall_ret_pos_iff, recvall_bytes, h]
    simp
  refine ⟨(recvall s headerSize).rest, ?_, ?_⟩
  · simp only [receiveFrame, hret, if_false]
  · rw [recvall_rest_bytes, h, List.drop_nil]

/-- What `do_receive` gets from a stream that is not at its end: the message with the
header it sees, and the content bytes that arrived. It traps exactly when these do not fit
the block. -/
theorem receiveFrame_of_bytes (heap : Heap) {s : Incoming} (h : s.bytes ≠ []) :
    ∃ rest,
      rest.bytes = (s.bytes.drop headerSize).drop
        (seenHeader heap (s.bytes.take headerSize)).contentLength.toInt.toNat ∧
      rest.ending = s.ending ∧
      receiveFrame heap s =
        ((seenHeader heap (s.bytes.take headerSize)).content.store 0
          ((s.bytes.drop headerSize).take
            (seenHeader heap (s.bytes.take headerSize)).contentLength.toInt.toNat)).map
          fun content =>
            (some { seenHeader heap (s.bytes.take headerSize) with content := content }, rest) := by
  have hret : 0 < (recvall s headerSize).ret := recvall_ret_pos (by decide) h
  unfold receiveFrame
  simp only [hret, if_true, recvall_bytes]
  -- The second `recvall` is made only for a positive length.
  by_cases hpos : 0 < (seenHeader heap (s.bytes.take headerSize)).contentLength.toInt
  · refine ⟨(recvall (recvall s headerSize).rest
      (seenHeader heap (s.bytes.take headerSize)).contentLength.toInt.toNat).rest, ?_, ?_, ?_⟩
    · simp only [recvall_rest_bytes]
    · simp only [recvall_rest_ending]
    · simp only [hpos, if_true, recvall_rest_bytes]
      cases (seenHeader heap (s.bytes.take headerSize)).content.store 0 _ <;> rfl
  · -- No content is announced: nothing more is read, and nothing is stored.
    have hzero : (seenHeader heap (s.bytes.take headerSize)).contentLength.toInt.toNat = 0 := by
      omega
    refine ⟨(recvall s headerSize).rest, ?_, rfl, ?_⟩
    · rw [hzero, recvall_rest_bytes, List.drop_zero]
    · simp only [hpos, if_false, hzero, List.take_zero]
      rw [Block.store_of_le (by simp), Block.put_nil]
      rfl

/-- A stream that starts with a complete frame: its header is seen, and its content goes to the
block. -/
theorem receiveFrame_of_front (heap : Heap) {s : Incoming} {f : Frame} {tail : Bytes}
    (hs : s.bytes = f.bytes ++ tail) :
    ∃ rest, rest.bytes = tail ∧ rest.ending = s.ending ∧
      receiveFrame heap s = ((receiveBuffer heap).content.store 0 f.content).map fun content =>
        (some { receiveBuffer heap with
          code := f.code, channel := f.channel, contentLength := f.contentLength
          content := content }, rest) := by
  -- The header is the front of the first frame, and the content follows.
  have hhead : s.bytes.take headerSize
      = ScLogMessage.netHeader f.code f.channel f.contentLength := by
    rw [hs, Frame.bytes, List.append_assoc, List.take_left' (by simp)]
  have hbody : s.bytes.drop headerSize = f.content ++ tail := by
    rw [hs, Frame.bytes, List.append_assoc, List.drop_left' (by simp)]
  have hne : s.bytes ≠ [] := by
    intro hnil
    have hlen := congrArg List.length hs
    rw [hnil, List.length_append, Frame.length_bytes, List.length_nil, headerSize] at hlen
    omega
  obtain ⟨rest, hrest, hend, hrecv⟩ := receiveFrame_of_bytes heap hne
  rw [hhead, hbody, seenHeader_netHeader] at hrecv hrest
  simp only [← f.complete, List.take_left, List.drop_left] at hrecv hrest
  exact ⟨rest, hrest, hend, hrecv⟩

/-- A complete frame that fits the block is received as it was sent. -/
theorem receiveFrame_of_frame (heap : Heap) {s : Incoming} {f : Frame} {tail : Bytes}
    (hs : s.bytes = f.bytes ++ tail) (hfit : f.content.length ≤ BUFSIZE) :
    ∃ msg rest, receiveFrame heap s = .ok (some msg, rest) ∧ msg.frame = f ∧
      msg.content.size = BUFSIZE ∧ rest.bytes = tail ∧ rest.ending = s.ending := by
  obtain ⟨rest, hrest, hend, hrecv⟩ := receiveFrame_of_front heap hs
  rw [Block.store_of_le (by simpa [receiveBuffer] using hfit)] at hrecv
  refine ⟨_, rest, hrecv, ?_, Block.size_put _ _ _, hrest, hend⟩
  have hbytes := Block.bytes_put_self (receiveBuffer heap).content 0 f.content
  obtain ⟨code, channel, contentLength, content, complete⟩ := f
  simp only at complete hbytes ⊢
  simp only [ScLogMessage.frame, ← complete, hbytes]

/-! ### The content of a received frame -/

/-- A range inside the announced content of a message is a range of its frame. -/
theorem bytes_of_frame (msg : ScLogMessage) {off n : Nat}
    (h : off + n ≤ msg.contentLength.toInt.toNat) :
    msg.content.bytes off n = (msg.frame.content.drop off).take n := by
  simp only [ScLogMessage.frame]
  rw [Block.drop_bytes _ _ (by omega), Nat.zero_add, Block.take_bytes _ _ (by omega)]

/-- A message that was received goes to its handler. -/
theorem doReceive_of_receiveFrame (cfg : Config) {heap : Heap} (chunks : List Nat)
    (conn : ScConnection) (fs : Fs) {s rest : Incoming} {msg : ScLogMessage}
    (hrecv : receiveFrame heap s = .ok (some msg, rest)) :
    doReceive cfg heap chunks conn fs s =
      (handle cfg heap chunks msg conn fs).map fun r =>
        ⟨some r.conn, r.fs, rest,
          (handlerFor msg.code msg.channel).map fun h => (h, msg.frame), r.sent⟩ := by
  unfold doReceive
  rw [hrecv]
  simp only [ok_bind]
  cases handle cfg heap chunks msg conn fs <;> rfl

/-- A call of `do_receive` on a complete frame that fits the block. -/
theorem doReceive_of_frame (cfg : Config) (heap : Heap) (chunks : List Nat)
    (conn : ScConnection) (fs : Fs) {s : Incoming} {f : Frame} {tail : Bytes}
    (hs : s.bytes = f.bytes ++ tail) (hfit : f.content.length ≤ BUFSIZE) :
    ∃ msg rest, msg.frame = f ∧ msg.content.size = BUFSIZE ∧ rest.bytes = tail ∧
      rest.ending = s.ending ∧
      doReceive cfg heap chunks conn fs s =
        (handle cfg heap chunks msg conn fs).map fun r =>
          ⟨some r.conn, r.fs, rest, (handlerFor f.code f.channel).map fun h => (h, f), r.sent⟩ := by
  obtain ⟨msg, rest, hrecv, hframe, hsize, hrest, hend⟩ := receiveFrame_of_frame heap hs hfit
  refine ⟨msg, rest, hframe, hsize, hrest, hend, ?_⟩
  subst hframe
  exact doReceive_of_receiveFrame cfg chunks conn fs hrecv

/-- What a handler other than `handler_seek` sends is one frame. No handler, no response. -/
theorem handle_sent {cfg : Config} {heap : Heap} {chunks : List Nat} {msg : ScLogMessage}
    {conn : ScConnection} {fs : Fs} {r : Handled}
    (hseek : handlerFor msg.code msg.channel ≠ some .seek)
    (h : handle cfg heap chunks msg conn fs = .ok r) :
    r.sent = [] ∨ ∃ f : Frame, r.sent = f.bytes ∧ 0 ≤ f.contentLength.toInt := by
  -- Every response is built by `ofContent` and sent by `_sc_connection_send`.
  have hframe : ∀ {code channel : BitVec 16} {content sent : Bytes}, content.length < 2 ^ 31 →
      scConnectionSend (.ofContent code channel content) = .ok sent →
      ∃ f : Frame, sent = f.bytes ∧ 0 ≤ f.contentLength.toInt := by
    intro code channel content sent hlt hsend
    rw [scConnectionSend_ofContent code channel content hlt] at hsend
    cases hsend
    refine ⟨_, rfl, ?_⟩
    show 0 ≤ (BitVec.ofNat 32 content.length).toInt
    rw [toInt_ofNat_of_lt hlt]
    exact Int.natCast_nonneg _
  unfold handle at h
  simp only at h
  cases hhandler : handlerFor msg.code msg.channel with
  | none =>
    rw [hhandler] at h
    cases h
    exact Or.inl rfl
  | some handler =>
    rw [hhandler] at h
    right
    cases handler with
    | init =>
      obtain ⟨bs, -, h⟩ := bind_eq_ok.mp h
      simp only at h
      split at h
      · cases h
      · obtain ⟨p, -, h⟩ := bind_eq_ok.mp h
        obtain ⟨c, -, h⟩ := bind_eq_ok.mp h
        obtain ⟨⟨conn', c'⟩, -, h⟩ := bind_eq_ok.mp h
        obtain ⟨sent, hsend, h⟩ := bind_eq_ok.mp h
        cases h
        exact hframe (length_initContent_lt ..) hsend
    | dummy =>
      obtain ⟨sent, hsend, h⟩ := bind_eq_ok.mp h
      cases h
      exact hframe (by decide) hsend
    | seek => exact absurd hhandler hseek
    | data =>
      simp only [handlerData] at h
      split at h
      · cases h
      · obtain ⟨bs, -, h⟩ := bind_eq_ok.mp h
        obtain ⟨bs', -, h⟩ := bind_eq_ok.mp h
        obtain ⟨⟨buffer, fs'⟩, -, h⟩ := bind_eq_ok.mp h
        obtain ⟨sent, hsend, h⟩ := bind_eq_ok.mp h
        cases h
        exact hframe (by decide) hsend
    | rele =>
      obtain ⟨conn', -, h⟩ := bind_eq_ok.mp h
      obtain ⟨sent, hsend, h⟩ := bind_eq_ok.mp h
      cases h
      exact hframe (by decide) hsend

/-! ### A connection until it is closed -/

/-- What one call of `do_receive` finds besides the stream: the memory, and the reads of the
digest. -/
structure Call where
  heap : Heap
  chunks : List Nat

/-- A connection that is served. `called` lists the handler calls so far with the frame that
each one got, and `sent` is the stream of responses. -/
structure Server where
  conn : Option ScConnection
  fs : Fs
  incoming : Incoming
  called : List (Handler × Frame)
  sent : Bytes

/-- One event on the connection. A connection that was destroyed gets no more of them. -/
def Server.step (cfg : Config) (s : Server) (call : Call) : Except Trap Server :=
  match s.conn with
  | none => .ok s
  | some conn => (doReceive cfg call.heap call.chunks conn s.fs s.incoming).map fun o =>
      ⟨o.conn, o.fs, o.rest, s.called ++ o.called.toList, s.sent ++ o.sent⟩

/-- The handler call for a frame. -/
def handled (f : Frame) : Option (Handler × Frame) :=
  (handlerFor f.code f.channel).map fun h => (h, f)

/-- One call on a stream that starts with a complete frame that fits the block. -/
theorem Server.step_of_frame {cfg : Config} {s s' : Server} {call : Call} {conn : ScConnection}
    (hconn : s.conn = some conn) {f : Frame} {tail : Bytes}
    (hs : s.incoming.bytes = f.bytes ++ tail) (hfit : f.content.length ≤ BUFSIZE)
    (h : s.step cfg call = .ok s') :
    ∃ conn', s'.conn = some conn' ∧ s'.incoming.bytes = tail ∧
      s'.incoming.ending = s.incoming.ending ∧ s'.called = s.called ++ (handled f).toList := by
  obtain ⟨msg, rest, -, -, hrest, hend, hrecv⟩ :=
    doReceive_of_frame cfg call.heap call.chunks conn s.fs hs hfit
  simp only [Server.step, hconn, hrecv] at h
  cases hhandle : handle cfg call.heap call.chunks msg conn s.fs with
  | error t =>
    rw [hhandle] at h
    cases h
  | ok r =>
    rw [hhandle] at h
    cases h
    exact ⟨r.conn, rfl, hrest, hend, rfl⟩

/-- As many calls as there are complete frames at the front of the stream: each frame is
handled once and in order, and the rest of the stream is left. -/
theorem Server.run_of_frames {cfg : Config} {frames : List Frame} {calls : List Call}
    (hcalls : calls.length = frames.length) {tail : Bytes}
    (hfit : ∀ f ∈ frames, f.content.length ≤ BUFSIZE) {s s' : Server} {conn : ScConnection}
    (hconn : s.conn = some conn)
    (hs : s.incoming.bytes = frames.flatMap Frame.bytes ++ tail)
    (hrun : calls.foldlM (Server.step cfg) s = .ok s') :
    ∃ conn', s'.conn = some conn' ∧ s'.incoming.bytes = tail ∧
      s'.incoming.ending = s.incoming.ending ∧
      s'.called = s.called ++ frames.filterMap handled := by
  induction frames generalizing calls s conn with
  | nil =>
    cases List.eq_nil_of_length_eq_zero hcalls
    cases hrun
    exact ⟨conn, hconn, by simpa using hs, rfl, by simp⟩
  | cons f frames ih =>
    cases calls with
    | nil => cases hcalls
    | cons call calls =>
      obtain ⟨s1, h1, hrest⟩ := foldlM_cons_eq_ok.mp hrun
      rw [List.flatMap_cons, List.append_assoc] at hs
      -- One call takes one frame off the stream and leaves the others in it.
      obtain ⟨conn1, hconn1, hs1, hend1, hcalled1⟩ :=
        Server.step_of_frame hconn hs (hfit f (List.mem_cons_self ..)) h1
      obtain ⟨conn', hconn', hs', hend', hcalled'⟩ := ih (by simpa using hcalls)
        (fun g hg => hfit g (List.mem_cons_of_mem f hg)) hconn1 hs1 hrest
      refine ⟨conn', hconn', hs', hend'.trans hend1, ?_⟩
      rw [hcalled', hcalled1, List.append_assoc]
      cases hf : handled f <;> simp [hf]

end Compostela.Aggregator
