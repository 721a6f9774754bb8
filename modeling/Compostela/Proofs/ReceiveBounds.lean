import Compostela.Aggregator.Receive
import Compostela.Follower.Connection

/-!
# `Compostela.Proofs.ReceiveBounds`: the receivers and their memory

Both programs read a length from the network and then as many bytes. `do_receive` has a
block of `BUFSIZE` content bytes and never compares the length with it. The follower sizes
its block by the length, and a length from -8 to -1 makes the block smaller than the header
that is written into it.

`receivers_write_inside_iff` says for every byte stream when each of the two stays inside
its block. `receivers_write_outside` gives a stream for each of the two defects.
-/

set_option autoImplicit false

namespace Compostela.Proofs.ReceiveBounds

open Compostela.Common
open Compostela.Memory
open Compostela.Segments
open Compostela.Aggregator
open Compostela.Follower

/-- The length field of a header, as both receivers read it. -/
def lengthField (header : Bytes) : Int := (htonl (word 32 ((header.drop 4).take 4))).toInt

/-- The eight bytes of the follower's header buffer after a receive from the stream. A
stream that ends early leaves the last bytes as they were. -/
def stackBytes (heap : Heap) (s : Incoming) : Bytes :=
  s.bytes.take headerSize ++
    ((List.range headerSize).map heap.stack).drop (s.bytes.take headerSize).length

/-- `do_receive` on a stream writes nothing outside its message. -/
def DoReceiveWritesInside (heap : Heap) (s : Incoming) : Prop :=
  receiveFrame heap s ≠ .error .oobWrite

/-- The follower's receive on a stream writes nothing outside the message it allocates. -/
def ReceiveMessageWritesInside (heap : Heap) (s : Incoming) : Prop :=
  ∀ script sent, scAggregatorConnectionReceiveMessage Streams.net heap
    ⟨true, ⟨script, s, sent⟩⟩ ≠ .error .oobWrite

/-! ### `do_receive` -/

/-- With a whole header there, `do_receive` works with the length field that was sent. -/
theorem seenHeader_contentLength (heap : Heap) {s : Incoming}
    (h : headerSize ≤ s.bytes.length) :
    (seenHeader heap (s.bytes.take headerSize)).contentLength.toInt = lengthField s.bytes := by
  have hlen : (s.bytes.take headerSize).length = headerSize := List.length_take_of_le h
  have hdrop : (receiveBuffer heap).header.drop headerSize = [] :=
    List.drop_eq_nil_of_le (by simp)
  have hfield : ((s.bytes.take headerSize).drop 4).take 4 = (s.bytes.drop 4).take 4 := by
    rw [List.drop_take, List.take_take, headerSize]
    rfl
  unfold seenHeader
  rw [hlen, hdrop, List.append_nil]
  simp only [ScLogMessage.toNetwork, ScLogMessage.withHeader, hfield]
  rfl

/-- The fixed block is enough for every stream whose length field, or whose number of bytes
after the header, is at most `BUFSIZE`. -/
theorem doReceiveWritesInside_iff (heap : Heap) (s : Incoming) :
    DoReceiveWritesInside heap s ↔
      lengthField s.bytes ≤ BUFSIZE ∨ s.bytes.length ≤ headerSize + BUFSIZE := by
  unfold DoReceiveWritesInside
  by_cases hnil : s.bytes = []
  · obtain ⟨rest, hrecv, -⟩ := receiveFrame_of_ended heap hnil
    simp [hrecv, hnil]
  obtain ⟨rest, -, -, hrecv⟩ := receiveFrame_of_bytes heap hnil
  rw [hrecv]
  -- The store fits exactly when as many bytes arrive as the block has.
  have hstore : ∀ bs : Bytes,
      ((seenHeader heap (s.bytes.take headerSize)).content.store 0 bs).map
          (fun content => (some { seenHeader heap (s.bytes.take headerSize) with
            content := content }, rest)) ≠ .error .oobWrite ↔ bs.length ≤ BUFSIZE := by
    intro bs
    simp only [Block.store, size_content_seenHeader, Nat.zero_add]
    split <;> simp_all [Except.map]
  rw [hstore, List.length_take, List.length_drop]
  by_cases hlong : headerSize ≤ s.bytes.length
  · rw [seenHeader_contentLength heap hlong]
    omega
  · omega

/-! ### `sc_aggregator_connection_receive_message` -/

/-- The read of a content writes only inside a block that has the announced size. -/
theorem receiveContent_writes_inside {streams : Streams} {m : ScLogMessage}
    (hsize : m.contentLength.toInt ≤ m.content.size) :
    receiveContent Streams.net ⟨true, streams⟩ m ≠ .error .oobWrite := by
  simp only [receiveContent, connRecvall, if_true, Streams.net, ok_bind]
  by_cases hpos : 0 < m.contentLength.toInt
  · -- At most the announced bytes arrive.
    have hbytes : (Common.recvall streams.incoming m.contentLength.toInt.toNat).bytes.length
        ≤ m.content.size := by
      rw [recvall_bytes, List.length_take]
      omega
    rw [if_pos hpos, Block.store_of_le (by omega)]
    simp only [ok_bind]
    split <;> simp
  · rw [if_neg hpos]
    simp

/-- The allocation of a length from the wire writes outside its block exactly when the
length is in the range from -8 to -1 and `malloc` serves the block. -/
theorem scLogMessageNew_writes_outside_iff {heap : Heap} {len : Int} (hlower : -2 ^ 31 ≤ len)
    (hupper : len < 2 ^ 31) :
    scLogMessageNew heap len = .error .oobWrite ↔
      -8 ≤ len ∧ len < 0 ∧ heap.malloc (headerSize + len).toNat = true := by
  rw [scLogMessageNew_eq_error]
  unfold headerSize
  by_cases hneg : len < -8
  · -- Such a length wraps around to a huge size.
    have hwrap : ((8 : Nat) + len) % 2 ^ 64 = 2 ^ 64 + 8 + len := by omega
    constructor
    · rintro ⟨hsmall, -, -⟩
      rw [toSize, hwrap] at hsmall
      omega
    · rintro ⟨hle, -, -⟩
      omega
  · rw [toSize_of_lt (by omega) (by omega)]
    constructor
    · rintro ⟨hsmall, hserved, -⟩
      exact ⟨by omega, by omega, hserved⟩
    · rintro ⟨h1, h2, hserved⟩
      exact ⟨by omega, hserved, rfl⟩

/-- After an allocation of a length from the wire the content read stays inside. -/
theorem receiveContent_of_new {heap : Heap} {len : Int} (hlower : -2 ^ 31 ≤ len)
    (hupper : len < 2 ^ 31) {m : ScLogMessage} (hnew : scLogMessageNew heap len = .ok (some m))
    (streams : Streams) (code channel : BitVec 16) :
    receiveContent Streams.net ⟨true, streams⟩ { m with code := code, channel := channel }
      ≠ .error .oobWrite := by
  obtain ⟨hlength, hsize⟩ := scLogMessageNew_eq_some hnew
  apply receiveContent_writes_inside
  have hword : m.contentLength.toInt = len := by
    rw [hlength, BitVec.toInt_ofInt, Int.bmod_eq_of_le] <;> omega
  simp only [hword, hsize]
  by_cases hneg : len < 0
  · omega
  · unfold headerSize
    rw [toSize_of_lt] <;> omega

/-- A receive after at least one byte arrived: the allocation and the content decide. -/
theorem receive_of_bytes (heap : Heap) (streams : Streams) (h : streams.incoming.bytes ≠ []) :
    ∃ streams' code channel,
      scAggregatorConnectionReceiveMessage Streams.net heap ⟨true, streams⟩ =
        (scLogMessageNew heap (lengthField (stackBytes heap streams.incoming)) >>= fun
          | none => .ok (-2, none, ⟨true, streams'⟩)
          | some m => receiveContent Streams.net ⟨true, streams'⟩
              { m with code := code, channel := channel }) := by
  have hret : 0 < (Common.recvall streams.incoming headerSize).ret := by
    rw [recvall_ret_pos_iff, recvall_bytes]
    simpa [headerSize] using h
  refine ⟨{ streams with incoming := (Common.recvall streams.incoming headerSize).rest },
    htons (stackHeader heap (streams.incoming.bytes.take headerSize)).code,
    htons (stackHeader heap (streams.incoming.bytes.take headerSize)).channel, ?_⟩
  unfold scAggregatorConnectionReceiveMessage
  simp only [connRecvall, if_true, Streams.net, ok_bind, recvall_bytes]
  rw [if_neg (by omega), if_neg (by omega)]
  rfl

/-- The follower's receive ends outside its block exactly when `malloc` serves a block that
is smaller than the header. -/
theorem receiveMessageWritesInside_iff (heap : Heap) (s : Incoming) :
    ReceiveMessageWritesInside heap s ↔
      s.bytes = [] ∨ ¬ (-8 ≤ lengthField (stackBytes heap s) ∧
        lengthField (stackBytes heap s) < 0 ∧
        heap.malloc (headerSize + lengthField (stackBytes heap s)).toNat = true) := by
  have hlower : -2 ^ 31 ≤ lengthField (stackBytes heap s) := BitVec.le_toInt _
  have hupper : lengthField (stackBytes heap s) < 2 ^ 31 := BitVec.toInt_lt
  rw [← scLogMessageNew_writes_outside_iff hlower hupper]
  unfold ReceiveMessageWritesInside
  by_cases hnil : s.bytes = []
  · -- Nothing arrives: the result of `recvall` is not positive.
    have hret : ¬ 0 < (Common.recvall s headerSize).ret := by
      rw [recvall_ret_pos_iff, recvall_bytes, hnil]
      simp
    refine ⟨fun _ => Or.inl hnil, fun _ script sent => ?_⟩
    unfold scAggregatorConnectionReceiveMessage
    simp only [connRecvall, if_true, Streams.net, ok_bind]
    split
    · simp
    · rw [if_pos (by omega)]
      simp
  simp only [hnil, false_or]
  constructor
  · intro h hnew
    obtain ⟨_, _, _, hrecv⟩ := receive_of_bytes heap ⟨[], s, []⟩ hnil
    rw [hnew] at hrecv
    exact h [] [] hrecv
  · intro hnew script sent
    obtain ⟨_, _, _, hrecv⟩ := receive_of_bytes heap ⟨script, s, sent⟩ hnil
    rw [hrecv]
    cases hm : scLogMessageNew heap (lengthField (stackBytes heap s)) with
    | error t =>
      intro heq
      cases heq
      exact hnew hm
    | ok msg =>
      cases msg with
      | none => simp
      | some m => exact receiveContent_of_new hlower hupper hm _ _ _

/-! ### Both receivers -/

/-- Each receiver writes inside its message exactly under its own condition. The aggregator
needs a length field, or a number of bytes after the header, of at most `BUFSIZE`. The
follower needs that `malloc` does not serve a negative length from -8 on. -/
theorem receivers_write_inside_iff (heap : Heap) (s : Incoming) :
    (DoReceiveWritesInside heap s ↔
      lengthField s.bytes ≤ BUFSIZE ∨ s.bytes.length ≤ headerSize + BUFSIZE) ∧
    (ReceiveMessageWritesInside heap s ↔
      s.bytes = [] ∨ ¬ (-8 ≤ lengthField (stackBytes heap s) ∧
        lengthField (stackBytes heap s) < 0 ∧
        heap.malloc (headerSize + lengthField (stackBytes heap s)).toNat = true)) :=
  ⟨doReceiveWritesInside_iff heap s, receiveMessageWritesInside_iff heap s⟩

/-- A DATA frame with one byte more than the aggregator's block holds, and a response that
announces -1 bytes. -/
theorem receivers_write_outside :
    ¬ DoReceiveWritesInside zeroHeap
        ⟨arrivalsOf (ScLogMessage.netHeader SCM_MSG_DATA 1 8193 ++ List.replicate 8193 0), .eof⟩ ∧
    ¬ ReceiveMessageWritesInside zeroHeap
        ⟨arrivalsOf (ScLogMessage.netHeader SCM_RESP_OK 1 (-1)), .eof⟩ := by
  constructor
  · rw [doReceiveWritesInside_iff]
    have hfield : lengthField (ScLogMessage.netHeader SCM_MSG_DATA 1 8193
        ++ List.replicate 8193 0) = 8193 := by
      have htake : ((ScLogMessage.netHeader SCM_MSG_DATA 1 8193 ++ List.replicate 8193 0).drop
          4).take 4 = netImage 4 (8193 : BitVec 32) := by
        rw [List.drop_append_of_le_length (by decide), List.take_append_of_le_length (by decide)]
        decide
      rw [lengthField, htake, htonl_word_netImage]
      decide
    simp only [Incoming.bytes, bytesOf_arrivalsOf, hfield, List.length_append,
      ScLogMessage.length_netHeader, List.length_replicate]
    decide
  · rw [receiveMessageWritesInside_iff]
    decide

end Compostela.Proofs.ReceiveBounds
