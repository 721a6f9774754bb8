import Compostela.Follower.Client
import Mathlib.Data.List.TakeDrop

/-!
# `Compostela.Proofs.BrokenStreams`: what the follower does with a stream that breaks

`sendall` and `recvall` return a positive count when the stream breaks after some bytes, and
their callers take any positive count for success. Of the exits of the two callers, only those
for a negative result of the first call close the socket.

`KeepsSendRule` and `KeepsReceiveRule` say what a caller may rely on: a return value of zero
means that the whole frame was moved, and every other return value comes with a closed socket.
`rules_iff` has the exact condition for each, over every behaviour of the socket, and
`rules_broken` a stream for each that breaks it.
-/

set_option autoImplicit false

namespace Compostela.Proofs.BrokenStreams

open Compostela.Common
open Compostela.Memory
open Compostela.Segments
open Compostela.Follower

/-! ### The socket -/

/-- A socket whose calls can fail and work again. `script` is what the `send` calls do.
`incoming` lists what arrives before each failed `recv`, and with which result this call fails.
After the last entry the stream has ended. `sent` lists the `sendall` calls so far. -/
structure Calls where
  script : List Accept
  incoming : List Incoming
  sent : List Sent

namespace Calls

/-- What arrives before the next `recv` that fails. -/
def arriving (s : Calls) : Incoming := s.incoming.headD ⟨[], .eof⟩

/-- The calls of such a socket. A `recvall` that finds the failed `recv` is over, and the next
one goes on behind it. -/
def net : Net Calls where
  sendall s data :=
    let r := Common.sendall data s.script
    .ok (r.1, { s with script := r.2.2, sent := s.sent ++ [⟨data, r.2.1⟩] })
  recvall s size :=
    let r := Common.recvall s.arriving size
    .ok (r.ret, r.bytes, { s with
      incoming :=
        if size ≤ s.arriving.bytes.length then r.rest :: s.incoming.tail else s.incoming.tail })

end Calls

/-! ### The rules -/

/-- A send returns zero and the socket accepted all `8 + content_length` bytes, or it returns
something else and the socket is closed. -/
def KeepsSendRule (conn : ScAggregatorConnection Calls) (msg : ScLogMessage) : Prop :=
  ∃ ret conn' msg',
    scAggregatorConnectionSendMessage Calls.net conn msg = .ok (ret, conn', msg') ∧
      ((ret = 0 ∧ ∃ s, conn'.net.sent = conn.net.sent ++ [s] ∧ requestBytes msg = .ok s.accepted) ∨
        (ret ≠ 0 ∧ conn'.opened = false))

/-- A message that was received whole: its header and all of its content were on the stream. -/
structure ReceivedWhole (m : ScLogMessage) (bs : Bytes) : Prop where
  header : headerSize ≤ bs.length
  length_eq : m.contentLength = announced bs
  nonneg : 0 ≤ m.contentLength.toInt
  complete : headerSize + m.contentLength.toInt ≤ bs.length
  content : m.content.bytes 0 m.contentLength.toInt.toNat
    = (bs.drop headerSize).take m.contentLength.toInt.toNat

/-- A receive returns zero with a message that was received whole, or it returns something else
and the socket is closed. -/
def KeepsReceiveRule (heap : Heap) (conn : ScAggregatorConnection Calls) : Prop :=
  ∃ ret resp conn',
    scAggregatorConnectionReceiveMessage Calls.net heap conn = .ok (ret, resp, conn') ∧
      ((ret = 0 ∧ ∃ m, resp = some m ∧ ReceivedWhole m conn.net.arriving.bytes) ∨
        (ret ≠ 0 ∧ conn'.opened = false))

/-! ### The send -/

/-- The first call that the socket refuses is not inside the frame. A refusal after `2 ^ 31`
bytes does no harm: that count is negative as an `int`. -/
def Unbroken (size : Nat) (script : List Accept) : Prop :=
  ∀ n, allowance script = some n → n = 0 ∨ size ≤ n ∨ 2 ^ 31 ≤ n

/-- All or nothing of the data gets out, or more than an `int` counts, exactly when no refusal
is inside it. -/
theorem writeFull_unbroken_iff (data : Bytes) (script : List Accept) :
    (writeFull data script).1 = data ∨ (writeFull data script).1 = [] ∨
        2 ^ 31 ≤ (writeFull data script).1.length ↔
      Unbroken data.length script := by
  rw [writeFull_fst, Unbroken]
  -- The script limits the bytes that go out at all, or it does not.
  cases hallow : allowance script with
  | none => simp
  | some n =>
    simp only [Option.some.injEq, forall_eq', List.take_eq_self_iff, List.take_eq_nil_iff,
      List.length_take]
    constructor
    · rintro (hle | (rfl | rfl) | hlong)
      · exact Or.inr (Or.inl hle)
      · exact Or.inl rfl
      · exact Or.inr (Or.inl (Nat.zero_le _))
      · exact Or.inr (Or.inr (by omega))
    · rintro (rfl | hle | hlong)
      · exact Or.inr (Or.inl (Or.inl rfl))
      · exact Or.inl hle
      · by_cases hle : data.length ≤ n
        · exact Or.inl hle
        · exact Or.inr (Or.inr (by omega))

/-- The sign of a count that is returned as an `int`. -/
theorem toInt_ofNat_pos_iff {n : Nat} (h : n < 2 ^ 32) :
    0 < (BitVec.ofNat 32 n).toInt ↔ 0 < n ∧ n < 2 ^ 31 := by
  rw [BitVec.toInt_ofNat', Int.bmod_def]
  split <;> omega

/-- The bytes of a request that is there in memory. -/
theorem length_requestBytes {msg : ScLogMessage} {data : Bytes}
    (hlen : 0 ≤ msg.contentLength.toInt + headerSize) (hload : requestBytes msg = .ok data) :
    data.length < 2 ^ 32 := by
  have hlt := BitVec.toInt_lt (x := msg.contentLength)
  have hsize : toSize (msg.contentLength.toInt + headerSize) < 2 ^ 32 := by
    rw [toSize_of_lt hlen] <;> unfold headerSize at * <;> omega
  unfold requestBytes ScLogMessage.load at hload
  split at hload
  · cases hload
    rw [List.length_take]
    omega
  · obtain ⟨body, hbody, hload⟩ := bind_eq_ok.mp hload
    obtain ⟨-, rfl⟩ := Block.load_eq_ok.mp hbody
    cases hload
    rw [List.length_append, Block.length_bytes, ScLogMessage.length_header]
    omega

/-- A send of a message that is there in memory: the rule holds exactly when the socket is
closed or takes all or nothing of the frame. -/
theorem keepsSendRule_iff {conn : ScAggregatorConnection Calls} {msg : ScLogMessage}
    {data : Bytes} (hlen : 0 ≤ msg.contentLength.toInt + headerSize)
    (hload : requestBytes msg = .ok data) :
    KeepsSendRule conn msg ↔ conn.opened = false ∨ Unbroken data.length conn.net.script := by
  have hstart := writeFull_fst_prefix data conn.net.script
  have hbound : (writeFull data conn.net.script).1.length < 2 ^ 32 :=
    Nat.lt_of_le_of_lt hstart.length_le (length_requestBytes hlen hload)
  have hsign := toInt_ofNat_pos_iff hbound
  have hread : msg.toNetwork.load (toSize (msg.contentLength.toInt + headerSize)) = .ok data :=
    hload
  rw [← writeFull_unbroken_iff]
  unfold KeepsSendRule scAggregatorConnectionSendMessage connSendall
  cases hopen : conn.opened with
  | false =>
    -- Every call on a closed socket fails.
    refine ⟨fun _ => Or.inl rfl, fun _ => ?_⟩
    simp only [Bool.false_eq_true, if_false]
    exact ⟨_, _, _, rfl, Or.inr ⟨by decide, rfl⟩⟩
  | true =>
    simp only [if_true, hread, hload, ok_bind, Calls.net, Common.sendall]
    by_cases hnil : (writeFull data conn.net.script).1 = []
    · -- Nothing got out, and the result is not positive.
      simp only [hnil, ne_eq, not_true_eq_false, if_false]
      rw [if_pos (by split <;> decide)]
      exact ⟨fun _ => Or.inr (Or.inr (Or.inl trivial)),
        fun _ => ⟨_, _, _, rfl, Or.inr ⟨by decide, rfl⟩⟩⟩
    · have hpos := List.length_pos_of_ne_nil hnil
      simp only [ne_eq, hnil, not_false_eq_true, if_true]
      by_cases hlong : 2 ^ 31 ≤ (writeFull data conn.net.script).1.length
      · -- The count is negative, and the socket is closed.
        rw [if_pos (by omega)]
        exact ⟨fun _ => Or.inr (Or.inr (Or.inr hlong)),
          fun _ => ⟨_, _, _, rfl, Or.inr ⟨by decide, rfl⟩⟩⟩
      · rw [if_neg (by omega)]
        constructor
        · rintro ⟨ret, conn', msg', heq, hrule⟩
          cases heq
          rcases hrule with ⟨-, s, hsent, haccepted⟩ | ⟨hret, -⟩
          · have hs : _ = s := List.singleton_inj.mp (List.append_cancel_left hsent)
            rw [← hs] at haccepted
            exact Or.inr (Or.inl (Except.ok.inj haccepted).symm)
          · exact absurd rfl hret
        · rintro (hfalse | hall | hnil' | hlong')
          · cases hfalse
          · exact ⟨_, _, _, rfl, Or.inl ⟨rfl, _, rfl, by rw [hall]⟩⟩
          · exact absurd hnil' (by simp)
          · exact absurd hlong' hlong

/-! ### The receive -/

/-- The stream that a receive keeps its rule on: a `recv` fails with an error before the first
byte, or a whole frame arrives and its memory is allocated. -/
def Sound (heap : Heap) (s : Incoming) : Prop :=
  (s.bytes = [] ∧ s.ending = .error) ∨
  (headerSize ≤ s.bytes.length ∧ 0 ≤ (announced s.bytes).toInt ∧
    headerSize + (announced s.bytes).toInt ≤ s.bytes.length ∧
    heap.malloc (headerSize + (announced s.bytes).toInt.toNat) = true)

/-- The first error is seen exactly on a stream that has nothing else. -/
theorem recvall_header_neg_iff (s : Incoming) :
    (Common.recvall s headerSize).ret < 0 ↔ s.bytes = [] ∧ s.ending = .error := by
  have hbytes := recvall_bytes s headerSize
  have hnil : (readFull headerSize s.arrivals).1 = [] ↔ s.bytes = [] := by
    show (Common.recvall s headerSize).bytes = [] ↔ s.bytes = []
    rw [hbytes, List.take_eq_nil_iff]
    exact or_iff_right (by decide)
  by_cases hempty : s.bytes = []
  · have hfirst := hnil.mpr hempty
    have hzero : headerSize ≠ 0 := by decide
    cases hend : s.ending <;> simp [Common.recvall, hfirst, hempty, hend, hzero]
  · have hfirst : (readFull headerSize s.arrivals).1 ≠ [] := fun h => hempty (hnil.mp h)
    simp [Common.recvall, hfirst, hempty]

/-- The length field of the local buffer after a whole header was received into it. -/
theorem htonl_stackHeader (heap : Heap) {bs : Bytes} (hlen : headerSize ≤ bs.length) :
    htonl (stackHeader heap (bs.take headerSize)).contentLength = announced bs := by
  obtain ⟨code, channel, hheader⟩ := exists_netHeader hlen
  have hfield := congrArg ScLogMessage.contentLength
    (stackHeader_netHeader heap code channel (announced bs))
  simp only [ScLogMessage.toNetwork] at hfield
  rw [hheader, hfield]

/-- The size that `malloc` sees for a length that is not negative. -/
theorem toSize_headerSize_add {len : BitVec 32} (h : 0 ≤ len.toInt) :
    toSize (headerSize + len.toInt) = headerSize + len.toInt.toNat := by
  have hlt := BitVec.toInt_lt (x := len)
  rw [toSize_of_lt] <;> unfold headerSize <;> omega

/-- The second half of a receive never closes the socket. -/
theorem receiveContent_opened {conn conn' : ScAggregatorConnection Calls} {m : ScLogMessage}
    {ret : Int} {resp : Option ScLogMessage} (hopen : conn.opened = true)
    (h : receiveContent Calls.net conn m = .ok (ret, resp, conn')) : conn'.opened = true := by
  unfold receiveContent at h
  split at h
  · unfold connRecvall at h
    simp only [hopen, if_true, Calls.net, ok_bind] at h
    obtain ⟨content, -, h⟩ := bind_eq_ok.mp h
    split at h
    · cases h
      rfl
    · cases h
      rfl
  · cases h
    exact hopen

/-- A receive on an open socket keeps the rule on a sound stream only. -/
theorem sound_of_keepsReceiveRule {heap : Heap} {conn : ScAggregatorConnection Calls}
    (hopen : conn.opened = true) (h : KeepsReceiveRule heap conn) :
    Sound heap conn.net.arriving := by
  obtain ⟨ret, resp, conn', hrecv, hrule⟩ := h
  unfold scAggregatorConnectionReceiveMessage connRecvall at hrecv
  simp only [hopen, if_true, Calls.net, ok_bind] at hrecv
  split at hrecv
  · -- The only exit that closes the socket: an error before the first byte.
    rename_i hneg
    exact Or.inl ((recvall_header_neg_iff _).mp hneg)
  · split at hrecv
    · -- The end of the stream.
      cases hrecv
      rcases hrule with ⟨hret, -⟩ | ⟨-, hclosed⟩
      · exact absurd hret (by decide)
      · cases hclosed
    · obtain ⟨new, hnew, hrecv⟩ := bind_eq_ok.mp hrecv
      cases new with
      | none =>
        -- The memory was not allocated.
        cases hrecv
        rcases hrule with ⟨hret, -⟩ | ⟨-, hclosed⟩
        · exact absurd hret (by decide)
        · cases hclosed
      | some m =>
        rcases hrule with ⟨-, m', -, hwhole⟩ | ⟨-, hclosed⟩
        · right
          have hnonneg := hwhole.nonneg
          have hcomplete := hwhole.complete
          rw [hwhole.length_eq] at hnonneg hcomplete
          -- The allocation was one of the announced size.
          rw [recvall_bytes, htonl_stackHeader heap hwhole.header] at hnew
          have hserved := malloc_of_scLogMessageNew hnew
          have hsize : toSize (headerSize + (announced conn.net.arriving.bytes).toInt)
              = headerSize + (announced conn.net.arriving.bytes).toInt.toNat :=
            toSize_headerSize_add hnonneg
          rw [hsize] at hserved
          exact ⟨hwhole.header, hnonneg, hcomplete, hserved⟩
        · rw [receiveContent_opened rfl hrecv] at hclosed
          cases hclosed

/-- A call that the stream can serve takes its bytes from the front. -/
theorem net_recvall_of_le {s : Calls} {size : Nat} (h0 : 0 < size)
    (h : size ≤ s.arriving.bytes.length) :
    ∃ s', Calls.net.recvall s size = .ok (size, s.arriving.bytes.take size, s') ∧
      s'.arriving.bytes = s.arriving.bytes.drop size := by
  have hret := recvall_ret_of_le h0 h
  refine ⟨{ s with incoming := (Common.recvall s.arriving size).rest :: s.incoming.tail }, ?_, ?_⟩
  · simp only [Calls.net, hret, if_pos h, recvall_bytes]
  · exact recvall_rest_bytes s.arriving size

/-- A whole frame whose memory is allocated is received whole. -/
theorem receive_of_frame {heap : Heap} {s : Calls} {f : Frame} {tail : Bytes}
    (hs : s.arriving.bytes = f.bytes ++ tail) (hlen : 0 ≤ f.contentLength.toInt)
    (hmem : heap.malloc (headerSize + f.content.length) = true) :
    ∃ m s', scAggregatorConnectionReceiveMessage Calls.net heap ⟨true, s⟩ =
        .ok (0, some m, ⟨true, s'⟩) ∧ m.frame = f := by
  have hlong : headerSize ≤ s.arriving.bytes.length := by
    rw [hs, List.length_append, Frame.length_bytes]
    omega
  -- The first call takes the header and leaves the content at the front.
  obtain ⟨s1, hcall, hrest⟩ := net_recvall_of_le (by decide : 0 < headerSize) hlong
  rw [hs, Frame.bytes, List.append_assoc, List.take_left' (by simp)] at hcall
  rw [hs, Frame.bytes, List.append_assoc, List.drop_left' (by simp)] at hrest
  change Calls.net.recvall (⟨true, s⟩ : ScAggregatorConnection Calls).net headerSize = _ at hcall
  by_cases hnil : f.content = []
  · obtain ⟨m, hrecv, hframe, -⟩ := scAggregatorConnectionReceiveMessage_of_frame rfl hlen
      hmem hcall (Or.inl ⟨hnil, rfl⟩)
    exact ⟨m, _, hrecv, hframe⟩
  · have hpos : 0 < f.content.length := List.length_pos_of_ne_nil hnil
    obtain ⟨s2, hbody, -⟩ := net_recvall_of_le hpos (s := s1) (by rw [hrest]; simp)
    rw [hrest, List.take_left] at hbody
    obtain ⟨m, hrecv, hframe, -⟩ := scAggregatorConnectionReceiveMessage_of_frame rfl hlen
      hmem hcall (Or.inr ⟨hnil, hbody⟩)
    exact ⟨m, _, hrecv, hframe⟩

/-- A message with this frame was received whole from a stream that starts with it. -/
theorem receivedWhole_of_frame {m : ScLogMessage} {f : Frame} {tail : Bytes} (hframe : m.frame = f)
    (hlen : 0 ≤ f.contentLength.toInt) : ReceivedWhole m (f.bytes ++ tail) := by
  have hcomplete := f.complete
  have hlength : m.contentLength = f.contentLength := congrArg Frame.contentLength hframe
  have hcontent : m.content.bytes 0 m.contentLength.toInt.toNat = f.content :=
    congrArg Frame.content hframe
  have hsize : (f.bytes ++ tail).length = headerSize + f.content.length + tail.length := by
    rw [List.length_append, Frame.length_bytes]
  refine ⟨by omega, by rw [announced_frame, hlength], by rw [hlength]; exact hlen, ?_, ?_⟩
  · rw [hlength]
    omega
  · rw [hcontent, hlength, ← hcomplete, Frame.bytes, List.append_assoc,
      List.drop_left' (by simp), List.take_left]

/-- A receive keeps the rule exactly when the socket is closed or the stream is sound. -/
theorem keepsReceiveRule_iff {heap : Heap} {conn : ScAggregatorConnection Calls} :
    KeepsReceiveRule heap conn ↔ conn.opened = false ∨ Sound heap conn.net.arriving := by
  constructor
  · intro h
    cases hopen : conn.opened with
    | false => exact Or.inl rfl
    | true => exact Or.inr (sound_of_keepsReceiveRule hopen h)
  · obtain ⟨opened, s⟩ := conn
    rintro (rfl | ⟨hempty, herror⟩ | ⟨hhead, hnonneg, hbody, hmem⟩)
    · -- Every call on a closed socket fails.
      exact ⟨_, _, _, rfl, Or.inr ⟨by decide, rfl⟩⟩
    · cases opened with
      | false => exact ⟨_, _, _, rfl, Or.inr ⟨by decide, rfl⟩⟩
      | true =>
        have hneg := (recvall_header_neg_iff s.arriving).mpr ⟨hempty, herror⟩
        unfold KeepsReceiveRule scAggregatorConnectionReceiveMessage connRecvall
        simp only [if_true, Calls.net, ok_bind]
        rw [if_pos hneg]
        exact ⟨_, _, _, rfl, Or.inr ⟨by decide, rfl⟩⟩
    · cases opened with
      | false => exact ⟨_, _, _, rfl, Or.inr ⟨by decide, rfl⟩⟩
      | true =>
        simp only at hhead hnonneg hbody hmem
        -- The header, its length and the content are all there, so the stream starts with a frame.
        obtain ⟨f, tail, hbytes, hlength⟩ := exists_frame hhead (by omega)
        rw [← hlength] at hnonneg hmem
        rw [← f.complete] at hmem
        obtain ⟨m, s', hrecv, hframe⟩ := receive_of_frame hbytes hnonneg hmem
        refine ⟨_, _, _, hrecv, Or.inl ⟨rfl, m, rfl, ?_⟩⟩
        show ReceivedWhole m s.arriving.bytes
        rw [hbytes]
        exact receivedWhole_of_frame hframe hnonneg

/-! ### The result -/

/-- Both rules, over everything that the calls of the socket can do. The send of a message that
is there in memory keeps its rule exactly when the socket is closed or no refused call is inside
the frame. The receive keeps its rule exactly when the socket is closed or the stream is
sound. -/
theorem rules_iff (heap : Heap) (conn : ScAggregatorConnection Calls) :
    (∀ (msg : ScLogMessage) (data : Bytes),
      0 ≤ msg.contentLength.toInt + headerSize → requestBytes msg = .ok data →
      (KeepsSendRule conn msg ↔
        conn.opened = false ∨ Unbroken data.length conn.net.script)) ∧
    (KeepsReceiveRule heap conn ↔ conn.opened = false ∨ Sound heap conn.net.arriving) :=
  ⟨fun _ _ hlen hload => keepsSendRule_iff hlen hload, keepsReceiveRule_iff⟩

/-- On a socket that takes everything and has an empty frame to read, both rules hold. -/
theorem rules_whole :
    KeepsSendRule ⟨true, ⟨[], [⟨[.data 3 [233, 0, 1], .again, .data 0 [0, 0, 0]], .eof⟩], []⟩⟩
        (.ofContent SCM_MSG_RELE 1 []) ∧
      KeepsReceiveRule zeroHeap
        ⟨true, ⟨[], [⟨[.data 3 [233, 0, 1], .again, .data 0 [0, 0, 0]], .eof⟩], []⟩⟩ := by
  obtain ⟨hsend, hreceive⟩ := rules_iff zeroHeap
    ⟨true, ⟨[], [⟨[.data 3 [233, 0, 1], .again, .data 0 [0, 0, 0]], .eof⟩], []⟩⟩
  refine ⟨(hsend _ _ (by decide) rfl).mpr (Or.inr ?_), hreceive.mpr (Or.inr (Or.inr (by decide)))⟩
  intro n hn
  cases hn

/-- Neither rule holds of every socket. A send of an empty message returns zero when only its
first byte was accepted. A receive that finds the end of the stream leaves the socket open. -/
theorem rules_broken :
    ¬ KeepsSendRule ⟨true, ⟨[.upTo 0, .refuse], [], []⟩⟩ (.ofContent SCM_MSG_RELE 1 []) ∧
      ¬ KeepsReceiveRule zeroHeap ⟨true, ⟨[], [⟨[], .eof⟩], []⟩⟩ := by
  constructor
  · rintro ⟨ret, conn', msg', heq, hrule⟩
    cases heq
    rcases hrule with ⟨-, s, hsent, haccepted⟩ | ⟨hret, -⟩
    · cases hsent
      exact absurd haccepted (by decide)
    · exact absurd rfl hret
  · rintro ⟨ret, resp, conn', heq, hrule⟩
    cases heq
    rcases hrule with ⟨hret, -⟩ | ⟨-, hclosed⟩
    · exact absurd hret (by decide)
    · cases hclosed

end Compostela.Proofs.BrokenStreams
