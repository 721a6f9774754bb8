import Compostela.Aggregator.Session

/-!
# `Compostela.Proofs.TruncatedFrames`: a stream that ends inside a frame

`recvall` returns a positive count for a stream that ends early, and `do_receive` takes every
positive count for a complete read. A cut in the header is dispatched with what the message
block held before in the missing fields, and a cut in the content with what it held in the
missing content.

`doReceive_of_cut` says what one call makes of the cut, and `truncated_frame_ignored_iff`
when this is nothing: after the complete frames the cut frame is dropped and the connection
closed exactly when the header seen reaches no handler and the bytes fit the block.
-/

set_option autoImplicit false

namespace Compostela.Proofs.TruncatedFrames

open Compostela.Common
open Compostela.Memory
open Compostela.Segments
open Compostela.Runs
open Compostela.Aggregator

/-- The bytes of a frame up to some point inside it: at least one byte, and not all. -/
def IsCut (cut : Bytes) : Prop := cut ≠ [] ∧ ∃ f : Frame, ∃ t, t ≠ [] ∧ f.bytes = cut ++ t

/-- The header that `do_receive` sees in front of the cut has a channel and an unknown code,
and the bytes after the header fit the block. The part of a header that was cut off is what
the message block held before. -/
def Unseen (heap : Heap) (cut : Bytes) : Prop :=
  (seenHeader heap (cut.take headerSize)).channel ≠ 0 ∧
    (seenHeader heap (cut.take headerSize)).code ∉
      [SCM_MSG_INIT, SCM_MSG_SEEK, SCM_MSG_DATA, SCM_MSG_RELE] ∧
    cut.length ≤ headerSize + BUFSIZE

/-- A stream that consists of a cut announces more content than arrives. -/
theorem IsCut.rest_lt {cut : Bytes} (h : IsCut cut) (heap : Heap)
    (hlong : headerSize ≤ cut.length) :
    cut.length - headerSize <
      (seenHeader heap (cut.take headerSize)).contentLength.toInt.toNat := by
  obtain ⟨-, f, t, ht, hbytes⟩ := h
  have hhead : cut.take headerSize = ScLogMessage.netHeader f.code f.channel f.contentLength := by
    have htake := congrArg (List.take headerSize) hbytes
    rw [Frame.bytes, List.take_left' (by simp), List.take_append_of_le_length hlong] at htake
    exact htake.symm
  have hlen := congrArg List.length hbytes
  have htpos := List.length_pos_of_ne_nil ht
  rw [Frame.length_bytes, List.length_append] at hlen
  rw [hhead, seenHeader_netHeader]
  show cut.length - headerSize < f.contentLength.toInt.toNat
  rw [← f.complete]
  omega

/-- One call on a cut: the bytes after the header are stored, which traps when they do not
fit, and then the message goes to its handler as if it were whole. The stream is at its end
after it. -/
theorem doReceive_of_cut (cfg : Config) (call : Call) (conn : ScConnection) (fs : Fs)
    {s : Incoming} (hcut : IsCut s.bytes) :
    ∃ rest : Incoming, rest.bytes = [] ∧
      doReceive cfg call.heap call.chunks conn fs s =
        if s.bytes.length ≤ headerSize + BUFSIZE then
          (handle cfg call.heap call.chunks
            { seenHeader call.heap (s.bytes.take headerSize) with
              content := (seenHeader call.heap (s.bytes.take headerSize)).content.put 0
                (s.bytes.drop headerSize) } conn fs).map fun r =>
            ⟨some r.conn, r.fs, rest, handled
              ({ seenHeader call.heap (s.bytes.take headerSize) with
                content := (seenHeader call.heap (s.bytes.take headerSize)).content.put 0
                  (s.bytes.drop headerSize) } : ScLogMessage).frame, r.sent⟩
        else .error .oobWrite := by
  obtain ⟨rest, hrest, -, hrecv⟩ := receiveFrame_of_bytes call.heap hcut.1
  -- All of the bytes after the header are taken.
  have hall : (s.bytes.drop headerSize).take
      (seenHeader call.heap (s.bytes.take headerSize)).contentLength.toInt.toNat
        = s.bytes.drop headerSize := by
    apply List.take_of_length_le
    rw [List.length_drop]
    by_cases hlong : headerSize ≤ s.bytes.length
    · exact Nat.le_of_lt (hcut.rest_lt call.heap hlong)
    · omega
  have hnil : rest.bytes = [] := by
    rw [hrest]
    apply List.drop_eq_nil_of_le
    have hlen := congrArg List.length hall
    rw [List.length_take] at hlen
    omega
  refine ⟨rest, hnil, ?_⟩
  rw [hall] at hrecv
  unfold doReceive
  rw [hrecv]
  by_cases hfit : s.bytes.length ≤ headerSize + BUFSIZE
  · rw [if_pos hfit, Block.store_of_le (by simp; omega)]
    show (handle cfg call.heap call.chunks _ conn fs >>= _) = _
    cases handle cfg call.heap call.chunks _ conn fs <;> rfl
  · rw [if_neg hfit, Block.store, if_neg (by simp; omega)]
    rfl

/-- A call at the end of the stream closes the connection and changes nothing else. -/
theorem step_of_ended (cfg : Config) (call : Call) {s : Server} {conn : ScConnection}
    (hconn : s.conn = some conn) (hs : s.incoming.bytes = []) :
    ∃ rest, s.step cfg call = .ok ⟨none, s.fs, rest, s.called, s.sent⟩ := by
  obtain ⟨rest, hrecv, -⟩ := receiveFrame_of_ended call.heap hs
  refine ⟨rest, ?_⟩
  simp only [Server.step, hconn, doReceive, hrecv, ok_bind, Except.map]
  simp

section
variable {cfg : Config} {frames : List Frame} {calls : List Call} {cut : Bytes} {s before : Server}
  {conn : ScConnection}

/-- A stream of complete frames and a cut: the complete frames are handled one by one, and
then the cut is dropped and the connection closed, with no other handler call and no change
to a file, if and only if the header seen reaches no handler and the bytes fit the block. -/
theorem truncated_frame_ignored_iff (hconn : s.conn = some conn)
    (hs : s.incoming.bytes = frames.flatMap Frame.bytes ++ cut)
    (hfit : ∀ f ∈ frames, f.content.length ≤ BUFSIZE) (hcut : IsCut cut)
    (hcalls : calls.length = frames.length)
    (hbefore : calls.foldlM (Server.step cfg) s = .ok before) (first second : Call) :
    before.called = s.called ++ frames.filterMap handled ∧
    ((∃ rest, (calls ++ [first, second]).foldlM (Server.step cfg) s =
        .ok ⟨none, before.fs, rest, before.called, before.sent⟩) ↔ Unseen first.heap cut) := by
  obtain ⟨conn', hconn', hrest', -, hcalled⟩ :=
    Server.run_of_frames hcalls hfit hconn hs hbefore
  refine ⟨hcalled, ?_⟩
  have hcut' : IsCut before.incoming.bytes := by rw [hrest']; exact hcut
  obtain ⟨rest, hnil, hrecv⟩ := doReceive_of_cut cfg first conn' before.fs hcut'
  rw [hrest'] at hrecv
  -- The two calls after the complete frames.
  have hsplit : (calls ++ [first, second]).foldlM (Server.step cfg) s =
      (before.step cfg first >>= fun s1 => s1.step cfg second) := by
    rw [List.foldlM_append, hbefore, ok_bind, List.foldlM_cons]
    congr 1
    funext s1
    rw [List.foldlM_cons]
    cases s1.step cfg second <;> rfl
  rw [hsplit]
  simp only [Server.step, hconn', hrecv]
  unfold Unseen
  rw [← and_assoc, ← handlerFor_eq_none_iff]
  by_cases hlen : cut.length ≤ headerSize + BUFSIZE
  · rw [if_pos hlen]
    cases hhandler : handlerFor (seenHeader first.heap (cut.take headerSize)).code
        (seenHeader first.heap (cut.take headerSize)).channel with
    | none =>
      -- No handler: the second call finds the end of the stream.
      obtain ⟨rest2, hclose⟩ := step_of_ended cfg second (s := ⟨some conn', before.fs, rest,
        before.called, before.sent⟩) rfl hnil
      simp only [Server.step] at hclose
      simp only [handle, hhandler, handled, ScLogMessage.frame, Except.map, ok_bind,
        Option.map_none, Option.toList_none, List.append_nil]
      exact ⟨fun _ => ⟨trivial, hlen⟩, fun _ => ⟨rest2, hclose⟩⟩
    | some handler =>
      -- A handler runs on the cut frame, and the log of calls shows it.
      simp only [reduceCtorEq, false_and, iff_false]
      rintro ⟨rest2, h⟩
      obtain ⟨s1, h1, h2⟩ := bind_eq_ok.mp h
      have hgrow : s1.called.length = before.called.length + 1 := by
        cases hhandle : handle cfg first.heap first.chunks
            { seenHeader first.heap (cut.take headerSize) with
              content := (seenHeader first.heap (cut.take headerSize)).content.put 0
                (cut.drop headerSize) } conn' before.fs with
        | error t =>
          rw [hhandle] at h1
          cases h1
        | ok r =>
          rw [hhandle] at h1
          cases h1
          simp [handled, ScLogMessage.frame, hhandler]
      have hmono : ∀ (s1 s2 : Server), s1.step cfg second = .ok s2 →
          s1.called.length ≤ s2.called.length := by
        intro s1 s2 hstep
        unfold Server.step at hstep
        split at hstep
        · cases hstep
          exact Nat.le_refl _
        · cases hdo : doReceive cfg second.heap second.chunks _ s1.fs s1.incoming with
          | error t =>
            rw [hdo] at hstep
            cases hstep
          | ok o =>
            rw [hdo] at hstep
            cases hstep
            simp
      have hle := hmono s1 _ h2
      simp only at hle
      omega
  · rw [if_neg hlen]
    simp only [Except.map, error_bind, reduceCtorEq, exists_false, false_iff, not_and]
    intro _ h
    exact hlen h

end

/-- The session after one INIT request, served from a stream of these bytes. -/
def serving (bytes : Bytes) : Server :=
  ⟨some (oneChannel []).conn, (oneChannel []).fs, ⟨arrivalsOf bytes, .eof⟩, [], []⟩

/-- A call with a memory of zeros. -/
def zeroCall : Call := ⟨zeroHeap, []⟩

/-- A frame with a code that no handler takes, cut inside its content of four bytes. -/
def moveCut : Bytes := ScLogMessage.netHeader SCM_MSG_MOVE 1 4 ++ [1]

/-- The request of `moveCut` ends inside its content. -/
theorem isCut_moveCut : IsCut moveCut :=
  ⟨by decide, .ofContent SCM_MSG_MOVE 1 [1, 2, 3, 4] (by decide), [2, 3, 4], by decide, by decide⟩

/-- The cut of a frame that reaches no handler. -/
theorem truncated_frame_ignored_iff_moveCut :
    (serving moveCut).called = (serving moveCut).called ++ ([] : List Frame).filterMap handled ∧
    ((∃ rest, [zeroCall, zeroCall].foldlM (Server.step (smallConfig [])) (serving moveCut) =
        .ok ⟨none, (serving moveCut).fs, rest, (serving moveCut).called,
          (serving moveCut).sent⟩) ↔ Unseen zeroHeap moveCut) := by
  have hbytes : (serving moveCut).incoming.bytes
      = ([] : List Frame).flatMap Frame.bytes ++ moveCut := bytesOf_arrivalsOf moveCut
  have hfit : ∀ f ∈ ([] : List Frame), f.content.length ≤ BUFSIZE := by
    intro f hf
    cases hf
  have hcalls : ([] : List Call).length = ([] : List Frame).length := rfl
  exact truncated_frame_ignored_iff rfl hbytes hfit isCut_moveCut hcalls rfl zeroCall zeroCall

/-- A DATA frame with the text `abcd`, cut after the `a`. -/
def dataCut : Bytes :=
  ScLogMessage.netHeader SCM_MSG_DATA 1 16 ++ netImage 4 ATTR_TOP ++
    netImage 8 (0 : BitVec 64) ++ [97]

/-- The DATA frame of `dataCut` ends inside its text. -/
theorem isCut_dataCut : IsCut dataCut :=
  ⟨by decide, .ofContent SCM_MSG_DATA 1 (netImage 4 ATTR_TOP ++ netImage 8 (0 : BitVec 64) ++
    [97, 98, 99, 100]) (by decide), [98, 99, 100], by decide, by decide⟩

/-- `handler_data` runs on the cut frame and appends the one byte that arrived and three
bytes of the message block to the separate file. -/
theorem truncated_frame_handled :
    IsCut dataCut ∧
    ([zeroCall, zeroCall].foldlM (Server.step (smallConfig [])) (serving dataCut)).map
        (fun s => (s.conn.isNone, s.called.map Prod.fst,
          s.fs.file (smallChannel []).filenameFullpath)) =
      .ok (true, [.data], some [97, 0, 0, 0]) := by
  refine ⟨isCut_dataCut, ?_⟩
  rfl

end Compostela.Proofs.TruncatedFrames
