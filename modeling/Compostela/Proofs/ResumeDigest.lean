import Compostela.System.Exchange

/-!
# `Compostela.Proofs.ResumeDigest`: the check of the digest in an INIT response

The aggregator puts the size of its separate file and the digest of all of it into the response to
INIT, and `_init_file` compares it with the digest of as many bytes of its own file. Both programs
digest with `mhash_with_size`, each with read results of its own.

`checkDigest_answer` is the comparison for the response that the aggregator sends. `resume_iff`
takes it through the exchange: the follower goes on exactly when the digests agree, and otherwise
it ends.
-/

set_option autoImplicit false

namespace Compostela.System

open Compostela.Common
open Compostela.Memory
open Compostela.Aggregator
open Compostela.Follower

/-- `_init_file` returns zero, with the position. -/
def Proceeds (pos : Int) (r : Except Trap
    (Int × ScFollowContext × ScAggregatorConnection Link)) : Prop :=
  ∃ cxt conn, r = .ok (0, cxt, conn) ∧ cxt.position = pos ∧ (cxt.offset : Int) = pos

section
variable {cfg : Config} {sender : Sender} {inp : RunInput} {heap : Heap}
  {cxt : ScFollowContext} {conn : ScAggregatorConnection Link}

/-- The digest in the response is that of the separate file. -/
theorem initDigest_eq (hmd5 : cfg.md5.Incremental) {chunks : List Nat}
    (hchunks : ∀ n ∈ chunks, 0 < n) {fs : Fs} {path content : Bytes}
    (hfile : fs.file path = some content) {attr : BitVec 32} (hattr : attr &&& ATTR_TOP ≠ 0) :
    initDigest cfg chunks fs path attr = cfg.md5.digest content := by
  have hsize : fs.size path = content.length := by
    rw [Fs.size, hfile]
    rfl
  rw [initDigest, if_pos hattr, hfile, hsize, mhashWithSize_eq hmd5 _ _ hchunks,
    List.take_length]
  rfl

/-- The response to INIT as `_init_file` takes it: the context is registered when the digests
agree, and the program ends when they do not. -/
theorem takeInitResponse_answer (hmd5 : cfg.md5.Incremental) {chunks : List Nat}
    (hchunks : ∀ n ∈ chunks, 0 < n) (hchunks' : ∀ n ∈ inp.chunks, 0 < n) {fs : Fs} {c : ScChannel}
    {content followed : Bytes} (hfile : fs.file c.filenameFullpath = some content)
    (hsize : content.length < 2 ^ 63) (hnamed : inp.named = some followed) {attr : BitVec 32}
    (hattr : attr &&& ATTR_TOP ≠ 0) {resp : ScLogMessage}
    (hresp : resp.frame = initFrame cfg chunks fs c attr)
    (hroom : resp.content.size = resp.frame.content.length) :
    takeInitResponse cfg.md5 inp cxt resp =
      if cfg.md5.digest (followed.take content.length) = cfg.md5.digest content
        then .ok (0, resumed cxt c fs) else .error .exited := by
  have hlen : (cfg.md5.digest content).length = 16 := cfg.md5.length_final _
  have hlen' : (cfg.md5.digest (followed.take content.length)).length = 16 :=
    cfg.md5.length_final _
  obtain ⟨hcode, hchannel, hposition, hlength, hbytes⟩ := readsResponse_of_answer hresp
  rw [initDigest_eq hmd5 hchunks hfile hattr, hlen] at hlength hbytes
  have hblock : resp.content.size = 24 := by
    rw [hroom, resp.frame.complete]
    show resp.contentLength.toInt.toNat = 24
    omega
  have hpos : positionOf resp = content.length := by
    rw [hposition, Fs.size, hfile, Option.getD_some, toInt_ofNat64_of_lt hsize]
  -- The response has a digest, and it is all in the block.
  have hcheck : checkDigest cfg.md5 inp (positionOf resp) resp =
      if cfg.md5.digest (followed.take content.length) = cfg.md5.digest content
        then .ok () else .error .exited := by
    have hpsize : toSize (resp.contentLength.toInt - 8) = 16 := by
      rw [hlength]
      rfl
    have hload : resp.content.load 8 16 = .ok (cfg.md5.digest content) := by
      rw [Block.load_of_le (by omega), hbytes]
    unfold checkDigest
    simp only
    rw [if_pos (by rw [hlength]; decide), hnamed, hpos, mhashWithSize_eq hmd5 _ _ hchunks']
    simp only
    rw [hpsize, hlen', if_neg (not_not.mpr rfl), hload, ok_bind]
    by_cases hsame : cfg.md5.digest (followed.take content.length) = cfg.md5.digest content
    · rw [if_pos hsame, if_neg (not_not.mpr hsame.symm)]
    · rw [if_neg hsame, if_pos (Ne.symm hsame)]
  unfold takeInitResponse
  rw [if_neg (not_not.mpr hcode), Block.load_of_le (by omega), ok_bind]
  show (checkDigest cfg.md5 inp (positionOf resp) resp >>= fun _ =>
    .ok (0, lseek (positionOf resp)
      { cxt with channel := resp.channel.toInt, position := positionOf resp })) = _
  rw [hcheck, hposition, hchannel]
  split
  · rfl
  · rfl

/-- The request and its response: the follower gets what `_init_file` makes of the response. -/
theorem initFile_answered (hup : Up conn) (hname : IsName cxt.displayName)
    (hmem : ∀ n, heap.malloc n = true) {l : Link} {n : Int}
    (hsend : Link.sendall cfg sender conn.net (initMessage cxt).frame.bytes = .ok (n, l))
    (halive : l.alive = true) :
    ∃ channel c resp, scChannelNew cfg conn.net.fate.call.heap conn.net.conn cxt.displayName =
        .ok channel ∧ c.filenameFullpath = channel.filenameFullpath ∧
      resp.frame = initFrame cfg conn.net.fate.call.chunks conn.net.fs c (initAttr cxt) ∧
      resp.content.size = resp.frame.content.length ∧
      initFile (Link.net cfg sender) cfg.md5 inp heap cxt conn =
        (takeInitResponse cfg.md5 inp cxt resp).map
          fun r => (r.1, r.2, ⟨true, { l with unread := [] }⟩) := by
  have hbuilt := hname.init_built.sendable
  have hlen := hbuilt.length_eq
  have hle := hbuilt.length_le
  have hfits := hbuilt.fits
  have hfit : (initMessage cxt).frame.content.length ≤ BUFSIZE := by
    show ((initMessage cxt).content.bytes 0 _).length ≤ BUFSIZE
    rw [Block.length_bytes]
    omega
  obtain ⟨hn, hserve⟩ := Link.serve_of_alive hsend halive
  obtain ⟨msg, r, hframe, hsize, hhandle, hl⟩ := Link.serve_eq_ok hfit hserve
  obtain ⟨channel, c, hnew, hreg, -, hsent⟩ := handle_init hname hframe hsize hhandle
  obtain ⟨-, hc, -⟩ := scConnectionRegisterChannel_eq_ok.mp hreg
  -- The response is all that is there to be read.
  have hunread : l.unread =
      (initFrame cfg conn.net.fate.call.chunks conn.net.fs c (initAttr cxt)).bytes := by
    rw [hl, ← hsent]
    show conn.net.unread ++ r.sent = r.sent
    rw [hup.unread, List.nil_append]
  have hnonneg : 0 ≤ (initFrame cfg conn.net.fate.call.chunks conn.net.fs c
      (initAttr cxt)).contentLength.toInt := by
    show 0 ≤ (BitVec.ofNat 32 _).toInt
    rw [toInt_ofNat_of_lt (length_initContent_lt ..)]
    exact Int.natCast_nonneg _
  obtain ⟨resp, hrecv, hresp, hroom⟩ :=
    receiveMessage_of_unread cfg sender heap hunread hnonneg (hmem _)
  refine ⟨channel, c, resp, hnew, ?_, hresp, by rw [hroom, hresp], ?_⟩
  · rw [hc]
  · have hshort := hname.short
    have hsent' : scAggregatorConnectionSendMessage (Link.net cfg sender) conn (initMessage cxt) =
        .ok (0, ⟨true, l⟩, (initMessage cxt).toNetwork) := by
      have hcall : (Link.net cfg sender).sendall conn.net (initMessage cxt).frame.bytes =
          .ok (n, l) := hsend
      have hpos : ¬ n ≤ 0 := by
        rw [hn, Frame.length_bytes]
        unfold headerSize
        omega
      rw [scAggregatorConnectionSendMessage_of_frame hup.opened (by omega) (by omega), hcall]
      show Except.ok (if n ≤ 0 then _ else _) = _
      rw [if_neg hpos]
    unfold initFile
    simp only
    rw [if_neg, hsent', ok_bind]
    · show receiveInitResponse _ _ _ _ _ _ = _
      unfold receiveInitResponse
      rw [hrecv, ok_bind]
      show (takeInitResponse cfg.md5 inp cxt resp >>= fun r => Except.ok (r.1, r.2, _)) = _
      cases takeInitResponse cfg.md5 inp cxt resp with
      | error t => rfl
      | ok r => rfl
    · rw [not_not]
      refine ⟨?_, hmem _⟩
      unfold headerSize PTRDIFF_MAX
      unfold PATH_MAX at hshort
      omega

/-- Two files, and any chunks of `read` on both sides. With the digest attribute in the request,
the follower goes on exactly when the digest of the front of its own file is that of the
aggregator's file, and then from the end of the aggregator's file. When the digests differ the
program ends. It goes on whenever the aggregator's file is a prefix of its own. -/
theorem resume_iff (hmd5 : cfg.md5.Incremental) (hup : Up conn) (hname : IsName cxt.displayName)
    (hattr : initAttr cxt &&& ATTR_TOP ≠ 0) (hmem : ∀ n, heap.malloc n = true)
    (hchunks : ∀ n ∈ conn.net.fate.call.chunks, 0 < n) (hchunks' : ∀ n ∈ inp.chunks, 0 < n)
    {l : Link} {n : Int}
    (hsend : Link.sendall cfg sender conn.net (initMessage cxt).frame.bytes = .ok (n, l))
    (halive : l.alive = true) {heapA : Heap} {channel : ScChannel}
    (hnew : scChannelNew cfg heapA conn.net.conn cxt.displayName = .ok channel)
    {content followed : Bytes} (hfile : conn.net.fs.file channel.filenameFullpath = some content)
    (hsize : content.length < 2 ^ 63) (hnamed : inp.named = some followed) :
    (Proceeds content.length (initFile (Link.net cfg sender) cfg.md5 inp heap cxt conn) ↔
      cfg.md5.digest (followed.take (min content.length followed.length)) =
        cfg.md5.digest content) ∧
    (¬ Proceeds content.length (initFile (Link.net cfg sender) cfg.md5 inp heap cxt conn) →
      initFile (Link.net cfg sender) cfg.md5 inp heap cxt conn = .error .exited) ∧
    (content <+: followed →
      Proceeds content.length (initFile (Link.net cfg sender) cfg.md5 inp heap cxt conn)) ∧
    ∀ (file : Bytes) (fsize : Nat) (chunks : List Nat), (∀ n ∈ chunks, 0 < n) →
      mhashWithSize cfg.md5 (some file) fsize chunks =
        some (cfg.md5.digest (file.take (min fsize file.length))) := by
  obtain ⟨channel', c, resp, hnew', hpath, hresp, hroom, hinit⟩ :=
    @initFile_answered cfg sender inp heap cxt conn hup hname hmem l n hsend halive
  -- The path of the separate file does not depend on the memory.
  have hsame : c.filenameFullpath = channel.filenameFullpath :=
    hpath.trans (filenameFullpath_unique hnew' hnew)
  have hfile' : conn.net.fs.file c.filenameFullpath = some content := by
    rw [hsame]
    exact hfile
  have hmin : ∀ bytes : Bytes, followed.take (min bytes.length followed.length) =
      followed.take bytes.length := fun bytes => (List.take_eq_take_min ..).symm
  rw [takeInitResponse_answer hmd5 hchunks hchunks' hfile' hsize hnamed hattr hresp hroom] at hinit
  have hfsize : conn.net.fs.size c.filenameFullpath = content.length := by
    rw [Fs.size, hfile']
    rfl
  have hresumed := resumed_eq cxt (by omega : conn.net.fs.size c.filenameFullpath < 2 ^ 63)
  have hiff : Proceeds content.length (initFile (Link.net cfg sender) cfg.md5 inp heap cxt conn) ↔
      cfg.md5.digest (followed.take content.length) = cfg.md5.digest content := by
    rw [hinit]
    constructor
    · rintro ⟨cxt', conn', h, -, -⟩
      by_contra hne
      rw [if_neg hne] at h
      cases h
    · intro hsame
      rw [if_pos hsame, hresumed, hfsize]
      exact ⟨_, _, rfl, rfl, rfl⟩
  refine ⟨by rw [hiff, hmin], ?_, ?_, ?_⟩
  · intro hnot
    rw [hiff] at hnot
    rw [hinit, if_neg hnot]
    rfl
  · intro hprefix
    rw [hiff, ← List.prefix_iff_eq_take.mp hprefix]
  · intro file fsize chunks hall
    rw [mhashWithSize_eq hmd5 file fsize hall, ← List.take_eq_take_min]

end

/-- A digest of the bytes so far: the MD5 digest of `a`, and for other bytes the first sixteen of
them. -/
def smallMd5 : Md5 where
  Ctx := Bytes
  init := []
  update := fun bytes more => bytes ++ more
  final := fun bytes =>
    if bytes = [97] then
      [12, 193, 117, 185, 192, 241, 182, 168, 49, 195, 153, 226, 105, 119, 38, 97]
    else (bytes ++ List.replicate 16 0).take 16
  length_final := by
    intro bytes
    split
    · rfl
    · simp

/-- The small digest takes its bytes in any pieces. -/
theorem smallMd5_incremental : smallMd5.Incremental := by
  intro pieces
  have hfold : pieces.foldl (fun bytes more : Bytes => bytes ++ id more) [] = pieces.flatten := by
    rw [List.foldl_append_eq_append, List.map_id, List.nil_append]
  exact congrArg smallMd5.final hfold

/-- The aggregator has the file `a`, and answers. -/
def smallAnswering : Link :=
  ⟨⟨fun path => if path = (smallChannel []).filenameFullpath then some [97] else none,
      [], [], [], []⟩,
    ⟨some [97], []⟩, true, [], .eof, [⟨.answered, ⟨zeroHeap, [1]⟩, .eof⟩], []⟩

/-- A context that has opened its file. -/
def smallOpened : ScFollowContext :=
  { scFollowContextNew zeroHeap (some [102]) [110] false BUFSIZE with fd := 3, mode := 0x8000 }

/-- The followed file is `ab`, and `read` gives one byte at a time. -/
def smallFollowed : RunInput :=
  ⟨⟨3, 0x8000⟩, .chunk 100, 0, [97, 98], some [97, 98], [1, 1], fun _ => zeroHeap⟩

/-- The aggregator has the first byte of the file, and the follower resumes behind it. -/
theorem resume_iff_small :
    Proceeds 1 (initFile (Link.net { smallConfig [] with md5 := smallMd5 } ⟨0, none, []⟩) smallMd5
      smallFollowed zeroHeap smallOpened ⟨true, smallAnswering⟩) := by
  have halive : (Link.sendall { smallConfig [] with md5 := smallMd5 } ⟨0, none, []⟩ smallAnswering
      (initMessage smallOpened).frame.bytes).map (·.2.alive) = .ok true := rfl
  cases hsend : Link.sendall { smallConfig [] with md5 := smallMd5 } ⟨0, none, []⟩ smallAnswering
      (initMessage smallOpened).frame.bytes with
  | error t =>
    rw [hsend] at halive
    cases halive
  | ok r =>
    rw [hsend] at halive
    have hup : Up (⟨true, smallAnswering⟩ : ScAggregatorConnection Link) := ⟨rfl, rfl, rfl⟩
    have hnew := scChannelNew_smallInit []
    exact (resume_iff smallMd5_incremental hup ⟨by decide, by decide⟩ (by decide) (fun _ => rfl)
      (by decide) (by decide) hsend (Except.ok.inj halive) hnew rfl (by decide) rfl).2.2.1
      ⟨[98], rfl⟩

end Compostela.System
