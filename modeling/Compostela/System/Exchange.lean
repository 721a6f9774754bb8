import Compostela.System.Pass
import Compostela.System.Wire

/-!
# `Compostela.System.Exchange`: the exchanges of a follower on a connection that works

A context makes three kinds of exchanges: INIT registers it, DATA sends a line, and RELE gives
its channel back. On a connection that works each of them ends in one of two ways. The
aggregator handled the request, its response was received and the connection still works. Or
the connection is down, with the request lost or handled.

* `Up.initFile`: `_init_file`. `Registers` is what the aggregator did, and `resumed` is the
  context after the response.
* `Up.exchangeData`: the exchange of a line on a channel.
* `Up.close`: `sc_follow_context_close` of a context that has opened its file.
-/

set_option autoImplicit false

namespace Compostela.System

open Compostela.Common
open Compostela.Memory
open Compostela.Aggregator
open Compostela.Follower
open Link

/-- A display name is a C string that fits a buffer of `PATH_MAX` bytes. -/
structure IsName (name : Bytes) : Prop where
  noNul : 0 ∉ name
  short : name.length < PATH_MAX

/-- The INIT request of a context is one that `_init_file` builds, for a name that fits. -/
theorem IsName.init_built {cxt : ScFollowContext} (h : IsName cxt.displayName) :
    Built (initMessage cxt) (.init (initAttr cxt) cxt.displayName) := by
  have hshort := h.short
  refine .init cxt h.noNul ?_
  unfold PATH_MAX BUFSIZE at *
  omega

/-- With memory `_init_file` makes its request. -/
theorem IsName.initFile_cases {σ : Type} {net : Net σ} {md5 : Md5} {inp : RunInput} {heap : Heap}
    {cxt cxt' : ScFollowContext} {conn conn' : ScAggregatorConnection σ} {ret : Int}
    (hname : IsName cxt.displayName) (hmem : ∀ n, heap.malloc n = true)
    (h : initFile net md5 inp heap cxt conn = .ok (ret, cxt', conn')) :
    ∃ sent conn1 msg,
      scAggregatorConnectionSendMessage net conn (initMessage cxt) = .ok (sent, conn1, msg) ∧
      (sent ≠ 0 ∧ ret = -1 ∧ cxt' = cxt ∧ conn' = conn1 ∨
        sent = 0 ∧ receiveInitResponse net md5 inp heap cxt conn1 = .ok (ret, cxt', conn')) := by
  refine (Follower.initFile_cases h).resolve_left fun hfail => hfail.1 ⟨?_, hmem _⟩
  have hshort := hname.short
  unfold headerSize PTRDIFF_MAX PATH_MAX at *
  omega

/-- A context that can run. -/
structure Ready (cxt : ScFollowContext) : Prop where
  isName : IsName cxt.displayName
  room : cxt.messageBuffer.content.size = BUFSIZE
  valid : cxt.buffer.Valid

/-- A context that is ready stays so while it keeps its name and a valid buffer. -/
theorem Ready.continues {cxt cxt' : ScFollowContext} (h : Ready cxt) (h' : Continues cxt cxt') :
    Ready cxt' where
  isName := by
    rw [h'.displayName]
    exact h.isName
  room := h'.room.trans h.room
  valid := h'.valid

/-- A new context with a proper display name is ready. -/
theorem ready_new (heap : Heap) (fname : Option Bytes) {name : Bytes} (ftimestamp : Bool)
    (h : IsName name) : Ready (scFollowContextNew heap fname name ftimestamp BUFSIZE) :=
  ⟨h, rfl, AzBuffer.valid_azBufferNew heap (by decide)⟩

/-! ### What the handlers do -/

/-- The aggregator registered a context: `c` is its channel, and `answer` the response. -/
structure Registers (cfg : Config) (sender : Sender) (cxt : ScFollowContext) (l l' : Link)
    (c : ScChannel) (answer : Frame) : Prop where
  channel : ∃ heap channel, scChannelNew cfg heap l.conn cxt.displayName = .ok channel ∧
    c = { channel with id := maxId l.conn.channelList + 1 }
  conn : l'.conn = { l.conn with channelList := c :: l.conn.channelList }
  fs : l'.fs = l.fs
  answer_eq : ∃ chunks attr, answer = initFrame cfg chunks l.fs c attr
  log : l'.log =
    l.log ++ [Item.exchange ⟨sender, (initMessage cxt).frame.bytes, answer.bytes⟩]

/-- The context after its registration: it has the channel's number, and is at the end of the
separate file. -/
def resumed (cxt : ScFollowContext) (c : ScChannel) (fs : Fs) : ScFollowContext :=
  let pos := (BitVec.ofNat 64 (fs.size c.filenameFullpath)).toInt
  lseek pos { cxt with channel := (BitVec.ofInt 16 c.id).toInt, position := pos }

/-- The context is at the end of a separate file that has a size. -/
theorem resumed_eq (cxt : ScFollowContext) {c : ScChannel} {fs : Fs}
    (h : fs.size c.filenameFullpath < 2 ^ 63) :
    resumed cxt c fs = { cxt with
      channel := (BitVec.ofInt 16 c.id).toInt
      position := fs.size c.filenameFullpath
      offset := fs.size c.filenameFullpath } := by
  rw [resumed, toInt_ofNat64_of_lt h, lseek, if_pos (Int.natCast_nonneg _), Int.toNat_natCast]

/-- A context that resumes has the channel number of the response. -/
@[simp] theorem resumed_channel (cxt : ScFollowContext) (c : ScChannel) (fs : Fs) :
    (resumed cxt c fs).channel = (BitVec.ofInt 16 c.id).toInt := lseek_channel _ _

/-- A context that resumes keeps its descriptor. -/
@[simp] theorem resumed_fd (cxt : ScFollowContext) (c : ScChannel) (fs : Fs) :
    (resumed cxt c fs).fd = cxt.fd := lseek_fd _ _

/-- A context that resumes notes the size of the separate file as its position. -/
@[simp] theorem resumed_position (cxt : ScFollowContext) (c : ScChannel) (fs : Fs) :
    (resumed cxt c fs).position = (BitVec.ofNat 64 (fs.size c.filenameFullpath)).toInt :=
  lseek_position _ _

/-- The offset of a file that was just opened. A negative position leaves it at zero. -/
theorem resumed_offset {cxt : ScFollowContext} {c : ScChannel} {fs : Fs} (h : cxt.offset = 0) :
    (resumed cxt c fs).offset = (resumed cxt c fs).position.toNat := by
  unfold resumed lseek
  simp only
  split
  · rfl
  · simp only [h]
    omega

/-- A context that resumes keeps the name of its file. -/
@[simp] theorem resumed_filename (cxt : ScFollowContext) (c : ScChannel) (fs : Fs) :
    (resumed cxt c fs).filename = cxt.filename := lseek_filename _ _

/-- A context that resumes keeps its display name. -/
@[simp] theorem resumed_displayName (cxt : ScFollowContext) (c : ScChannel) (fs : Fs) :
    (resumed cxt c fs).displayName = cxt.displayName := lseek_displayName _ _

/-- A context that resumes keeps what it has in its buffer. -/
@[simp] theorem resumed_buffer (cxt : ScFollowContext) (c : ScChannel) (fs : Fs) :
    (resumed cxt c fs).buffer = cxt.buffer := lseek_buffer _ _

/-- A context that resumes keeps its pending message. -/
@[simp] theorem resumed_messageBuffer (cxt : ScFollowContext) (c : ScChannel) (fs : Fs) :
    (resumed cxt c fs).messageBuffer = cxt.messageBuffer := lseek_messageBuffer _ _

section
variable {cfg : Config} {sender : Sender} {md5 : Md5} {inp : RunInput} {heap : Heap}
  {cxt cxt' : ScFollowContext} {l l' : Link} {c : ScChannel} {answer : Frame}

/-- What nobody hears after a registration does not undo it. -/
theorem Registers.unheard {l'' : Link} (h : Registers cfg sender cxt l l' c answer)
    (h' : Unheard l' l'') : Registers cfg sender cxt l l'' c answer :=
  ⟨h.channel, h'.conn.trans h.conn, h'.fs.trans h.fs, h.answer_eq, h'.log.trans h.log⟩

/-- `handler_init` of the request of a context: a channel for its name is registered, no file
changes, and the response is sent. -/
theorem handle_init {msg : ScLogMessage} {heapA : Heap} {chunks : List Nat} {connA : ScConnection}
    {fs : Fs} {r : Handled} (hname : IsName cxt.displayName)
    (hframe : msg.frame = (initMessage cxt).frame) (hsize : msg.content.size = BUFSIZE)
    (h : handle cfg heapA chunks msg connA fs = .ok r) :
    ∃ channel c, scChannelNew cfg heapA connA cxt.displayName = .ok channel ∧
      scConnectionRegisterChannel connA channel = .ok (r.conn, c) ∧ r.fs = fs ∧
      r.sent = (initFrame cfg chunks fs c (initAttr cxt)).bytes := by
  have hsend := hname.init_built.sendable
  have hreads : Reads msg (.init (initAttr cxt) cxt.displayName) := by
    refine reads_of_frame (by rw [hframe]; exact hsend.frame) ?_
    intro attr n hreq
    cases hreq
    exact hname.noNul
  obtain ⟨hcode, hchannel, hattr, hmsgname⟩ := hreads
  have hlength : msg.contentLength.toInt = (initMessage cxt).contentLength.toInt :=
    congrArg (fun f : Frame => f.contentLength.toInt) hframe
  -- The frame has the attribute at least, and fits the block.
  have hwhole : WholeInit msg := by
    have hlen := hsend.length_eq
    have hfits := hsend.fits
    have hfour : 4 ≤ (Req.init (initAttr cxt) cxt.displayName).content.length := by
      simp [Req.content]
    constructor
    · omega
    · omega
  unfold handle at h
  simp only [hcode, hchannel, handlerFor, if_true] at h
  obtain ⟨channel, c, hnew, hreg, hfs, hsent⟩ := (handlerInit_eq_ok hwhole).mp h
  rw [hmsgname] at hnew
  rw [hattr] at hsent
  exact ⟨channel, c, hnew, hreg, hfs, hsent⟩

/-- An INIT request that is handled registers its context. -/
theorem registers_of_handles {r : Handled} (hname : IsName cxt.displayName)
    (h : Handles cfg sender (initMessage cxt).frame l l' r) :
    ∃ c answer, Registers cfg sender cxt l l' c answer ∧ r.sent = answer.bytes := by
  obtain ⟨call, msg, hframe, hsize, hhandle⟩ := h.handled
  obtain ⟨channel, c, hnew, hreg, hfs, hsent⟩ := handle_init hname hframe hsize hhandle
  obtain ⟨-, hc, hconn⟩ := scConnectionRegisterChannel_eq_ok.mp hreg
  refine ⟨c, _, ⟨⟨call.heap, channel, hnew, hc⟩, h.conn.trans hconn, h.fs.trans hfs,
    ⟨call.chunks, initAttr cxt, rfl⟩, ?_⟩, hsent⟩
  rw [h.log, hsent]

/-- The response to INIT says the channel's number, the size of the separate file and its
digest. -/
theorem readsResponse_of_answer {chunks : List Nat} {fs : Fs} {attr : BitVec 32}
    {resp : ScLogMessage} (hresp : resp.frame = initFrame cfg chunks fs c attr) :
    ReadsResponse resp (.init (.ofInt 16 c.id) (.ofNat 64 (fs.size c.filenameFullpath))
      (initDigest cfg chunks fs c.filenameFullpath attr)) := by
  refine readsResponse_of_frame ?_ (hresp.trans ?_)
  · have hdigest := length_initDigest_le cfg chunks fs c.filenameFullpath attr
    simp only [Resp.content, List.length_append, length_netImage]
    omega
  · exact (ScLogMessage.frame_ofContent _ _ _ (length_initContent_lt ..)).symm

/-- A response to INIT that is received: the context takes it. -/
theorem takeInitResponse_of_answer {chunks : List Nat} {fs : Fs} {attr : BitVec 32}
    {resp : ScLogMessage} {ret : Int} (hresp : resp.frame = initFrame cfg chunks fs c attr)
    (h : takeInitResponse md5 inp cxt resp = .ok (ret, cxt')) :
    ret = 0 ∧ cxt' = resumed cxt c fs := by
  obtain ⟨hcode, hchannel, hposition, -, -⟩ := readsResponse_of_answer hresp
  have hzero : ret = 0 := by
    unfold takeInitResponse at h
    rw [if_neg (not_not.mpr hcode)] at h
    obtain ⟨bs, -, h⟩ := bind_eq_ok.mp h
    obtain ⟨u, -, h⟩ := bind_eq_ok.mp h
    cases h
    rfl
  rw [hzero] at h
  obtain ⟨-, -, -, hcxt⟩ := takeInitResponse_eq_ok.mp h
  refine ⟨hzero, ?_⟩
  rw [hcxt, hchannel, hposition]
  rfl

/-- The handler of a DATA request on a channel. -/
theorem handlerFor_data {channel : BitVec 16} (h : channel ≠ 0) :
    handlerFor SCM_MSG_DATA channel = some .data := by
  rw [handlerFor, if_neg h]
  decide

/-- A DATA frame that fits its block is received as a whole. -/
theorem wholeData_of_frame {channel : BitVec 16} {complete : Bool} {time : BitVec 64}
    {text : Bytes} {msg : ScLogMessage}
    (hframe : IsFrame msg.frame SCM_MSG_DATA channel (Req.data channel complete time text).content)
    (hsize : msg.content.size = BUFSIZE)
    (hfit : (Req.data channel complete time text).content.length ≤ BUFSIZE) : WholeData msg := by
  have hlen : msg.contentLength.toInt.toNat
      = (Req.data channel complete time text).content.length := by
    rw [← hframe.content_eq]
    exact msg.frame.complete.symm
  have htwelve : 12 ≤ (Req.data channel complete time text).content.length := by
    simp [Req.content]
    omega
  constructor
  · omega
  · omega

/-- A DATA request on a channel that is handled is answered with `SCM_RESP_OK`. -/
theorem sent_of_data {channel : BitVec 16} {complete : Bool} {time : BitVec 64} {text : Bytes}
    {f : Frame} {r : Handled}
    (hframe : IsFrame f SCM_MSG_DATA channel (Req.data channel complete time text).content)
    (hfit : (Req.data channel complete time text).content.length ≤ BUFSIZE)
    (hchannel : channel ≠ 0) (h : Handles cfg sender f l l' r) :
    r.sent = (okFrame channel).bytes := by
  obtain ⟨call, msg, hmsg, hsize, hhandle⟩ := h.handled
  rw [← hmsg] at hframe
  have hreads : Reads msg (.data channel complete time text) := reads_of_frame hframe nofun
  obtain ⟨hcode, hnumber, -, -, -⟩ := hreads
  have hwhole := wholeData_of_frame hframe hsize hfit
  unfold handle at hhandle
  simp only [hcode, hnumber, handlerFor_data hchannel] at hhandle
  -- Without a channel there is no response.
  cases hlookup : scConnectionChannel l.conn channel.toInt with
  | none =>
    rw [hlookup] at hhandle
    cases hhandle
  | some c =>
    rw [hlookup] at hhandle
    obtain ⟨buffer', -, hsent, -⟩ := handlerData_eq_ok hwhole hhandle
    rw [hsent, hnumber]

/-- A DATA request for the only channel of a connection: its text goes to the channel's buffer,
or to the files with the buffered bytes. -/
theorem branches_of_data {complete : Bool} {time : BitVec 64} {text : Bytes} {c : ScChannel}
    {call : Call} {msg : ScLogMessage} {conn : ScConnection} {fs : Fs} {r : Handled}
    (hframe : IsFrame msg.frame SCM_MSG_DATA 1 (Req.data 1 complete time text).content)
    (hsize : msg.content.size = BUFSIZE)
    (hfit : (Req.data 1 complete time text).content.length ≤ BUFSIZE)
    (hid : c.id = 1) (hchannels : conn.channelList = [c])
    (h : handle cfg call.heap call.chunks msg conn fs = .ok r) :
    ∃ buffer', r.conn = { conn with channelList := [{ c with buffer := buffer' }] } ∧
      if complete then recordText cfg call.heap conn c time (.ok text) fs = .ok (buffer', r.fs)
      else r.fs = fs ∧ bufferText call.heap c.buffer text.length (.ok text) = .ok buffer' := by
  have hreads : Reads msg (.data 1 complete time text) := reads_of_frame hframe nofun
  obtain ⟨hcode, hnumber, hattr, htime, htext⟩ := hreads
  have hwhole := wholeData_of_frame hframe hsize hfit
  -- The only channel of the connection has the number 1.
  have hlookup : scConnectionChannel conn (1 : BitVec 16).toInt = some c := by
    have hone : (1 : BitVec 16).toInt = 1 := by decide
    rw [hone, scConnectionChannel, hchannels, channelLoop, if_pos hid]
  unfold handle at h
  simp only [hcode, hnumber, handlerFor_data (by decide : (1 : BitVec 16) ≠ 0), hlookup] at h
  obtain ⟨buffer', hconn, -, hbranch⟩ := handlerData_eq_ok hwhole h
  rw [htime, htext] at hbranch
  refine ⟨buffer', ?_, ?_⟩
  · rw [hconn, ScConnection.update, hchannels]
    simp
  -- The attribute decides between the record and the buffer.
  · by_cases hcomplete : complete = true
    · rw [if_neg (hattr.mpr hcomplete)] at hbranch
      rw [if_pos hcomplete]
      exact hbranch
    · have hopen : attrOf msg &&& ATTR_TOP = 0 := by
        by_contra hne
        exact hcomplete (hattr.mp hne)
      rw [if_pos hopen] at hbranch
      rw [if_neg hcomplete]
      exact hbranch

/-- A DATA request on a channel that is handled leaves the ids as they are. -/
theorem ids_of_data {channel : BitVec 16} {content : Bytes} {f : Frame} {r : Handled}
    (hframe : IsFrame f SCM_MSG_DATA channel content) (hchannel : channel ≠ 0)
    (h : Handles cfg sender f l l' r) :
    l'.conn.channelList.map ScChannel.id = l.conn.channelList.map ScChannel.id := by
  obtain ⟨call, msg, hmsg, -, hhandle⟩ := h.handled
  rw [← hmsg] at hframe
  have hcode : msg.code = SCM_MSG_DATA := hframe.code_eq
  have hnumber : msg.channel = channel := hframe.channel_eq
  unfold handle at hhandle
  simp only [hcode, hnumber, handlerFor_data hchannel] at hhandle
  obtain ⟨c, buffer', -, hconn, -⟩ := handlerData_conn hhandle
  -- Only the buffer of the channel changes.
  have hsame := ScConnection.map_id_update l.conn { c with buffer := buffer' }
  rw [h.conn, hconn]
  exact hsame

/-- The aggregator keeps its channels well formed with every frame. -/
theorem Link.Handles.wellFormed {f : Frame} {r : Handled} (h : Handles cfg sender f l l' r)
    (hwf : l.conn.WellFormed) : l'.conn.WellFormed := by
  obtain ⟨call, msg, -, -, hhandle⟩ := h.handled
  rw [h.conn]
  exact hwf.handle hhandle

/-- A registration keeps the channel list well formed while there is an id for it. -/
theorem Registers.wellFormed (h : Registers cfg sender cxt l l' c answer)
    (hwf : l.conn.WellFormed) (hroom : maxId l.conn.channelList ≠ INT_MAX) :
    l'.conn.WellFormed := by
  obtain ⟨heap, channel, hnew, hc⟩ := h.channel
  have hreg : scConnectionRegisterChannel l.conn channel = .ok (l'.conn, c) :=
    scConnectionRegisterChannel_eq_ok.mpr ⟨hroom, hc, h.conn⟩
  exact hwf.register (scChannelNew_eq_ok hnew).2.1 hreg

/-- A RELE request on a channel that is handled deletes the channel that the lookup finds, and
is answered with `SCM_RESP_OK`. -/
theorem deleted_of_rele {r : Handled} (hchannel : BitVec.ofInt 16 cxt.channel ≠ 0)
    (h : Handles cfg sender (releMessage cxt).frame l l' r) :
    scConnectionDeleteChannel l.conn
        (scConnectionChannel l.conn (BitVec.ofInt 16 cxt.channel).toInt) = .ok l'.conn ∧
      r.sent = (okFrame (.ofInt 16 cxt.channel)).bytes := by
  obtain ⟨call, msg, hmsg, hsize, hhandle⟩ := h.handled
  have hframe := (Built.rele cxt).sendable.frame
  rw [← hmsg] at hframe
  have hcode : msg.code = SCM_MSG_RELE := hframe.code_eq
  have hnumber : msg.channel = .ofInt 16 cxt.channel := hframe.channel_eq
  have hhandler : handlerFor SCM_MSG_RELE (.ofInt 16 cxt.channel) = some .rele := by
    rw [handlerFor, if_neg hchannel]
    decide
  unfold handle at hhandle
  simp only [hcode, hnumber, hhandler] at hhandle
  unfold handlerRele at hhandle
  obtain ⟨conn1, hdelete, hhandle⟩ := bind_eq_ok.mp hhandle
  rw [hnumber, scConnectionSend_okResponse, ok_bind] at hhandle
  cases hhandle
  rw [h.conn]
  exact ⟨hdelete, rfl⟩

end

/-! ### The exchanges -/

section
variable {cfg : Config} {sender : Sender} {md5 : Md5} {inp : RunInput} {heap : Heap}
  {cxt cxt' : ScFollowContext} {conn conn' : ScAggregatorConnection Link} {ret : Int}

/-- A response that is there is received, and then the connection is as before. -/
theorem receiveMessage_of_sent (cfg : Config) (sender : Sender) (hmem : ∀ n, heap.malloc n = true)
    (hopen : conn.opened = true)
    (halive : conn.net.alive = true) {answer : Frame} (hunread : conn.net.unread = answer.bytes)
    (hlen : 0 ≤ answer.contentLength.toInt) :
    ∃ resp conn1, scAggregatorConnectionReceiveMessage (Link.net cfg sender) heap conn =
        .ok (0, some resp, conn1) ∧ resp.frame = answer ∧ Up conn1 ∧
      Unheard conn.net conn1.net := by
  have hconn : conn = ⟨true, conn.net⟩ := by rw [← hopen]
  obtain ⟨resp, hrecv, hresp, -⟩ := receiveMessage_of_unread cfg sender heap hunread hlen (hmem _)
  rw [hconn]
  exact ⟨resp, _, hrecv, hresp, ⟨rfl, halive, rfl⟩, rfl, rfl, rfl⟩

/-- `_init_file` on a connection that works. -/
theorem Up.initFile (hup : Up conn) (hname : IsName cxt.displayName)
    (hmem : ∀ n, heap.malloc n = true)
    (h : initFile (Link.net cfg sender) md5 inp heap cxt conn = .ok (ret, cxt', conn')) :
    (Down conn' ∧ cxt' = cxt ∧
      (Lost sender (initMessage cxt).frame.bytes conn.net conn'.net ∨
        ∃ c answer, Registers cfg sender cxt conn.net conn'.net c answer)) ∨
    (Up conn' ∧ ∃ c answer, Registers cfg sender cxt conn.net conn'.net c answer ∧
      cxt' = resumed cxt c conn.net.fs) := by
  have hsend := hname.init_built.sendable
  have hlen := hsend.length_eq
  have hle := hsend.length_le
  have hfits := hsend.fits
  obtain ⟨sent, conn1, msg, hsent, hcases⟩ := hname.initFile_cases hmem h
  -- What is left of the call when nothing reaches the aggregator any more.
  have hdone : Down conn1 → Down conn' ∧ cxt' = cxt ∧ Unheard conn1.net conn'.net := by
    intro hdown
    rcases hcases with ⟨-, -, rfl, rfl⟩ | ⟨-, hrecv⟩
    · exact ⟨hdown, rfl, .refl _⟩
    · obtain ⟨hcxt, hdown', hsame⟩ := hdown.receiveInitResponse hrecv
      exact ⟨hdown', hcxt, hsame⟩
  rcases hup.sendMessage (by omega) (by omega) (by omega) hsent with
    ⟨hdown, hlost⟩ | ⟨r, hr, hcase⟩
  · obtain ⟨hdown', hcxt, hsame⟩ := hdone hdown
    exact Or.inl ⟨hdown', hcxt, Or.inl (hlost.unheard hsame)⟩
  · obtain ⟨c, answer, hreg, hanswer⟩ := registers_of_handles hname hr
    rcases hcase with hdown | ⟨hsent0, hopen, halive, hunread⟩
    · obtain ⟨hdown', hcxt, hsame⟩ := hdone hdown
      exact Or.inl ⟨hdown', hcxt, Or.inr ⟨c, answer, hreg.unheard hsame⟩⟩
    · -- The response is there to be read.
      obtain ⟨chunks, attr, hframe⟩ := hreg.answer_eq
      have hnonneg : 0 ≤ answer.contentLength.toInt := by
        rw [hframe]
        show 0 ≤ (BitVec.ofNat 32 _).toInt
        rw [toInt_ofNat_of_lt (length_initContent_lt ..)]
        exact Int.natCast_nonneg _
      obtain ⟨resp, conn2, hrecv, hresp, hup2, hsame⟩ := receiveMessage_of_sent
        cfg sender hmem hopen halive (hunread.trans hanswer) hnonneg
      rcases hcases with ⟨hne, -⟩ | ⟨-, hinit⟩
      · exact absurd hsent0 hne
      · obtain ⟨got1, resp1, hrecv1, hgot⟩ := receiveInitResponse_cases hinit
        rw [hrecv] at hrecv1
        cases hrecv1
        rcases hgot with ⟨hnone, -⟩ | ⟨m, -, hm, htake⟩
        · exact hnone.elim (absurd rfl) nofun
        · cases hm
          obtain ⟨-, hcxt⟩ := takeInitResponse_of_answer (hresp.trans hframe) htake
          exact Or.inr ⟨hup2, c, answer, hreg.unheard hsame, hcxt⟩

/-- The exchange of a line on a channel, on a connection that works. -/
theorem Up.exchangeData {complete : Bool} {line : Bytes} {msg : ScLogMessage} (hup : Up conn)
    (hroom : msg.content.size = BUFSIZE)
    (hstore : storeLine inp complete line msg = .ok cxt.messageBuffer)
    (hchannel : BitVec.ofInt 16 cxt.channel ≠ 0) (hmem : ∀ n, (inp.heap 2).malloc n = true)
    (h : exchangeData (Link.net cfg sender) inp (dataHeader line.length cxt) conn
      = .ok (ret, cxt', conn')) :
    (ret = ERR_MUST_RECONNECT ∧ Down conn' ∧
      (Lost sender (dataHeader line.length cxt).messageBuffer.frame.bytes conn.net conn'.net ∨
        ∃ r, Handles cfg sender (dataHeader line.length cxt).messageBuffer.frame conn.net
          conn'.net r)) ∨
    (ret = 0 ∧ Up conn' ∧ cxt'.messageBuffer.code = SCM_MSG_NONE ∧
      ∃ r, Handles cfg sender (dataHeader line.length cxt).messageBuffer.frame conn.net
        conn'.net r) := by
  have hbuilt : Built (dataHeader line.length cxt).messageBuffer
      (.data (.ofInt 16 cxt.channel) complete inp.time line) :=
    .data inp complete line msg cxt.messageBuffer cxt hroom hstore
  have hsend := hbuilt.sendable
  have hlen := hsend.length_eq
  have hle := hsend.length_le
  have hfits := hsend.fits
  obtain ⟨sent, conn1, msg1, hsent, hcases⟩ := exchangeData_cases h
  -- What is left of the call when nothing reaches the aggregator any more.
  have hdone : Down conn1 → ret = ERR_MUST_RECONNECT ∧ Down conn' ∧
      Unheard conn1.net conn'.net := by
    intro hdown
    rcases hcases with ⟨-, hret, -, rfl⟩ | ⟨-, got, resp, hrecv, hgot⟩
    · exact ⟨hret, hdown, .refl _⟩
    · obtain ⟨hne, hdown1, hsame1⟩ := hdown.receiveMessage hrecv
      rcases hgot with ⟨-, hret, -⟩ | ⟨m, hzero, -⟩
      · exact ⟨hret, hdown1, hsame1⟩
      · exact absurd hzero hne
  rcases hup.sendMessage (by omega) (by omega) (by omega) hsent with
    ⟨hdown, hlost⟩ | ⟨r, hr, hcase⟩
  · obtain ⟨hret, hdown', hsame⟩ := hdone hdown
    exact Or.inl ⟨hret, hdown', Or.inl (hlost.unheard hsame)⟩
  · rcases hcase with hdown | ⟨hsent0, hopen, halive, hunread⟩
    · obtain ⟨hret, hdown', hsame⟩ := hdone hdown
      exact Or.inl ⟨hret, hdown', Or.inr ⟨r, hr.unheard hsame⟩⟩
    · -- The response is there to be read.
      have hanswer := sent_of_data hsend.frame hfits hchannel hr
      obtain ⟨resp, conn2, hrecv, hresp, hup2, hsame⟩ := receiveMessage_of_sent
        cfg sender hmem hopen halive (hunread.trans hanswer) okFrame_length
      have hcode : resp.code = SCM_RESP_OK := congrArg Frame.code hresp
      rcases hcases with ⟨hne, -⟩ | ⟨-, got1, resp1, hrecv1, hgot⟩
      · exact absurd hsent0 hne
      · rw [hrecv] at hrecv1
        cases hrecv1
        rcases hgot with ⟨hnone, -⟩ | ⟨m, -, hm, hret, rfl⟩
        · exact (hnone.elim (absurd rfl) nofun)
        · cases hm
          exact Or.inr ⟨hret, hup2, by simp only [hcode, if_true], r, hr.unheard hsame⟩

/-- `sc_follow_context_close` of a context with an open file and a channel, on a connection
that works. -/
theorem Up.close (hup : Up conn) (hfd : 0 ≤ cxt.fd) (hchannel : BitVec.ofInt 16 cxt.channel ≠ 0)
    (hmem : ∀ n, heap.malloc n = true)
    (h : scFollowContextClose (Link.net cfg sender) heap cxt conn = .ok (ret, conn')) :
    (Down conn' ∧
      (Lost sender (releMessage cxt).frame.bytes conn.net conn'.net ∨
        ∃ r, Handles cfg sender (releMessage cxt).frame conn.net conn'.net r)) ∨
    (Up conn' ∧ ∃ r, Handles cfg sender (releMessage cxt).frame conn.net conn'.net r) := by
  have hsend := (Built.rele cxt).sendable
  have hlen := hsend.length_eq
  have hle := hsend.length_le
  have hfits := hsend.fits
  rcases scFollowContextClose_cases h with
    ⟨hclosed, -⟩ | ⟨-, hnegative, -⟩ | ⟨-, -, sent, conn1, msg, hsent, hcases⟩
  · exact absurd hup.opened (by rw [hclosed]; decide)
  · omega
  -- What is left of the call when nothing reaches the aggregator any more.
  have hdone : Down conn1 → Down conn' ∧ Unheard conn1.net conn'.net := by
    intro hdown
    rcases hcases with ⟨-, -, rfl⟩ | ⟨-, got, resp, hrecv, -⟩
    · exact ⟨hdown, .refl _⟩
    · exact (hdown.receiveMessage hrecv).2
  rcases hup.sendMessage (by omega) (by omega) (by omega) hsent with
    ⟨hdown, hlost⟩ | ⟨r, hr, hcase⟩
  · obtain ⟨hdown', hsame⟩ := hdone hdown
    exact Or.inl ⟨hdown', Or.inl (hlost.unheard hsame)⟩
  · rcases hcase with hdown | ⟨hsent0, hopen, halive, hunread⟩
    · obtain ⟨hdown', hsame⟩ := hdone hdown
      exact Or.inl ⟨hdown', Or.inr ⟨r, hr.unheard hsame⟩⟩
    · obtain ⟨-, hanswer⟩ := deleted_of_rele hchannel hr
      obtain ⟨resp, conn2, hrecv, -, hup2, hsame⟩ := receiveMessage_of_sent
        cfg sender hmem hopen halive (hunread.trans hanswer) okFrame_length
      rcases hcases with ⟨hne, -⟩ | ⟨-, got1, resp1, hrecv1, -⟩
      · exact absurd hsent0 hne
      · rw [hrecv] at hrecv1
        cases hrecv1
        exact Or.inr ⟨hup2, r, hr.unheard hsame⟩

end

end Compostela.System
