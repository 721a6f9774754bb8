import Compostela.Aggregator.Session
import Compostela.Follower.Run
import Mathlib.Data.List.TakeWhile

/-!
# `Compostela.System.Wire`: what one message says to the two programs

Each program has its own encoder and its own decoder. `Req` and `Resp` are what the two sides
mean, `Built` and `Resp.message` how the sender builds a message, and `Reads` and
`ReadsResponse` how the receiver's functions read it. The frame on the wire joins the two
sides: `Built.sendable` is the sender's half and `reads_of_frame` the receiver's, and for
responses these are `Resp.frame_eq` and `readsResponse_of_frame`.
-/

set_option autoImplicit false

namespace Compostela.System

open Compostela.Common
open Compostela.Memory
open Compostela.Aggregator
open Compostela.Follower

/-! ### Requests -/

/-- What a request says. -/
inductive Req
  | init (attr : BitVec 32) (name : Bytes)
  | data (channel : BitVec 16) (complete : Bool) (time : BitVec 64) (text : Bytes)
  | rele (channel : BitVec 16)

/-- The messages that the follower builds, with what they say: `_init_file` from a display
name, `_run_follow_context` from a line and any message buffer, and
`sc_follow_context_close`. -/
inductive Built : ScLogMessage → Req → Prop
  | init (cxt : ScFollowContext) (hname : 0 ∉ cxt.displayName)
      (hlen : cxt.displayName.length + 4 ≤ BUFSIZE) :
      Built (initMessage cxt) (.init (initAttr cxt) cxt.displayName)
  | data (inp : RunInput) (complete : Bool) (line : Bytes) (msg msg' : ScLogMessage)
      (cxt : ScFollowContext) (hsize : msg.content.size = BUFSIZE)
      (hstore : storeLine inp complete line msg = .ok msg') :
      Built (dataHeader line.length { cxt with messageBuffer := msg' }).messageBuffer
        (.data (.ofInt 16 cxt.channel) complete inp.time line)
  | rele (cxt : ScFollowContext) : Built (releMessage cxt) (.rele (.ofInt 16 cxt.channel))

/-- What the handlers read from a message. -/
def Reads (msg : ScLogMessage) : Req → Prop
  | .init attr name =>
      msg.code = SCM_MSG_INIT ∧ msg.channel = 0 ∧ attrOf msg = attr ∧ nameOf msg = name
  | .data channel complete time text =>
      msg.code = SCM_MSG_DATA ∧ msg.channel = channel ∧
        (attrOf msg &&& ATTR_TOP ≠ 0 ↔ complete = true) ∧ timeOf msg = time ∧ textOf msg = text
  | .rele channel => msg.code = SCM_MSG_RELE ∧ msg.channel = channel

namespace Req

def code : Req → BitVec 16
  | .init .. => SCM_MSG_INIT
  | .data .. => SCM_MSG_DATA
  | .rele .. => SCM_MSG_RELE

def channel : Req → BitVec 16
  | .init .. => 0
  | .data channel .. => channel
  | .rele channel => channel

/-- The bytes after the header. -/
def content : Req → Bytes
  | .init attr name => netImage 4 attr ++ name
  | .data _ complete time text =>
      netImage 4 (if complete then ATTR_TOP else 0 : BitVec 32) ++ netImage 8 time ++ text
  | .rele _ => [0, 0, 0, 0]

end Req

/-- The frame is the one of the request: its code, its channel and its content. -/
structure IsFrame (f : Frame) (code channel : BitVec 16) (content : Bytes) : Prop where
  code_eq : f.code = code
  channel_eq : f.channel = channel
  content_eq : f.content = content

/-- The text of a DATA frame is behind the header and the twelve bytes in front of it. -/
theorem drop_bytes_of_data {f : Frame} {channel : BitVec 16} {complete : Bool}
    {time : BitVec 64} {line : Bytes}
    (h : f.content = (Req.data channel complete time line).content) :
    f.bytes.drop (headerSize + cb0) = line := by
  rw [Frame.bytes, h, ← List.drop_drop, List.drop_left' (by simp), Req.content,
    List.drop_left' (by simp [cb0])]

/-- What a built message puts on the wire: its length is the length of its content, which is
all there and fits the block of the receiver. -/
structure Sendable (msg : ScLogMessage) (code channel : BitVec 16) (content : Bytes) : Prop where
  length_eq : msg.contentLength.toInt = content.length
  length_le : content.length ≤ msg.content.size
  fits : content.length ≤ BUFSIZE
  frame : IsFrame msg.frame code channel content

/-- A small message from `ofContent`. -/
theorem sendable_ofContent (code channel : BitVec 16) {content : Bytes}
    (h : content.length ≤ BUFSIZE) :
    Sendable (.ofContent code channel content) code channel content := by
  have hlt : content.length < 2 ^ 31 := by
    unfold BUFSIZE at h
    omega
  refine ⟨toInt_ofNat_of_lt hlt, Nat.le_refl _, h, ?_⟩
  rw [ScLogMessage.frame_ofContent code channel content hlt]
  exact ⟨rfl, rfl, rfl⟩

/-- The head of a DATA content has twelve bytes. -/
theorem length_dataHead (complete : Bool) (time : BitVec 64) :
    (dataHead complete time).length = cb0 := by
  simp [dataHead, cb0]

/-- The content of a stored line: the head and the line. -/
theorem storeLine_bytes {inp : RunInput} {complete : Bool} {line : Bytes}
    {msg msg' : ScLogMessage} (h : storeLine inp complete line msg = .ok msg') :
    msg'.content.size = msg.content.size ∧ cb0 + line.length ≤ msg.content.size ∧
      msg'.content.bytes 0 (cb0 + line.length) = dataHead complete inp.time ++ line := by
  obtain ⟨content1, h1, h⟩ := bind_eq_ok.mp h
  obtain ⟨content2, h2, heq⟩ := bind_eq_ok.mp h
  cases heq
  -- The text is the line, perhaps with its terminator, and the head goes in front of it.
  have htext :
      ∃ tail, (if line.length < BUFSIZE - cb0 then line ++ [0] else line) = line ++ tail := by
    split
    · exact ⟨[0], rfl⟩
    · exact ⟨[], by simp⟩
  obtain ⟨tail, htail⟩ := htext
  rw [htail] at h1
  have hhead := length_dataHead complete inp.time
  simp only [Block.store] at h1 h2
  split at h1
  · rename_i hfit
    cases h1
    split at h2
    · cases h2
      rw [List.length_append] at hfit
      refine ⟨rfl, by omega, ?_⟩
      have hfront : ((msg.content.put cb0 (line ++ tail)).put 0
          (dataHead complete inp.time)).bytes 0 cb0 = dataHead complete inp.time := by
        rw [← hhead, Block.bytes_put_self]
      have hback : ((msg.content.put cb0 (line ++ tail)).put 0
          (dataHead complete inp.time)).bytes cb0 line.length = line := by
        rw [Block.bytes_put_of_disjoint _ _ _ _ _ (Or.inr (by omega)),
          Block.bytes_put_take _ _ _ _ (by simp), List.take_left]
      rw [Block.bytes_append, Nat.zero_add, hfront, hback]
    · cases h2
  · cases h1

/-- What the follower builds can be sent, and its frame is the one of the request. -/
theorem Built.sendable {msg : ScLogMessage} {req : Req} (h : Built msg req) :
    Sendable msg req.code req.channel req.content := by
  cases h with
  | init cxt hname hlen =>
    have hcontent : image 4 (htonl (initAttr cxt)) ++ cxt.displayName
        = (Req.init (initAttr cxt) cxt.displayName).content := by
      rw [image_htonl]
      rfl
    unfold initMessage
    rw [hcontent]
    exact sendable_ofContent _ _ (by simp [Req.content]; omega)
  | data inp complete line msg msg' cxt hsize hstore =>
    obtain ⟨hsize', hfit, hbytes⟩ := storeLine_bytes hstore
    have hlt : cb0 + line.length < 2 ^ 31 := by
      unfold BUFSIZE at hsize
      omega
    -- A line fits its block, so its length is a positive number of 32 bits.
    have hlength :
        (BitVec.ofNat 32 (cb0 + line.length)).toInt = ((cb0 + line.length : Nat) : Int) :=
      toInt_ofNat_of_lt hlt
    have hcontent : dataHead complete inp.time ++ line
        = (Req.data (.ofInt 16 cxt.channel) complete inp.time line).content := by
      rw [dataHead, image_htonl, image_bswap64]
      rfl
    have hlen : (dataHead complete inp.time ++ line).length = cb0 + line.length := by
      rw [List.length_append, length_dataHead]
    rw [← hcontent]
    refine ⟨by rw [hlen]; exact hlength, by rw [hlen]; show _ ≤ msg'.content.size; omega,
      by omega, rfl, rfl, ?_⟩
    show msg'.content.bytes 0 (BitVec.ofNat 32 (cb0 + line.length)).toInt.toNat = _
    rw [hlength, Int.toNat_natCast]
    exact hbytes
  | rele cxt => exact sendable_ofContent _ _ (by decide)

/-- The message for a line, on the channel of its context. -/
theorem sendable_dataHeader {inp : RunInput} {complete : Bool} {line : Bytes} {msg : ScLogMessage}
    {cxt : ScFollowContext} {channel : Int} (hchannel : cxt.channel = channel)
    (hroom : msg.content.size = BUFSIZE)
    (hstore : storeLine inp complete line msg = .ok cxt.messageBuffer) :
    Sendable (dataHeader line.length cxt).messageBuffer SCM_MSG_DATA (.ofInt 16 channel)
      (Req.data (.ofInt 16 channel) complete inp.time line).content := by
  subst hchannel
  exact (Built.data inp complete line msg cxt.messageBuffer cxt hroom hstore).sendable

/-- The handlers read from a received message what its frame says. -/
theorem reads_of_frame {msg : ScLogMessage} {req : Req}
    (h : IsFrame msg.frame req.code req.channel req.content)
    (hname : ∀ attr name, req = .init attr name → 0 ∉ name) : Reads msg req := by
  obtain ⟨hcode, hchannel, hcontent⟩ := h
  have hlength : msg.contentLength.toInt.toNat = req.content.length := by
    rw [← hcontent]
    exact msg.frame.complete.symm
  -- A range of the content is a range of the frame.
  have hrange : ∀ off n, off + n ≤ req.content.length →
      msg.content.bytes off n = (req.content.drop off).take n := by
    intro off n hle
    rw [bytes_of_frame msg (by omega), hcontent]
  cases req with
  | init attr name =>
    have hlen : (Req.init attr name).content.length = 4 + name.length := by simp [Req.content]
    have hattr : msg.content.bytes 0 4 = netImage 4 attr := by
      rw [hrange 0 4 (by omega)]
      simp [Req.content]
    have hslen : (msg.contentLength - 4).toInt.toNat = name.length := by
      have hlower := BitVec.le_toInt msg.contentLength
      have hupper := BitVec.toInt_lt (x := msg.contentLength)
      have h4 : (4 : BitVec 32).toInt = 4 := by decide
      rw [BitVec.toInt_sub, h4, Int.bmod_eq_of_le] <;> omega
    have htext : msg.content.bytes 4 name.length = name := by
      rw [hrange 4 name.length (by omega)]
      simp [Req.content]
    refine ⟨hcode, hchannel, ?_, ?_⟩
    · rw [attrOf, hattr, htonl_word_netImage]
    · rw [nameOf, hslen, htext]
      exact cstr_eq_self_iff.mpr (hname attr name rfl)
  | data channel complete time text =>
    have hlen : (Req.data channel complete time text).content.length = 12 + text.length := by
      simp [Req.content]
      omega
    have hattr : msg.content.bytes 0 4
        = netImage 4 (if complete then ATTR_TOP else 0 : BitVec 32) := by
      rw [hrange 0 4 (by omega), Req.content, List.drop_zero, List.append_assoc,
        List.take_left' (by simp)]
    have htime : msg.content.bytes 4 8 = netImage 8 time := by
      rw [hrange 4 8 (by omega), Req.content, List.append_assoc, List.drop_left' (by simp),
        List.take_left' (by simp)]
    have hsize : textLength msg = text.length := by
      have hupper := BitVec.toInt_lt (x := msg.contentLength)
      unfold textLength
      rw [toSize_of_lt] <;> omega
    refine ⟨hcode, hchannel, ?_, ?_, ?_⟩
    · rw [attrOf, hattr, htonl_word_netImage]
      cases complete <;> decide
    · rw [timeOf, htime, bswap64_word_netImage]
    · rw [textOf, hsize, hrange 12 text.length (by omega), Req.content,
        List.drop_left' (by simp), List.take_length]
  | rele channel => exact ⟨hcode, hchannel⟩

/-! ### Responses -/

/-- What a response says. -/
inductive Resp
  | init (channel : BitVec 16) (position : BitVec 64) (digest : Bytes)
  | ok (channel : BitVec 16)
  | ng

/-- The message of a response, as its handler builds it. -/
def Resp.message : Resp → ScLogMessage
  | .init channel position digest =>
      .ofContent SCM_RESP_OK channel (image 8 (bswap64 position) ++ digest)
  | .ok channel => okResponse channel
  | .ng => .ofContent SCM_RESP_NG 0 []

/-- The content of a response, which a 32-bit length announces. -/
def Resp.content : Resp → Bytes
  | .init _ position digest => netImage 8 position ++ digest
  | .ok _ => [0, 0, 0, 0]
  | .ng => []

/-- What the follower reads from a response. -/
def ReadsResponse (msg : ScLogMessage) : Resp → Prop
  | .init channel position digest =>
      msg.code = SCM_RESP_OK ∧ msg.channel = channel ∧ positionOf msg = position.toInt ∧
        msg.contentLength.toInt = 8 + digest.length ∧ msg.content.bytes 8 digest.length = digest
  | .ok channel => msg.code = SCM_RESP_OK ∧ msg.channel = channel
  | .ng => msg.code = SCM_RESP_NG

/-- The frame of a response. -/
theorem Resp.frame_eq (resp : Resp) (h : resp.content.length < 2 ^ 31) :
    scConnectionSend resp.message = .ok resp.message.frame.bytes ∧
      resp.message.frame.content = resp.content ∧ 0 ≤ resp.message.frame.contentLength.toInt ∧
      resp.message.content.size = resp.content.length := by
  -- The three responses are built alike, from a code, a channel and a content.
  have hof : ∀ (code channel : BitVec 16) (content : Bytes), content.length < 2 ^ 31 →
      scConnectionSend (.ofContent code channel content) =
          .ok (ScLogMessage.ofContent code channel content).frame.bytes ∧
        (ScLogMessage.ofContent code channel content).frame.content = content ∧
        0 ≤ (ScLogMessage.ofContent code channel content).frame.contentLength.toInt ∧
        (ScLogMessage.ofContent code channel content).content.size = content.length := by
    intro code channel content hlt
    rw [ScLogMessage.frame_ofContent code channel content hlt]
    refine ⟨scConnectionSend_ofContent code channel content hlt, rfl, ?_, rfl⟩
    show 0 ≤ (BitVec.ofNat 32 content.length).toInt
    rw [toInt_ofNat_of_lt hlt]
    omega
  cases resp with
  | init channel position digest =>
    have hcontent : image 8 (bswap64 position) ++ digest
        = (Resp.init channel position digest).content := by
      rw [image_bswap64]
      rfl
    unfold Resp.message
    simp only [hcontent]
    exact hof _ _ _ h
  | ok channel => exact hof _ _ _ (by decide)
  | ng => exact hof _ _ _ (by decide)

/-- The follower reads from a received response what its frame says. -/
theorem readsResponse_of_frame {msg : ScLogMessage} {resp : Resp}
    (hlt : resp.content.length < 2 ^ 31) (h : msg.frame = resp.message.frame) :
    ReadsResponse msg resp := by
  obtain ⟨-, hcontent, hnonneg, -⟩ := resp.frame_eq hlt
  rw [← h] at hcontent hnonneg
  have hcode : msg.code = resp.message.code := congrArg Frame.code h
  have hchannel : msg.channel = resp.message.channel := congrArg Frame.channel h
  have hlength : msg.contentLength.toInt.toNat = resp.content.length := by
    rw [← hcontent]
    exact msg.frame.complete.symm
  have hzero : 0 ≤ msg.contentLength.toInt := hnonneg
  cases resp with
  | init channel position digest =>
    have hlen : (Resp.init channel position digest).content.length = 8 + digest.length := by
      simp [Resp.content]
    -- The first eight bytes of the content are the position, in network order.
    have hposition : msg.content.bytes 0 8 = netImage 8 position := by
      rw [bytes_of_frame msg (by omega), hcontent, Resp.content, List.drop_zero,
        List.take_left' (by simp)]
    refine ⟨hcode, hchannel, ?_, by omega, ?_⟩
    · rw [positionOf, hposition, bswap64_word_netImage]
    · rw [bytes_of_frame msg (by omega), hcontent, Resp.content, List.drop_left' (by simp),
        List.take_length]
  | ok channel => exact ⟨hcode, hchannel⟩
  | ng => exact hcode

end Compostela.System
