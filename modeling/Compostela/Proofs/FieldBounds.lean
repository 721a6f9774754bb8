import Compostela.Aggregator.Session

/-!
# `Compostela.Proofs.FieldBounds`: the fields that a handler takes from the content

A handler finds its fields at fixed places of the content: `handler_init` reads an attribute and
a name, `handler_data` an attribute, a timestamp and a text, `handler_seek` a position. None of
them compares `content_length` with the size of the fixed part. The block behind the content has
`BUFSIZE` bytes, so a read past the received bytes finds what the memory held before.

`FieldsInside` says that a handler sees the received bytes only, that the lengths it derives are
inside them, and that it rejects what is too short. `fields_inside_iff` has the exact condition
over every complete frame that fits the block.
-/

set_option autoImplicit false

namespace Compostela.Proofs.FieldBounds

open Compostela.Common
open Compostela.Memory
open Compostela.Segments
open Compostela.Aggregator

/-- The size of the fields at fixed places, for the handlers that read any. -/
def fixedPart : Handler → Option Nat
  | .init => some 4
  | .data => some 12
  | .seek => some 8
  | .dummy => none
  | .rele => none

/-- The content covers the fixed part of the handler that gets it. -/
def LongEnough (code channel : BitVec 16) (contentLength : BitVec 32) : Prop :=
  ∀ n, (handlerFor code channel).bind fixedPart = some n → (n : Int) ≤ contentLength.toInt

/-- A block with the received content of a message. It may end right behind it, and hold
anything there when it does not. -/
structure HasContent (msg : ScLogMessage) (content : Block) : Prop where
  le_size : msg.contentLength.toInt ≤ content.size
  bytes_eq : content.bytes 0 msg.contentLength.toInt.toNat
    = msg.content.bytes 0 msg.contentLength.toInt.toNat

section
variable (cfg : Config) (heap : Heap) (chunks : List Nat) (msg : ScLogMessage)
  (conn : ScConnection) (fs : Fs)

/-- The call reads inside the received content: it comes to the same end with every block that
has it. -/
def ReadsInside : Prop :=
  ∀ content, HasContent msg content →
    handle cfg heap chunks { msg with content := content } conn fs =
      handle cfg heap chunks msg conn fs

/-- The name length of `handler_init` and the text length of `handler_data` are between zero
and `content_length`. -/
def LengthsInside : Prop :=
  (handlerFor msg.code msg.channel = some .init →
    0 ≤ (msg.contentLength - 4).toInt ∧ (msg.contentLength - 4).toInt ≤ msg.contentLength.toInt) ∧
  (handlerFor msg.code msg.channel = some .data →
    (textLength msg : Int) ≤ msg.contentLength.toInt)

/-- The call changes nothing and does not answer `SCM_RESP_OK`. -/
def Rejected : Prop :=
  ∃ r, handle cfg heap chunks msg conn fs = .ok r ∧ r.conn = conn ∧ r.fs = fs ∧
    ∀ f : Frame, r.sent = f.bytes → f.code ≠ SCM_RESP_OK

/-- What `do_receive` makes of the next frame of a stream: every field is inside the received
content, and a content that is too short is rejected. -/
def FieldsInside (s : Incoming) : Prop :=
  ∃ msg rest, receiveFrame heap s = .ok (some msg, rest) ∧
    ReadsInside cfg heap chunks msg conn fs ∧ LengthsInside msg ∧
    (¬ LongEnough msg.code msg.channel msg.contentLength →
      Rejected cfg heap chunks msg conn fs)

end

/-! ### A content that covers the fixed part -/

section
variable {cfg : Config} {heap : Heap} {chunks : List Nat} {msg : ScLogMessage}
  {conn : ScConnection} {fs : Fs}

/-- A load inside the received content gives the same bytes from every block that has it. -/
theorem HasContent.load_eq {content : Block} (h : HasContent msg content)
    (hsize : msg.contentLength.toInt ≤ msg.content.size) {off n : Nat}
    (hin : (off + n : Nat) ≤ msg.contentLength.toInt) :
    content.load off n = msg.content.load off n := by
  have hle := h.le_size
  have hbytes : content.bytes off n = msg.content.bytes off n := by
    have hleft := Block.drop_bytes content 0 (m := off) (n := msg.contentLength.toInt.toNat)
      (by omega)
    have hright := Block.drop_bytes msg.content 0 (m := off) (n := msg.contentLength.toInt.toNat)
      (by omega)
    rw [Nat.zero_add] at hleft hright
    rw [← Block.take_bytes content off (m := n) (n := msg.contentLength.toInt.toNat - off)
        (by omega),
      ← Block.take_bytes msg.content off (m := n) (n := msg.contentLength.toInt.toNat - off)
        (by omega),
      ← hleft, ← hright, h.bytes_eq]
  rw [Block.load_of_le (by omega), Block.load_of_le (by omega), hbytes]

/-- Every handler reads inside a content that covers its fixed part. -/
theorem readsInside_of_longEnough (hsize : msg.contentLength.toInt ≤ msg.content.size)
    (h : LongEnough msg.code msg.channel msg.contentLength) :
    ReadsInside cfg heap chunks msg conn fs := by
  intro content hcontent
  have hload : ∀ {off n : Nat}, (off + n : Nat) ≤ msg.contentLength.toInt →
      content.load off n = msg.content.load off n := hcontent.load_eq hsize
  unfold handle
  simp only
  unfold LongEnough at h
  cases hhandler : handlerFor msg.code msg.channel with
  | none => rfl
  | some handler =>
    rw [hhandler] at h
    cases handler with
    | init =>
      have hlen : (4 : Int) ≤ msg.contentLength.toInt := h 4 rfl
      have hwhole : WholeInit msg := ⟨hlen, hsize⟩
      have hslen := hwhole.toInt_slen
      show handlerInit cfg heap chunks { msg with content := content } conn fs = _
      unfold handlerInit
      simp only
      rw [hload (by omega), hload (by omega)]
    | data =>
      have hlen : (12 : Int) ≤ msg.contentLength.toInt := h 12 rfl
      have hwhole : WholeData msg := ⟨hlen, hsize⟩
      have htext := hwhole.textLength
      show handlerData cfg heap { msg with content := content } conn _ fs = _
      have hsame : textLength { msg with content := content } = textLength msg := rfl
      unfold handlerData
      rw [hsame]
      simp only
      rw [hload (by omega), hload (by omega), hload (by omega)]
    | seek =>
      have hlen : (8 : Int) ≤ msg.contentLength.toInt := h 8 rfl
      show handlerSeek { msg with content := content } conn _ fs = _
      unfold handlerSeek
      simp only
      rw [hload (by omega)]
    | dummy => rfl
    | rele => rfl

/-- The derived lengths are inside a content that covers the fixed part. -/
theorem lengthsInside_of_longEnough (hsize : msg.contentLength.toInt ≤ msg.content.size)
    (h : LongEnough msg.code msg.channel msg.contentLength) : LengthsInside msg := by
  constructor
  · intro hhandler
    have hlen : (4 : Int) ≤ msg.contentLength.toInt := h 4 (by rw [hhandler]; rfl)
    have hwhole : WholeInit msg := ⟨hlen, hsize⟩
    rw [hwhole.toInt_slen]
    omega
  · intro hhandler
    have hlen : (12 : Int) ≤ msg.contentLength.toInt := h 12 (by rw [hhandler]; rfl)
    have hwhole : WholeData msg := ⟨hlen, hsize⟩
    rw [hwhole.textLength]
    omega

/-! ### A content that is too short -/

/-- The block that ends right behind the received content. -/
theorem hasContent_cut (msg : ScLogMessage) :
    HasContent msg ⟨msg.contentLength.toInt.toNat, msg.content.byte⟩ :=
  ⟨by simp only; omega, rfl⟩

/-- `handler_seek` reads past a content that is too short, also when the request is on no
channel. -/
theorem not_readsInside_of_seek (hsize : 8 ≤ msg.content.size)
    (hhandler : handlerFor msg.code msg.channel = some .seek)
    (hshort : msg.contentLength.toInt < 8) : ¬ ReadsInside cfg heap chunks msg conn fs := by
  intro h
  have hcut := h _ (hasContent_cut msg)
  unfold handle at hcut
  simp only [hhandler] at hcut
  -- Behind the cut the read is refused. In the block of the message it is not.
  have hleft : ∀ channel, handlerSeek
      { msg with content := ⟨msg.contentLength.toInt.toNat, msg.content.byte⟩ } conn channel fs
        = .error .oobRead := by
    intro channel
    unfold handlerSeek
    have hload : Block.load ⟨msg.contentLength.toInt.toNat, msg.content.byte⟩ 0 8
        = .error .oobRead := by
      unfold Block.load
      rw [if_neg (by simp only; omega)]
    simp only [hload, error_bind]
  rw [hleft] at hcut
  unfold handlerSeek at hcut
  rw [Block.load_of_le (by omega), ok_bind] at hcut
  simp only at hcut
  split at hcut
  · cases hcut
  · cases hcut

/-- What is too short for its handler is not handled inside its content. -/
theorem longEnough_of_inside (hsize : 8 ≤ msg.content.size)
    (hreads : ReadsInside cfg heap chunks msg conn fs) (hlengths : LengthsInside msg) :
    LongEnough msg.code msg.channel msg.contentLength := by
  intro n hn
  by_contra hshort
  obtain ⟨hname, htext⟩ := hlengths
  cases hhandler : handlerFor msg.code msg.channel with
  | none =>
    rw [hhandler] at hn
    cases hn
  | some handler =>
    rw [hhandler] at hn
    cases handler with
    | init =>
      cases hn
      -- The name length is negative, or has wrapped to one above a negative `content_length`.
      obtain ⟨hnonneg, hle⟩ := hname hhandler
      have hlow := BitVec.le_toInt msg.contentLength
      have hfour : (4 : BitVec 32).toInt = 4 := by decide
      have hslen : (msg.contentLength - 4).toInt = msg.contentLength.toInt - 4 := by
        rw [BitVec.toInt_sub, hfour, Int.bmod_eq_of_le] <;> omega
      omega
    | data =>
      cases hn
      -- The text length is a `size_t` that has wrapped.
      have hle := htext hhandler
      have hlow := BitVec.le_toInt msg.contentLength
      have hwrap : textLength msg = (msg.contentLength.toInt - 12 + 2 ^ 64).toNat := by
        unfold textLength toSize
        rw [← Int.add_emod_right, Int.emod_eq_of_lt] <;> omega
      omega
    | seek =>
      cases hn
      exact not_readsInside_of_seek hsize hhandler (by omega) hreads
    | dummy => cases hn
    | rele => cases hn

/-! ### The result -/

/-- The fields of a complete frame that fits the block are inside its content exactly when the
content covers the fixed part of the handler that gets it. Nothing rejects a shorter one. -/
theorem fields_inside_iff {s : Incoming} {f : Frame} {tail : Bytes}
    (hs : s.bytes = f.bytes ++ tail) (hfit : f.content.length ≤ BUFSIZE) :
    FieldsInside cfg heap chunks conn fs s ↔ LongEnough f.code f.channel f.contentLength := by
  obtain ⟨msg, rest, hrecv, hframe, hblock, -, -⟩ := receiveFrame_of_frame heap hs hfit
  have hcode : msg.code = f.code := congrArg Frame.code hframe
  have hchannel : msg.channel = f.channel := congrArg Frame.channel hframe
  have hlength : msg.contentLength = f.contentLength := congrArg Frame.contentLength hframe
  have hcomplete := f.complete
  rw [← hcode, ← hchannel, ← hlength]
  constructor
  · rintro ⟨msg', rest', hrecv', hreads, hlengths, -⟩
    rw [hrecv] at hrecv'
    cases hrecv'
    exact longEnough_of_inside (by rw [hblock]; decide) hreads hlengths
  · intro h
    have hsize : msg.contentLength.toInt ≤ msg.content.size := by
      rw [hblock, hlength]
      omega
    exact ⟨msg, rest, hrecv, readsInside_of_longEnough hsize h,
      lengthsInside_of_longEnough hsize h, fun hshort => absurd h hshort⟩

/-- The DATA request of an empty line that goes on: the fixed part and no text. -/
def emptyText : Frame := .ofContent SCM_MSG_DATA 1 (List.replicate 12 0) (by simp)

/-- The fields of `emptyText` are inside its content. -/
theorem fields_inside_emptyText :
    FieldsInside (smallConfig []) zeroHeap [] ⟨some [97], registered (smallChannel []) 1⟩ Fs.empty
      ⟨arrivalsOf emptyText.bytes, .eof⟩ := by
  have hs : Incoming.bytes ⟨arrivalsOf emptyText.bytes, .eof⟩ = emptyText.bytes ++ [] := by
    simp [Incoming.bytes]
  refine (fields_inside_iff hs (by decide)).mpr ?_
  intro n hn
  cases hn
  decide

/-- An INIT request without content: four bytes of attribute and a name of length -4. -/
def emptyInit : Frame := .empty SCM_MSG_INIT 0

/-- The fields of `emptyInit` are not inside its content. -/
theorem fields_outside_emptyInit :
    ¬ FieldsInside (smallConfig []) zeroHeap [] ⟨none, []⟩ Fs.empty
      ⟨arrivalsOf emptyInit.bytes, .eof⟩ := by
  rintro ⟨msg, rest, hrecv, -, hlengths, -⟩
  have hs : Incoming.bytes ⟨arrivalsOf emptyInit.bytes, .eof⟩ = emptyInit.bytes ++ [] := by
    simp [Incoming.bytes]
  obtain ⟨msg', rest', hrecv', hframe, -, -, -⟩ :=
    receiveFrame_of_frame zeroHeap hs (by decide)
  rw [hrecv] at hrecv'
  cases hrecv'
  have hcode : msg.code = SCM_MSG_INIT := congrArg Frame.code hframe
  have hchannel : msg.channel = 0 := congrArg Frame.channel hframe
  have hlength : msg.contentLength = 0 := congrArg Frame.contentLength hframe
  obtain ⟨hnonneg, -⟩ := hlengths.1 (by rw [hcode, hchannel]; rfl)
  rw [hlength] at hnonneg
  exact absurd hnonneg (by decide)

end

end Compostela.Proofs.FieldBounds
