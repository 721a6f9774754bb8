import Compostela.Lib.ByteOrder
import Compostela.Lib.Memory

/-!
# `Compostela.Common.Message`: `sc_log_message`

The message of `common/message.h`, as the two programs keep it in memory on a
little-endian host with 8-bit `char`. The three header fields are two's complement words:
`BitVec.toInt` is the value C compares, and `leBytes` gives the memory image. `content` is
the block behind `content[1]`, as large as the allocation.

`htons`, `htonl` and their inverses reverse the bytes of a word on such a host, so one
definition serves both directions. `ScLogMessage.toNetwork` is the in-place conversion that
both send functions make. `header_toNetwork` says that the memory image after it is the
big-endian header, and `toNetwork_withHeader_netHeader` that a receiver undoes it.

`scLogMessageNew` takes the size that `malloc` sees: an `ssize_t` added to the header size
and converted to `size_t`. `scLogMessageNew_of_malloc` is the case of a size in range, and
`scLogMessageNew_eq_error` says when the header does not fit the block.
-/

set_option autoImplicit false

namespace Compostela.Common

open Compostela.ByteOrder
open Compostela.Memory

abbrev Bytes := List UInt8

/-! ### Message codes -/

def SCM_MSG_NONE : BitVec 16 := 0
def SCM_MSG_INIT : BitVec 16 := 101
def SCM_MSG_SYNC : BitVec 16 := 102
def SCM_MSG_DATA : BitVec 16 := 103
def SCM_MSG_SEEK : BitVec 16 := 104
def SCM_MSG_RELE : BitVec 16 := 105
def SCM_MSG_MOVE : BitVec 16 := 106
def SCM_RESP_OK : BitVec 16 := 1001
def SCM_RESP_NG : BitVec 16 := 1999

/-- `BUFSIZE` of both programs. -/
def BUFSIZE : Nat := 8192

/-- `offsetof(sc_log_message, content)`. -/
def headerSize : Nat := 8

/-- Bit 31 of an attribute word. -/
def ATTR_TOP : BitVec 32 := 0x80000000

/-! ### Words in memory and on the wire -/

/-- `htons` and `ntohs` on a little-endian host. -/
def htons (x : BitVec 16) : BitVec 16 := bswap 2 x

/-- `htonl` and `ntohl` on a little-endian host. -/
def htonl (x : BitVec 32) : BitVec 32 := bswap 4 x

/-- `bswap_64`. -/
def bswap64 (x : BitVec 64) : BitVec 64 := bswap 8 x

/-- A word read from its memory image. -/
def word (n : Nat) (bs : Bytes) : BitVec n := .ofNat n (ofLe bs)

/-- The memory image of a word. -/
def image (w : Nat) {n : Nat} (x : BitVec n) : Bytes := leBytes w x.toNat

/-- The network image of a word. -/
def netImage (w : Nat) {n : Nat} (x : BitVec n) : Bytes := beBytes w x.toNat

/-- The conversion of an `ssize_t` to `size_t`. -/
def toSize (x : Int) : Nat := (x % 2 ^ 64).toNat

/-- `htons` is its own inverse. -/
@[simp] theorem htons_htons (x : BitVec 16) : htons (htons x) = x := bswap_bswap (by norm_num) x

/-- `htonl` is its own inverse. -/
@[simp] theorem htonl_htonl (x : BitVec 32) : htonl (htonl x) = x := bswap_bswap (by norm_num) x

/-- `bswap_64` is its own inverse. -/
@[simp] theorem bswap64_bswap64 (x : BitVec 64) : bswap64 (bswap64 x) = x :=
  bswap_bswap (by norm_num) x

/-- A value of `w` bytes has `w` bytes in memory. -/
@[simp] theorem length_image (w : Nat) {n : Nat} (x : BitVec n) : (image w x).length = w :=
  length_leBytes w _

/-- A value of `w` bytes has `w` bytes on the wire. -/
@[simp] theorem length_netImage (w : Nat) {n : Nat} (x : BitVec n) : (netImage w x).length = w :=
  length_beBytes w _

/-- A short in network order is in memory what goes on the wire. -/
theorem image_htons (x : BitVec 16) : image 2 (htons x) = netImage 2 x :=
  leBytes_bswap (by norm_num) x

/-- A 32-bit value in network order is in memory what goes on the wire. -/
theorem image_htonl (x : BitVec 32) : image 4 (htonl x) = netImage 4 x :=
  leBytes_bswap (by norm_num) x

/-- A 64-bit value with its bytes swapped is in memory what goes on the wire. -/
theorem image_bswap64 (x : BitVec 64) : image 8 (bswap64 x) = netImage 8 x :=
  leBytes_bswap (by norm_num) x

/-- A word read back from its own image. -/
theorem word_image {w n : Nat} (hw : 2 ^ n = 256 ^ w) (x : BitVec n) :
    word n (image w x) = x := by
  rw [word, image, ofLe_leBytes, ← hw, Nat.mod_eq_of_lt x.isLt, BitVec.ofNat_toNat,
    BitVec.setWidth_eq]

/-- The image of a word that was read from memory. -/
theorem image_word {w n : Nat} (hw : 2 ^ n = 256 ^ w) {bs : Bytes} (hlen : bs.length = w) :
    image w (word n bs) = bs := by
  have hlt := ofLe_lt bs
  rw [image, word, BitVec.toNat_ofNat, hw, ← hlen, Nat.mod_eq_of_lt hlt, leBytes_ofLe]

/-- A short that is read from the wire and swapped is the one that was sent. -/
@[simp] theorem htons_word_netImage (x : BitVec 16) : htons (word 16 (netImage 2 x)) = x :=
  bswap_ofLe_beBytes (by norm_num) x

/-- A 32-bit value that is read from the wire and swapped is the one that was sent. -/
@[simp] theorem htonl_word_netImage (x : BitVec 32) : htonl (word 32 (netImage 4 x)) = x :=
  bswap_ofLe_beBytes (by norm_num) x

/-- A 64-bit value that is read from the wire and swapped is the one that was sent. -/
@[simp] theorem bswap64_word_netImage (x : BitVec 64) :
    bswap64 (word 64 (netImage 8 x)) = x :=
  bswap_ofLe_beBytes (by norm_num) x

/-- A size that is in range is converted to itself. -/
theorem toSize_of_lt {x : Int} (h0 : 0 ≤ x) (h1 : x < 2 ^ 64) : toSize x = x.toNat := by
  rw [toSize, Int.emod_eq_of_lt h0 h1]

/-- A length below `2 ^ 31` keeps its value in an `int32_t`. -/
theorem toInt_ofNat_of_lt {n : Nat} (h : n < 2 ^ 31) : (BitVec.ofNat 32 n).toInt = n := by
  rw [BitVec.toInt_ofNat', Int.bmod_eq_of_le] <;> omega

/-- A length below `2 ^ 63` keeps its value in an `int64_t`. -/
theorem toInt_ofNat64_of_lt {n : Nat} (h : n < 2 ^ 63) : (BitVec.ofNat 64 n).toInt = n := by
  rw [BitVec.toInt_ofNat', Int.bmod_eq_of_le] <;> omega

/-- A positive number below `2 ^ 15` keeps its value in an `int16_t`. -/
theorem toInt_ofInt_of_lt {x : Int} (h0 : 0 ≤ x) (h : x < 2 ^ 15) :
    (BitVec.ofInt 16 x).toInt = x := by
  rw [BitVec.toInt_ofInt, Int.bmod_eq_of_le] <;> omega

/-! ### The message -/

/-- `sc_log_message`. -/
structure ScLogMessage where
  code : BitVec 16
  channel : BitVec 16
  contentLength : BitVec 32
  content : Block

namespace ScLogMessage

/-- The memory image of the header. -/
def header (msg : ScLogMessage) : Bytes :=
  image 2 msg.code ++ image 2 msg.channel ++ image 4 msg.contentLength

/-- The message with a header read from its memory image. -/
def withHeader (msg : ScLogMessage) (bs : Bytes) : ScLogMessage :=
  { msg with
      code := word 16 (bs.take 2)
      channel := word 16 ((bs.drop 2).take 2)
      contentLength := word 32 ((bs.drop 4).take 4) }

/-- The conversion to network order that the send functions make in place. The same words
converted a second time are in host order again. -/
def toNetwork (msg : ScLogMessage) : ScLogMessage :=
  { msg with
      code := htons msg.code
      channel := htons msg.channel
      contentLength := htonl msg.contentLength }

/-- The first `n` bytes of the message's memory image, for a send of `n` bytes. The read
traps when the content block is shorter. -/
def load (msg : ScLogMessage) (n : Nat) : Except Trap Bytes :=
  if n ≤ headerSize then .ok (msg.header.take n)
  else do
    let body ← msg.content.load 0 (n - headerSize)
    .ok (msg.header ++ body)

/-- A message whose content block holds exactly `content`. The programs allocate their
small messages this way and do not check the result. -/
def ofContent (code channel : BitVec 16) (content : Bytes) : ScLogMessage where
  code := code
  channel := channel
  contentLength := .ofNat 32 content.length
  content := .ofBytes content

/-- The header of a message has eight bytes. -/
@[simp] theorem length_header (msg : ScLogMessage) : msg.header.length = headerSize := by
  simp [header, headerSize]

/-- The swap of the header fields leaves the content alone. -/
@[simp] theorem content_toNetwork (msg : ScLogMessage) : msg.toNetwork.content = msg.content := rfl

/-- A new header leaves the content alone. -/
@[simp] theorem content_withHeader (msg : ScLogMessage) (bs : Bytes) :
    (msg.withHeader bs).content = msg.content := rfl

/-- A second swap of the header fields undoes the first. -/
@[simp] theorem toNetwork_toNetwork (msg : ScLogMessage) : msg.toNetwork.toNetwork = msg := by
  simp [toNetwork]

/-- The header on the wire: the three fields in network order. -/
def netHeader (code channel : BitVec 16) (contentLength : BitVec 32) : Bytes :=
  netImage 2 code ++ netImage 2 channel ++ netImage 4 contentLength

/-- A header on the wire has eight bytes. -/
@[simp] theorem length_netHeader (code channel : BitVec 16) (contentLength : BitVec 32) :
    (netHeader code channel contentLength).length = headerSize := by
  simp [netHeader, headerSize]

/-- The memory image of a converted header is the header on the wire. -/
theorem header_toNetwork (msg : ScLogMessage) :
    msg.toNetwork.header = netHeader msg.code msg.channel msg.contentLength := by
  simp [header, netHeader, toNetwork, image_htons, image_htonl]

/-- A header taken from the wire and converted by `ntohs` and `ntohl` has the sender's
fields. -/
theorem toNetwork_withHeader_netHeader (msg : ScLogMessage) (code channel : BitVec 16)
    (contentLength : BitVec 32) :
    (msg.withHeader (netHeader code channel contentLength)).toNetwork =
      { msg with code := code, channel := channel, contentLength := contentLength } := by
  have h1 : (netHeader code channel contentLength).take 2 = netImage 2 code := by
    simp [netHeader]
  have h2 : ((netHeader code channel contentLength).drop 2).take 2 = netImage 2 channel := by
    simp [netHeader]
  have h3 : ((netHeader code channel contentLength).drop 4).take 4
      = netImage 4 contentLength := by
    simp [netHeader, List.drop_append, List.drop_eq_nil_of_le, List.take_of_length_le]
  simp [withHeader, toNetwork, h1, h2, h3]

/-- A send of at most the allocated bytes reads the header and that much of the content. -/
theorem load_of_le {msg : ScLogMessage} {n : Nat} (h : n ≤ msg.content.size) :
    msg.load (headerSize + n) = .ok (msg.header ++ msg.content.bytes 0 n) := by
  unfold load
  split
  · have hn : n = 0 := by omega
    subst hn
    simp [List.take_of_length_le]
  · rw [Nat.add_sub_cancel_left, Block.load_of_le (by omega)]
    rfl

/-- A send of a whole message that `ofContent` built, after the conversion: the header in
network order and the content. -/
theorem load_toNetwork_ofContent (code channel : BitVec 16) (content : Bytes) :
    (ofContent code channel content).toNetwork.load (headerSize + content.length) =
      .ok (netHeader code channel (.ofNat 32 content.length) ++ content) := by
  rw [load_of_le (by simp [ofContent]), header_toNetwork]
  simp [ofContent, Block.bytes_ofBytes]

end ScLogMessage

/-! ### Frames

A frame is one message on the wire: the header and exactly as many content bytes as its
length announces, and none for a length that is not positive. -/

/-- A complete frame. -/
structure Frame where
  code : BitVec 16
  channel : BitVec 16
  contentLength : BitVec 32
  content : Bytes
  complete : content.length = contentLength.toInt.toNat

namespace Frame

/-- The bytes of a frame. -/
def bytes (f : Frame) : Bytes :=
  ScLogMessage.netHeader f.code f.channel f.contentLength ++ f.content

/-- A frame is its header and its content. -/
theorem length_bytes (f : Frame) : f.bytes.length = headerSize + f.content.length := by
  simp [bytes]

/-- The frame of a content that a 32-bit length can announce. -/
def ofContent (code channel : BitVec 16) (content : Bytes) (h : content.length < 2 ^ 31) :
    Frame where
  code := code
  channel := channel
  contentLength := .ofNat 32 content.length
  content := content
  complete := by rw [toInt_ofNat_of_lt h, Int.toNat_natCast]

/-- The frame without a content. -/
def empty (code channel : BitVec 16) : Frame := ⟨code, channel, 0, [], rfl⟩

end Frame

/-- The length field of a byte string that starts with a header. -/
def announced (bs : Bytes) : BitVec 32 := htonl (word 32 ((bs.drop 4).take 4))

/-- The first eight bytes of a byte string are a header. -/
theorem exists_netHeader {bs : Bytes} (h : headerSize ≤ bs.length) :
    ∃ code channel, bs.take headerSize = ScLogMessage.netHeader code channel (announced bs) := by
  have hlen : 8 ≤ bs.length := h
  refine ⟨htons (word 16 (bs.take 2)), htons (word 16 ((bs.drop 2).take 2)), ?_⟩
  -- Each field is the image of the word that is read from it.
  have h1 : netImage 2 (htons (word 16 (bs.take 2))) = bs.take 2 := by
    rw [← image_htons, htons_htons]
    exact image_word (by norm_num) (by rw [List.length_take]; omega)
  have h2 : netImage 2 (htons (word 16 ((bs.drop 2).take 2))) = (bs.drop 2).take 2 := by
    rw [← image_htons, htons_htons]
    exact image_word (by norm_num) (by rw [List.length_take, List.length_drop]; omega)
  have h3 : netImage 4 (announced bs) = (bs.drop 4).take 4 := by
    rw [← image_htonl, announced, htonl_htonl]
    exact image_word (by norm_num) (by rw [List.length_take, List.length_drop]; omega)
  rw [ScLogMessage.netHeader, h1, h2, h3, ← List.take_add, ← List.take_add]
  rfl

/-- A byte string with a header and the content that it announces starts with a frame. -/
theorem exists_frame {bs : Bytes} (hhead : headerSize ≤ bs.length)
    (hbody : headerSize + (announced bs).toInt.toNat ≤ bs.length) :
    ∃ f tail, bs = Frame.bytes f ++ tail ∧ f.contentLength = announced bs := by
  obtain ⟨code, channel, hheader⟩ := exists_netHeader hhead
  have hlen : ((bs.drop headerSize).take (announced bs).toInt.toNat).length
      = (announced bs).toInt.toNat := by
    rw [List.length_take, List.length_drop]
    omega
  refine ⟨⟨code, channel, announced bs, _, hlen⟩,
    (bs.drop headerSize).drop (announced bs).toInt.toNat, ?_, rfl⟩
  rw [Frame.bytes, ← hheader, List.append_assoc, List.take_append_drop, List.take_append_drop]

/-- The length field of a frame. -/
theorem announced_frame (f : Frame) (tail : Bytes) :
    announced (f.bytes ++ tail) = f.contentLength := by
  have hfield : ((f.bytes ++ tail).drop 4).take 4 = netImage 4 f.contentLength := by
    simp [Frame.bytes, ScLogMessage.netHeader, List.drop_append, List.drop_eq_nil_of_le]
  rw [announced, hfield, htonl_word_netImage]

/-- A byte string starts with a complete frame. -/
def HoldsFrame (bs : Bytes) : Prop :=
  headerSize ≤ bs.length ∧ headerSize + (announced bs).toInt.toNat ≤ bs.length

instance (bs : Bytes) : Decidable (HoldsFrame bs) :=
  inferInstanceAs (Decidable (headerSize ≤ bs.length ∧ _))

/-- Bytes hold a frame exactly when a frame is at their front. -/
theorem holdsFrame_iff (bs : Bytes) : HoldsFrame bs ↔ ∃ f tail, bs = Frame.bytes f ++ tail := by
  constructor
  · rintro ⟨hhead, hbody⟩
    obtain ⟨f, tail, hbytes, -⟩ := exists_frame hhead hbody
    exact ⟨f, tail, hbytes⟩
  · rintro ⟨f, tail, rfl⟩
    have hcomplete := f.complete
    unfold HoldsFrame
    rw [announced_frame, List.length_append, Frame.length_bytes]
    omega

/-- The code of a frame. -/
def codeOf (bs : Bytes) : BitVec 16 := htons (word 16 (bs.take 2))

/-- The channel number of a frame. -/
def channelOf (bs : Bytes) : BitVec 16 := htons (word 16 ((bs.drop 2).take 2))

/-- The code is read from the bytes of a frame. -/
theorem codeOf_bytes (f : Frame) : codeOf f.bytes = f.code := by
  have h : f.bytes.take 2 = netImage 2 f.code := by
    simp only [Frame.bytes, ScLogMessage.netHeader, List.append_assoc]
    rw [List.take_left' (by simp)]
  rw [codeOf, h, htons_word_netImage]

/-- The channel is read from the bytes of a frame. -/
theorem channelOf_bytes (f : Frame) : channelOf f.bytes = f.channel := by
  have h : (f.bytes.drop 2).take 2 = netImage 2 f.channel := by
    simp only [Frame.bytes, ScLogMessage.netHeader, List.append_assoc]
    rw [List.drop_left' (by simp), List.take_left' (by simp)]
  rw [channelOf, h, htons_word_netImage]

/-- A message as `do_receive` leaves it after a frame with this content, in a block of zeros. -/
def ScLogMessage.received (code channel : BitVec 16) (content : Bytes) : ScLogMessage where
  code := code
  channel := channel
  contentLength := .ofNat 32 content.length
  content := Block.put ⟨BUFSIZE, fun _ => 0⟩ 0 content

/-- The frame that a message in memory stands for. -/
def ScLogMessage.frame (msg : ScLogMessage) : Frame where
  code := msg.code
  channel := msg.channel
  contentLength := msg.contentLength
  content := msg.content.bytes 0 msg.contentLength.toInt.toNat
  complete := Block.length_bytes _ _ _

/-- The frame of a message with a content is the frame of the content. -/
@[simp] theorem ScLogMessage.frame_ofContent (code channel : BitVec 16) (content : Bytes)
    (h : content.length < 2 ^ 31) :
    (ScLogMessage.ofContent code channel content).frame = .ofContent code channel content h := by
  simp [ScLogMessage.frame, ScLogMessage.ofContent, Frame.ofContent, toInt_ofNat_of_lt h,
    Block.bytes_ofBytes]

/-! ### Allocation -/

/-- Memory as one call sees it: which sizes `malloc` and `realloc` serve, and what fresh
heap memory and fresh local variables hold. -/
structure Heap where
  malloc : Nat → Bool
  realloc : Nat → Bool
  fresh : Nat → UInt8
  stack : Nat → UInt8

/-- A memory that serves every allocation, with zeros in it. -/
def zeroHeap : Heap := ⟨fun _ => true, fun _ => true, fun _ => 0, fun _ => 0⟩

/-- The largest object size. No allocation of more succeeds. -/
def PTRDIFF_MAX : Nat := 2 ^ 63 - 1

/-- `sc_log_message_new`. The write of `content_length` into bytes 4 to 7 leaves a block
that is smaller than the header. -/
def scLogMessageNew (heap : Heap) (contentSize : Int) : Except Trap (Option ScLogMessage) :=
  let n := toSize (headerSize + contentSize)
  if ¬ (n ≤ PTRDIFF_MAX ∧ heap.malloc n = true) then .ok none
  else if n < headerSize then .error .oobWrite
  else .ok (some
    { code := word 16 ((List.range 2).map heap.fresh)
      channel := word 16 (((List.range 4).drop 2).map heap.fresh)
      contentLength := .ofInt 32 contentSize
      content := ⟨n - headerSize, fun i => heap.fresh (headerSize + i)⟩ })

/-- The allocation of a content size in range that `malloc` serves: a block of exactly that
size. -/
theorem scLogMessageNew_of_malloc (heap : Heap) (size : Nat)
    (hmax : headerSize + size ≤ PTRDIFF_MAX) (hmem : heap.malloc (headerSize + size) = true) :
    ∃ msg, scLogMessageNew heap size = .ok (some msg) ∧ msg.content.size = size ∧
      msg.contentLength = .ofNat 32 size := by
  have hn : toSize (headerSize + size) = headerSize + size := by
    unfold headerSize PTRDIFF_MAX at *
    rw [toSize_of_lt] <;> omega
  unfold scLogMessageNew
  simp only [hn]
  rw [if_neg (not_not.mpr ⟨hmax, hmem⟩), if_neg (by omega)]
  exact ⟨_, rfl, by simp, by simp [BitVec.ofInt_natCast]⟩

/-- An allocation writes outside its block exactly when `malloc` serves a size that is
smaller than the header. -/
theorem scLogMessageNew_eq_error {heap : Heap} {contentSize : Int} {t : Trap} :
    scLogMessageNew heap contentSize = .error t ↔
      toSize (headerSize + contentSize) < headerSize ∧
        heap.malloc (toSize (headerSize + contentSize)) = true ∧ t = .oobWrite := by
  simp only [scLogMessageNew]
  by_cases hmem : toSize (headerSize + contentSize) ≤ PTRDIFF_MAX ∧
      heap.malloc (toSize (headerSize + contentSize)) = true
  · rw [if_neg (not_not.mpr hmem)]
    by_cases hsmall : toSize (headerSize + contentSize) < headerSize
    · simp [hsmall, hmem.2, eq_comm]
    · simp [hsmall]
  · rw [if_pos hmem]
    constructor
    · intro h
      cases h
    · rintro ⟨hsmall, hserved, -⟩
      refine absurd ⟨?_, hserved⟩ hmem
      unfold headerSize PTRDIFF_MAX at *
      omega

/-- What a successful allocation gives: a block of the requested content size. -/
theorem scLogMessageNew_eq_some {heap : Heap} {contentSize : Int} {msg : ScLogMessage}
    (h : scLogMessageNew heap contentSize = .ok (some msg)) :
    msg.contentLength = .ofInt 32 contentSize ∧
      msg.content.size = toSize (headerSize + contentSize) - headerSize := by
  simp only [scLogMessageNew] at h
  split at h
  · cases h
  · split at h
    · cases h
    · cases h
      exact ⟨rfl, rfl⟩

/-- An allocation that succeeds was served by `malloc`. -/
theorem malloc_of_scLogMessageNew {heap : Heap} {contentSize : Int} {msg : ScLogMessage}
    (h : scLogMessageNew heap contentSize = .ok (some msg)) :
    heap.malloc (toSize (headerSize + contentSize)) = true := by
  simp only [scLogMessageNew] at h
  split at h
  · cases h
  · rename_i hserved
    exact (not_not.mp hserved).2

end Compostela.Common
