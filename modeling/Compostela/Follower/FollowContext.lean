import Compostela.Common.AzBuffer
import Compostela.Follower.Connection

/-!
# `Compostela.Follower.FollowContext`: the context of a followed file

`sc_follow_context` of `follower/follow_context.c`. `fd` is the descriptor, and `offset` is
the offset of the open file behind it, which the kernel keeps. `messageBuffer` is the one
DATA message of the context. Its `code` doubles as a state: `SCM_MSG_NONE` means that no
message is pending.

`sc_follow_context_close` sends the RELE request for the context's channel. It closes no
file and changes nothing in the context.
-/

set_option autoImplicit false

namespace Compostela.Follower

open Compostela.Common
open Compostela.Memory

/-- `ERR_MUST_RECONNECT`, which `sc_follow_context_close` returns as a plain number. -/
def ERR_MUST_RECONNECT : Int := 1001

/-- `S_ISREG`. -/
def S_ISREG (mode : BitVec 32) : Bool := mode &&& 0xF000 = 0x8000

/-- `sc_follow_context`, without the pointer to the connection. -/
structure ScFollowContext where
  channel : Int
  filename : Option Bytes
  position : Int
  mode : BitVec 32
  fd : Int
  offset : Nat
  buffer : AzBuffer
  messageBuffer : ScLogMessage
  displayName : Bytes
  ftimestamp : Bool

/-- `sc_follow_context_new`, with every allocation successful. -/
def scFollowContextNew (heap : Heap) (fname : Option Bytes) (dispname : Bytes)
    (ftimestamp : Bool) (bufsize : Nat) : ScFollowContext where
  channel := 0
  filename := fname
  position := 0
  mode := 0
  fd := -1
  offset := 0
  buffer := azBufferNew heap bufsize
  messageBuffer :=
    { code := SCM_MSG_NONE
      channel := word 16 (((List.range 4).drop 2).map heap.fresh)
      contentLength := .ofNat 32 bufsize
      content := ⟨bufsize, fun i => heap.fresh (headerSize + i)⟩ }
  displayName := dispname
  ftimestamp := ftimestamp

/-- What `open` and `fstat` give for the followed file: a descriptor, negative when the file
cannot be opened, and the mode. -/
structure OpenResult where
  fd : Int
  mode : BitVec 32

/-- `sc_follow_context_open_file`. A new descriptor starts at offset zero. -/
def scFollowContextOpenFile (r : OpenResult) (cxt : ScFollowContext) : Int × ScFollowContext :=
  if cxt.fd ≠ -1 then (-1, cxt)
  else if r.fd < 0 then (-1, { cxt with fd := r.fd })
  else (0, { cxt with fd := r.fd, mode := r.mode, offset := 0 })

/-- `sc_follow_context_close_file`. -/
def scFollowContextCloseFile (cxt : ScFollowContext) : ScFollowContext :=
  { cxt with fd := -1, mode := 0, position := 0 }

/-- `sc_follow_context_reset`. The channel number stays. -/
def scFollowContextReset (cxt : ScFollowContext) : ScFollowContext :=
  let cxt := scFollowContextCloseFile cxt
  { cxt with
      buffer := azBufferReset cxt.buffer
      messageBuffer := { cxt.messageBuffer with code := SCM_MSG_NONE } }

/-- The RELE request of a context. -/
def releMessage (cxt : ScFollowContext) : ScLogMessage :=
  .ofContent SCM_MSG_RELE (.ofInt 16 cxt.channel) [0, 0, 0, 0]

section
variable {σ : Type} (net : Net σ)

/-- `sc_follow_context_close`. The response is received and not looked at. -/
def scFollowContextClose (heap : Heap) (cxt : ScFollowContext) (conn : ScAggregatorConnection σ) :
    Except Trap (Int × ScAggregatorConnection σ) :=
  if conn.opened = false then .ok (ERR_MUST_RECONNECT, conn)
  else if cxt.fd < 0 then .ok (-1, conn)
  else do
    let (ret, conn, _) ← scAggregatorConnectionSendMessage net conn (releMessage cxt)
    if ret ≠ 0 then .ok (ERR_MUST_RECONNECT, conn)
    else do
      let (ret, _, conn) ← scAggregatorConnectionReceiveMessage net heap conn
      .ok (if ret ≠ 0 then ERR_MUST_RECONNECT else 0, conn)

end

end Compostela.Follower
