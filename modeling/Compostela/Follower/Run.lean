import Compostela.Follower.FollowContext

/-!
# `Compostela.Follower.Run`: one run of a follow context

`_init_file` and `_run_follow_context` of `follower/main.c`. A run reads at most one line
from the followed file into the context's message, sends it and waits for the answer. Its
parts are functions of their own: `ensureOpen` opens the file and registers it,
`fillMessage` reads the line, `ensureChannel` registers a second time when the channel is
still 0, and `scFollowContextProcData` is the exchange.

The result of `_init_file` is not looked at by its callers. A message that was answered with
another code than `SCM_RESP_OK` stays pending, and the next run sends it as it is.
-/

set_option autoImplicit false

namespace Compostela.Follower

open Compostela.Common
open Compostela.Memory

/-- What one run finds outside the program: the results of `open`, `read` and `time`, the
bytes of the open file, the file that the name leads to with the reads of its digest, and
the memory of each call. -/
structure RunInput where
  opened : OpenResult
  read : ReadResult
  time : BitVec 64
  file : Bytes
  named : Option Bytes
  chunks : List Nat
  heap : Nat → Heap

/-- Bit 31 of the attribute of an INIT request asks for the digest. -/
def initAttr (cxt : ScFollowContext) : BitVec 32 :=
  if S_ISREG cxt.mode ∧ cxt.ftimestamp = false then ATTR_TOP else 0

/-- The INIT request of a context. -/
def initMessage (cxt : ScFollowContext) : ScLogMessage :=
  .ofContent SCM_MSG_INIT 0 (image 4 (htonl (initAttr cxt)) ++ cxt.displayName)

/-- `lseek` to an absolute offset. A negative one is refused. -/
def lseek (pos : Int) (cxt : ScFollowContext) : ScFollowContext :=
  if 0 ≤ pos then { cxt with offset := pos.toNat } else cxt

/-- The comparison of digests in `_init_file`, which ends the program when they differ. -/
def checkDigest (md5 : Md5) (inp : RunInput) (pos : Int) (resp : ScLogMessage) :
    Except Trap Unit :=
  let len := resp.contentLength.toInt
  if 8 < toSize len then
    match mhashWithSize md5 inp.named pos inp.chunks with
    | none => .ok ()
    | some buf =>
        if toSize (len - 8) ≠ buf.length then .error .exited
        else do
          let p ← resp.content.load 8 buf.length
          if p ≠ buf then .error .exited else .ok ()
  else .ok ()

/-- The part of `_init_file` after a response was received. -/
def takeInitResponse (md5 : Md5) (inp : RunInput) (cxt : ScFollowContext) (resp : ScLogMessage) :
    Except Trap (Int × ScFollowContext) :=
  if resp.code ≠ SCM_RESP_OK then .ok (-4, cxt)
  else do
    let cxt := { cxt with channel := resp.channel.toInt }
    let pos := (bswap64 (word 64 (← resp.content.load 0 8))).toInt
    checkDigest md5 inp pos resp
    .ok (0, lseek pos { cxt with position := pos })

/-- The position in an INIT response, as `_init_file` reads it. -/
def positionOf (resp : ScLogMessage) : Int := (bswap64 (word 64 (resp.content.bytes 0 8))).toInt

/-- A response that `_init_file` takes: the channel number and the position are those of the
response, and the file is at that position. -/
theorem takeInitResponse_eq_ok {md5 : Md5} {inp : RunInput} {cxt cxt' : ScFollowContext}
    {resp : ScLogMessage} :
    takeInitResponse md5 inp cxt resp = .ok (0, cxt') ↔
      resp.code = SCM_RESP_OK ∧ 8 ≤ resp.content.size ∧
        checkDigest md5 inp (positionOf resp) resp = .ok () ∧
        cxt' = lseek (positionOf resp)
          { cxt with channel := resp.channel.toInt, position := positionOf resp } := by
  unfold takeInitResponse positionOf
  by_cases hcode : resp.code = SCM_RESP_OK
  · rw [if_neg (not_not.mpr hcode)]
    constructor
    · intro h
      obtain ⟨bs, hload, h⟩ := bind_eq_ok.mp h
      obtain ⟨hsize, rfl⟩ := Block.load_eq_ok.mp hload
      -- The seek position is decoded first, and the digest is only looked at after it.
      obtain ⟨u, hcheck, heq⟩ := bind_eq_ok.mp h
      simp only [Except.ok.injEq, Prod.mk.injEq, true_and] at heq
      exact ⟨hcode, by omega, hcheck, heq.symm⟩
    · rintro ⟨-, hsize, hcheck, heq⟩
      rw [Block.load_of_le (by omega), ok_bind]
      exact bind_eq_ok.mpr ⟨(), hcheck, by rw [heq]⟩
  · rw [if_pos hcode]
    constructor
    · intro h
      cases h
    · rintro ⟨h, -⟩
      exact absurd h hcode

/-- `lseek` keeps the channel number. -/
@[simp] theorem lseek_channel (pos : Int) (cxt : ScFollowContext) :
    (lseek pos cxt).channel = cxt.channel := by
  unfold lseek
  split <;> rfl

section
variable {σ : Type} (net : Net σ)

/-- The second half of `_init_file`: the response. -/
def receiveInitResponse (md5 : Md5) (inp : RunInput) (heap : Heap) (cxt : ScFollowContext)
    (conn : ScAggregatorConnection σ) :
    Except Trap (Int × ScFollowContext × ScAggregatorConnection σ) := do
  match ← scAggregatorConnectionReceiveMessage net heap conn with
  | (0, some resp, conn) => do
      let (ret, cxt) ← takeInitResponse md5 inp cxt resp
      .ok (ret, cxt, conn)
  | (_, _, conn) => .ok (-3, cxt, conn)

/-- `_init_file`. -/
def initFile (md5 : Md5) (inp : RunInput) (heap : Heap) (cxt : ScFollowContext)
    (conn : ScAggregatorConnection σ) :
    Except Trap (Int × ScFollowContext × ScAggregatorConnection σ) :=
  let n := headerSize + (cxt.displayName.length + 4)
  if ¬ (n ≤ PTRDIFF_MAX ∧ heap.malloc n = true) then .ok (-1, cxt, conn)
  else do
    let (ret, conn, _) ← scAggregatorConnectionSendMessage net conn (initMessage cxt)
    if ret ≠ 0 then .ok (-1, cxt, conn)
    else receiveInitResponse net md5 inp heap cxt conn

/-- `_sc_follow_context_proc_data`. The message stays as the send leaves it. -/
def scFollowContextProcData (heap : Heap) (cxt : ScFollowContext)
    (conn : ScAggregatorConnection σ) :
    Except Trap (Int × Option ScLogMessage × ScFollowContext × ScAggregatorConnection σ) := do
  let (ret, conn, msg) ← scAggregatorConnectionSendMessage net conn cxt.messageBuffer
  let cxt := { cxt with messageBuffer := msg }
  if ret ≠ 0 then .ok (ret, none, cxt, conn)
  else do
    let (ret, resp, conn) ← scAggregatorConnectionReceiveMessage net heap conn
    .ok (ret, resp, cxt, conn)

/-- `_sc_follow_context_read_line`: the return code and the bytes of the line. -/
def scFollowContextReadLine (inp : RunInput) (cxt : ScFollowContext) (dsize : Nat) :
    Except Trap (Int × Bytes × ScFollowContext) :=
  if azBufferUnreadBytes cxt.buffer = 0 then do
    let buffer := azBufferReset cxt.buffer
    let rest := inp.file.drop cxt.offset
    let (n, buffer) ← azBufferFetchFile buffer inp.read rest (toSize (azBufferUnusedBytes buffer))
    let cxt := { cxt with buffer := buffer, offset := cxt.offset + buffer.used }
    if n ≤ 0 then .ok (n, [], cxt)
    else do
      let (ret, line, buffer) ← azBufferReadLine cxt.buffer dsize
      .ok (ret, line, { cxt with buffer := buffer })
  else do
    let (ret, line, buffer) ← azBufferReadLine cxt.buffer dsize
    .ok (ret, line, { cxt with buffer := buffer })

/-- The file of a context is opened and registered when it is not open. The first component
is the return code that ends the run. -/
def ensureOpen (md5 : Md5) (inp : RunInput) (cxt : ScFollowContext)
    (conn : ScAggregatorConnection σ) :
    Except Trap (Option Int × ScFollowContext × ScAggregatorConnection σ) :=
  if cxt.fd ≤ 0 then
    let (ret, cxt) := scFollowContextOpenFile inp.opened cxt
    if ret ≠ 0 then .ok (some 1, cxt, conn)
    else do
      let (_, cxt, conn) ← initFile net md5 inp (inp.heap 0) cxt conn
      .ok (none, cxt, conn)
  else .ok (none, cxt, conn)

/-- A second registration for a channel number that is still zero. -/
def ensureChannel (md5 : Md5) (inp : RunInput) (cxt : ScFollowContext)
    (conn : ScAggregatorConnection σ) :
    Except Trap (ScFollowContext × ScAggregatorConnection σ) :=
  if cxt.channel = 0 then do
    let (_, cxt, conn) ← initFile net md5 inp (inp.heap 1) cxt conn
    .ok (cxt, conn)
  else .ok (cxt, conn)

/-- The content of a DATA message up to the text: the attribute word and the time. -/
def dataHead (complete : Bool) (time : BitVec 64) : Bytes :=
  image 4 (htonl (if complete then ATTR_TOP else 0)) ++ image 8 (bswap64 time)

/-- The size of `dataHead`, `cb0` in the source. -/
def cb0 : Nat := 12

/-- The line and the head go into the message buffer. A line that is shorter than the room
for it gets a terminator, which is not sent. -/
def storeLine (inp : RunInput) (complete : Bool) (line : Bytes) (msg : ScLogMessage) :
    Except Trap ScLogMessage := do
  let text := if line.length < BUFSIZE - cb0 then line ++ [0] else line
  let content ← msg.content.store cb0 text
  let content ← content.store 0 (dataHead complete inp.time)
  .ok { msg with content := content }

/-- The line read of a run, with the message content. The first component is the return code
that ends the run: 1 at the end of the file and for `EAGAIN`, -1 for other errors. -/
def fillMessage (inp : RunInput) (cxt : ScFollowContext) :
    Except Trap (Option Int × Nat × ScFollowContext) := do
  let (ret, line, cxt) ← scFollowContextReadLine inp cxt (BUFSIZE - cb0)
  if ret = 0 ∧ line.length = 0 then .ok (some 1, 0, cxt)
  else if ret = -1 then .ok (some (if inp.read = .again then 1 else -1), 0, cxt)
  else do
    let msg ← storeLine inp (ret ≠ 0) line cxt.messageBuffer
    .ok (none, line.length, { cxt with messageBuffer := msg })

/-- The header of the DATA message, set after its content. -/
def dataHeader (cb : Nat) (cxt : ScFollowContext) : ScFollowContext :=
  { cxt with messageBuffer :=
      { cxt.messageBuffer with
          code := SCM_MSG_DATA
          channel := .ofInt 16 cxt.channel
          contentLength := .ofNat 32 (cb0 + cb) } }

/-- The part of `_run_follow_context` for a context with no message pending. -/
def prepareData (md5 : Md5) (inp : RunInput) (cxt : ScFollowContext)
    (conn : ScAggregatorConnection σ) :
    Except Trap (Option Int × ScFollowContext × ScAggregatorConnection σ) := do
  match ← ensureOpen net md5 inp cxt conn with
  | (some ret, cxt, conn) => .ok (some ret, cxt, conn)
  | (none, cxt, conn) => do
      match ← fillMessage inp cxt with
      | (some ret, _, cxt) => .ok (some ret, cxt, conn)
      | (none, cb, cxt) => do
          let (cxt, conn) ← ensureChannel net md5 inp cxt conn
          .ok (none, dataHeader cb cxt, conn)

/-- The part of `_run_follow_context` with a message in the buffer. -/
def exchangeData (inp : RunInput) (cxt : ScFollowContext) (conn : ScAggregatorConnection σ) :
    Except Trap (Int × ScFollowContext × ScAggregatorConnection σ) := do
  match ← scFollowContextProcData net (inp.heap 2) cxt conn with
  | (0, some resp, cxt, conn) =>
      if resp.code = SCM_RESP_OK then
        .ok (0, { cxt with messageBuffer := { cxt.messageBuffer with code := SCM_MSG_NONE } }, conn)
      else .ok (0, cxt, conn)
  | (_, _, cxt, conn) => .ok (ERR_MUST_RECONNECT, cxt, conn)

/-- `_run_follow_context`. -/
def runFollowContext (md5 : Md5) (inp : RunInput) (cxt : ScFollowContext)
    (conn : ScAggregatorConnection σ) :
    Except Trap (Int × ScFollowContext × ScAggregatorConnection σ) :=
  if conn.opened = false then .ok (ERR_MUST_RECONNECT, cxt, conn)
  else if cxt.messageBuffer.code = SCM_MSG_NONE then do
    match ← prepareData net md5 inp cxt conn with
    | (some ret, cxt, conn) => .ok (ret, cxt, conn)
    | (none, cxt, conn) => exchangeData net inp cxt conn
  else exchangeData net inp cxt conn

end

end Compostela.Follower
