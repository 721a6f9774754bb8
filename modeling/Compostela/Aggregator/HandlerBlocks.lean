import Compostela.Aggregator.ChannelBlocks
import Compostela.Aggregator.Receive

/-!
# `Compostela.Aggregator.HandlerBlocks`: `do_receive` in memory

`do_receive` and the handlers of `aggregator/main.c` on the blocks of `Aggregator.Blocks`: each
message is allocated and freed, and a channel is the address that the lookup returned.
`Aggregator.Handlers` and `Aggregator.Receive` have the same functions on values.

`handler_init` copies the name of the file into a block `p`, which it does not free. `lostString` is
such a block.

* `handlerInit_triple`, `handlerData_triple`, `handlerRele_triple` and `handlerSeek_triple`: each
  handler does in memory what it does on values, and owns nothing afterwards but `p`.
* `doReceive_triple`: so does a call of `do_receive`. When it closes a connection, all that the
  connection owned is freed.
-/

set_option autoImplicit false

namespace Compostela.Aggregator.Blocks

open Compostela.Common
open Compostela.Memory
open Compostela.Segments
open Compostela.Separation
open Compostela.Separation.Assertion

section
variable (alloc : Allocator) (cfg : Config) (heap : Heap) (fuel : Nat) (chunks : List Nat)

/-- `_sc_connection_send`, which converts the header where it is. -/
def scConnectionSend (msg : Nat) : Prog Held Bytes := do
  let m ← read .message msg
  write .message msg m.toNetwork
  Prog.call (Aggregator.scConnectionSend m)

/-- `sc_log_message_new`, the stores to the new message, `_sc_connection_send` and
`sc_log_message_destroy`. -/
def respond (m : ScLogMessage) : Prog Held Bytes := do
  let ok ← mallocWith alloc .message m
  let sent ← scConnectionSend ok
  free .message (some ok)
  pure sent

/-- `handler_dummy`. -/
def handlerDummy : Prog Held Bytes := respond alloc (.ofContent SCM_RESP_NG 0 [])

/-- `mhash_with_size`. -/
def mhashWithSize (fs : Fs) (path : Bytes) : Prog Held (Option Nat) :=
  match Common.mhashWithSize cfg.md5 (fs.file path) (fs.size path) chunks with
  | none => pure none
  | some digest => do
      let mhash ← mallocWith alloc .digest digest
      pure (some mhash)

/-- The digest behind a pointer. There is none behind a null pointer. -/
def readDigest : Option Nat → Prog Held Bytes
  | none => pure []
  | some mhash => read .digest mhash

/-- The digest of `handler_init`, when the request asks for it. -/
def initMhash (attr : BitVec 32) (fs : Fs) (path : Bytes) : Prog Held (Option Nat) :=
  if attr &&& ATTR_TOP ≠ 0 then mhashWithSize alloc cfg chunks fs path else pure none

/-- The rest of `handler_init`: the digest, the response, and the `free` of the digest. -/
def respondInit (c : ChannelBlock) (attr : BitVec 32) (fs : Fs) : Prog Held Bytes := do
  let path ← read .string c.filenameFullpath
  let mhash ← initMhash alloc cfg chunks attr fs path
  let digest ← readDigest mhash
  let sent ← respond alloc (.ofContent SCM_RESP_OK (.ofInt 16 c.id)
    (image 8 (bswap64 (.ofNat 64 (fs.size path))) ++ digest))
  free .digest mhash
  pure sent

/-- `handler_init`. -/
def handlerInit (msg conn : Nat) (fs : Fs) : Prog Held Bytes := do
  let m ← read .message msg
  let slen : BitVec 32 := m.contentLength - 4
  let p ← malloc alloc .string
  let attr ← Prog.call (m.content.load 0 4)
  if slen.toInt < 0 then Prog.call (.error .oobWrite)
  else do
    let name ← Prog.call (m.content.load 4 slen.toInt.toNat)
    write .string p (cstr name)
    let channel ← scChannelNew alloc cfg heap p conn
    let _ ← scConnectionRegisterChannel alloc fuel conn channel
    let c ← read .channel channel
    let path ← read .string c.filenameFullpath
    write .channel channel { c with aggregateContext := findAggregateContext cfg path }
    let c ← read .channel channel
    respondInit alloc cfg chunks c (htonl (word 32 attr)) fs

/-- The resize of the first branch of `handler_data`. -/
def growBuffer (buf len : Nat) : Prog Held Unit := do
  let v ← readBuffer heap buf
  if toSize (azBufferUnusedBytes v) < len then
    azBufferResize alloc heap buf (toSize (len + v.size))
  else pure ()

/-- The assertion and the fetch of the first branch of `handler_data`. -/
def fetchText (buf len : Nat) (text : Except Trap Bytes) : Prog Held Unit := do
  let v ← readBuffer heap buf
  if toSize (azBufferUnusedBytes v) < len then Prog.call (.error .assertFailed)
  else do
    let data ← Prog.call text
    azBufferFetchBytes heap buf data

/-- The first branch of `handler_data`. -/
def bufferText (buf len : Nat) (text : Except Trap Bytes) : Prog Held Unit := do
  growBuffer alloc heap buf len
  fetchText heap buf len text

/-- The second branch of `handler_data`. The functions that write the files read the strings, and
empty the buffer. -/
def recordText (conn : Nat) (c : ChannelBlock) (t : BitVec 64) (text : Except Trap Bytes)
    (fs : Fs) : Prog Held Fs := do
  let addr ← remoteAddr conn
  let filename ← read .string c.filename
  let path ← read .string c.filenameFullpath
  let v ← readBuffer heap c.buffer
  let (v, fs) ← Prog.call (Aggregator.recordText cfg heap ⟨addr, []⟩
    ⟨c.id, filename, path, v, c.aggregateContext⟩ t text fs)
  writeBuffer c.buffer v
  pure fs

/-- The two branches of `handler_data`. -/
def takeText (conn : Nat) (c : ChannelBlock) (attr : BitVec 32) (t : BitVec 64) (len : Nat)
    (text : Except Trap Bytes) (fs : Fs) : Prog Held Fs :=
  if attr &&& ATTR_TOP = 0 then do
    bufferText alloc heap c.buffer len text
    pure fs
  else recordText cfg heap conn c t text fs

/-- `handler_data`. -/
def handlerData (msg conn : Nat) (channel : Option Nat) (fs : Fs) : Prog Held (Fs × Bytes) :=
  match channel with
  | none => Prog.call (.error .nullDeref)
  | some channel => do
      let c ← read .channel channel
      let m ← read .message msg
      let attr ← Prog.call (m.content.load 0 4)
      let t ← Prog.call (m.content.load 4 8)
      let len := textLength m
      let fs ← takeText alloc cfg heap conn c (htonl (word 32 attr)) (bswap64 (word 64 t)) len
        (m.content.load 12 len) fs
      let sent ← respond alloc (okResponse m.channel)
      pure (fs, sent)

/-- `handler_rele`. -/
def handlerRele (msg conn : Nat) (channel : Option Nat) (fs : Fs) : Prog Held (Fs × Bytes) := do
  scConnectionDeleteChannel fuel conn channel
  let m ← read .message msg
  let sent ← respond alloc (okResponse m.channel)
  pure (fs, sent)

/-- `handler_seek`, which calls `sendall` itself. -/
def handlerSeek (msg : Nat) (channel : Option Nat) (fs : Fs) : Prog Held (Fs × Bytes) := do
  let m ← read .message msg
  let _pos ← Prog.call (m.content.load 0 8)
  let ok ← mallocWith alloc .message (okResponse m.channel)
  match channel with
  | none => Prog.call (.error .nullDeref)
  | some channel => do
      let c ← read .channel channel
      let path ← read .string c.filenameFullpath
      let (_, fs) := doTruncFile path fs
      let sent ← Prog.call ((okResponse m.channel).load (headerSize + 4))
      free .message (some ok)
      pure (fs, sent)

/-- The lookup of `do_receive`, for a request on a channel. -/
def lookup (conn : Nat) (channel : BitVec 16) : Prog Held (Option Nat) :=
  if channel = 0 then pure none else scConnectionChannel fuel conn channel.toInt

/-- The call of a handler. -/
def callHandler (h : Option Handler) (msg conn : Nat) (channel : Option Nat) (fs : Fs) :
    Prog Held (Fs × Bytes) :=
  match h with
  | some .init => do
      let sent ← handlerInit alloc cfg heap fuel chunks msg conn fs
      pure (fs, sent)
  | some .dummy => do
      let sent ← handlerDummy alloc
      pure (fs, sent)
  | some .seek => handlerSeek alloc msg channel fs
  | some .data => handlerData alloc cfg heap msg conn channel fs
  | some .rele => handlerRele alloc fuel msg conn channel fs
  | none => pure (fs, [])

/-- The call that `do_receive` makes. -/
def handle (msg conn : Nat) (fs : Fs) : Prog Held (Fs × Bytes) := do
  let m ← read .message msg
  let channel ← lookup fuel conn m.channel
  callHandler alloc cfg heap fuel chunks (handlerFor m.code m.channel) msg conn channel fs

/-- What a call of `do_receive` leaves outside of the memory, and the socket that it closed. -/
structure Received where
  closed : Option Nat
  fs : Fs
  rest : Incoming
  sent : Bytes

/-- `do_receive`. -/
def doReceive (conn : Nat) (fs : Fs) (s : Incoming) : Prog Held Received := do
  let msg ← mallocWith alloc .message (receiveBuffer heap)
  let block ← read .connection conn
  let (m, rest) ← Prog.call (receiveFrame heap s)
  match m with
  | none => do
      scConnectionDestroy fuel conn
      free .message (some msg)
      pure ⟨some block.socket, fs, rest, []⟩
  | some m => do
      write .message msg m
      let (fs, sent) ← handle alloc cfg heap fuel chunks msg conn fs
      free .message (some msg)
      pure ⟨none, fs, rest, sent⟩

end

/-- A string that nothing points to. -/
def lostString : Assertion Held := any fun s : Nat × Bytes => held .string s.1 s.2

/-! ### Responses -/

section
variable {alloc : Allocator} {cfg : Config} {heap : Heap} {fuel : Nat} {chunks : List Nat}
  {γ : Type} {P F : Assertion Held} {S : γ → Assertion Held} {conn socket msg : Nat}
  {remote : Option Bytes} {es : List Entry} {m : ScLogMessage} {fs : Fs}

/-- A response is built, sent and freed again. -/
theorem respond_triple {sent : Bytes} {f : Bytes → Prog Held γ}
    (h : Aggregator.scConnectionSend m = .ok sent) (hf : Triple P (f sent) S) :
    Triple P (respond alloc m >>= f) S := by
  unfold respond scConnectionSend
  rw [bind_assoc]
  refine mallocWith_triple fun ok => ?_
  rw [bind_assoc, bind_assoc]
  refine read_triple rfl ?_
  rw [bind_assoc]
  refine write_triple rfl ?_
  refine Triple.call h ?_
  rw [bind_assoc]
  exact free_triple rfl hf

/-- The digest behind a pointer. -/
def digestAt : Option Nat → Bytes → Assertion Held
  | none, digest => given (digest = []) 1
  | some mhash, digest => held .digest mhash digest

/-- `mhash` in `handler_init` allocates a digest when it makes one, and nothing otherwise. -/
theorem initMhash_triple {attr : BitVec 32} {path : Bytes} {f : Option Nat → Prog Held γ}
    (hf : ∀ mhash, Triple (digestAt mhash (initDigest cfg chunks fs path attr) * P) (f mhash) S) :
    Triple P (initMhash alloc cfg chunks attr fs path >>= f) S := by
  have hnone : initDigest cfg chunks fs path attr = [] → Triple P (f none) S := fun hdigest =>
    (hf none).pre fun m hm => by
      rw [digestAt, given_mul, one_mul]
      exact ⟨hdigest, hm⟩
  unfold initMhash
  unfold initDigest at hf hnone
  -- Without the attribute no digest is asked for, and without the file none can be made.
  split
  · rename_i hattr
    rw [if_pos hattr] at hf hnone
    unfold mhashWithSize
    cases hmhash : Common.mhashWithSize cfg.md5 (fs.file path) (fs.size path) chunks with
    | none => exact hnone (by rw [hmhash]; rfl)
    | some digest =>
      rw [hmhash] at hf
      show Triple P ((mallocWith alloc .digest digest >>= _) >>= f) S
      rw [bind_assoc]
      exact mallocWith_triple fun mhash => hf (some mhash)
  · rename_i hattr
    rw [if_neg hattr] at hnone
    exact hnone rfl

/-- The digest is read from its block, and is empty for a null pointer. -/
theorem readDigest_triple {mhash : Option Nat} {digest : Bytes} {f : Bytes → Prog Held γ}
    (hP : P = digestAt mhash digest * F) (hf : Triple P (f digest) S) :
    Triple P (readDigest mhash >>= f) S := by
  cases mhash with
  | none =>
    refine Triple.fact (p := digest = []) (fun m hm => ?_) fun hdigest => ?_
    · rw [hP, digestAt, given_mul] at hm
      exact hm.1
    · subst hdigest
      exact hf
  | some mhash => exact read_triple hP hf

/-- `free` of the digest takes its block away. A null pointer owns nothing. -/
theorem freeDigest_triple {mhash : Option Nat} {digest : Bytes} {f : Unit → Prog Held γ}
    (hP : P = digestAt mhash digest * F) (hf : Triple F (f ()) S) :
    Triple P (free .digest mhash >>= f) S := by
  cases mhash with
  | none =>
    rw [hP, digestAt, given_mul, one_mul]
    exact Triple.given fun _ => hf
  | some mhash => exact free_triple hP hf

/-- The response to an INIT request. -/
theorem respondInit_triple {c : ChannelBlock} {path sent : Bytes} {attr : BitVec 32}
    {f : Bytes → Prog Held γ}
    (h : Aggregator.scConnectionSend (.ofContent SCM_RESP_OK (.ofInt 16 c.id)
      (initContent cfg chunks fs path attr)) = .ok sent)
    (hP : P = held .string c.filenameFullpath path * F) (hf : Triple P (f sent) S) :
    Triple P (respondInit alloc cfg chunks c attr fs >>= f) S := by
  unfold respondInit
  rw [bind_assoc]
  refine read_triple hP ?_
  rw [bind_assoc]
  refine initMhash_triple fun mhash => ?_
  rw [bind_assoc]
  refine readDigest_triple rfl ?_
  rw [bind_assoc]
  refine respond_triple h ?_
  rw [bind_assoc]
  exact freeDigest_triple rfl hf

/-! ### Handlers -/

/-- `handler_init` on a message: a new channel, and the block `p` that stays. -/
theorem handlerInit_triple {r : Handled} {f : Bytes → Prog Held γ} (hfuel : es.length < fuel)
    (h : Aggregator.handlerInit cfg heap chunks m ⟨remote, channelsOf es⟩ fs = .ok r)
    (hP : P = connectionAt conn socket remote es * (held .message msg m * F))
    (hf : ∀ e, r.conn = ⟨remote, channelsOf (e :: es)⟩ → r.fs = fs →
      Triple (connectionAt conn socket remote (e :: es) * (held .message msg m *
        (lostString * F))) (f r.sent) S) :
    Triple P (handlerInit alloc cfg heap fuel chunks msg conn fs >>= f) S := by
  obtain ⟨attr, hattr, h⟩ := bind_eq_ok.mp h
  simp only at h
  split at h
  · cases h
  rename_i hslen
  obtain ⟨name, hname, h⟩ := bind_eq_ok.mp h
  obtain ⟨channel, hnew, h⟩ := bind_eq_ok.mp h
  obtain ⟨⟨conn', channel'⟩, hreg, h⟩ := bind_eq_ok.mp h
  obtain ⟨sent, hsent, h⟩ := bind_eq_ok.mp h
  cases h
  obtain ⟨path, hpath, hchannel⟩ := bind_eq_ok.mp hnew
  cases hchannel
  obtain ⟨hmax, rfl, rfl⟩ := scConnectionRegisterChannel_eq_ok.mp hreg
  subst hP
  unfold handlerInit
  rw [bind_assoc]
  refine read_triple (mul_left_comm _ _ _) ?_
  rw [bind_assoc]
  refine malloc_triple fun p b => ?_
  rw [bind_assoc]
  refine Triple.call hattr ?_
  rw [if_neg hslen, bind_assoc]
  refine Triple.call hname ?_
  rw [bind_assoc]
  refine write_triple rfl ?_
  rw [bind_assoc]
  refine scChannelNew_triple hpath rfl fun addr id cxt => ?_
  rw [bind_assoc]
  refine scConnectionRegisterChannel_triple hfuel hmax (congrArg _ (mul_left_comm _ _ _))
    fun node => ?_
  rw [bind_assoc]
  -- The new channel is opened for the search of its context.
  let c : ScChannel := ⟨maxId (channelsOf es) + 1, cstr name, path,
    Common.azBufferNew heap LINE_BUFFER_SIZE, findAggregateContext cfg path⟩
  have hdone := hf ⟨node, addr, c⟩ rfl rfl
  rw [third, connectionAt_cons, mul_assoc] at hdone
  rw [connectionAt_cons, mul_assoc]
  refine channelAt_open rfl fun parts => ?_
  refine read_triple rfl ?_
  rw [bind_assoc]
  refine read_triple partsAt_fullpath ?_
  rw [bind_assoc]
  refine write_triple rfl ?_
  rw [bind_assoc]
  refine read_triple rfl ?_
  refine respondInit_triple hsent partsAt_fullpath ?_
  refine channelAt_close (c := c) parts rfl ?_
  exact Triple.pack (p, cstr name) (third _ _ _ _) hdone

/-- A successful first branch that resizes: `realloc` serves the new size. -/
theorem realloc_of_bufferText {v v' : AzBuffer} {data : Bytes}
    (h : Aggregator.bufferText heap v data.length (.ok data) = .ok v')
    (hroom : toSize (azBufferUnusedBytes v) < data.length) :
    v.used ≤ toSize (data.length + v.size) ∧ (toSize (data.length + v.size) ≤ PTRDIFF_MAX ∧
      heap.realloc (toSize (data.length + v.size)) = true) := by
  simp only [Aggregator.bufferText, hroom, if_true, ok_bind] at h
  by_cases hsmall : toSize (data.length + v.size) < v.used
  · -- The buffer is as before, so the assertion fails.
    simp only [Common.azBufferResize, hsmall, if_true, hroom] at h
    cases h
  refine ⟨Nat.le_of_not_lt hsmall, ?_⟩
  by_contra hmem
  -- The fetch writes to a null block.
  simp only [Common.azBufferResize, if_neg hsmall, if_neg hmem] at h
  split at h
  · cases h
  · rename_i hassert
    obtain ⟨r, hr, -⟩ := bind_eq_ok.mp h
    obtain ⟨b, hb, -⟩ := bind_eq_ok.mp hr
    have hfits := (Block.store_eq_ok.mp hb).1
    simp only [azBufferUnusedBytes, List.length_take, toSize] at hassert hfits hroom
    omega

/-- The text of a piece goes into the channel's buffer on blocks as on values. -/
theorem fetchText_triple {v v' : AzBuffer} {buf len : Nat} {data : Bytes}
    {f : Unit → Prog Held γ}
    (h : (if toSize (azBufferUnusedBytes v) < len then Except.error Trap.assertFailed
      else do
        let (_, buffer) ← Common.azBufferFetchBytes v data
        .ok buffer) = .ok v')
    (hP : P = bufferAt buf v * F) (hf : Triple (bufferAt buf v' * F) (f ()) S) :
    Triple P (fetchText heap buf len (.ok data) >>= f) S := by
  unfold fetchText
  rw [bind_assoc]
  refine readBuffer_triple hP ?_
  -- The assertion stops a text that does not fit.
  by_cases hassert : toSize (azBufferUnusedBytes v) < len
  · rw [if_pos hassert] at h
    cases h
  · rw [if_neg hassert] at h ⊢
    obtain ⟨⟨n, buffer⟩, hfetch, heq⟩ := bind_eq_ok.mp h
    cases heq
    rw [bind_assoc]
    refine Triple.call rfl ?_
    exact azBufferFetchBytes_triple hfetch hP hf

/-- The buffering branch of `handler_data` on blocks does what it does on values. -/
theorem bufferText_triple {v v' : AzBuffer} {buf len : Nat} {text : Except Trap Bytes}
    {f : Unit → Prog Held γ} (hlen : ∀ data, text = .ok data → data.length = len)
    (h : Aggregator.bufferText heap v len text = .ok v') (hP : P = bufferAt buf v * F)
    (hf : Triple (bufferAt buf v' * F) (f ()) S) :
    Triple P (bufferText alloc heap buf len text >>= f) S := by
  cases text with
  | error t =>
    -- The text is read in every case that succeeds.
    simp only [Aggregator.bufferText, error_bind] at h
    split at h
    · split at h <;> cases h
    · cases h
  | ok data =>
    obtain rfl := hlen data rfl
    unfold bufferText growBuffer
    rw [bind_assoc, bind_assoc]
    refine readBuffer_triple hP ?_
    by_cases hroom : toSize (azBufferUnusedBytes v) < data.length
    · obtain ⟨hused, hrealloc⟩ := realloc_of_bufferText h hroom
      rw [if_pos hroom]
      refine azBufferResize_triple hused hrealloc hP ?_
      simp only [Aggregator.bufferText, hroom, if_true, ok_bind] at h
      exact fetchText_triple h rfl hf
    · rw [if_neg hroom]
      unfold Aggregator.bufferText at h
      simp only [if_neg hroom, ok_bind] at h
      refine fetchText_triple ?_ hP hf
      rw [if_neg hroom]
      exact h

/-- The second branch of `handler_data`. Only the buffer of the channel changes. -/
theorem recordText_triple {c : ScChannel} {parts : ChannelParts} {t : BitVec 64}
    {text : Except Trap Bytes} {cells : List (Nat × Nat)} {v' : AzBuffer} {fs' : Fs}
    {li : List ScChannel} {f : Fs → Prog Held γ}
    (h : Aggregator.recordText cfg heap ⟨remote, li⟩ c t text fs = .ok (v', fs'))
    (hf : Triple (P * (partsAt { c with buffer := v' } parts *
      (connectionWith conn socket remote cells es * F))) (f fs') S) :
    Triple (P * (partsAt c parts * (connectionWith conn socket remote cells es * F)))
      (recordText cfg heap conn (channelBlock conn c parts) t text fs >>= f) S := by
  unfold recordText
  rw [bind_assoc]
  refine remoteAddr_triple (third _ _ _ _) ?_
  rw [bind_assoc]
  refine read_triple partsAt_filename ?_
  rw [bind_assoc]
  refine read_triple partsAt_fullpath ?_
  rw [bind_assoc]
  refine readBuffer_triple partsAt_buffer ?_
  rw [bind_assoc]
  refine Triple.call h ?_
  rw [bind_assoc]
  refine writeBuffer_triple partsAt_buffer ?_
  -- The buffer is the only part of the channel that has changed.
  rw [partsAt_buffer] at hf
  exact hf

/-- Both branches of `handler_data` on blocks do what they do on values. -/
theorem takeText_triple {c : ScChannel} {parts : ChannelParts} {attr : BitVec 32} {t : BitVec 64}
    {len : Nat} {text : Except Trap Bytes} {cells : List (Nat × Nat)} {v' : AzBuffer} {fs' : Fs}
    {li : List ScChannel} {f : Fs → Prog Held γ}
    (hlen : ∀ data, text = .ok data → data.length = len)
    (h : Aggregator.takeText cfg heap ⟨remote, li⟩ c attr t len text fs = .ok (v', fs'))
    (hf : Triple (P * (partsAt { c with buffer := v' } parts *
      (connectionWith conn socket remote cells es * F))) (f fs') S) :
    Triple (P * (partsAt c parts * (connectionWith conn socket remote cells es * F)))
      (takeText alloc cfg heap conn (channelBlock conn c parts) attr t len text fs >>= f) S := by
  unfold takeText
  unfold Aggregator.takeText at h
  -- The line is open and goes to the buffer, or it is complete and is recorded.
  split
  · rename_i hattr
    rw [if_pos hattr] at h
    obtain ⟨buffer, hbuffer, heq⟩ := bind_eq_ok.mp h
    cases heq
    rw [bind_assoc]
    refine bufferText_triple hlen hbuffer partsAt_buffer ?_
    rw [partsAt_buffer] at hf
    exact hf
  · rename_i hattr
    rw [if_neg hattr] at h
    exact recordText_triple h hf

/-- The numbers of the other channels. -/
theorem id_ne {front back : List Entry} {e : Entry}
    (hwf : (⟨remote, channelsOf (front ++ e :: back)⟩ : ScConnection).WellFormed) :
    (∀ c ∈ channelsOf front, c.id ≠ e.channel.id) ∧
      ∀ c ∈ channelsOf back, c.id ≠ e.channel.id := by
  have hnodup := hwf.nodup
  rw [channelsOf, List.map_append, List.map_cons, List.map_append, List.map_cons] at hnodup
  obtain ⟨-, hback, hapart⟩ := List.nodup_append.mp hnodup
  refine ⟨fun c hc heq => ?_, fun c hc heq => ?_⟩
  · exact hapart c.id (List.mem_map_of_mem hc) e.channel.id List.mem_cons_self heq
  · exact (List.nodup_cons.mp hback).1 (heq ▸ List.mem_map_of_mem hc)

/-- The list with another value for one channel. -/
theorem update_eq {front back : List Entry} {e : Entry} {c : ScChannel}
    (hwf : (⟨remote, channelsOf (front ++ e :: back)⟩ : ScConnection).WellFormed)
    (hid : c.id = e.channel.id) :
    (⟨remote, channelsOf (front ++ e :: back)⟩ : ScConnection).update c =
      ⟨remote, channelsOf (front ++ ⟨e.node, e.addr, c⟩ :: back)⟩ := by
  obtain ⟨hfront, hback⟩ := id_ne hwf
  -- The ids are distinct, so only this entry of the list is replaced.
  have hsame : ∀ li : List ScChannel, (∀ d ∈ li, d.id ≠ e.channel.id) →
      (li.map fun d => if d.id = c.id then c else d) = li := by
    intro li hli
    have heach : ∀ d ∈ li, (if d.id = c.id then c else d) = id d := by
      intro d hd
      rw [hid]
      exact if_neg (hli d hd)
    rw [List.map_congr_left heach, List.map_id]
  have hmap : ((channelsOf (front ++ e :: back)).map fun d => if d.id = c.id then c else d) =
      channelsOf (front ++ ⟨e.node, e.addr, c⟩ :: back) := by
    simp only [channelsOf, List.map_append, List.map_cons]
    rw [if_pos hid.symm]
    exact congrArg₂ (fun li li' => li ++ c :: li') (hsame _ hfront) (hsame _ hback)
  rw [ScConnection.update, hmap]

/-- `handler_data` on blocks ends with the files and the response that it has on values. -/
theorem handlerData_triple {e : Entry} {r : Handled} {f : Fs × Bytes → Prog Held γ} (he : e ∈ es)
    (hwf : (⟨remote, channelsOf es⟩ : ScConnection).WellFormed)
    (h : Aggregator.handlerData cfg heap m ⟨remote, channelsOf es⟩ (some e.channel) fs = .ok r)
    (hf : ∀ es', r.conn = ⟨remote, channelsOf es'⟩ → es'.length = es.length →
      Triple (connectionAt conn socket remote es' * (held .message msg m * F))
        (f (r.fs, r.sent)) S) :
    Triple (connectionAt conn socket remote es * (held .message msg m * F))
      (handlerData alloc cfg heap msg conn (some e.addr) fs >>= f) S := by
  obtain ⟨attr, hattr, h⟩ := bind_eq_ok.mp h
  obtain ⟨t, ht, h⟩ := bind_eq_ok.mp h
  obtain ⟨⟨buffer', fs'⟩, htake, h⟩ := bind_eq_ok.mp h
  obtain ⟨sent, hsent, heq⟩ := bind_eq_ok.mp h
  cases heq
  obtain ⟨front, back, rfl⟩ := List.append_of_mem he
  -- The entries after the request: the channel of `e` has another buffer, and no node moves.
  have hdone := hf (front ++ ⟨e.node, e.addr, { e.channel with buffer := buffer' }⟩ :: back)
    (update_eq hwf rfl) (by simp)
  have hcells : cellsOf (front ++ ⟨e.node, e.addr, { e.channel with buffer := buffer' }⟩ :: back) =
      cellsOf (front ++ e :: back) := by
    simp [cellsOf]
  rw [connectionAt, connectionWith_split, hcells, mul_assoc] at hdone
  rw [connectionAt, connectionWith_split, mul_assoc]
  -- The channel of `e` stands in front of the rest, and the source reads its fields one by one.
  refine channelAt_open rfl fun parts => ?_
  show Triple _ ((read .channel e.addr >>= _) >>= _) S
  rw [bind_assoc]
  refine read_triple rfl ?_
  rw [bind_assoc]
  refine read_triple (fourth _ _ _ _ _) ?_
  rw [bind_assoc]
  refine Triple.call hattr ?_
  rw [bind_assoc]
  refine Triple.call ht ?_
  show Triple _ ((takeText alloc cfg heap conn (channelBlock conn e.channel parts) _ _ _ _ _ >>= _)
    >>= _) S
  rw [bind_assoc]
  refine takeText_triple ?_ htake ?_
  · intro data hdata
    obtain ⟨-, rfl⟩ := Block.load_eq_ok.mp hdata
    exact Block.length_bytes _ _ _
  rw [bind_assoc]
  refine respond_triple hsent ?_
  exact channelAt_close parts rfl hdone

/-- `handler_rele` takes the channel out of the list and frees what it owned. -/
theorem handlerRele_triple {e : Entry} {r : Handled} {f : Fs × Bytes → Prog Held γ} (he : e ∈ es)
    (hfuel : es.length < fuel) (hwf : (⟨remote, channelsOf es⟩ : ScConnection).WellFormed)
    (h : Aggregator.handlerRele m ⟨remote, channelsOf es⟩ (some e.channel) fs = .ok r)
    (hf : ∀ es', r.conn = ⟨remote, channelsOf es'⟩ → es'.length ≤ es.length →
      Triple (connectionAt conn socket remote es' * (held .message msg m * F))
        (f (r.fs, r.sent)) S) :
    Triple (connectionAt conn socket remote es * (held .message msg m * F))
      (handlerRele alloc fuel msg conn (some e.addr) fs >>= f) S := by
  obtain ⟨conn', hdelete, h⟩ := bind_eq_ok.mp h
  obtain ⟨sent, hsent, heq⟩ := bind_eq_ok.mp h
  cases heq
  obtain ⟨front, back, rfl⟩ := List.append_of_mem he
  obtain ⟨hfront, -⟩ := id_ne hwf
  -- The list on values loses the same entry: no channel in front of it has its number.
  have hconn : conn' = ⟨remote, channelsOf (front ++ back)⟩ := by
    obtain ⟨li, hli, heq⟩ := bind_eq_ok.mp hdelete
    cases heq
    obtain ⟨-, rfl⟩ := azListDelete_eq_ok.mp hli
    have hlist : channelsOf (front ++ e :: back) =
        channelsOf front ++ e.channel :: channelsOf back := by
      simp [channelsOf]
    show (⟨remote, (channelsOf (front ++ e :: back)).eraseP _⟩ : ScConnection) = _
    rw [hlist, List.eraseP_append_right _ (by simpa using hfront),
      List.eraseP_cons_of_pos (by simp)]
    simp [channelsOf]
  rw [List.length_append, List.length_cons] at hfuel
  unfold handlerRele
  rw [bind_assoc]
  refine scConnectionDeleteChannel_triple (by omega) rfl ?_
  rw [bind_assoc]
  refine read_triple (mul_left_comm _ _ _) ?_
  rw [bind_assoc]
  refine respond_triple hsent ?_
  exact hf (front ++ back) hconn (by simp)

/-- `handler_seek` on blocks changes nothing and sends what it sends on values. -/
theorem handlerSeek_triple {e : Entry} {r : Handled} {f : Fs × Bytes → Prog Held γ} (he : e ∈ es)
    (h : Aggregator.handlerSeek m ⟨remote, channelsOf es⟩ (some e.channel) fs = .ok r)
    (hf : r.conn = ⟨remote, channelsOf es⟩ →
      Triple (connectionAt conn socket remote es * (held .message msg m * F))
        (f (r.fs, r.sent)) S) :
    Triple (connectionAt conn socket remote es * (held .message msg m * F))
      (handlerSeek alloc msg (some e.addr) fs >>= f) S := by
  obtain ⟨pos, hpos, h⟩ := bind_eq_ok.mp h
  obtain ⟨sent, hsent, heq⟩ := bind_eq_ok.mp h
  cases heq
  obtain ⟨front, back, rfl⟩ := List.append_of_mem he
  have hdone := hf rfl
  rw [connectionAt, connectionWith_split, mul_assoc] at hdone ⊢
  unfold handlerSeek
  rw [bind_assoc]
  refine read_triple (third _ _ _ _) ?_
  rw [bind_assoc]
  refine Triple.call hpos ?_
  rw [bind_assoc]
  refine mallocWith_triple fun ok => ?_
  refine channelAt_open (mul_left_comm _ _ _) fun parts => ?_
  show Triple _ ((read .channel e.addr >>= _) >>= _) S
  rw [bind_assoc]
  refine read_triple rfl ?_
  rw [bind_assoc]
  refine read_triple partsAt_fullpath ?_
  show Triple _ ((Prog.call _ >>= _) >>= _) S
  rw [bind_assoc]
  refine Triple.call hsent ?_
  rw [bind_assoc]
  refine free_triple (third _ _ _ _) ?_
  -- Both blocks that were opened are put together again, and nothing else was written.
  exact channelAt_close parts rfl hdone

/-- The number of blocks `p` that a call leaves. -/
def initsOf (h : Option Handler) : Nat := if h = some .init then 1 else 0

/-- The lookup of `do_receive`, which is made for channels other than 0 only. -/
theorem lookup_triple {channel : BitVec 16} {f : Option Nat → Prog Held γ}
    (hfuel : es.length < fuel) (hP : P = connectionAt conn socket remote es * F)
    (hf : ∀ found : Option Entry, (∀ e ∈ found, e ∈ es) →
      (channel ≠ 0 → Aggregator.scConnectionChannel ⟨remote, channelsOf es⟩ channel.toInt =
        found.map Entry.channel) → Triple P (f (found.map Entry.addr)) S) :
    Triple P (lookup fuel conn channel >>= f) S := by
  unfold lookup
  by_cases hzero : channel = 0
  · rw [if_pos hzero]
    exact hf none nofun fun hne => absurd hzero hne
  · rw [if_neg hzero]
    exact scConnectionChannel_triple hfuel hP fun found hmem hfound => hf found hmem fun _ => hfound

/-- Only the handlers that need no channel are called without one. -/
theorem channel_ne_zero {code channel : BitVec 16}
    (hinit : handlerFor code channel ≠ some .init)
    (hdummy : handlerFor code channel ≠ some .dummy) : channel ≠ 0 := by
  rintro rfl
  unfold handlerFor at hinit hdummy
  rw [if_pos rfl] at hinit hdummy
  split at hinit
  · exact hinit rfl
  · rename_i hcode
    exact hdummy (if_neg hcode)

/-- The lookup of `do_receive` and the handler. -/
theorem handle_triple {r : Handled} {f : Fs × Bytes → Prog Held γ} (hfuel : es.length < fuel)
    (hwf : (⟨remote, channelsOf es⟩ : ScConnection).WellFormed)
    (h : Aggregator.handle cfg heap chunks m ⟨remote, channelsOf es⟩ fs = .ok r)
    (hf : ∀ es', r.conn = ⟨remote, channelsOf es'⟩ → es'.length ≤ es.length + 1 →
      Triple (connectionAt conn socket remote es' * (held .message msg m *
        (lostString ^ initsOf (handlerFor m.code m.channel) * F))) (f (r.fs, r.sent)) S) :
    Triple (connectionAt conn socket remote es * (held .message msg m * F))
      (handle alloc cfg heap fuel chunks msg conn fs >>= f) S := by
  unfold handle
  rw [bind_assoc]
  refine read_triple (mul_left_comm _ _ _) ?_
  rw [bind_assoc]
  refine lookup_triple hfuel rfl fun found hmem hlookup => ?_
  unfold Aggregator.handle at h
  have hne := @channel_ne_zero m.code m.channel
  have hkeep : handlerFor m.code m.channel ≠ some .init → ∀ es',
      r.conn = ⟨remote, channelsOf es'⟩ → es'.length ≤ es.length + 1 →
      Triple (connectionAt conn socket remote es' * (held .message msg m * F))
        (f (r.fs, r.sent)) S := by
    intro hinit es' hconn hlen
    have hdone := hf es' hconn hlen
    rw [initsOf, if_neg hinit, pow_zero, one_mul] at hdone
    exact hdone
  -- A handler that needs a channel gets the one that the lookup found.
  cases hhandler : handlerFor m.code m.channel with
  | none =>
    rw [hhandler] at h hkeep
    cases h
    exact hkeep nofun es rfl (Nat.le_succ _)
  | some handler =>
    rw [hhandler] at h hf hne hkeep
    cases handler with
    | init =>
      rw [initsOf, if_pos rfl, pow_one] at hf
      show Triple _ ((handlerInit alloc cfg heap fuel chunks msg conn fs >>= _) >>= f) S
      rw [bind_assoc]
      refine handlerInit_triple hfuel h rfl fun e hconn hfs => ?_
      rw [← hfs]
      exact hf (e :: es) hconn (Nat.le_refl _)
    | dummy =>
      obtain ⟨sent, hsent, heq⟩ := bind_eq_ok.mp h
      cases heq
      show Triple _ ((respond alloc _ >>= _) >>= f) S
      rw [bind_assoc]
      exact respond_triple hsent (hkeep nofun es rfl (Nat.le_succ _))
    | seek =>
      simp only [hlookup (hne nofun nofun)] at h
      cases found with
      | none =>
        obtain ⟨pos, -, h⟩ := bind_eq_ok.mp h
        cases h
      | some e =>
        refine handlerSeek_triple (hmem e rfl) h fun hconn => ?_
        exact hkeep nofun es hconn (Nat.le_succ _)
    | data =>
      simp only [hlookup (hne nofun nofun)] at h
      cases found with
      | none => cases h
      | some e =>
        refine handlerData_triple (hmem e rfl) hwf h fun es' hconn hlen => ?_
        exact hkeep nofun es' hconn (by omega)
    | rele =>
      simp only [hlookup (hne nofun nofun)] at h
      cases found with
      | none => cases h
      | some e =>
        refine handlerRele_triple (hmem e rfl) hfuel hwf h fun es' hconn hlen => ?_
        exact hkeep nofun es' hconn (by omega)

/-- A call of `do_receive` that keeps the connection. -/
theorem doReceive_triple {s : Incoming} {o : Outcome} {f : Received → Prog Held γ}
    (hfuel : es.length < fuel) (hwf : (⟨remote, channelsOf es⟩ : ScConnection).WellFormed)
    (h : Aggregator.doReceive cfg heap chunks ⟨remote, channelsOf es⟩ fs s = .ok o)
    (hP : P = connectionAt conn socket remote es * F)
    (hclosed : o.conn = none → Triple F (f ⟨some socket, o.fs, o.rest, o.sent⟩) S)
    (hopen : ∀ es', o.conn = some ⟨remote, channelsOf es'⟩ → es'.length ≤ es.length + 1 →
      Triple (connectionAt conn socket remote es' *
        (lostString ^ initsOf (o.called.map Prod.fst) * F)) (f ⟨none, o.fs, o.rest, o.sent⟩) S) :
    Triple P (doReceive alloc cfg heap fuel chunks conn fs s >>= f) S := by
  obtain ⟨⟨received, rest⟩, hframe, h⟩ := bind_eq_ok.mp h
  subst hP
  unfold doReceive
  rw [bind_assoc]
  refine mallocWith_triple fun msg => ?_
  refine connectionWith_open (mul_left_comm _ _ _) fun block hsocket => ?_
  rw [bind_assoc]
  refine read_triple rfl ?_
  rw [bind_assoc]
  refine Triple.call hframe ?_
  refine connectionWith_close block hsocket rfl ?_
  -- At the end of the stream the connection is destroyed, and otherwise a handler gets the frame.
  cases received with
  | none =>
    cases h
    show Triple _ ((scConnectionDestroy fuel conn >>= _) >>= f) S
    rw [bind_assoc]
    refine scConnectionDestroy_triple hfuel rfl ?_
    rw [bind_assoc]
    refine free_triple rfl ?_
    rw [hsocket]
    exact hclosed rfl
  | some m =>
    obtain ⟨r, hhandle, heq⟩ := bind_eq_ok.mp h
    cases heq
    show Triple _ ((write .message msg m >>= _) >>= f) S
    rw [bind_assoc]
    refine write_triple (mul_left_comm _ _ _) ?_
    rw [bind_assoc, mul_left_comm]
    refine handle_triple hfuel hwf hhandle fun es' hconn hlen => ?_
    show Triple _ ((free .message (some msg) >>= _) >>= f) S
    rw [bind_assoc]
    refine free_triple (mul_left_comm _ _ _) ?_
    -- The outcome on values names the handler with its frame.
    have hcalled : ((handlerFor m.code m.channel).map fun h => (h, m.frame)).map Prod.fst =
        handlerFor m.code m.channel := by
      cases handlerFor m.code m.channel <;> rfl
    have hdone := hopen es' (congrArg some hconn) hlen
    rw [hcalled] at hdone
    exact hdone

end

end Compostela.Aggregator.Blocks
