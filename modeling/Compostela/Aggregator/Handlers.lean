import Compostela.Aggregator.Files

/-!
# `Compostela.Aggregator.Handlers`: the request handlers

The handlers of `aggregator/main.c`. A handler gets the message as `do_receive` left it:
`contentLength` is what the peer announced, and the content block is the fixed block of the
receive buffer. Each returns the connection and the files after it, and the bytes it gave
to `sendall` for the response.

`_sc_connection_send` converts the header to network order before it sends. `handler_seek`
calls `sendall` itself and skips the conversion.

The lengths are computed in the types of the source: `int32_t` for the name of an INIT
request, `size_t` for the text of a DATA request. `handlerData_partial` and
`handlerData_complete` are the two branches of `handler_data` on a message with all of its
bytes, and `handlerInit_ok` is `handler_init` on such a message.
-/

set_option autoImplicit false

namespace Compostela.Aggregator

open Compostela.Common
open Compostela.Common.AzBuffer
open Compostela.Memory

/-- What one handler call leaves: the connection, the files, and the response. -/
structure Handled where
  conn : ScConnection
  fs : Fs
  sent : Bytes

/-- `_sc_connection_send`: the bytes it hands to `sendall`. -/
def scConnectionSend (msg : ScLogMessage) : Except Trap Bytes :=
  msg.toNetwork.load (toSize (headerSize + msg.contentLength.toInt))

/-- The response `SCM_RESP_OK` with four zero bytes. -/
def okResponse (channel : BitVec 16) : ScLogMessage := .ofContent SCM_RESP_OK channel [0, 0, 0, 0]

/-- `handler_dummy`. -/
def handlerDummy (conn : ScConnection) (fs : Fs) : Except Trap Handled := do
  let sent ← scConnectionSend (.ofContent SCM_RESP_NG 0 [])
  .ok ⟨conn, fs, sent⟩

/-- The digest in the response to an INIT request: none when the request does not ask for
it or the file is not there. `chunks` are the reads of the digest. -/
def initDigest (cfg : Config) (chunks : List Nat) (fs : Fs) (path : Bytes) (attr : BitVec 32) :
    Bytes :=
  (if attr &&& ATTR_TOP ≠ 0 then mhashWithSize cfg.md5 (fs.file path) (fs.size path) chunks
    else none).getD []

/-- The content of the response to an INIT request: the size of the file, and the digest. -/
def initContent (cfg : Config) (chunks : List Nat) (fs : Fs) (path : Bytes) (attr : BitVec 32) :
    Bytes :=
  image 8 (bswap64 (.ofNat 64 (fs.size path))) ++ initDigest cfg chunks fs path attr

/-- `handler_init`. A negative name length is converted to a huge size by `memcpy`, which
leaves the block `p`. -/
def handlerInit (cfg : Config) (heap : Heap) (chunks : List Nat) (msg : ScLogMessage)
    (conn : ScConnection) (fs : Fs) : Except Trap Handled := do
  let slen : BitVec 32 := msg.contentLength - 4
  let attr := htonl (word 32 (← msg.content.load 0 4))
  if slen.toInt < 0 then .error .oobWrite
  else do
    let p ← msg.content.load 4 slen.toInt.toNat
    let channel ← scChannelNew cfg heap conn (cstr p)
    let (conn, channel) ← scConnectionRegisterChannel conn channel
    let sent ← scConnectionSend (.ofContent SCM_RESP_OK (.ofInt 16 channel.id)
      (initContent cfg chunks fs channel.filenameFullpath attr))
    .ok ⟨conn, fs, sent⟩

/-- The length of the text of a DATA request, as the `size_t` that `handler_data`
computes. -/
def textLength (msg : ScLogMessage) : Nat := toSize (msg.contentLength.toInt - 12)

/-- The first branch of `handler_data`: a piece of a line that is not complete goes to the
channel's buffer. -/
def bufferText (heap : Heap) (buffer : AzBuffer) (len : Nat) (text : Except Trap Bytes) :
    Except Trap AzBuffer := do
  let buffer :=
    if toSize (azBufferUnusedBytes buffer) < len then
      (azBufferResize heap buffer (toSize (len + buffer.size))).2
    else buffer
  if toSize (azBufferUnusedBytes buffer) < len then .error .assertFailed
  else do
    let (_, buffer) ← azBufferFetchBytes buffer (← text)
    .ok buffer

/-- The call of `_do_merge_file`, for a mode that merges. No aggregate context enables
both files. -/
def mergeText (cfg : Config) (heap : Heap) (conn : ScConnection) (channel : ScChannel)
    (t : BitVec 64) (text : Except Trap Bytes) (fs : Fs) : Except Trap (AzBuffer × Fs) :=
  let aggr := channel.aggregateContext
  if aggr.all (·.fMerge) then do
    let (_, buffer, fs) ←
      doMergeFile cfg heap conn.remoteAddr channel.filename t channel.buffer text aggr fs
    .ok (buffer, fs)
  else .ok (channel.buffer, fs)

/-- The call of `_do_append_file`, for a mode that keeps separate files. -/
def appendText (channel : ScChannel) (buffer : AzBuffer) (text : Except Trap Bytes) (fs : Fs) :
    Except Trap (AzBuffer × Fs) :=
  if channel.aggregateContext.all (·.fSeparate) then do
    let (_, buffer, fs) ← doAppendFile channel.filenameFullpath buffer text fs
    .ok (buffer, fs)
  else .ok (buffer, fs)

/-- The second branch of `handler_data`: a piece that completes a line goes to the files
that the mode enables, the merged file first. -/
def recordText (cfg : Config) (heap : Heap) (conn : ScConnection) (channel : ScChannel)
    (t : BitVec 64) (text : Except Trap Bytes) (fs : Fs) : Except Trap (AzBuffer × Fs) := do
  let (buffer, fs) ← mergeText cfg heap conn channel t text fs
  appendText channel buffer text fs

/-- The two branches of `handler_data`. -/
def takeText (cfg : Config) (heap : Heap) (conn : ScConnection) (channel : ScChannel)
    (attr : BitVec 32) (t : BitVec 64) (len : Nat) (text : Except Trap Bytes) (fs : Fs) :
    Except Trap (AzBuffer × Fs) :=
  if attr &&& ATTR_TOP = 0 then do
    let buffer ← bufferText heap channel.buffer len text
    .ok (buffer, fs)
  else recordText cfg heap conn channel t text fs

/-- `handler_data`. -/
def handlerData (cfg : Config) (heap : Heap) (msg : ScLogMessage) (conn : ScConnection)
    (channel : Option ScChannel) (fs : Fs) : Except Trap Handled :=
  match channel with
  | none => .error .nullDeref
  | some channel => do
      let attr := htonl (word 32 (← msg.content.load 0 4))
      let t := bswap64 (word 64 (← msg.content.load 4 8))
      let len := textLength msg
      let (buffer, fs) ← takeText cfg heap conn channel attr t len (msg.content.load 12 len) fs
      let sent ← scConnectionSend (okResponse msg.channel)
      .ok ⟨conn.update { channel with buffer := buffer }, fs, sent⟩

/-- `handler_rele`. -/
def handlerRele (msg : ScLogMessage) (conn : ScConnection) (channel : Option ScChannel)
    (fs : Fs) : Except Trap Handled := do
  let conn ← scConnectionDeleteChannel conn channel
  let sent ← scConnectionSend (okResponse msg.channel)
  .ok ⟨conn, fs, sent⟩

/-- `handler_seek`. The response goes out with its header in host order. -/
def handlerSeek (msg : ScLogMessage) (conn : ScConnection) (channel : Option ScChannel)
    (fs : Fs) : Except Trap Handled := do
  let _pos := bswap64 (word 64 (← msg.content.load 0 8))
  match channel with
  | none => .error .nullDeref
  | some channel => do
      let (_, fs) := doTruncFile channel.filenameFullpath fs
      let sent ← (okResponse msg.channel).load (headerSize + 4)
      .ok ⟨conn, fs, sent⟩

/-! ### Responses -/

/-- The send of a message that `ofContent` built. -/
theorem scConnectionSend_ofContent (code channel : BitVec 16) (content : Bytes)
    (h : content.length < 2 ^ 31) :
    scConnectionSend (.ofContent code channel content) =
      .ok (Frame.ofContent code channel content h).bytes := by
  have hlen : (ScLogMessage.ofContent code channel content).contentLength.toInt
      = content.length := toInt_ofNat_of_lt h
  unfold scConnectionSend
  rw [hlen, toSize_of_lt (by unfold headerSize; omega) (by unfold headerSize; omega)]
  exact ScLogMessage.load_toNetwork_ofContent code channel content

/-- The frame of an `SCM_RESP_OK` response to DATA and RELE. -/
def okFrame (channel : BitVec 16) : Frame :=
  .ofContent SCM_RESP_OK channel [0, 0, 0, 0] (by decide)

/-- The four bytes of an `SCM_RESP_OK` response are announced as they are. -/
theorem okFrame_length {channel : BitVec 16} :
    0 ≤ (okFrame channel).contentLength.toInt := by
  show 0 ≤ (BitVec.ofNat 32 4).toInt
  decide

/-- The OK response of a handler is its frame on the wire. -/
theorem scConnectionSend_okResponse (channel : BitVec 16) :
    scConnectionSend (okResponse channel) = .ok (okFrame channel).bytes :=
  scConnectionSend_ofContent _ _ _ _

/-! ### `handler_data` -/

/-- The attribute word of a DATA or INIT message, as its handler reads it. -/
def attrOf (msg : ScLogMessage) : BitVec 32 := htonl (word 32 (msg.content.bytes 0 4))

/-- The timestamp of a DATA message, as `handler_data` reads it. -/
def timeOf (msg : ScLogMessage) : BitVec 64 := bswap64 (word 64 (msg.content.bytes 4 8))

/-- The text of a DATA message, as `handler_data` reads it. -/
def textOf (msg : ScLogMessage) : Bytes := msg.content.bytes 12 (textLength msg)

/-- A successful first branch appends the text to the buffered bytes. A `realloc` that
fails never gets here: either the assertion finds too little room, or the fetch writes to
the null block. -/
theorem bufferText_eq_ok {heap : Heap} {buffer buffer' : AzBuffer} (hv : buffer.Valid)
    {text : Bytes} (h : bufferText heap buffer text.length (.ok text) = .ok buffer') :
    buffer'.Valid ∧ buffer'.unread = buffer.unread ++ text := by
  have hused := hv.used_le
  -- The fetch on a valid buffer with room.
  have hfetch : ∀ b : AzBuffer, b.Valid → b.unread = buffer.unread →
      text.length ≤ b.size - b.used →
      (azBufferFetchBytes b text >>= fun r => Except.ok r.2) = .ok buffer' →
      buffer'.Valid ∧ buffer'.unread = buffer.unread ++ text := by
    intro b hb hu hfit heq
    have hle := hb.used_le
    obtain ⟨b', hb', hvalid, hunread⟩ := azBufferFetchBytes_of_fits hb text
      (by omega)
    rw [hb'] at heq
    cases heq
    exact ⟨hvalid, by rw [hunread, hu]⟩
  simp only [bufferText, ok_bind] at h
  by_cases hroom : toSize (azBufferUnusedBytes buffer) < text.length
  · simp only [hroom, if_true] at h
    rw [hv.toSize_unused] at hroom
    by_cases hsmall : toSize (text.length + buffer.size) < buffer.used
    · -- A size that wrapped around: the buffer is unchanged and the assertion fails.
      simp only [azBufferResize, hsmall, if_true, hv.toSize_unused, hroom] at h
      cases h
    by_cases hmem : toSize (text.length + buffer.size) ≤ PTRDIFF_MAX ∧
        heap.realloc (toSize (text.length + buffer.size)) = true
    · obtain ⟨b, hb, hvalid, hunread, -, -⟩ :=
        azBufferResize_ok hv (by omega) hmem.1 hmem.2
      rw [hb] at h
      simp only [hvalid.toSize_unused] at h
      split at h
      · cases h
      · exact hfetch b hvalid hunread (by omega) h
    · -- `realloc` failed, and `used` is as before over a null block.
      exfalso
      simp only [azBufferResize, hsmall, hmem, if_false] at h
      split at h
      · cases h
      · rename_i hassert
        rw [bind_eq_ok] at h
        obtain ⟨r, hr, -⟩ := h
        unfold azBufferFetchBytes at hr
        rw [bind_eq_ok] at hr
        obtain ⟨b, hb, -⟩ := hr
        simp only [Block.store] at hb
        split at hb
        · rename_i hfits
          simp only [azBufferUnusedBytes, List.length_take, toSize] at hassert hfits hroom
          omega
        · cases hb
  · simp only [hroom, if_false] at h
    rw [hv.toSize_unused] at hroom
    exact hfetch buffer hv rfl (by omega) h

/-- The first branch has defined behaviour exactly when there is room for the text or
`realloc` makes it. -/
theorem bufferText_ok_iff {heap : Heap} {buffer : AzBuffer} (hv : buffer.Valid) {text : Bytes}
    (hlen : text.length < 2 ^ 31) :
    (∃ buffer', bufferText heap buffer text.length (.ok text) = .ok buffer') ↔
      text.length ≤ buffer.size - buffer.used ∨
        text.length + buffer.size ≤ PTRDIFF_MAX ∧
          heap.realloc (text.length + buffer.size) = true := by
  have hused := hv.used_le
  have hmax := hv.size_le
  have hsize : toSize ((text.length + buffer.size : Nat) : Int) = text.length + buffer.size := by
    unfold PTRDIFF_MAX at hmax
    rw [toSize_of_lt] <;> omega
  -- The branch of the source: the text fits behind the used bytes, or the buffer grows by its
  -- length.
  by_cases hroom : text.length ≤ buffer.size - buffer.used
  · refine ⟨fun _ => Or.inl hroom, fun _ => ?_⟩
    obtain ⟨buffer', hfetch, -, -⟩ := azBufferFetchBytes_of_fits hv text (by omega)
    have hunused : ¬ toSize (azBufferUnusedBytes buffer) < text.length := by
      rw [hv.toSize_unused]
      omega
    refine ⟨buffer', ?_⟩
    simp only [bufferText, hunused, if_false, ok_bind, hfetch]
  · have hunused : toSize (azBufferUnusedBytes buffer) < text.length := by
      rw [hv.toSize_unused]
      omega
    push_cast at hsize
    rw [or_iff_right hroom]
    simp only [bufferText, hunused, if_true, hsize]
    by_cases hmem : text.length + buffer.size ≤ PTRDIFF_MAX ∧
        heap.realloc (text.length + buffer.size) = true
    · refine ⟨fun _ => hmem, fun _ => ?_⟩
      -- After the resize the assertion holds, since the buffer grew by the length of the text.
      obtain ⟨b, hb, hvalid, -, hbsize, hbused⟩ :=
        azBufferResize_ok hv (by omega) hmem.1 hmem.2
      obtain ⟨buffer', hfetch, -, -⟩ := azBufferFetchBytes_of_fits hvalid text (by omega)
      refine ⟨buffer', ?_⟩
      rw [hb]
      simp only [hvalid.toSize_unused]
      rw [if_neg (by omega)]
      simp only [ok_bind, hfetch]
    · -- The block is null. The assertion fails, or the fetch writes to it.
      refine ⟨fun ⟨buffer', h⟩ => ?_, fun h => absurd h hmem⟩
      exfalso
      have hresize : azBufferResize heap buffer (text.length + buffer.size) =
          (-1, { buffer with buffer := ⟨0, heap.fresh⟩, size := 0, cursor := 0 }) := by
        unfold azBufferResize
        rw [if_neg (by omega), if_neg hmem]
      simp only [hresize, ok_bind] at h
      split at h
      · cases h
      · rename_i hassert
        obtain ⟨r, hr, -⟩ := bind_eq_ok.mp h
        obtain ⟨b, hb, -⟩ := bind_eq_ok.mp hr
        obtain ⟨hfits, -⟩ := Block.store_eq_ok.mp hb
        simp only [azBufferUnusedBytes, List.length_take, toSize] at hassert hfits
        omega

/-- A successful step of the merged file with every file operation successful: one record is
appended, and the buffer is empty after it. -/
theorem mergeText_eq_ok {cfg : Config} {heap : Heap} {conn : ScConnection} {channel : ScChannel}
    {t : BitVec 64} {text : Bytes} {fs fs' : Fs} {buffer' : AzBuffer}
    (hv : channel.buffer.Valid) (hfs : fs.results = [])
    (hmode : channel.aggregateContext.all (·.fMerge) = true)
    (h : mergeText cfg heap conn channel t (.ok text) fs = .ok (buffer', fs')) :
    ∃ host stamp, conn.remoteAddr = some host ∧
      mergeTimestamp cfg heap t channel.aggregateContext = .ok stamp ∧
      Appended fs fs' .doMergeFile (mkPath cfg.logdir channel.filename PATH_MAX)
        (host ++ stamp.getD [] ++ [58, 32] ++ (channel.buffer.unread ++ text)) ∧
      buffer'.Valid ∧ buffer'.unread = [] := by
  simp only [mergeText, hmode, if_true] at h
  obtain ⟨⟨n, b, f⟩, hdo, heq⟩ := bind_eq_ok.mp h
  cases heq
  obtain ⟨stamp, hstamp, -⟩ := bind_eq_ok.mp hdo
  cases hhost : conn.remoteAddr with
  | none =>
    -- The file is open, so the null host is dereferenced.
    exfalso
    rw [hhost] at hdo
    simp [doMergeFile, hostBytes, hstamp, Fs.openAppend_of_ok hfs] at hdo
  | some host =>
    rw [hhost] at hdo
    obtain ⟨b', f', hok, happ, hv', hu'⟩ := doMergeFile_ok host channel.filename
      hstamp hfs hv text
    rw [hok] at hdo
    cases hdo
    exact ⟨host, stamp, rfl, hstamp, happ, hv', hu'⟩

/-- A successful step of the separate file with every file operation successful. -/
theorem appendText_eq_ok {channel : ScChannel} {buffer buffer' : AzBuffer} {text : Bytes}
    {fs fs' : Fs} (hv : buffer.Valid) (hfs : fs.results = [])
    (h : appendText channel buffer (.ok text) fs = .ok (buffer', fs')) :
    buffer'.Valid ∧ fs'.results = [] ∧
      if channel.aggregateContext.all (·.fSeparate) then
        Appended fs fs' .doAppendFile channel.filenameFullpath (buffer.unread ++ text) ∧
          buffer'.unread = []
      else fs' = fs ∧ buffer' = buffer := by
  -- The mode decides whether there is a separate file. Without one nothing happens.
  unfold appendText at h
  split at h
  · rename_i hmode
    obtain ⟨⟨n, b, f⟩, hdo, heq⟩ := bind_eq_ok.mp h
    cases heq
    obtain ⟨b', f', hok, happ, hv', hu'⟩ := doAppendFile_ok hfs hv channel.filenameFullpath text
    rw [hok] at hdo
    cases hdo
    rw [if_pos hmode]
    exact ⟨hv', happ.results, happ, hu'⟩
  · rename_i hmode
    cases h
    rw [if_neg hmode]
    exact ⟨hv, hfs, rfl, rfl⟩

/-- A successful second branch with every file operation successful. With merging enabled,
`_do_merge_file` takes the buffered bytes, and `_do_append_file` finds the buffer empty. -/
theorem recordText_eq_ok {cfg : Config} {heap : Heap} {conn : ScConnection}
    {channel : ScChannel} {t : BitVec 64} {text : Bytes} {fs fs' : Fs} {buffer' : AzBuffer}
    (hv : channel.buffer.Valid) (hfs : fs.results = [])
    (h : recordText cfg heap conn channel t (.ok text) fs = .ok (buffer', fs')) :
    ∃ fs1 record, buffer'.Valid ∧ fs'.results = [] ∧
      (if channel.aggregateContext.all (·.fMerge) then
        Appended fs fs1 .doMergeFile (mkPath cfg.logdir channel.filename PATH_MAX)
          (record ++ channel.buffer.unread ++ text)
      else fs1 = fs) ∧
      (if channel.aggregateContext.all (·.fSeparate) then
        Appended fs1 fs' .doAppendFile channel.filenameFullpath
          ((if channel.aggregateContext.all (·.fMerge) then [] else channel.buffer.unread)
            ++ text)
      else fs' = fs1) ∧
      (channel.aggregateContext.all (·.fMerge) ∨ channel.aggregateContext.all (·.fSeparate) →
        buffer'.unread = []) := by
  obtain ⟨⟨buffer1, fs1⟩, hmerge, hrest⟩ := bind_eq_ok.mp h
  -- After the first step: the files, and what is left in the buffer.
  have hfirst : ∃ record, buffer1.Valid ∧ fs1.results = [] ∧
      (if channel.aggregateContext.all (·.fMerge) then
        Appended fs fs1 .doMergeFile (mkPath cfg.logdir channel.filename PATH_MAX)
          (record ++ channel.buffer.unread ++ text)
      else fs1 = fs) ∧
      buffer1.unread = if channel.aggregateContext.all (·.fMerge) then []
        else channel.buffer.unread := by
    cases hm : channel.aggregateContext.all (·.fMerge) with
    | false =>
      simp only [mergeText, hm, Bool.false_eq_true, if_false, Except.ok.injEq,
        Prod.mk.injEq] at hmerge
      obtain ⟨rfl, rfl⟩ := hmerge
      exact ⟨[], hv, hfs, by simp, by simp⟩
    | true =>
      obtain ⟨host, stamp, -, -, happ, hv', hu'⟩ := mergeText_eq_ok hv hfs hm hmerge
      refine ⟨host ++ stamp.getD [] ++ [58, 32], hv', happ.results, ?_, by simp [hu']⟩
      simpa [List.append_assoc] using happ
  obtain ⟨record, hv1, hres1, hmerged, hunread⟩ := hfirst
  obtain ⟨hv', hres', hseparate⟩ := appendText_eq_ok hv1 hres1 hrest
  refine ⟨fs1, record, hv', hres', hmerged, ?_⟩
  cases hs : channel.aggregateContext.all (·.fSeparate) with
  | false =>
    rw [hs, if_neg (by decide)] at hseparate
    obtain ⟨rfl, rfl⟩ := hseparate
    refine ⟨by simp, fun hmode => ?_⟩
    rcases hmode with hm | hs'
    · rw [hunread, if_pos hm]
    · cases hs'
  | true =>
    rw [hs, if_pos rfl, hunread] at hseparate
    obtain ⟨happ, hu'⟩ := hseparate
    exact ⟨by simpa using happ, fun _ => hu'⟩

/-- A successful second branch in a mode that merges, with every file operation successful: one
record for the merged file, with the buffered bytes in it, and the text alone for the separate
file if the mode has one. -/
theorem recordText_merging {cfg : Config} {heap : Heap} {conn : ScConnection}
    {channel : ScChannel} {t : BitVec 64} {text : Bytes} {fs fs' : Fs} {buffer' : AzBuffer}
    (hv : channel.buffer.Valid) (hfs : fs.results = [])
    (hmode : channel.aggregateContext.all (·.fMerge) = true)
    (h : recordText cfg heap conn channel t (.ok text) fs = .ok (buffer', fs')) :
    ∃ host stamp fs1, conn.remoteAddr = some host ∧
      mergeTimestamp cfg heap t channel.aggregateContext = .ok stamp ∧
      Appended fs fs1 .doMergeFile (mkPath cfg.logdir channel.filename PATH_MAX)
        (host ++ stamp.getD [] ++ [58, 32] ++ (channel.buffer.unread ++ text)) ∧
      (if channel.aggregateContext.all (·.fSeparate) then
        Appended fs1 fs' .doAppendFile channel.filenameFullpath text
      else fs' = fs1) ∧
      fs'.results = [] ∧ buffer'.Valid ∧ buffer'.unread = [] := by
  obtain ⟨⟨buffer1, fs1⟩, hfirst, hrest⟩ := bind_eq_ok.mp h
  obtain ⟨host, stamp, hhost, hstamp, happ, hv1, hu1⟩ := mergeText_eq_ok hv hfs hmode hfirst
  obtain ⟨hv', hresults, hseparate⟩ := appendText_eq_ok hv1 happ.results hrest
  -- The merging half has emptied the buffer, so the separate half writes the text alone.
  refine ⟨host, stamp, fs1, hhost, hstamp, happ, ?_, hresults, hv', ?_⟩
  · split at hseparate
    · rename_i hsep
      rw [if_pos hsep, ← List.nil_append text, ← hu1]
      exact hseparate.1
    · rename_i hsep
      rw [if_neg hsep]
      exact hseparate.1
  · split at hseparate
    · exact hseparate.2
    · rw [hseparate.2]
      exact hu1

/-- A DATA message with all of its bytes in the block: the text is what follows the twelve
bytes of attribute and timestamp. -/
structure WholeData (msg : ScLogMessage) : Prop where
  le_length : 12 ≤ msg.contentLength.toInt
  length_le : msg.contentLength.toInt ≤ msg.content.size

/-- The text of a DATA request is what is behind its twelve bytes. -/
theorem WholeData.textLength {msg : ScLogMessage} (h : WholeData msg) :
    textLength msg = msg.contentLength.toInt.toNat - 12 := by
  have hlt := BitVec.toInt_lt (x := msg.contentLength)
  have h1 := h.le_length
  unfold Aggregator.textLength
  rw [toSize_of_lt (by omega) (by omega)]
  omega

/-- The text of a DATA request is inside the message. -/
theorem WholeData.load_text {msg : ScLogMessage} (h : WholeData msg) :
    msg.content.load 12 (Aggregator.textLength msg) = .ok (textOf msg) := by
  have h1 := h.le_length
  have h2 := h.length_le
  rw [Block.load_of_le (by rw [h.textLength]; omega), textOf]

/-- A successful `handler_data` on a registered channel and a whole message: the response
is `SCM_RESP_OK`, and the channel's buffer and the files are those of the branch that bit
31 of the attribute selects. -/
theorem handlerData_eq_ok {cfg : Config} {heap : Heap} {msg : ScLogMessage}
    {conn : ScConnection} {channel : ScChannel} {fs : Fs} {r : Handled} (hw : WholeData msg)
    (h : handlerData cfg heap msg conn (some channel) fs = .ok r) :
    ∃ buffer',
      r.conn = conn.update { channel with buffer := buffer' } ∧
      r.sent = (okFrame msg.channel).bytes ∧
      if attrOf msg &&& ATTR_TOP = 0 then
        r.fs = fs ∧
          bufferText heap channel.buffer (textOf msg).length (.ok (textOf msg)) = .ok buffer'
      else
        recordText cfg heap conn channel (timeOf msg) (.ok (textOf msg)) fs
          = .ok (buffer', r.fs) := by
  have h1 := hw.le_length
  have h2 := hw.length_le
  have hlen : (textOf msg).length = textLength msg := Block.length_bytes _ _ _
  rw [hlen]
  simp only [handlerData, scConnectionSend_okResponse] at h
  -- The attribute and the time are inside the message, since it has twelve bytes in front of the
  -- text.
  rw [Block.load_of_le (by omega), Block.load_of_le (by omega), hw.load_text] at h
  simp only [ok_bind] at h
  obtain ⟨⟨buffer', fs'⟩, htake, heq⟩ := bind_eq_ok.mp h
  cases heq
  refine ⟨buffer', rfl, rfl, ?_⟩
  change takeText cfg heap conn channel (attrOf msg) (timeOf msg) (textLength msg)
    (.ok (textOf msg)) fs = _ at htake
  unfold takeText at htake
  -- Bit 31 of the attribute: the line is complete, or goes to the buffer.
  by_cases hattr : attrOf msg &&& ATTR_TOP = 0
  · rw [if_pos hattr] at htake ⊢
    obtain ⟨b, hb, hpure⟩ := bind_eq_ok.mp htake
    cases hpure
    exact ⟨rfl, hb⟩
  · rw [if_neg hattr] at htake ⊢
    exact htake

/-- `handler_data` on a whole message when one of its branches ends. -/
theorem handlerData_of_takeText {cfg : Config} {heap : Heap} {msg : ScLogMessage}
    {conn : ScConnection} {channel : ScChannel} {fs fs' : Fs} {buffer' : AzBuffer}
    (hw : WholeData msg)
    (h : takeText cfg heap conn channel (attrOf msg) (timeOf msg) (textOf msg).length
      (.ok (textOf msg)) fs = .ok (buffer', fs')) :
    handlerData cfg heap msg conn (some channel) fs =
      .ok ⟨conn.update { channel with buffer := buffer' }, fs', (okFrame msg.channel).bytes⟩ := by
  have h1 := hw.le_length
  have h2 := hw.length_le
  have hlen : (textOf msg).length = textLength msg := Block.length_bytes _ _ _
  rw [hlen] at h
  simp only [handlerData, scConnectionSend_okResponse]
  rw [Block.load_of_le (by omega), Block.load_of_le (by omega), hw.load_text]
  simp only [ok_bind]
  -- The fields of the message lie inside its content, and so does the text.
  change takeText cfg heap conn channel (attrOf msg) (timeOf msg) (textLength msg)
    (.ok (textOf msg)) fs >>= _ = _
  rw [h]
  rfl

/-! ### `handler_init` -/

/-- An INIT message with all of its bytes in the block. -/
structure WholeInit (msg : ScLogMessage) : Prop where
  le_length : 4 ≤ msg.contentLength.toInt
  length_le : msg.contentLength.toInt ≤ msg.content.size

/-- The name in an INIT message, as `handler_init` copies it into a C string. -/
def nameOf (msg : ScLogMessage) : Bytes :=
  cstr (msg.content.bytes 4 (msg.contentLength - 4).toInt.toNat)

/-- The digest of an INIT response has 16 bytes at most. -/
theorem length_initDigest_le (cfg : Config) (chunks : List Nat) (fs : Fs) (path : Bytes)
    (attr : BitVec 32) : (initDigest cfg chunks fs path attr).length ≤ 16 := by
  unfold initDigest mhashWithSize
  split
  · cases fs.file path with
    | none => simp
    | some content => simp [cfg.md5.length_final]
  · simp

/-- The content of an INIT response fits the 32 bits of its length. -/
theorem length_initContent_lt (cfg : Config) (chunks : List Nat) (fs : Fs) (path : Bytes)
    (attr : BitVec 32) : (initContent cfg chunks fs path attr).length < 2 ^ 31 := by
  have := length_initDigest_le cfg chunks fs path attr
  simp [initContent]
  omega

/-- The frame of the response to an INIT request. -/
def initFrame (cfg : Config) (chunks : List Nat) (fs : Fs) (channel : ScChannel)
    (attr : BitVec 32) : Frame :=
  .ofContent SCM_RESP_OK (.ofInt 16 channel.id)
    (initContent cfg chunks fs channel.filenameFullpath attr) (length_initContent_lt ..)

/-- The length of the name, which is what is behind the attribute, does not wrap. -/
theorem WholeInit.toInt_slen {msg : ScLogMessage} (h : WholeInit msg) :
    (msg.contentLength - 4).toInt = msg.contentLength.toInt - 4 := by
  have hlt := BitVec.toInt_lt (x := msg.contentLength)
  have h1 := h.le_length
  have h4 : (4 : BitVec 32).toInt = 4 := by decide
  rw [BitVec.toInt_sub, h4, Int.bmod_eq_of_le] <;> omega

/-- A successful `handler_init` on a whole message: a channel for the name is registered,
no file changes, and the response carries the channel's number, the size of its separate
file and the digest. -/
theorem handlerInit_eq_ok {cfg : Config} {heap : Heap} {chunks : List Nat}
    {msg : ScLogMessage} {conn : ScConnection} {fs : Fs} {r : Handled} (hw : WholeInit msg) :
    handlerInit cfg heap chunks msg conn fs = .ok r ↔
    ∃ channel channel',
      scChannelNew cfg heap conn (nameOf msg) = .ok channel ∧
      scConnectionRegisterChannel conn channel = .ok (r.conn, channel') ∧
      r.fs = fs ∧ r.sent = (initFrame cfg chunks fs channel' (attrOf msg)).bytes := by
  have h1 := hw.le_length
  have h2 := hw.length_le
  have hslen := hw.toInt_slen
  have hload : msg.content.load 4 (msg.contentLength - 4).toInt.toNat
      = .ok (msg.content.bytes 4 (msg.contentLength - 4).toInt.toNat) :=
    Block.load_of_le (by omega)
  simp only [handlerInit]
  rw [Block.load_of_le (by omega), ok_bind, if_neg (by omega), hload, ok_bind]
  change (scChannelNew cfg heap conn (nameOf msg) >>= _) = _ ↔ _
  rw [bind_eq_ok]
  -- The response is one that `_sc_connection_send` sends whole.
  have hsend : ∀ channel' : ScChannel,
      scConnectionSend (.ofContent SCM_RESP_OK (.ofInt 16 channel'.id)
        (initContent cfg chunks fs channel'.filenameFullpath (attrOf msg))) =
      .ok (initFrame cfg chunks fs channel' (attrOf msg)).bytes := fun channel' =>
    scConnectionSend_ofContent _ _ _ _
  constructor
  · rintro ⟨channel, hnew, h⟩
    obtain ⟨⟨conn', channel'⟩, hreg, h⟩ := bind_eq_ok.mp h
    obtain ⟨sent, hsent, h⟩ := bind_eq_ok.mp h
    cases (hsend channel').symm.trans hsent
    cases h
    exact ⟨channel, channel', hnew, hreg, rfl, rfl⟩
  · rintro ⟨channel, channel', hnew, hreg, rfl, hsent⟩
    refine ⟨channel, hnew, bind_eq_ok.mpr ⟨(r.conn, channel'), hreg, ?_⟩⟩
    refine bind_eq_ok.mpr ⟨_, hsend channel', ?_⟩
    rw [← hsent]

/-- What a new channel looks like: it carries the name, its buffer is empty, and its
aggregate context is the one found for its path. -/
theorem scChannelNew_eq_ok {cfg : Config} {heap : Heap} {conn : ScConnection} {name : Bytes}
    {channel : ScChannel} (h : scChannelNew cfg heap conn name = .ok channel) :
    channel.filename = name ∧ channel.buffer.Valid ∧ channel.buffer.unread = [] ∧
      channel.aggregateContext = findAggregateContext cfg channel.filenameFullpath := by
  obtain ⟨path, -, heq⟩ := bind_eq_ok.mp h
  cases heq
  exact ⟨rfl, valid_azBufferNew heap (by decide), rfl, rfl⟩

/-- The path of the separate file does not depend on what the memory held before. -/
theorem filenameFullpath_unique {cfg : Config} {heap heap' : Heap} {conn : ScConnection}
    {name : Bytes} {channel channel' : ScChannel}
    (h : scChannelNew cfg heap conn name = .ok channel)
    (h' : scChannelNew cfg heap' conn name = .ok channel') :
    channel.filenameFullpath = channel'.filenameFullpath := by
  obtain ⟨path, hpath, heq⟩ := bind_eq_ok.mp h
  obtain ⟨path', hpath', heq'⟩ := bind_eq_ok.mp h'
  cases heq
  cases heq'
  exact pathcat_unique hpath hpath'

/-- A memory that held zeros gives the path as well. -/
theorem scChannelNew_zeroHeap {cfg : Config} {heap : Heap} {conn : ScConnection} {name : Bytes}
    {channel : ScChannel} (h : scChannelNew cfg heap conn name = .ok channel) :
    ∃ channel', scChannelNew cfg zeroHeap conn name = .ok channel' ∧
      channel'.filenameFullpath = channel.filenameFullpath := by
  obtain ⟨path, hpath, heq⟩ := bind_eq_ok.mp h
  cases heq
  exact ⟨_, bind_eq_ok.mpr ⟨path, pathcat_zeroHeap hpath, rfl⟩, rfl⟩

end Compostela.Aggregator
