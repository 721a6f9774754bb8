import Compostela.Follower.Connection
import Compostela.Proofs.Acknowledged

/-!
# `Compostela.Proofs.Responses`: one response to each request

The follower sends a request and waits for a frame. `OneResponse` says that `do_receive` ends
and has sent exactly one frame, that `sc_aggregator_connection_receive_message` decodes it, and
that the decoded message has a response code and the right channel.

Four handlers send through `_sc_connection_send`, which converts the header. `handler_seek` does
not, and a code without a case on a channel reaches no handler. `Answerable` is the exact
condition on the request and the state: the case of the request, and what its handler needs to
have defined behaviour.
-/

set_option autoImplicit false

namespace Compostela.Proofs.Responses

open Compostela.Common
open Compostela.Memory
open Compostela.Segments
open Compostela.Follower
open Compostela.Aggregator
open Compostela.Proofs.SplitLines
open Compostela.Proofs.Acknowledged

/-! ### The response -/

/-- The answer is NG on channel 0, or OK. The channel of an OK is the one that the call has just
registered for INIT, and the channel of the request otherwise. -/
def Answers (conn : ScConnection) (f : Frame) (o : Outcome) (code channel : BitVec 16) : Prop :=
  (code = SCM_RESP_NG ∧ channel = 0) ∨
  (code = SCM_RESP_OK ∧
    if f.code = SCM_MSG_INIT then ∃ c conn', o.conn = some conn' ∧
      conn'.channelList = c :: conn.channelList ∧ channel.toInt = c.id
    else channel = f.channel)

/-- The call of `do_receive` ends, and what it sends is one frame: the follower receives it,
whatever comes behind it and in whatever segments, and reads the length that it has. -/
def OneResponse (cfg : Config) (heap : Heap) (chunks : List Nat) (conn : ScConnection) (fs : Fs)
    (s : Incoming) (f : Frame) : Prop :=
  ∃ o, doReceive cfg heap chunks conn fs s = .ok o ∧
    ∀ (memory : Heap) (t : Streams) (tail : Bytes), (∀ n, memory.malloc n = true) →
      t.incoming.bytes = o.sent ++ tail →
      ∃ m rest, scAggregatorConnectionReceiveMessage Streams.net memory ⟨true, t⟩ =
          .ok (0, some m, ⟨true, { t with incoming := rest }⟩) ∧
        rest.bytes = tail ∧ m.frame.bytes = o.sent ∧
        headerSize + m.contentLength.toInt = o.sent.length ∧ Answers conn f o m.code m.channel

/-! ### The condition -/

/-- The text of a DATA request can be put where it belongs. A short content is harmless only
where the text is not read: when no file that it would go to can be opened. -/
def Storable (cfg : Config) (heap : Heap) (conn : ScConnection) (c : ScChannel)
    (msg : ScLogMessage) (fs : Fs) : Prop :=
  if attrOf msg &&& ATTR_TOP = 0 then
    12 ≤ msg.contentLength.toInt ∧
      ((textOf msg).length ≤ c.buffer.size - c.buffer.used ∨
        (textOf msg).length + c.buffer.size ≤ PTRDIFF_MAX ∧
          heap.realloc ((textOf msg).length + c.buffer.size) = true)
  else
    (Merging c = true →
      (∃ stamp, mergeTimestamp cfg heap (timeOf msg) c.aggregateContext = .ok stamp) ∧
      (fs.results.headD .ok = .fail ∨
        (conn.remoteAddr ≠ none ∧ 12 ≤ msg.contentLength.toInt))) ∧
    (Separating c = true → 12 ≤ msg.contentLength.toInt ∨
      (if Merging c then fs.results.tail else fs.results).headD .ok = .fail)

/-- The request gets one response. -/
def Answerable (cfg : Config) (heap : Heap) (conn : ScConnection) (fs : Fs)
    (msg : ScLogMessage) : Prop :=
  match handlerFor msg.code msg.channel with
  | some .dummy => True
  | some .init => 4 ≤ msg.contentLength.toInt ∧
      (∃ channel, scChannelNew cfg heap conn (nameOf msg) = .ok channel) ∧
      maxId conn.channelList + 1 < 2 ^ 15
  | some .data => ∃ c, scConnectionChannel conn msg.channel.toInt = some c ∧
      Storable cfg heap conn c msg fs
  | some .rele => scConnectionChannel conn msg.channel.toInt ≠ none
  | some .seek => False
  | none => False

/-! ### DATA -/

section
variable {cfg : Config} {heap : Heap} {conn : ScConnection} {c : ScChannel} {t : BitVec 64}
  {trap : Trap} {fs : Fs}

/-- A text that cannot be read ends the first branch in every case. -/
theorem bufferText_of_error (heap : Heap) (buffer : AzBuffer) (len : Nat) (trap : Trap) :
    ∃ e, bufferText heap buffer len (.error trap) = .error e := by
  simp only [bufferText, error_bind]
  split
  · split <;> exact ⟨_, rfl⟩
  · exact ⟨_, rfl⟩

/-- A text that cannot be read ends the step of the separate file unless its `open` fails. -/
theorem appendText_of_error {buffer : AzBuffer} (hv : buffer.Valid) :
    (∃ r, appendText c buffer (.error trap) fs = .ok r) ↔
      (Separating c = true → fs.results.headD .ok = .fail) := by
  unfold appendText
  cases hsep : Separating c with
  | false =>
    have hmode : ¬ c.aggregateContext.all (·.fSeparate) = true := by
      rw [show c.aggregateContext.all (·.fSeparate) = false from hsep]
      decide
    rw [if_neg hmode]
    exact ⟨fun _ => by simp, fun _ => ⟨_, rfl⟩⟩
  | true =>
    have hmode : c.aggregateContext.all (·.fSeparate) = true := hsep
    rw [if_pos hmode]
    obtain ⟨-, hresults, -⟩ := createDir_frame fs (dirname c.filenameFullpath)
    obtain ⟨hopened, -, -⟩ :=
      (createDir fs (dirname c.filenameFullpath)).openAppend_eq c.filenameFullpath
    rw [hresults] at hopened
    -- The text is only read once the file is open.
    by_cases hfail : fs.results.headD .ok = .fail
    · refine ⟨fun _ _ => hfail, fun _ => ?_⟩
      simp only [doAppendFile, hopened, hfail]
      exact ⟨_, rfl⟩
    · obtain ⟨buffer', hflush, -, -⟩ := flushBuffer_eq .doAppendFile c.filenameFullpath hv
        ((createDir fs (dirname c.filenameFullpath)).openAppend c.filenameFullpath).2
      constructor
      · rintro ⟨r, h⟩
        simp only [doAppendFile, hopened, hfail, decide_false, Bool.not_false,
          Bool.true_eq_false, if_false, hflush, ok_bind, error_bind] at h
        cases h
      · intro h
        exact absurd (h rfl) hfail

/-- A text that cannot be read ends the step of the merged file unless its `open` fails. -/
theorem mergeText_of_error (cfg : Config) (heap : Heap) (conn : ScConnection) (t : BitVec 64)
    (trap : Trap) (fs : Fs) (hv : c.buffer.Valid) (hmerge : Merging c = true) :
    ((∃ stamp, mergeTimestamp cfg heap t c.aggregateContext = .ok stamp) ∧
      fs.results.headD .ok = .fail ∧
      ∃ fs', mergeText cfg heap conn c t (.error trap) fs = .ok (c.buffer, fs') ∧
        fs'.results = fs.results.tail) ∨
    (¬ ((∃ stamp, mergeTimestamp cfg heap t c.aggregateContext = .ok stamp) ∧
        fs.results.headD .ok = .fail) ∧
      ∃ e, mergeText cfg heap conn c t (.error trap) fs = .error e) := by
  have hmode : c.aggregateContext.all (·.fMerge) = true := hmerge
  unfold mergeText
  rw [if_pos hmode]
  cases hstamp : mergeTimestamp cfg heap t c.aggregateContext with
  | error e =>
    right
    refine ⟨fun h => ?_, e, by simp only [doMergeFile, hstamp, error_bind]⟩
    obtain ⟨⟨stamp, hok⟩, -⟩ := h
    cases hok
  | ok stamp =>
    obtain ⟨hopened, hresults, -⟩ := fs.openAppend_eq (mkPath cfg.logdir c.filename PATH_MAX)
    -- An `open` that fails leaves the text alone, and the merged record is skipped.
    by_cases hfail : fs.results.headD .ok = .fail
    · left
      refine ⟨⟨stamp, rfl⟩, hfail, _, ?_, hresults⟩
      simp only [doMergeFile, hstamp, ok_bind, hopened, hfail]
      rfl
    · right
      refine ⟨fun h => hfail h.2, ?_⟩
      cases hhost : conn.remoteAddr with
      | none =>
        simp only [doMergeFile, hstamp, ok_bind, hopened, hfail, decide_false, Bool.not_false,
          Bool.true_eq_false, if_false, hostBytes, error_bind]
        exact ⟨_, rfl⟩
      | some addr =>
        obtain ⟨buffer', hflush, -, -⟩ := flushBuffer_eq .doMergeFile
          (mkPath cfg.logdir c.filename PATH_MAX) hv
          ((writeTimestamp (mkPath cfg.logdir c.filename PATH_MAX) stamp
            ((fs.openAppend (mkPath cfg.logdir c.filename PATH_MAX)).2.write .doMergeFile
              (mkPath cfg.logdir c.filename PATH_MAX) addr)).write .doMergeFile
                (mkPath cfg.logdir c.filename PATH_MAX) [58, 32])
        simp only [doMergeFile, hstamp, ok_bind, hopened, hfail, decide_false, Bool.not_false,
          Bool.true_eq_false, if_false, hostBytes, hflush, error_bind]
        exact ⟨_, rfl⟩

/-- The second branch on a text that can be read. The separate file never ends it. -/
theorem recordText_ok_iff (hv : c.buffer.Valid) (text : Bytes) :
    (∃ r, recordText cfg heap conn c t (.ok text) fs = .ok r) ↔
      (Merging c = true →
        (∃ stamp, mergeTimestamp cfg heap t c.aggregateContext = .ok stamp) ∧
        (fs.results.headD .ok = .fail ∨ conn.remoteAddr ≠ none)) := by
  unfold recordText
  cases hmerge : Merging c with
  | false =>
    obtain ⟨buffer', fs', happend, -⟩ := appendText_cases c hv text fs
    simp only [mergeText_of_off _ hmerge, ok_bind, happend]
    exact ⟨fun _ => by simp, fun _ => ⟨_, rfl⟩⟩
  | true =>
    -- The merged record traps, or its file cannot be opened, or it is written.
    rcases mergeText_cases cfg heap conn t text fs hv hmerge with
      ⟨⟨trap, htrap⟩, hnot⟩ | ⟨fs1, hfirst, -, hfail⟩ |
      ⟨addr, stamp, buffer1, fs1, hhost, hstamp, -, hfirst, hv1, -, -, -⟩
    · rw [htrap]
      constructor
      · rintro ⟨r, h⟩
        cases h
      · intro h
        exact absurd (h rfl) hnot
    · -- The timestamp was made before the `open` failed.
      have hstamp : ∃ stamp, mergeTimestamp cfg heap t c.aggregateContext = .ok stamp := by
        cases hstamp : mergeTimestamp cfg heap t c.aggregateContext with
        | ok stamp => exact ⟨stamp, rfl⟩
        | error e =>
          have hmode : c.aggregateContext.all (·.fMerge) = true := hmerge
          unfold mergeText at hfirst
          rw [if_pos hmode] at hfirst
          simp only [doMergeFile, hstamp, error_bind] at hfirst
          cases hfirst
      obtain ⟨buffer', fs', happend, -⟩ := appendText_cases c hv text fs1
      simp only [hfirst, ok_bind, happend]
      exact ⟨fun _ _ => ⟨hstamp, Or.inl hfail⟩, fun _ => ⟨_, rfl⟩⟩
    · obtain ⟨buffer', fs', happend, -⟩ := appendText_cases c hv1 text fs1
      simp only [hfirst, ok_bind, happend]
      exact ⟨fun _ _ => ⟨⟨stamp, hstamp⟩, Or.inr (by simp [hhost])⟩, fun _ => ⟨_, rfl⟩⟩

/-- The second branch on a text that cannot be read. -/
theorem recordText_of_error (hv : c.buffer.Valid) :
    (∃ r, recordText cfg heap conn c t (.error trap) fs = .ok r) ↔
      (Merging c = true →
        (∃ stamp, mergeTimestamp cfg heap t c.aggregateContext = .ok stamp) ∧
        fs.results.headD .ok = .fail) ∧
      (Separating c = true →
        (if Merging c then fs.results.tail else fs.results).headD .ok = .fail) := by
  unfold recordText
  cases hmerge : Merging c with
  | false =>
    simp only [mergeText_of_off _ hmerge, ok_bind]
    rw [appendText_of_error hv]
    simp
  | true =>
    -- The first `open` decides whether the text is needed for the merged record.
    rcases mergeText_of_error cfg heap conn t trap fs hv hmerge with
      ⟨hstamp, hfail, fs1, hfirst, hresults⟩ | ⟨hnot, e, hfirst⟩
    · simp only [hfirst, ok_bind, if_true]
      rw [appendText_of_error hv, hresults]
      exact ⟨fun h => ⟨fun _ => ⟨hstamp, hfail⟩, h⟩, fun h => h.2⟩
    · simp only [hfirst, error_bind]
      constructor
      · rintro ⟨r, h⟩
        cases h
      · rintro ⟨h, -⟩
        exact absurd (h trivial) hnot

/-- The two branches have defined behaviour exactly when the text can be put where it
belongs. -/
theorem takeText_ok_iff {msg : ScLogMessage} (hv : c.buffer.Valid)
    (hsize : msg.content.size = BUFSIZE) (hfit : msg.contentLength.toInt ≤ BUFSIZE) :
    (∃ r, takeText cfg heap conn c (attrOf msg) (timeOf msg) (textLength msg)
      (msg.content.load 12 (textLength msg)) fs = .ok r) ↔ Storable cfg heap conn c msg fs := by
  unfold takeText Storable
  by_cases hlong : 12 ≤ msg.contentLength.toInt
  · have hwhole : WholeData msg := ⟨hlong, by rw [hsize]; exact hfit⟩
    have hlen : (textOf msg).length = textLength msg := Block.length_bytes _ _ _
    rw [hwhole.load_text]
    split
    · have hlt : (textOf msg).length < 2 ^ 31 := by
        rw [hlen, hwhole.textLength]
        unfold BUFSIZE at hfit
        omega
      -- A piece of a line is pushed into the buffer of the channel.
      rw [← bufferText_ok_iff hv hlt, and_iff_right hlong, ← hlen]
      constructor
      · rintro ⟨r, h⟩
        obtain ⟨b, hb, -⟩ := bind_eq_ok.mp h
        exact ⟨b, hb⟩
      · rintro ⟨b, hb⟩
        rw [hb]
        exact ⟨_, rfl⟩
    · rw [recordText_ok_iff hv]
      simp [hlong]
  · -- The text length has wrapped, and the read leaves the block.
    have hlow := BitVec.le_toInt msg.contentLength
    have hwrap : textLength msg = (msg.contentLength.toInt - 12 + 2 ^ 64).toNat := by
      unfold textLength toSize
      rw [← Int.add_emod_right, Int.emod_eq_of_lt] <;> omega
    have hload : msg.content.load 12 (textLength msg) = .error .oobRead := by
      unfold Block.load
      rw [if_neg (by rw [hsize]; unfold BUFSIZE; omega)]
    rw [hload]
    split
    · obtain ⟨e, he⟩ := bufferText_of_error heap c.buffer (textLength msg) .oobRead
      rw [he]
      constructor
      · rintro ⟨r, h⟩
        cases h
      · rintro ⟨h, -⟩
        exact absurd h hlong
    · rw [recordText_of_error hv]
      simp [hlong]

end

/-! ### The other handlers -/

section
variable {cfg : Config} {heap : Heap} {chunks : List Nat} {conn : ScConnection} {fs : Fs}
  {msg : ScLogMessage}

/-- `handler_init` gets past its name only with a content that has room for it. -/
theorem le_length_of_init {r : Handled} (hsize : msg.content.size = BUFSIZE)
    (h : handlerInit cfg heap chunks msg conn fs = .ok r) : 4 ≤ msg.contentLength.toInt := by
  obtain ⟨attr, -, h⟩ := bind_eq_ok.mp h
  simp only at h
  split at h
  · cases h
  · rename_i hnonneg
    obtain ⟨p, hload, -⟩ := bind_eq_ok.mp h
    obtain ⟨hfits, -⟩ := Block.load_eq_ok.mp hload
    -- The difference has not wrapped: it would be larger than the block.
    have hlow := BitVec.le_toInt msg.contentLength
    have hhigh := BitVec.toInt_lt (x := msg.contentLength)
    have hfour : (4 : BitVec 32).toInt = 4 := by decide
    rw [hsize] at hfits
    rw [BitVec.toInt_sub, hfour, Int.bmod_def] at hnonneg hfits
    unfold BUFSIZE at hfits
    split at hnonneg <;> omega

/-- The number that a 16-bit field gives back is the one that was put in, below `2 ^ 15`. -/
theorem toInt_ofInt_eq_iff {x : Int} (h0 : 0 ≤ x) : (BitVec.ofInt 16 x).toInt = x ↔ x < 2 ^ 15 := by
  constructor
  · intro h
    have hlt := BitVec.toInt_lt (x := BitVec.ofInt 16 x)
    omega
  · intro h
    exact toInt_ofInt_of_lt h0 h

/-- A lookup that finds a channel finds one that can be deleted. -/
theorem delete_of_lookup {id : Int} (hwf : conn.WellFormed) :
    (∃ conn', scConnectionDeleteChannel conn (scConnectionChannel conn id) = .ok conn') ↔
      scConnectionChannel conn id ≠ none := by
  cases hlookup : scConnectionChannel conn id with
  | none =>
    constructor
    · rintro ⟨conn', h⟩
      cases h
    · intro h
      exact absurd rfl h
  | some c =>
    obtain ⟨li, hli, -⟩ := scConnectionDeleteChannel_of_mem hwf (mem_of_scConnectionChannel hlookup)
    exact ⟨fun _ => by simp, fun _ => ⟨_, hli⟩⟩

end

/-! ### The decoder -/

/-- A frame that was sent is what the follower receives. -/
theorem decodes_of_frame {g : Frame} (hlen : 0 ≤ g.contentLength.toInt) {memory : Heap}
    (hmem : ∀ n, memory.malloc n = true) {t : Streams} {tail : Bytes}
    (ht : t.incoming.bytes = g.bytes ++ tail) :
    ∃ m rest, scAggregatorConnectionReceiveMessage Streams.net memory ⟨true, t⟩ =
        .ok (0, some m, ⟨true, { t with incoming := rest }⟩) ∧
      rest.bytes = tail ∧ m.frame = g ∧
      headerSize + m.contentLength.toInt = g.bytes.length := by
  obtain ⟨m, rest, hrecv, hframe, -, hrest, -⟩ :=
    Streams.receive_of_frame ht hlen (hmem (headerSize + g.content.length))
  have hlength : m.contentLength = g.contentLength := congrArg Frame.contentLength hframe
  have hcomplete := g.complete
  refine ⟨m, rest, hrecv, hrest, hframe, ?_⟩
  rw [Frame.length_bytes, hlength]
  omega

/-- A call that sends one frame gives one response when the frame answers the request. -/
theorem oneResponse_of_frame {cfg : Config} {heap : Heap} {chunks : List Nat}
    {conn : ScConnection} {fs : Fs} {s : Incoming} {f g : Frame} {o : Outcome}
    (h : doReceive cfg heap chunks conn fs s = .ok o) (hsent : o.sent = g.bytes)
    (hlen : 0 ≤ g.contentLength.toInt) (hanswers : Answers conn f o g.code g.channel) :
    OneResponse cfg heap chunks conn fs s f := by
  refine ⟨o, h, ?_⟩
  intro memory t tail hmem ht
  rw [hsent] at ht
  obtain ⟨m, rest, hrecv, hrest, hframe, hlength⟩ := decodes_of_frame hlen hmem ht
  have hcode : m.code = g.code := congrArg Frame.code hframe
  have hchannel : m.channel = g.channel := congrArg Frame.channel hframe
  refine ⟨m, rest, hrecv, hrest, by rw [hframe, hsent], by rw [hlength, hsent], ?_⟩
  rw [hcode, hchannel]
  exact hanswers

/-- What was sent begins with the code and the channel of the answer. -/
theorem answers_of_oneResponse {cfg : Config} {heap : Heap} {chunks : List Nat}
    {conn : ScConnection} {fs : Fs} {s : Incoming} {f : Frame}
    (h : OneResponse cfg heap chunks conn fs s f) :
    ∃ o, doReceive cfg heap chunks conn fs s = .ok o ∧ headerSize ≤ o.sent.length ∧
      Answers conn f o (codeOf o.sent) (channelOf o.sent) := by
  obtain ⟨o, hrecv, hdecodes⟩ := h
  obtain ⟨m, rest, -, -, hbytes, -, hanswers⟩ :=
    hdecodes zeroHeap ⟨[], ⟨arrivalsOf o.sent, .eof⟩, []⟩ [] (fun _ => rfl)
      (by simp [Incoming.bytes])
  refine ⟨o, hrecv, ?_, ?_⟩
  · rw [← hbytes, Frame.length_bytes]
    omega
  · rw [← hbytes, codeOf_bytes, channelOf_bytes]
    exact hanswers

/-! ### The result -/

/-- The code that a handler other than `handler_dummy` is for. -/
def codeFor : Handler → BitVec 16
  | .init => SCM_MSG_INIT
  | .seek => SCM_MSG_SEEK
  | .data => SCM_MSG_DATA
  | .rele => SCM_MSG_RELE
  | .dummy => SCM_MSG_NONE

/-- A handler other than the dummy is called for its own code only. -/
theorem code_of_handlerFor {code channel : BitVec 16} {handler : Handler}
    (h : handlerFor code channel = some handler) (hdummy : handler ≠ .dummy) :
    code = codeFor handler := by
  unfold handlerFor at h
  repeat' split at h
  all_goals cases h
  all_goals first | assumption | exact absurd rfl hdummy

section
variable {cfg : Config} {heap : Heap} {chunks : List Nat} {conn : ScConnection} {fs : Fs}
  {s : Incoming} {f : Frame} {msg : ScLogMessage} {rest : Incoming}

/-- A call of `do_receive` whose message is there is the call of its handler. -/
theorem doReceive_of_message (hrecv : receiveFrame heap s = .ok (some msg, rest)) {o : Outcome} :
    doReceive cfg heap chunks conn fs s = .ok o ↔
      ∃ r, handle cfg heap chunks msg conn fs = .ok r ∧
        o = ⟨some r.conn, r.fs, rest,
          (handlerFor msg.code msg.channel).map fun h => (h, msg.frame), r.sent⟩ := by
  unfold doReceive
  rw [hrecv]
  simp only [ok_bind]
  rw [bind_eq_ok]
  simp only [Except.ok.injEq, eq_comm]

/-- What is answerable gets one response. -/
theorem oneResponse_of_answerable (hwf : conn.WellFormed)
    (hrecv : receiveFrame heap s = .ok (some msg, rest)) (hframe : msg.frame = f)
    (hsize : msg.content.size = BUFSIZE) (hfit : msg.contentLength.toInt ≤ BUFSIZE)
    (h : Answerable cfg heap conn fs msg) : OneResponse cfg heap chunks conn fs s f := by
  subst hframe
  unfold Answerable at h
  cases hhandler : handlerFor msg.code msg.channel with
  | none =>
    rw [hhandler] at h
    exact absurd h id
  | some handler =>
    rw [hhandler] at h
    cases handler with
    | dummy =>
      have hcall : handle cfg heap chunks msg conn fs =
          .ok ⟨conn, fs, (Frame.ofContent SCM_RESP_NG 0 [] (Nat.two_pow_pos 31)).bytes⟩ := by
        unfold handle handlerDummy
        simp only [hhandler]
        rw [scConnectionSend_ofContent SCM_RESP_NG 0 [] (Nat.two_pow_pos 31)]
        rfl
      exact oneResponse_of_frame ((doReceive_of_message hrecv).mpr ⟨_, hcall, rfl⟩) rfl
        (by decide) (Or.inl ⟨rfl, rfl⟩)
    | init =>
      obtain ⟨hlong, ⟨channel, hnew⟩, hnumber⟩ := h
      have hwhole : WholeInit msg := ⟨hlong, by rw [hsize]; exact hfit⟩
      have hnonneg := maxId_nonneg conn.channelList
      -- A number is left, so the registration gives the next one.
      obtain ⟨conn', channel', hreg, hid, hlist⟩ : ∃ conn' channel',
          scConnectionRegisterChannel conn channel = .ok (conn', channel') ∧
          channel'.id = maxId conn.channelList + 1 ∧
          conn'.channelList = channel' :: conn.channelList :=
        ⟨_, _, scConnectionRegisterChannel_eq_ok.mpr ⟨by unfold INT_MAX; omega, rfl, rfl⟩, rfl, rfl⟩
      have hcall : handle cfg heap chunks msg conn fs =
          .ok ⟨conn', fs, (initFrame cfg chunks fs channel' (attrOf msg)).bytes⟩ := by
        unfold handle
        simp only [hhandler]
        exact (handlerInit_eq_ok hwhole).mpr ⟨channel, _, hnew, hreg, rfl, rfl⟩
      refine oneResponse_of_frame ((doReceive_of_message hrecv).mpr ⟨_, hcall, rfl⟩) rfl ?_ ?_
      · show 0 ≤ (BitVec.ofNat 32 _).toInt
        rw [toInt_ofNat_of_lt (length_initContent_lt ..)]
        exact Int.natCast_nonneg _
      · refine Or.inr ⟨rfl, ?_⟩
        have hcode : msg.frame.code = SCM_MSG_INIT := code_of_handlerFor hhandler (by decide)
        rw [if_pos hcode]
        exact ⟨channel', conn', rfl, hlist, toInt_ofInt_of_lt (by omega) (by omega)⟩
    | seek => exact absurd h id
    | data =>
      obtain ⟨c, hlookup, hstorable⟩ := h
      have hvalid := hwf.valid c (mem_of_scConnectionChannel hlookup)
      -- The text can be stored, so the handler reaches its response.
      obtain ⟨⟨buffer', fs'⟩, htake⟩ := (takeText_ok_iff hvalid hsize hfit).mpr hstorable
      have hcall : handle cfg heap chunks msg conn fs =
          .ok ⟨conn.update { c with buffer := buffer' }, fs', (okFrame msg.channel).bytes⟩ := by
        unfold handle handlerData
        simp only [hhandler, hlookup]
        rw [Block.load_of_le (by rw [hsize]; decide), Block.load_of_le (by rw [hsize]; decide)]
        simp only [ok_bind]
        change takeText cfg heap conn c (attrOf msg) (timeOf msg) (textLength msg)
          (msg.content.load 12 (textLength msg)) fs >>= _ = _
        rw [htake, ok_bind]
        simp only [scConnectionSend_okResponse, ok_bind]
      have hcode : msg.frame.code = SCM_MSG_DATA := code_of_handlerFor hhandler (by decide)
      refine oneResponse_of_frame ((doReceive_of_message hrecv).mpr ⟨_, hcall, rfl⟩) rfl
        okFrame_length (Or.inr ⟨rfl, ?_⟩)
      rw [if_neg (by rw [hcode]; decide)]
      rfl
    | rele =>
      obtain ⟨conn', hdelete⟩ := (delete_of_lookup hwf).mpr h
      have hcall : handle cfg heap chunks msg conn fs =
          .ok ⟨conn', fs, (okFrame msg.channel).bytes⟩ := by
        unfold handle handlerRele
        simp only [hhandler, hdelete, ok_bind, scConnectionSend_okResponse]
      have hcode : msg.frame.code = SCM_MSG_RELE := code_of_handlerFor hhandler (by decide)
      refine oneResponse_of_frame ((doReceive_of_message hrecv).mpr ⟨_, hcall, rfl⟩) rfl
        okFrame_length (Or.inr ⟨rfl, ?_⟩)
      rw [if_neg (by rw [hcode]; decide)]
      rfl

/-- `handler_seek` sends its code in host order, and that is no response code. -/
theorem codeOf_of_seek {channel : Option ScChannel} {r : Handled}
    (h : handlerSeek msg conn channel fs = .ok r) :
    codeOf r.sent ≠ SCM_RESP_OK ∧ codeOf r.sent ≠ SCM_RESP_NG := by
  obtain ⟨bs, -, h⟩ := bind_eq_ok.mp h
  cases channel with
  | none => cases h
  | some c =>
    obtain ⟨sent, hload, h⟩ := bind_eq_ok.mp h
    cases h
    have hfour : 4 ≤ (okResponse msg.channel).content.size := Nat.le_refl 4
    rw [ScLogMessage.load_of_le hfour] at hload
    have hcode : codeOf sent = htons SCM_RESP_OK := by
      cases hload
      have htake : ((okResponse msg.channel).header ++
          (okResponse msg.channel).content.bytes 0 4).take 2 = image 2 SCM_RESP_OK := by
        simp only [ScLogMessage.header, List.append_assoc]
        exact List.take_left' (by simp)
      rw [codeOf, htake, word_image (by norm_num)]
    show codeOf sent ≠ _ ∧ codeOf sent ≠ _
    rw [hcode]
    exact ⟨by decide, by decide⟩

/-- What gets one response is answerable. -/
theorem answerable_of_oneResponse (hwf : conn.WellFormed)
    (hrecv : receiveFrame heap s = .ok (some msg, rest)) (hframe : msg.frame = f)
    (hsize : msg.content.size = BUFSIZE) (hfit : msg.contentLength.toInt ≤ BUFSIZE)
    (h : OneResponse cfg heap chunks conn fs s f) : Answerable cfg heap conn fs msg := by
  subst hframe
  obtain ⟨o, hdo, hlen, hanswers⟩ := answers_of_oneResponse h
  obtain ⟨r, hcall, rfl⟩ := (doReceive_of_message hrecv).mp hdo
  simp only at hlen hanswers
  unfold Answerable
  unfold handle at hcall
  cases hhandler : handlerFor msg.code msg.channel with
  | none =>
    simp only [hhandler] at hcall
    cases hcall
    -- No handler, no response.
    exact absurd hlen (Nat.not_succ_le_zero 7)
  | some handler =>
    simp only [hhandler] at hcall
    cases handler with
    | dummy => trivial
    | init =>
      have hlong := le_length_of_init hsize hcall
      have hwhole : WholeInit msg := ⟨hlong, by rw [hsize]; exact hfit⟩
      obtain ⟨channel, channel', hnew, hreg, -, hsent⟩ := (handlerInit_eq_ok hwhole).mp hcall
      obtain ⟨-, hchannel', hconn⟩ := scConnectionRegisterChannel_eq_ok.mp hreg
      rw [hsent, codeOf_bytes, channelOf_bytes] at hanswers
      refine ⟨hlong, ⟨channel, hnew⟩, ?_⟩
      have hnonneg := maxId_nonneg conn.channelList
      rcases hanswers with ⟨hng, -⟩ | ⟨-, hnumber⟩
      · exact absurd hng (by show ¬ SCM_RESP_OK = SCM_RESP_NG; decide)
      · have hcode : msg.frame.code = SCM_MSG_INIT := code_of_handlerFor hhandler (by decide)
        rw [if_pos hcode] at hnumber
        obtain ⟨c, conn', hsome, hlist, hid⟩ := hnumber
        cases hsome
        rw [hconn] at hlist
        have hsame : channel' = c := (List.cons.inj hlist).1
        have hid' : channel'.id = maxId conn.channelList + 1 := by rw [hchannel']
        rw [← hsame] at hid
        rw [← hid']
        -- The number survives the 16 bits of the header only below 2^15.
        exact (toInt_ofInt_eq_iff (by omega)).mp hid
    | seek =>
      obtain ⟨hnotOk, hnotNg⟩ := codeOf_of_seek hcall
      rcases hanswers with ⟨hng, -⟩ | ⟨hok, -⟩
      · exact absurd hng hnotNg
      · exact absurd hok hnotOk
    | data =>
      cases hlookup : scConnectionChannel conn msg.channel.toInt with
      | none =>
        rw [hlookup] at hcall
        cases hcall
      | some c =>
        rw [hlookup] at hcall
        have hvalid := hwf.valid c (mem_of_scConnectionChannel hlookup)
        refine ⟨c, rfl, (takeText_ok_iff hvalid hsize hfit).mp ?_⟩
        unfold handlerData at hcall
        simp only at hcall
        rw [Block.load_of_le (by rw [hsize]; decide), Block.load_of_le (by rw [hsize]; decide)]
          at hcall
        simp only [ok_bind] at hcall
        obtain ⟨taken, htake, -⟩ := bind_eq_ok.mp hcall
        exact ⟨taken, htake⟩
    | rele =>
      obtain ⟨hdelete, -⟩ := handlerRele_conn hcall
      exact (delete_of_lookup hwf).mp ⟨_, hdelete⟩

end

/-- A complete frame that fits the block, on a well-formed connection: it gets one response
exactly when it is answerable. -/
theorem one_response_iff {cfg : Config} {heap : Heap} {chunks : List Nat} {conn : ScConnection}
    {fs : Fs} {s : Incoming} {f : Frame} {tail : Bytes} (hwf : conn.WellFormed)
    (hs : s.bytes = f.bytes ++ tail) (hfit : f.content.length ≤ BUFSIZE) :
    ∃ msg rest, receiveFrame heap s = .ok (some msg, rest) ∧ msg.frame = f ∧
      (OneResponse cfg heap chunks conn fs s f ↔ Answerable cfg heap conn fs msg) := by
  obtain ⟨msg, rest, hrecv, hframe, hsize, -, -⟩ := receiveFrame_of_frame heap hs hfit
  have hlength : msg.contentLength = f.contentLength := congrArg Frame.contentLength hframe
  have hcomplete := f.complete
  have hlen : msg.contentLength.toInt ≤ BUFSIZE := by
    rw [hlength]
    omega
  exact ⟨msg, rest, hrecv, hframe,
    answerable_of_oneResponse hwf hrecv hframe hsize hlen,
    oneResponse_of_answerable hwf hrecv hframe hsize hlen⟩

/-- A RELE request for channel 1. -/
def smallRele : Frame := .empty SCM_MSG_RELE 1

/-- The release of a registered channel gets one response. -/
theorem one_response_smallRele :
    OneResponse (smallConfig []) zeroHeap [] (oneChannel []).conn Fs.empty
      ⟨arrivalsOf smallRele.bytes, .eof⟩ smallRele := by
  have hs : Incoming.bytes ⟨arrivalsOf smallRele.bytes, .eof⟩ = smallRele.bytes ++ [] := by
    simp [Incoming.bytes]
  obtain ⟨msg, rest, -, hframe, hiff⟩ := one_response_iff (oneChannel_wellFormed []) hs
    (by decide)
  have hcode : msg.code = SCM_MSG_RELE := congrArg Frame.code hframe
  have hchannel : msg.channel = 1 := congrArg Frame.channel hframe
  refine hiff.mpr ?_
  unfold Answerable
  rw [hcode, hchannel]
  show scConnectionChannel (oneChannel []).conn (1 : BitVec 16).toInt ≠ none
  exact Option.some_ne_none _

/-- A SEEK request for channel 1, to the start of the file. -/
def smallSeek : Frame := .ofContent SCM_MSG_SEEK 1 (List.replicate 8 0) (by decide)

/-- A SYNC request for channel 1. -/
def smallSync : Frame := .empty SCM_MSG_SYNC 1

/-- On a registered channel SEEK is answered in host order, and SYNC is not answered. -/
theorem no_response :
    ¬ OneResponse (smallConfig []) zeroHeap [] (oneChannel []).conn Fs.empty
        ⟨arrivalsOf smallSeek.bytes, .eof⟩ smallSeek ∧
      ¬ OneResponse (smallConfig []) zeroHeap [] (oneChannel []).conn Fs.empty
        ⟨arrivalsOf smallSync.bytes, .eof⟩ smallSync := by
  constructor
  · intro h
    obtain ⟨o, hdo, -, hanswers⟩ := answers_of_oneResponse h
    -- The code of the SEEK answer was not put in network order.
    have hcode : (doReceive (smallConfig []) zeroHeap [] (oneChannel []).conn Fs.empty
        ⟨arrivalsOf smallSeek.bytes, .eof⟩).map (fun o => codeOf o.sent) = .ok 0xE903 := by
      rfl
    rw [hdo] at hcode
    simp only [Except.map, Except.ok.injEq] at hcode
    unfold Answers at hanswers
    rw [hcode] at hanswers
    rcases hanswers with ⟨hng, -⟩ | ⟨hok, -⟩
    · exact absurd hng (by decide)
    · exact absurd hok (by decide)
  · intro h
    obtain ⟨o, hdo, hlen, -⟩ := answers_of_oneResponse h
    -- A code without a handler sends nothing.
    have hsent : (doReceive (smallConfig []) zeroHeap [] (oneChannel []).conn Fs.empty
        ⟨arrivalsOf smallSync.bytes, .eof⟩).map (fun o => o.sent) = .ok [] := by
      rfl
    rw [hdo] at hsent
    simp only [Except.map, Except.ok.injEq] at hsent
    rw [hsent] at hlen
    exact absurd hlen (by decide)

end Compostela.Proofs.Responses
