import Compostela.Follower.Client
import Compostela.Lib.Ranges
import Compostela.System.Wire
import Mathlib.Data.List.Forall2

/-!
# `Compostela.Proofs.LineSegments`: the texts of the DATA messages

Each call of `_run_follow_context` takes the next line of the followed file, or the next piece of
one, into a DATA message. Three limits decide where a line is cut: what `read` delivers, the 8192
bytes of the read buffer, and the 8180 bytes that a message has for its text.

`Reading` is the invariant of a registered context whose messages are all answered with `OK`: the
texts so far and the buffered bytes are what was read from the start position on. `Reading.run` is
one call, and `lines_segmented` a run of calls.
-/

set_option autoImplicit false

namespace Compostela.Proofs.LineSegments

open Compostela.Common
open Compostela.Memory
open Compostela.Ranges
open Compostela.Runs
open Compostela.Follower
open Compostela.System

/-! ### The messages -/

/-- What a DATA message has behind its header. -/
structure Segment where
  attr : BitVec 32
  time : BitVec 64
  text : Bytes

/-- The content of the message. -/
def Segment.content (s : Segment) : Bytes := netImage 4 s.attr ++ netImage 8 s.time ++ s.text

/-- The request is the DATA message of the segment, on the channel. -/
def IsData (channel : Int) (t : Transmission) (s : Segment) : Prop :=
  ∃ f : Frame, t.request = .ok f.bytes ∧ f.contentLength.toInt = s.content.length ∧
    IsFrame f SCM_MSG_DATA (.ofInt 16 channel) s.content

/-- A segment that fits a message. Its only newline is at its end, and the attribute says whether
it has one. -/
structure Segment.Cut (s : Segment) : Prop where
  nonempty : s.text ≠ []
  text_le : s.text.length ≤ 8180
  content_le : s.content.length ≤ 8192
  newline : LF ∉ s.text.dropLast
  attr_iff : s.attr &&& ATTR_TOP ≠ 0 ↔ s.text.getLast? = some LF

section
variable {σ : Type} (net : Net σ) (md5 : Md5)

/-- The DATA message that a call sends is answered with `OK`. -/
def Answered (c : Client σ) : Event σ → Prop
  | .run inp => ∀ cxt conn, prepareData net md5 inp c.cxt c.conn = .ok (none, cxt, conn) →
      ∃ resp cxt' conn', scFollowContextProcData net (inp.heap 2) cxt conn =
        .ok (0, some resp, cxt', conn') ∧ resp.code = SCM_RESP_OK
  | _ => True

end

/-! ### A registered context -/

/-- A context that is registered and has nothing pending. The texts of its messages so far and
what it has buffered are what it read from the position `start` of the file on. -/
structure Reading (file : Bytes) (start : Nat) (channel : Int) (texts : Bytes)
    (cxt : ScFollowContext) : Prop where
  fd : cxt.fd ≠ -1
  channel_eq : cxt.channel = channel
  channel_ne : channel ≠ 0
  code : cxt.messageBuffer.code = SCM_MSG_NONE
  room : cxt.messageBuffer.content.size = BUFSIZE
  valid : cxt.buffer.Valid
  offset : cxt.offset = start + (texts ++ cxt.buffer.unread).length
  bytes : texts ++ cxt.buffer.unread <+: file.drop start

section
variable {σ : Type} {net : Net σ} {md5 : Md5} {inp : RunInput} {file texts : Bytes} {start : Nat}
  {channel : Int}

/-- The bytes read are the texts and what is buffered. -/
theorem Reading.read_eq {cxt : ScFollowContext} (h : Reading file start channel texts cxt) :
    texts ++ cxt.buffer.unread = (file.drop start).take (cxt.offset - start) := by
  have hoffset := h.offset
  have hcount : cxt.offset - start = (texts ++ cxt.buffer.unread).length := by omega
  rw [hcount]
  exact List.prefix_iff_eq_take.mp h.bytes

/-- A line is taken from what was buffered and read. -/
theorem Reading.took {cxt cxt' : ScFollowContext} {got line : Bytes}
    (h : Reading file start channel texts cxt) (hfile : inp.file <+: file)
    (htook : Took inp cxt cxt' got line) :
    cxt'.offset = start + (texts ++ line ++ cxt'.buffer.unread).length ∧
      texts ++ line ++ cxt'.buffer.unread <+: file.drop start := by
  have hoffset := h.offset
  have hbytes : texts ++ line ++ cxt'.buffer.unread = texts ++ cxt.buffer.unread ++ got := by
    rw [List.append_assoc, ← htook.bytes, List.append_assoc]
  have hgot : got <+: file.drop (start + (texts ++ cxt.buffer.unread).length) := by
    rw [← hoffset]
    obtain ⟨more, hmore⟩ := hfile
    rw [← hmore]
    exact prefix_drop_grow htook.fetched more
  -- The position moves by what was read, and not by the length of the line.
  have hmoved : cxt'.offset = cxt.offset + got.length := by rw [htook.rest]
  constructor
  · rw [hbytes, List.length_append, hmoved]
    omega
  · rw [hbytes]
    exact prefix_drop_append h.bytes hgot

/-- A context that is registered and has its file open goes straight to the next line. -/
theorem Reading.prepareData {cxt : ScFollowContext} (net : Net σ) (md5 : Md5)
    (conn : ScAggregatorConnection σ) (h : Reading file start channel texts cxt)
    (hfd : 0 < cxt.fd) :
    ∃ ret cb cxt1 got line complete, fillMessage inp cxt = .ok (ret, cb, cxt1) ∧
      Took inp cxt cxt1 got line ∧
      (∀ r, ret = some r → line = [] ∧ cxt1.messageBuffer = cxt.messageBuffer ∧
        prepareData net md5 inp cxt conn = .ok (some r, cxt1, conn)) ∧
      (ret = none → cb = line.length ∧ line ≠ [] ∧
        storeLine inp complete line cxt.messageBuffer = .ok cxt1.messageBuffer ∧
        IsPiece complete line ∧
        prepareData net md5 inp cxt conn = .ok (none, dataHeader cb cxt1, conn)) := by
  obtain ⟨ret, cb, cxt1, hfill⟩ := exists_fillMessage inp h.valid h.room
  obtain ⟨got, line, complete, htook, hnothing, hline⟩ := fillMessage_took h.valid hfill
  -- The file is open and the channel is known, so no INIT is sent.
  have hopen : ensureOpen net md5 inp cxt conn = .ok (none, cxt, conn) :=
    if_neg (Int.not_le.mpr hfd)
  have hchannel : cxt1.channel ≠ 0 := by
    have hsame : cxt1.channel = cxt.channel := by rw [htook.rest]
    rw [hsame, h.channel_eq]
    exact h.channel_ne
  refine ⟨ret, cb, cxt1, got, line, complete, hfill, htook, ?_, ?_⟩
  · rintro r rfl
    obtain ⟨hempty, hmsg, -⟩ := hnothing nofun
    refine ⟨hempty, hmsg, ?_⟩
    unfold Follower.prepareData
    rw [hopen, ok_bind]
    simp only [hfill, ok_bind]
  · rintro rfl
    obtain ⟨hcb, hstore, hpiece⟩ := hline rfl
    have hensure : ensureChannel net md5 inp cxt1 conn = .ok (cxt1, conn) := if_neg hchannel
    refine ⟨hcb, ?_, hstore, hpiece, ?_⟩
    · exact List.ne_nil_of_length_pos (hcb ▸ fillMessage_pos h.valid hfill)
    · unfold Follower.prepareData
      rw [hopen, ok_bind]
      simp only [hfill, ok_bind, hensure]

/-- The segment of a line. -/
def segmentOf (inp : RunInput) (complete : Bool) (line : Bytes) : Segment where
  attr := if complete then ATTR_TOP else 0
  time := inp.time
  text := line

/-- A line that is read is cut well. -/
theorem cut_segmentOf {complete : Bool} {line : Bytes} (hne : line ≠ [])
    (hle : line.length ≤ BUFSIZE - cb0) (hpiece : IsPiece complete line) :
    (segmentOf inp complete line).Cut := by
  have hlen : (segmentOf inp complete line).content.length = cb0 + line.length := by
    simp [Segment.content, segmentOf, cb0]
    omega
  have htop : ATTR_TOP &&& ATTR_TOP ≠ 0 := by decide
  have hzero : ¬ (0 &&& ATTR_TOP ≠ 0) := by decide
  unfold BUFSIZE cb0 at hle
  refine ⟨hne, hle, by rw [hlen]; unfold cb0; omega, ?_, ?_⟩
  · show LF ∉ line.dropLast
    cases complete with
    | true =>
      obtain ⟨init, rfl, hinit⟩ := hpiece
      rwa [List.dropLast_concat]
    | false => exact fun hmem => hpiece (List.dropLast_subset line hmem)
  · -- The attribute has the bit exactly for a complete line.
    show (if complete then ATTR_TOP else 0) &&& ATTR_TOP ≠ 0 ↔ line.getLast? = some LF
    cases complete with
    | true =>
      obtain ⟨init, rfl, -⟩ := hpiece
      simpa using htop
    | false =>
      have hlast : line.getLast? ≠ some LF := fun h => hpiece (List.mem_of_getLast? h)
      exact ⟨fun h => absurd h hzero, fun h => absurd h hlast⟩

/-- A call that has nothing to send ends with its preparation. -/
theorem step_of_nothing {c : Client σ} {r : Int} {cxt1 : ScFollowContext}
    {conn1 : ScAggregatorConnection σ} (hopened : c.conn.opened ≠ false)
    (hcode : c.cxt.messageBuffer.code = SCM_MSG_NONE)
    (hprep : prepareData net md5 inp c.cxt c.conn = .ok (some r, cxt1, conn1)) :
    c.step net md5 (.run inp) = .ok ⟨cxt1, conn1⟩ ∧ c.transmission net md5 inp = none := by
  have hrun : runFollowContext net md5 inp c.cxt c.conn = .ok (r, cxt1, conn1) := by
    unfold runFollowContext
    rw [if_neg hopened, if_pos hcode, hprep, ok_bind]
  constructor
  · simp only [Client.step, hrun, ok_bind]
  · unfold Client.transmission
    rw [if_neg hopened, if_pos hcode, hprep]

/-- A call that prepares a message sends it, and ends with the exchange. -/
theorem step_of_prepared {c : Client σ} {ret : Int} {cxt1 cxt2 : ScFollowContext}
    {conn1 conn2 : ScAggregatorConnection σ} (hopened : c.conn.opened ≠ false)
    (hcode : c.cxt.messageBuffer.code = SCM_MSG_NONE)
    (hprep : prepareData net md5 inp c.cxt c.conn = .ok (none, cxt1, conn1))
    (hexchange : exchangeData net inp cxt1 conn1 = .ok (ret, cxt2, conn2)) :
    c.step net md5 (.run inp) = .ok ⟨cxt2, conn2⟩ ∧
      c.transmission net md5 inp = dataRequest false cxt1 conn1 := by
  have hrun : runFollowContext net md5 inp c.cxt c.conn = .ok (ret, cxt2, conn2) := by
    unfold runFollowContext
    rw [if_neg hopened, if_pos hcode, hprep, ok_bind]
    exact hexchange
  constructor
  · simp only [Client.step, hrun, ok_bind]
  · unfold Client.transmission
    rw [if_neg hopened, if_pos hcode, hprep]

/-- A descriptor that is not positive seems to be closed, and `open_file` refuses to open the file
again. -/
theorem Reading.run_of_fd {c : Client σ} (net : Net σ) (md5 : Md5) (inp : RunInput)
    (h : Reading file start channel texts c.cxt) (hopened : c.conn.opened ≠ false)
    (hfd : ¬ 0 < c.cxt.fd) :
    c.step net md5 (.run inp) = .ok c ∧ c.transmission net md5 inp = none := by
  have hopen : ensureOpen net md5 inp c.cxt c.conn = .ok (some 1, c.cxt, c.conn) := by
    unfold ensureOpen scFollowContextOpenFile
    rw [if_pos (Int.not_lt.mp hfd), if_pos h.fd]
    exact if_pos (by decide)
  have hprep : Follower.prepareData net md5 inp c.cxt c.conn = .ok (some 1, c.cxt, c.conn) := by
    unfold Follower.prepareData
    rw [hopen, ok_bind]
  exact step_of_nothing hopened h.code hprep

/-- A line that was read is sent as one segment. `OK` clears the message and keeps the rest. -/
theorem Reading.run_line {c : Client σ} {cxt1 : ScFollowContext} {got line : Bytes}
    {complete : Bool} (h : Reading file start channel texts c.cxt) (hfile : inp.file <+: file)
    (hans : Answered net md5 c (.run inp)) (hopened : c.conn.opened = true)
    (htook : Took inp c.cxt cxt1 got line) (hne : line ≠ [])
    (hstore : storeLine inp complete line c.cxt.messageBuffer = .ok cxt1.messageBuffer)
    (hpiece : IsPiece complete line)
    (hprep : Follower.prepareData net md5 inp c.cxt c.conn =
      .ok (none, dataHeader line.length cxt1, c.conn)) :
    ∃ c' t s, c.step net md5 (.run inp) = .ok c' ∧ c.transmission net md5 inp = some t ∧
      IsData channel t s ∧ s.Cut ∧ Reading file start channel (texts ++ s.text) c'.cxt := by
  obtain ⟨resp, cxt2, conn2, hproc, hresp⟩ := hans _ _ hprep
  have hexchange : exchangeData net inp (dataHeader line.length cxt1) c.conn = .ok (0,
      { cxt2 with messageBuffer := { cxt2.messageBuffer with code := SCM_MSG_NONE } },
      conn2) := by
    unfold exchangeData
    rw [hproc, ok_bind]
    exact if_pos hresp
  obtain ⟨hstep, hsent⟩ := step_of_prepared (by rw [hopened]; decide) h.code hprep hexchange
  obtain ⟨msg, hcxt, hcontent⟩ := exchangeData_cxt hexchange
  obtain ⟨hsize, hfits, -⟩ := storeLine_bytes hstore
  -- The message that the line was stored in is the frame on the wire.
  obtain ⟨hlength, hle, -, hframe⟩ := sendable_dataHeader rfl h.room hstore
  have hrest := htook.rest
  have hroom := h.room
  have hchannel : cxt1.channel = channel := by
    rw [hrest]
    exact h.channel_eq
  have hdata : IsData channel
      ⟨cxt1.channel, false, requestBytes (dataHeader line.length cxt1).messageBuffer⟩
      (segmentOf inp complete line) := by
    rw [← hchannel]
    exact ⟨_, load_toNetwork_of_frame (by omega) (by omega), hlength, hframe⟩
  refine ⟨_, _, _, hstep, hsent.trans (if_pos hopened), hdata,
    cut_segmentOf hne (by omega) hpiece, ?_⟩
  obtain ⟨hoffset, hbytes⟩ := h.took hfile htook
  have hfd : cxt1.fd ≠ -1 := by
    rw [hrest]
    exact h.fd
  have hcode : msg.code = SCM_MSG_NONE := by
    have hmsg := congrArg (fun cxt => cxt.messageBuffer.code) hcxt
    exact hmsg.symm
  rw [hcxt]
  exact ⟨hfd, hchannel, h.channel_ne, hcode, hcontent.symm ▸ hsize.trans hroom, htook.valid,
    hoffset, hbytes⟩

/-- One call. It sends nothing and finds the buffer empty, or it sends the next segment. -/
theorem Reading.run {c : Client σ} (h : Reading file start channel texts c.cxt)
    (hfile : inp.file <+: file) (hans : Answered net md5 c (.run inp)) :
    ∃ c', c.step net md5 (.run inp) = .ok c' ∧
      (c.transmission net md5 inp = none ∧ Reading file start channel texts c'.cxt ∧
          (c.conn.opened = true → 0 < c.cxt.fd → c.cxt.buffer.unread = []) ∨
        ∃ t s, c.transmission net md5 inp = some t ∧ IsData channel t s ∧ s.Cut ∧
          Reading file start channel (texts ++ s.text) c'.cxt) := by
  -- The connection, then the file, then the line: the call ends at the first that is missing.
  by_cases hopened : c.conn.opened = true
  · have hclosed : c.conn.opened ≠ false := by simp [hopened]
    by_cases hfd : ¬ 0 < c.cxt.fd
    · obtain ⟨hstep, hnone⟩ := h.run_of_fd net md5 inp hclosed hfd
      exact ⟨c, hstep, Or.inl ⟨hnone, h, fun _ hpos => absurd hpos hfd⟩⟩
    rw [not_not] at hfd
    obtain ⟨ret, cb, cxt1, got, line, complete, hfill, htook, hsome, hnone⟩ :=
      h.prepareData net md5 c.conn hfd
    cases ret with
    | some r =>
      obtain ⟨rfl, hmsg, hprep⟩ := hsome r rfl
      obtain ⟨hstep, hquiet⟩ := step_of_nothing hclosed h.code hprep
      obtain ⟨hoffset, hbytes⟩ := h.took hfile htook
      rw [List.append_nil] at hoffset hbytes
      have hrest := htook.rest
      refine ⟨⟨cxt1, c.conn⟩, hstep,
        Or.inl ⟨hquiet, ?_, fun _ _ => unread_of_fillMessage_some h.valid hfill⟩⟩
      exact ⟨by rw [hrest]; exact h.fd, by rw [hrest]; exact h.channel_eq, h.channel_ne,
        by rw [hmsg]; exact h.code, by rw [hmsg]; exact h.room, htook.valid, hoffset, hbytes⟩
    | none =>
      obtain ⟨rfl, hne, hstore, hpiece, hprep⟩ := hnone rfl
      obtain ⟨c', t, s, hstep, hline⟩ :=
        h.run_line hfile hans hopened htook hne hstore hpiece hprep
      exact ⟨c', hstep, Or.inr ⟨t, s, hline⟩⟩
  · -- Without a connection a call does nothing.
    have hclosed : c.conn.opened = false := by simpa using hopened
    have hrun : runFollowContext net md5 inp c.cxt c.conn =
        .ok (ERR_MUST_RECONNECT, c.cxt, c.conn) :=
      if_pos hclosed
    refine ⟨c, ?_, Or.inl ⟨if_pos hclosed, h, fun hop => absurd hop hopened⟩⟩
    simp only [Client.step, hrun, ok_bind]

/-! ### A run of calls -/

/-- The calls that have these things outside, one after the other. -/
def calls (inps : List RunInput) : List (Event σ) := inps.map .run

/-- A run of calls, by induction on the list: the texts add up to what was read. -/
theorem Reading.run_calls {c : Client σ} {inps : List RunInput}
    (h : Reading file start channel texts c.cxt) (hfile : ∀ inp ∈ inps, inp.file <+: file)
    (hans : Along (Client.step net md5) (Answered net md5) c (calls inps)) :
    ∃ c' segments, (calls inps).foldlM (Client.step net md5) c = .ok c' ∧
      List.Forall₂ (IsData channel) (transmissions net md5 c (calls inps)) segments ∧
      (∀ s ∈ segments, s.Cut) ∧
      Reading file start channel (texts ++ segments.flatMap Segment.text) c'.cxt := by
  induction inps generalizing c texts with
  | nil => exact ⟨c, [], rfl, .nil, nofun, by simpa using h⟩
  | cons inp inps ih =>
    obtain ⟨c1, hstep, hcase⟩ := h.run (hfile inp List.mem_cons_self) hans.1
    have hrest : ∀ i ∈ inps, i.file <+: file := fun i hi => hfile i (List.mem_cons_of_mem inp hi)
    have hans1 : Along (Client.step net md5) (Answered net md5) c1 (calls inps) := hans.2 c1 hstep
    -- The requests of this call come first.
    have hlog : transmissions net md5 c (calls (inp :: inps)) =
        (c.transmission net md5 inp).toList ++ transmissions net md5 c1 (calls inps) := by
      show c.requests net md5 (.run inp) ++ _ = _
      rw [hstep]
      rfl
    rcases hcase with ⟨hnone, hreading, -⟩ | ⟨t, s, hsome, hdata, hcut, hreading⟩
    · obtain ⟨c', segments, hrun, hlist, hall, hlast⟩ := ih hreading hrest hans1
      refine ⟨c', segments, foldlM_cons_eq_ok.mpr ⟨c1, hstep, hrun⟩, ?_, hall, hlast⟩
      rw [hlog, hnone]
      exact hlist
    · obtain ⟨c', segments, hrun, hlist, hall, hlast⟩ := ih hreading hrest hans1
      refine ⟨c', s :: segments, foldlM_cons_eq_ok.mpr ⟨c1, hstep, hrun⟩, ?_, ?_, ?_⟩
      · rw [hlog, hsome]
        exact .cons hdata hlist
      · exact List.forall_mem_cons.mpr ⟨hcut, hall⟩
      · rw [List.flatMap_cons, ← List.append_assoc]
        exact hlast

/-- A call that has nothing to send finds everything that was read in the texts. -/
theorem Reading.nothing_left {c : Client σ} (h : Reading file start channel texts c.cxt)
    (hfile : inp.file <+: file) (hans : Answered net md5 c (.run inp))
    (hopened : c.conn.opened = true) (hfd : 0 < c.cxt.fd)
    (hnone : c.transmission net md5 inp = none) :
    texts = (file.drop start).take (c.cxt.offset - start) := by
  obtain ⟨c', -, hcase⟩ := h.run hfile hans
  rcases hcase with ⟨-, -, hempty⟩ | ⟨t, s, hsome, -⟩
  · rw [← h.read_eq, hempty hopened hfd, List.append_nil]
  · rw [hnone] at hsome
    cases hsome

/-- A context that is registered, with its file at the position `start` and nothing read. -/
structure AtStart (start : Nat) (cxt : ScFollowContext) : Prop where
  fd : cxt.fd ≠ -1
  channel : cxt.channel ≠ 0
  code : cxt.messageBuffer.code = SCM_MSG_NONE
  room : cxt.messageBuffer.content.size = BUFSIZE
  valid : cxt.buffer.Valid
  unread : cxt.buffer.unread = []
  offset : cxt.offset = start

/-- A new context whose file was opened and whose registration gave it a channel. -/
theorem atStart_of_ensureOpen {heap : Heap} {fname : Option Bytes} {dispname : Bytes}
    {ftimestamp : Bool} {cxt' : ScFollowContext} {conn conn' : ScAggregatorConnection σ}
    (h : ensureOpen net md5 inp (scFollowContextNew heap fname dispname ftimestamp BUFSIZE) conn =
      .ok (none, cxt', conn')) (hchannel : cxt'.channel ≠ 0) : AtStart cxt'.offset cxt' := by
  have hmsg := ensureOpen_messageBuffer h
  have hnew : (scFollowContextNew heap fname dispname ftimestamp BUFSIZE).fd = -1 := rfl
  -- Only the last case returns nothing on a context that is new.
  rcases ensureOpen_cases h with ⟨hfd, -⟩ | ⟨-, hne, -⟩ | ⟨-, -, hret, -⟩ |
    ⟨-, hopen, -, ret, hinit⟩
  · omega
  · exact absurd hnew hne
  · cases hret
  · -- The registration moves the file, and leaves the descriptor and the buffer alone.
    have hkeeps : cxt'.fd = inp.opened.fd ∧ cxt'.buffer = azBufferNew heap BUFSIZE := by
      rcases initFile_cxt hinit with hsame | ⟨ch, pos, hnew⟩
      · rw [hsame]
        exact ⟨rfl, rfl⟩
      · rw [hnew, lseek_fd, lseek_buffer]
        exact ⟨rfl, rfl⟩
    obtain ⟨hfd, hbuffer⟩ := hkeeps
    refine ⟨by omega, hchannel, by rw [hmsg]; rfl, by rw [hmsg]; rfl, ?_, ?_, rfl⟩
    · rw [hbuffer]
      exact AzBuffer.valid_azBufferNew heap (by decide)
    · rw [hbuffer]
      exact AzBuffer.unread_azBufferNew heap BUFSIZE

/-- The calls on a registered context, on a file that may grow and with any results of `read`. No
call leaves a buffer. Each request is one segment, cut well, and the texts of the segments with
what is buffered are what was read from the start position on. When a call finds nothing to send,
the texts are all of it. -/
theorem lines_segmented (net : Net σ) (md5 : Md5) (file : Bytes) (start : Nat) (c : Client σ)
    (hc : AtStart start c.cxt) (inps : List RunInput) (hfile : ∀ inp ∈ inps, inp.file <+: file)
    (hans : Along (Client.step net md5) (Answered net md5) c (calls inps)) :
    ∃ c' segments, (calls inps).foldlM (Client.step net md5) c = .ok c' ∧
      List.Forall₂ (IsData c.cxt.channel) (transmissions net md5 c (calls inps)) segments ∧
      (∀ s ∈ segments, s.Cut) ∧
      segments.flatMap Segment.text ++ c'.cxt.buffer.unread =
        (file.drop start).take (c'.cxt.offset - start) ∧
      ∀ inp, inp.file <+: file → Answered net md5 c' (.run inp) → c'.conn.opened = true →
        0 < c'.cxt.fd → c'.transmission net md5 inp = none →
        segments.flatMap Segment.text = (file.drop start).take (c'.cxt.offset - start) := by
  have hstart : Reading file start c.cxt.channel [] c.cxt := by
    refine ⟨hc.fd, rfl, hc.channel, hc.code, hc.room, hc.valid, ?_, ?_⟩
    · rw [hc.unread, hc.offset]
      rfl
    · rw [hc.unread]
      exact List.nil_prefix
  obtain ⟨c', segments, hrun, hlist, hcut, hlast⟩ := hstart.run_calls hfile hans
  rw [List.nil_append] at hlast
  exact ⟨c', segments, hrun, hlist, hcut, hlast.read_eq,
    fun inp hinp hans' hopened hfd hnone => hlast.nothing_left hinp hans' hopened hfd hnone⟩

end

/-- A peer that takes every request and answers it with `OK`. -/
def okNet : Net Unit where
  sendall s data := .ok (data.length, s)
  recvall s _ := .ok (headerSize, ScLogMessage.netHeader SCM_RESP_OK 1 0, s)

/-- The file `xab\ncd` and a `read` that gets the rest of it. -/
def smallInput : RunInput :=
  ⟨⟨3, 0⟩, .chunk 8, 0, [120, 97, 98, LF, 99, 100], none, [], fun _ => zeroHeap⟩

/-- A context that is registered at position 1. -/
def smallClient : Client Unit :=
  ⟨{ scFollowContextNew zeroHeap none [97] true BUFSIZE with fd := 3, channel := 1, offset := 1 },
    ⟨true, ()⟩⟩

/-- The peer of `okNet` answers the small call. -/
theorem answered_smallInput : Answered okNet zeroMd5 smallClient (.run smallInput) := by
  intro cxt conn h
  cases h
  exact ⟨_, _, _, rfl, rfl⟩

/-- The line of the file that the call sends. -/
def smallSegment : Segment := ⟨ATTR_TOP, 0, [97, 98, LF]⟩

/-- The DATA message of the line. -/
def smallFrame : Bytes :=
  [0, 103, 0, 1, 0, 0, 0, 15, 128, 0, 0, 0, 0, 0, 0, 0, 0, 0, 0, 0, 97, 98, LF]

/-- A message with the bytes of `smallFrame` is that of `smallSegment`. -/
theorem eq_smallSegment {channel : Int} {t : Transmission} {s : Segment}
    (h : IsData channel t s) (hrequest : t.request = .ok smallFrame) : s = smallSegment := by
  obtain ⟨f, hbytes, -, hframe⟩ := h
  have hcontent : s.content = smallFrame.drop headerSize := by
    rw [Except.ok.inj (hrequest.symm.trans hbytes), Frame.bytes, hframe.content_eq,
      List.drop_left' (by simp)]
  -- The three fields are at their places in the content.
  have hattr : netImage 4 s.attr = (smallFrame.drop headerSize).take 4 := by
    rw [← hcontent, Segment.content, List.append_assoc, List.take_left' (by simp)]
  have htime : netImage 8 s.time = ((smallFrame.drop headerSize).drop 4).take 8 := by
    rw [← hcontent, Segment.content, List.append_assoc, List.drop_left' (by simp),
      List.take_left' (by simp)]
  have htext : s.text = (smallFrame.drop headerSize).drop 12 := by
    rw [← hcontent, Segment.content, List.drop_left' (by simp)]
  obtain ⟨attr, time, text⟩ := s
  rw [smallSegment, Segment.mk.injEq]
  refine ⟨?_, ?_, htext⟩
  · rw [← htonl_word_netImage attr, hattr]
    decide
  · rw [← bswap64_word_netImage time, htime]
    decide

/-- One call sends the line `ab` of the file, and keeps what is behind it. -/
theorem lines_segmented_small :
    ∃ c', (calls [smallInput]).foldlM (Client.step okNet zeroMd5) smallClient = .ok c' ∧
      (transmissions okNet zeroMd5 smallClient (calls [smallInput])).map Transmission.request =
        [.ok smallFrame] ∧
      List.Forall₂ (IsData smallClient.cxt.channel)
        (transmissions okNet zeroMd5 smallClient (calls [smallInput])) [smallSegment] ∧
      smallSegment.Cut ∧
      c'.cxt.buffer.unread = [99, 100] ∧
      ∀ inp, inp.file <+: smallInput.file → Answered okNet zeroMd5 c' (.run inp) →
        c'.conn.opened = true → 0 < c'.cxt.fd → c'.transmission okNet zeroMd5 inp = none →
        smallSegment.text = (smallInput.file.drop 1).take (c'.cxt.offset - 1) := by
  have hc : AtStart 1 smallClient.cxt :=
    ⟨by decide, by decide, rfl, rfl, AzBuffer.valid_azBufferNew zeroHeap (by decide), rfl, rfl⟩
  have hbuffered : ((calls [smallInput]).foldlM (Client.step okNet zeroMd5) smallClient).map
      (fun c => c.cxt.buffer.unread) = .ok [99, 100] := rfl
  have hsent : (transmissions okNet zeroMd5 smallClient (calls [smallInput])).map
      Transmission.request = [.ok smallFrame] := rfl
  obtain ⟨c', segments, hrun, hlist, hcut, -, hdrained⟩ :=
    lines_segmented okNet zeroMd5 smallInput.file 1 smallClient hc [smallInput]
      (by simp) ⟨answered_smallInput, fun _ _ => trivial⟩
  rw [hrun] at hbuffered
  -- One message is sent, so there is one segment.
  obtain ⟨t, ht, hrequest⟩ := List.map_eq_singleton_iff.mp hsent
  rw [ht] at hlist
  obtain ⟨s, rest, hdata, hrest, rfl⟩ := List.forall₂_cons_left_iff.mp hlist
  obtain rfl := List.forall₂_nil_left_iff.mp hrest
  obtain rfl := eq_smallSegment hdata hrequest
  refine ⟨c', hrun, hsent, ?_, hcut _ List.mem_cons_self, Except.ok.inj hbuffered, ?_⟩
  · rw [ht]
    exact hlist
  · intro inp hinp hans hopened hfd hnone
    rw [← hdrained inp hinp hans hopened hfd hnone]
    rfl

end Compostela.Proofs.LineSegments
