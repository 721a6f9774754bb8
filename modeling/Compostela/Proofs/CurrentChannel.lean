import Compostela.Follower.Observed
import Compostela.Proofs.Retransmit
import Compostela.System.Wire

/-!
# `Compostela.Proofs.CurrentChannel`: the registration behind a DATA frame

`_init_file` gives a context its channel number and its position. Its result is not looked at,
the channel number stays in the context when it is reset, and a channel number of zero leads to a
second INIT request when a line is in the buffer already. So a failed INIT request on a
connection that stays open is followed by DATA frames all the same.

`Lawful` is the law for the trace of a context, and `InitHolds` the condition on the INIT request
that follows the opening of the file. `Good` is the invariant that carries the induction over
the acts, and `lawful_observations` is the result for every run.
-/

set_option autoImplicit false

namespace Compostela.Proofs.CurrentChannel

open Compostela.Common
open Compostela.Memory
open Compostela.Runs
open Compostela.Segments
open Compostela.Follower
open Compostela.System
open Compostela.Proofs.Retransmit

/-! ### The law -/

/-- The latest success of an INIT request on the current connection, and what was seen after
it. -/
def LatestInit (trace : List Observed) (channel position : Int) (since : List Observed) : Prop :=
  (∃ start, trace = start ++ .registered channel position :: since) ∧
    ∀ x ∈ since, x ≠ .connected ∧ ∀ ch pos, x ≠ .registered ch pos

/-- The texts of the DATA frames. -/
def textsOf (trace : List Observed) : Bytes :=
  (sentFrames trace).flatMap (List.drop (headerSize + cb0))

/-- The bytes are those of the file from a position on, as the line reads found it. -/
def FromFile (since : List Observed) (position : Int) (bs : Bytes) : Prop :=
  ∀ i b, bs[i]? = some b → ∃ file k, Observed.reads file ∈ since ∧
    ((k : Nat) : Int) = position + (i : Nat) ∧ file[k]? = some b

/-- A DATA frame after a trace: it carries the channel of the latest INIT request, and the texts
since then are the bytes of the file from its position on. -/
def LawfulFrame (before : List Observed) (frame : Bytes) : Prop :=
  ∃ channel position since, LatestInit before channel position since ∧
    codeOf frame = SCM_MSG_DATA ∧ channelOf frame = .ofInt 16 channel ∧
    FromFile since position (textsOf (since ++ [.sent frame]))

/-- The law for the trace of a context. -/
def Lawful (trace : List Observed) : Prop :=
  ∀ before frame after, trace = before ++ .sent frame :: after → LawfulFrame before frame

/-- The run opens the file, and so it sends an INIT request. -/
def OpensFile {σ : Type} (c : Client σ) (inp : RunInput) : Prop :=
  c.conn.opened = true ∧ c.cxt.messageBuffer.code = SCM_MSG_NONE ∧ c.cxt.fd ≤ 0 ∧
    (scFollowContextOpenFile inp.opened c.cxt).1 = 0

/-- An INIT request that follows the opening of the file succeeds with a channel and a position
in the file, or it leaves the connection closed. -/
def InitHolds {σ : Type} (net : Net σ) (md5 : Md5) (c : Client σ) : Act σ → Prop
  | .run inp => OpensFile c inp → ∀ ret cxt conn,
      initFile net md5 inp (inp.heap 0) (scFollowContextOpenFile inp.opened c.cxt).2 c.conn
        = .ok (ret, cxt, conn) →
      (ret = 0 ∧ cxt.channel ≠ 0 ∧ 0 ≤ cxt.position) ∨ conn.opened = false
  | .reconnect _ => True
  | .others .. => True

/-! ### Traces -/

/-- Nothing was observed yet, so nothing was against the law. -/
theorem lawful_nil : Lawful [] := by
  intro before frame after h
  simp at h

section
variable {trace since since' : List Observed} {x : Observed} {channel position : Int} {bs : Bytes}

/-- One more entry that is no frame. -/
theorem Lawful.concat (h : Lawful trace) (hx : ∀ frame, x ≠ .sent frame) :
    Lawful (trace ++ [x]) := by
  intro before frame after hsplit
  rcases concat_eq_append_cons hsplit with ⟨-, heq, -⟩ | ⟨after', -, hsplit'⟩
  · exact absurd heq.symm (hx frame)
  · exact h before frame after' hsplit'

/-- One more frame. -/
theorem Lawful.concat_sent {frame : Bytes} (h : Lawful trace) (hframe : LawfulFrame trace frame) :
    Lawful (trace ++ [.sent frame]) := by
  intro before frame' after hsplit
  rcases concat_eq_append_cons hsplit with ⟨-, heq, hbefore⟩ | ⟨after', -, hsplit'⟩
  · cases heq
    rw [hbefore]
    exact hframe
  · exact h before frame' after' hsplit'

/-- A registration is the latest one when it has just been made. -/
theorem latestInit_registered (trace : List Observed) (channel position : Int) :
    LatestInit (trace ++ [.registered channel position]) channel position [] :=
  ⟨⟨trace, rfl⟩, nofun⟩

/-- A registration stays the latest one until there is a new connection or another registration. -/
theorem LatestInit.concat (h : LatestInit trace channel position since)
    (hconnected : x ≠ .connected) (hregistered : ∀ ch pos, x ≠ .registered ch pos) :
    LatestInit (trace ++ [x]) channel position (since ++ [x]) := by
  obtain ⟨⟨start, rfl⟩, hall⟩ := h
  refine ⟨⟨start, by simp⟩, ?_⟩
  intro y hy
  rcases List.mem_append.mp hy with hy | hy
  · exact hall y hy
  · rw [List.mem_singleton.mp hy]
    exact ⟨hconnected, hregistered⟩

/-- A read of the file sends no text. -/
theorem textsOf_reads (trace : List Observed) (file : Bytes) :
    textsOf (trace ++ [.reads file]) = textsOf trace := by
  rw [textsOf, sentFrames_append]
  show (sentFrames trace ++ []).flatMap _ = _
  rw [List.append_nil]
  rfl

/-- A frame adds the text behind its head. -/
theorem textsOf_sent (trace : List Observed) (frame : Bytes) :
    textsOf (trace ++ [.sent frame]) = textsOf trace ++ frame.drop (headerSize + cb0) := by
  rw [textsOf, sentFrames_append, List.flatMap_append]
  show _ ++ [frame].flatMap _ = _
  rw [List.flatMap_singleton]
  rfl

/-- Bytes that were read since then were read since an earlier time. -/
theorem FromFile.mono (h : FromFile since position bs) (hsub : ∀ x ∈ since, x ∈ since') :
    FromFile since' position bs := by
  intro i b hb
  obtain ⟨file, k, hfile, hk, hget⟩ := h i b hb
  exact ⟨file, k, hsub _ hfile, hk, hget⟩

/-- The front of bytes that were read was read. -/
theorem FromFile.take {more : Bytes} (h : FromFile since position (bs ++ more)) :
    FromFile since position bs := by
  intro i b hb
  refine h i b ?_
  rw [List.getElem?_append_left (List.getElem?_eq_some_iff.mp hb).1]
  exact hb

/-- What is fetched from the file where the bytes end continues them. -/
theorem FromFile.fetched {file got : Bytes} {offset : Nat} (h : FromFile since position bs)
    (hoffset : (offset : Int) = position + bs.length) (hgot : got <+: file.drop offset) :
    FromFile (since ++ [.reads file]) position (bs ++ got) := by
  intro i b hb
  -- A byte from before, or one that was fetched.
  by_cases hi : i < bs.length
  · rw [List.getElem?_append_left hi] at hb
    exact h.mono (fun x hx => List.mem_append_left _ hx) i b hb
  · rw [List.getElem?_append_right (Nat.le_of_not_lt hi)] at hb
    obtain ⟨tail, htail⟩ := hgot
    have hlt : i - bs.length < got.length := (List.getElem?_eq_some_iff.mp hb).1
    have hfile : file[offset + (i - bs.length)]? = some b := by
      rw [← List.getElem?_drop, ← htail, List.getElem?_append_left hlt]
      exact hb
    exact ⟨file, offset + (i - bs.length), List.mem_append_right _ (List.mem_singleton_self _),
      by omega, hfile⟩

end

/-! ### The invariant -/

/-- The file is not open and nothing is buffered. -/
structure Idle (cxt : ScFollowContext) : Prop where
  fd : cxt.fd ≤ 0
  unread : cxt.buffer.unread = []

/-- The channel is that of the latest INIT request, the file is open, and what is buffered
follows the texts that were sent since then. -/
def Registered (cxt : ScFollowContext) (trace : List Observed) : Prop :=
  ∃ position since, LatestInit trace cxt.channel position since ∧ cxt.channel ≠ 0 ∧ 0 ≤ cxt.fd ∧
    (cxt.offset : Int) = position + (textsOf since ++ cxt.buffer.unread).length ∧
    FromFile since position (textsOf since ++ cxt.buffer.unread)

/-- The invariant. -/
structure Good {σ : Type} (c : Client σ) (trace : List Observed) : Prop where
  valid : c.cxt.buffer.Valid
  ready : Ready c.cxt
  lawful : Lawful trace
  state : c.conn.opened = false ∨ Idle c.cxt ∨ Registered c.cxt trace

section
variable {σ : Type} {net : Net σ} {md5 : Md5} {inp : RunInput} {heap : Heap}
  {cxt cxt' : ScFollowContext} {conn conn' : ScAggregatorConnection σ} {trace : List Observed}

/-! ### A closed connection -/

/-- A send over a closed connection. -/
theorem sendMessage_closed {msg msg' : ScLogMessage} {ret : Int} (hclosed : conn.opened = false)
    (h : scAggregatorConnectionSendMessage net conn msg = .ok (ret, conn', msg')) :
    ret = -1 ∧ conn'.opened = false := by
  unfold scAggregatorConnectionSendMessage connSendall at h
  rw [hclosed] at h
  cases h
  exact ⟨rfl, rfl⟩

/-- On a closed connection `_init_file` fails and leaves it closed. -/
theorem initFile_closed {ret : Int} (hclosed : conn.opened = false)
    (h : initFile net md5 inp heap cxt conn = .ok (ret, cxt', conn')) :
    ret ≠ 0 ∧ conn'.opened = false := by
  rcases initFile_cases h with ⟨-, rfl, -, rfl⟩ | ⟨sent, conn1, msg, hsend, hcase⟩
  · exact ⟨by decide, hclosed⟩
  · obtain ⟨rfl, hclosed1⟩ := sendMessage_closed hclosed hsend
    rcases hcase with ⟨-, rfl, -, rfl⟩ | ⟨hzero, -⟩
    · exact ⟨by decide, hclosed1⟩
    · cases hzero

/-- On a closed connection no channel is got, and it stays closed. -/
theorem ensureChannel_closed (hclosed : conn.opened = false)
    (h : ensureChannel net md5 inp cxt conn = .ok (cxt', conn')) : conn'.opened = false := by
  rcases ensureChannel_cases h with ⟨-, -, rfl⟩ | ⟨-, ret, hinit⟩
  · exact hclosed
  · exact (initFile_closed hclosed hinit).2

/-- On a closed connection the DATA exchange leaves it closed. -/
theorem exchangeData_closed {ret : Int} (hclosed : conn.opened = false)
    (h : exchangeData net inp cxt conn = .ok (ret, cxt', conn')) : conn'.opened = false := by
  obtain ⟨sent, conn1, msg, hsend, hcase⟩ := exchangeData_cases h
  obtain ⟨rfl, hclosed1⟩ := sendMessage_closed hclosed hsend
  rcases hcase with ⟨-, -, -, rfl⟩ | ⟨hzero, -⟩
  · exact hclosed1
  · cases hzero

/-- On a closed connection nothing of `_init_file` is to be seen. -/
theorem initObserved_closed (hclosed : conn.opened = false) :
    initObserved net md5 inp heap cxt conn = [] := by
  unfold initObserved
  split
  · rename_i heq
    exact absurd rfl (initFile_closed hclosed heq).1
  · rfl

/-- From the line read on, a run over a closed connection shows no frame. -/
theorem readObserved_closed (hclosed : conn.opened = false) :
    readObserved net md5 inp cxt conn = [.reads inp.file] := by
  have hchannel : ∀ cxt, channelObserved net md5 inp cxt conn = [] := by
    intro cxt
    unfold channelObserved
    rw [initObserved_closed hclosed, ite_self]
  unfold readObserved
  cases hfill : fillMessage inp cxt with
  | error t => rfl
  | ok r =>
    obtain ⟨_ | ret, cb, cxt2⟩ := r
    · simp only
      rw [hchannel, List.nil_append]
      cases hchan : ensureChannel net md5 inp cxt2 conn with
      | error t => rfl
      | ok r =>
        show .reads inp.file :: sendObserved (dataHeader cb r.1) r.2 = _
        have hclosed3 : r.2.opened = false := ensureChannel_closed hclosed hchan
        rw [sendObserved, if_neg (by simp [hclosed3])]
    · rfl

/-! ### The parts of a run -/

/-- A run with nothing pending on an open connection, from the line read on. -/
theorem run_after_open {ret : Int} {cxt1 : ScFollowContext} {conn1 : ScAggregatorConnection σ}
    (hopened : conn.opened = true) (hnone : cxt.messageBuffer.code = SCM_MSG_NONE)
    (hens : ensureOpen net md5 inp cxt conn = .ok (none, cxt1, conn1))
    (h : runFollowContext net md5 inp cxt conn = .ok (ret, cxt', conn')) :
    ∃ r cb cxt2, fillMessage inp cxt1 = .ok (r, cb, cxt2) ∧
      (r ≠ none ∧ cxt' = cxt2 ∧ conn' = conn1 ∨
        r = none ∧ ∃ cxt3 conn3, ensureChannel net md5 inp cxt2 conn1 = .ok (cxt3, conn3) ∧
          exchangeData net inp (dataHeader cb cxt3) conn3 = .ok (ret, cxt', conn')) := by
  obtain ⟨ret1, cxt4, conn4, hopen, hrest⟩ := runFollowContext_of_nothing hopened hnone h
  rw [hens] at hopen
  cases hopen
  rcases hrest with ⟨hsome, -⟩ | ⟨-, r, cb, cxt2, hfill, hcase⟩
  · cases hsome
  · refine ⟨r, cb, cxt2, hfill, hcase.imp ?_ id⟩
    rintro ⟨rfl, hcxt, hconn⟩
    exact ⟨nofun, hcxt, hconn⟩

/-- An INIT request that succeeds sets the channel and the position, and moves the file there. -/
theorem initFile_success (h : initFile net md5 inp heap cxt conn = .ok (0, cxt', conn')) :
    ∃ ch pos, cxt' = lseek pos { cxt with channel := ch, position := pos } := by
  rcases initFile_cases h with
    ⟨-, hret, -, -⟩ | ⟨sent, conn1, msg, -, ⟨-, hret, -, -⟩ | ⟨-, hrecv⟩⟩
  · cases hret
  · cases hret
  · obtain ⟨got, resp, -, ⟨-, hret, -⟩ | ⟨m, -, -, htake⟩⟩ := receiveInitResponse_cases hrecv
    · cases hret
    · obtain ⟨-, -, -, heq⟩ := takeInitResponse_eq_ok.mp htake
      exact ⟨_, _, heq⟩

/-- A newly opened file is at the position of the INIT request. -/
theorem registered_of_init (hfd : 0 ≤ cxt.fd) (hunread : cxt.buffer.unread = [])
    (h : initFile net md5 inp heap cxt conn = .ok (0, cxt', conn')) (hchannel : cxt'.channel ≠ 0)
    (hposition : 0 ≤ cxt'.position) :
    Registered cxt' (trace ++ [.registered cxt'.channel cxt'.position]) := by
  obtain ⟨ch, pos, hcxt⟩ := initFile_success h
  have hpos : cxt'.position = pos := by
    rw [hcxt]
    unfold lseek
    split <;> rfl
  rw [hpos] at hposition
  have hbuffer : cxt'.buffer.unread = [] := by
    rw [hcxt, lseek_buffer]
    exact hunread
  refine ⟨cxt'.position, [], latestInit_registered .., hchannel, ?_, ?_, ?_⟩
  · rw [hcxt, lseek_fd]
    exact hfd
  · rw [hbuffer, hpos, hcxt, lseek, if_pos hposition]
    show ((pos.toNat : Nat) : Int) = pos + 0
    omega
  · rw [hbuffer]
    -- Nothing was sent and nothing is buffered, so there is no byte to speak of.
    intro i b hb
    simp [textsOf, sentFrames] at hb

/-- A line read of a registered context. What it takes follows the texts. -/
theorem Registered.took {got line : Bytes} (h : Registered cxt trace)
    (htook : Took inp cxt cxt' got line) :
    ∃ position since, LatestInit (trace ++ [.reads inp.file]) cxt'.channel position since ∧
      cxt'.channel ≠ 0 ∧ 0 ≤ cxt'.fd ∧
      (cxt'.offset : Int) = position + (textsOf since ++ line ++ cxt'.buffer.unread).length ∧
      FromFile since position (textsOf since ++ line ++ cxt'.buffer.unread) := by
  obtain ⟨position, since, hlatest, hchannel, hfd, hoffset, hfrom⟩ := h
  have hchan' : cxt'.channel = cxt.channel := by rw [htook.rest]
  have hfd' : cxt'.fd = cxt.fd := by rw [htook.rest]
  have hoffset' : cxt'.offset = cxt.offset + got.length := by rw [htook.rest]
  -- The bytes before and after the read.
  have hbytes : textsOf since ++ cxt.buffer.unread ++ got
      = textsOf since ++ line ++ cxt'.buffer.unread := by
    rw [List.append_assoc, htook.bytes, List.append_assoc]
  refine ⟨position, since ++ [.reads inp.file], ?_, ?_, ?_, ?_, ?_⟩
  · rw [hchan']
    exact hlatest.concat nofun nofun
  · rw [hchan']
    exact hchannel
  · rw [hfd']
    exact hfd
  · rw [textsOf_reads, ← hbytes, List.length_append, hoffset']
    omega
  · rw [textsOf_reads, ← hbytes]
    exact hfrom.fetched hoffset htook.fetched

/-- The DATA frame of a run: its channel is that of the context, and its text is the line. -/
theorem frame_of_line (cxt : ScFollowContext) {complete : Bool} {line : Bytes} {msg : ScLogMessage}
    (hsize : msg.content.size = BUFSIZE)
    (hstore : storeLine inp complete line msg = .ok cxt.messageBuffer) :
    ∃ frame, requestBytes (dataHeader line.length cxt).messageBuffer = .ok frame ∧
      codeOf frame = SCM_MSG_DATA ∧ channelOf frame = .ofInt 16 cxt.channel ∧
      frame.drop (headerSize + cb0) = line := by
  obtain ⟨hlength, hle, -, hcode, hchannel, hcontent⟩ := sendable_dataHeader rfl hsize hstore
  refine ⟨_, load_toNetwork_of_frame (by omega) (by omega), ?_, ?_, ?_⟩
  · rw [codeOf_bytes]
    exact hcode
  · rw [channelOf_bytes]
    exact hchannel
  · exact drop_bytes_of_data hcontent

/-- The line read of a registered context and what follows it. -/
theorem Registered.read (net : Net σ) (md5 : Md5) (conn : ScAggregatorConnection σ)
    (hv : cxt.buffer.Valid) (hroom : cxt.messageBuffer.content.size = BUFSIZE)
    (hlaw : Lawful trace) (h : Registered cxt trace) :
    Lawful (trace ++ readObserved net md5 inp cxt conn) ∧
      ∀ r cb cxt2, fillMessage inp cxt = .ok (r, cb, cxt2) →
        (r ≠ none → Registered cxt2 (trace ++ readObserved net md5 inp cxt conn)) ∧
        ∀ cxt3 conn3 ret cxt' conn', r = none →
          ensureChannel net md5 inp cxt2 conn = .ok (cxt3, conn3) →
          exchangeData net inp (dataHeader cb cxt3) conn3 = .ok (ret, cxt', conn') →
          conn'.opened = false ∨ Registered cxt' (trace ++ readObserved net md5 inp cxt conn) := by
  have hreads : Lawful (trace ++ [.reads inp.file]) := hlaw.concat nofun
  cases hfill : fillMessage inp cxt with
  | error t =>
    have hobs : readObserved net md5 inp cxt conn = [.reads inp.file] := by
      rw [readObserved, hfill]
    rw [hobs]
    exact ⟨hreads, nofun⟩
  | ok res =>
    obtain ⟨r, cb, cxt2⟩ := res
    obtain ⟨got, line, complete, htook, hnothing, hline⟩ := fillMessage_took hv hfill
    obtain ⟨position, since, hlatest, hchannel, hfd, hoffset, hfrom⟩ := h.took htook
    cases r with
    | some ret =>
      -- No line, so what is buffered is all that follows the texts.
      have hobs : readObserved net md5 inp cxt conn = [.reads inp.file] := by
        rw [readObserved, hfill]
      rw [hobs]
      refine ⟨hreads, ?_⟩
      intro r' cb' cxt2' heq
      cases heq
      refine ⟨fun _ => ?_, fun _ _ _ _ _ hnone => absurd hnone (Option.some_ne_none ret)⟩
      rw [(hnothing (Option.some_ne_none ret)).1, List.append_nil] at hoffset hfrom
      exact ⟨position, since, hlatest, hchannel, hfd, hoffset, hfrom⟩
    | none =>
      obtain ⟨hcb, hstore, -⟩ := hline rfl
      -- The channel is not zero, so no second INIT request goes out.
      have hensure : ensureChannel net md5 inp cxt2 conn = .ok (cxt2, conn) := by
        rw [ensureChannel, if_neg hchannel]
      have hobs : readObserved net md5 inp cxt conn
          = .reads inp.file :: sendObserved (dataHeader cb cxt2) conn := by
        rw [readObserved, hfill]
        simp only [channelObserved, if_neg hchannel, List.nil_append, hensure]
      obtain ⟨frame, hframe, hcode, hnumber, htext⟩ := frame_of_line cxt2 hroom hstore
      rw [← hcb] at hframe
      by_cases hopened : conn.opened = true
      · have hsend : sendObserved (dataHeader cb cxt2) conn = [.sent frame] := by
          rw [sendObserved, if_pos hopened, hframe]
        have htexts : textsOf (since ++ [.sent frame]) = textsOf since ++ line := by
          rw [textsOf_sent, htext]
        -- The texts with the new one are a front part of what follows the position.
        have hlawful : LawfulFrame (trace ++ [.reads inp.file]) frame := by
          refine ⟨cxt2.channel, position, since, hlatest, hcode, hnumber, ?_⟩
          rw [htexts]
          exact hfrom.take
        rw [hobs, hsend, ← List.singleton_append, ← List.append_assoc]
        refine ⟨hreads.concat_sent hlawful, ?_⟩
        intro r' cb' cxt2' heq
        cases heq
        refine ⟨fun hne => absurd rfl hne, ?_⟩
        intro cxt3 conn3 ret cxt' conn' _ hchan hexchange
        rw [hensure] at hchan
        cases hchan
        have hnext : LatestInit (trace ++ [.reads inp.file] ++ [.sent frame]) cxt2.channel position
            (since ++ [.sent frame]) := hlatest.concat nofun nofun
        obtain ⟨msg, hcxt, -⟩ := exchangeData_cxt hexchange
        rw [hcxt]
        refine Or.inr ⟨position, since ++ [Observed.sent frame], hnext, hchannel, hfd, ?_, ?_⟩
        · rw [htexts]
          exact hoffset
        · rw [htexts]
          exact hfrom.mono fun x hx => List.mem_append_left _ hx
      · -- Over a closed connection the frame is not sent.
        have hclosed : conn.opened = false := by simpa using hopened
        have hsend : sendObserved (dataHeader cb cxt2) conn = [] := if_neg hopened
        rw [hobs, hsend]
        refine ⟨hreads, ?_⟩
        intro r' cb' cxt2' heq
        cases heq
        refine ⟨fun hne => absurd rfl hne, ?_⟩
        intro cxt3 conn3 ret cxt' conn' _ hchan hexchange
        rw [hensure] at hchan
        cases hchan
        exact Or.inl (exchangeData_closed hclosed hexchange)

/-- An INIT request is no frame. -/
theorem Lawful.initObserved (hlaw : Lawful trace) :
    Lawful (trace ++ initObserved net md5 inp heap cxt conn) := by
  unfold Follower.initObserved
  split
  · exact hlaw.concat nofun
  · rw [List.append_nil]
    exact hlaw

/-- The opening of the file. -/
theorem openFile_eq_zero {r : OpenResult} (h : (scFollowContextOpenFile r cxt).1 = 0) :
    cxt.fd = -1 ∧ 0 ≤ r.fd ∧
      (scFollowContextOpenFile r cxt).2 = { cxt with fd := r.fd, mode := r.mode, offset := 0 } := by
  unfold scFollowContextOpenFile at h ⊢
  split at h
  · cases h
  · rename_i hfd
    split at h
    · cases h
    · rename_i hopen
      rw [if_neg hfd, if_neg hopen]
      exact ⟨not_not.mp hfd, Int.not_lt.mp hopen, rfl⟩

/-- A file that cannot be opened leaves the context idle, or as it is. -/
theorem openFile_ne_zero {r : OpenResult} (h : (scFollowContextOpenFile r cxt).1 ≠ 0) :
    (scFollowContextOpenFile r cxt).2 = cxt ∨
      cxt.fd = -1 ∧ r.fd < 0 ∧ (scFollowContextOpenFile r cxt).2 = { cxt with fd := r.fd } := by
  unfold scFollowContextOpenFile at h ⊢
  split at h
  · rename_i hfd
    rw [if_pos hfd]
    exact Or.inl rfl
  · rename_i hfd
    split at h
    · rename_i hopen
      rw [if_neg hfd, if_pos hopen]
      exact Or.inr ⟨not_not.mp hfd, hopen, rfl⟩
    · exact absurd rfl h

/-- What a run leaves of a context whose file is open, and its trace. The context is registered,
or the connection was closed on the way. -/
theorem state_after_open {c : Client σ} {cxt1 : ScFollowContext} {conn1 : ScAggregatorConnection σ}
    (hopened : c.conn.opened = true) (hnone : c.cxt.messageBuffer.code = SCM_MSG_NONE)
    (hens : ensureOpen net md5 inp c.cxt c.conn = .ok (none, cxt1, conn1))
    (hv : cxt1.buffer.Valid) (hroom : cxt1.messageBuffer.content.size = BUFSIZE)
    (hlaw : Lawful trace) (hstate : conn1.opened = false ∨ Registered cxt1 trace) :
    Lawful (trace ++ readObserved net md5 inp cxt1 conn1) ∧
      ∀ ret cxt' conn', runFollowContext net md5 inp c.cxt c.conn = .ok (ret, cxt', conn') →
        conn'.opened = false ∨
          Registered cxt' (trace ++ readObserved net md5 inp cxt1 conn1) := by
  rcases hstate with hclosed | hregistered
  · -- The INIT request has closed the connection, and the rest of the run sends nothing.
    rw [readObserved_closed hclosed]
    refine ⟨hlaw.concat nofun, ?_⟩
    intro ret cxt' conn' hrun
    left
    obtain ⟨r, cb, cxt2, -, ⟨-, -, rfl⟩ | ⟨-, cxt3, conn3, hchan, hexchange⟩⟩ :=
      run_after_open hopened hnone hens hrun
    · exact hclosed
    · exact exchangeData_closed (ensureChannel_closed hclosed hchan) hexchange
  -- The channel is the current one, so the line that is read belongs to it.
  · obtain ⟨hlawful, hrest⟩ := hregistered.read net md5 conn1 hv hroom hlaw
    refine ⟨hlawful, ?_⟩
    intro ret cxt' conn' hrun
    obtain ⟨r, cb, cxt2, hfill, ⟨hne, rfl, rfl⟩ | ⟨hr, cxt3, conn3, hchan, hexchange⟩⟩ :=
      run_after_open hopened hnone hens hrun
    · exact Or.inr ((hrest r cb cxt' hfill).1 hne)
    · exact (hrest r cb cxt2 hfill).2 cxt3 conn3 ret cxt' conn' hr hchan hexchange

/-- The opening of the file and the INIT request that follows it. -/
theorem Good.opening {c : Client σ} (h : Good c trace) (hopens : OpensFile c inp)
    (hinit : InitHolds net md5 c (.run inp)) :
    Lawful (trace ++ openObserved net md5 inp c.cxt c.conn) ∧
      ∀ ret cxt1 conn1, ensureOpen net md5 inp c.cxt c.conn = .ok (ret, cxt1, conn1) →
        ret = none ∧ (conn1.opened = false ∨
          Registered cxt1 (trace ++ openObserved net md5 inp c.cxt c.conn)) := by
  obtain ⟨hopened, hnone, hfd, hopen⟩ := hopens
  obtain ⟨hminus, hnew, hcxt⟩ := openFile_eq_zero hopen
  -- A registered context has its file open, so this one is idle.
  have hunread : c.cxt.buffer.unread = [] := by
    rcases h.state with hclosed | hidle | ⟨-, -, -, -, hfd', -⟩
    · rw [hopened] at hclosed
      cases hclosed
    · exact hidle.unread
    · omega
  have hobs : openObserved net md5 inp c.cxt c.conn
      = initObserved net md5 inp (inp.heap 0) (scFollowContextOpenFile inp.opened c.cxt).2 c.conn :=
    if_pos ⟨hfd, hopen⟩
  rw [hobs]
  refine ⟨h.lawful.initObserved, ?_⟩
  intro ret cxt2 conn2 hens
  rw [ensureOpen, if_pos hfd] at hens
  simp only [hopen] at hens
  rw [if_neg (not_not.mpr rfl)] at hens
  obtain ⟨⟨ret1, cxt1, conn1⟩, hcall, hens⟩ := bind_eq_ok.mp hens
  cases hens
  refine ⟨rfl, ?_⟩
  -- The request held, or it left the connection closed.
  rcases hinit ⟨hopened, hnone, hfd, hopen⟩ ret1 cxt1 conn1 hcall with
    ⟨rfl, hchannel, hposition⟩ | hclosed
  · have hregistered : initObserved net md5 inp (inp.heap 0)
        (scFollowContextOpenFile inp.opened c.cxt).2 c.conn
          = [.registered cxt1.channel cxt1.position] := by
      rw [initObserved, hcall]
      rfl
    rw [hregistered]
    refine Or.inr (registered_of_init ?_ ?_ hcall hchannel hposition)
    · rw [hcxt]
      exact hnew
    · rw [hcxt]
      exact hunread
  · exact Or.inl hclosed

/-- A run of a context. -/
theorem Good.run {c : Client σ} (h : Good c trace) (hinit : InitHolds net md5 c (.run inp)) :
    Lawful (trace ++ c.observed net md5 (.run inp)) ∧
      ∀ ret cxt' conn', runFollowContext net md5 inp c.cxt c.conn = .ok (ret, cxt', conn') →
        conn'.opened = false ∨ Idle cxt' ∨
          Registered cxt' (trace ++ c.observed net md5 (.run inp)) := by
  have hv := h.valid
  have hroom := h.ready.room
  simp only [Client.observed]
  unfold runObserved
  by_cases hopened : c.conn.opened = true
  swap
  · -- A closed connection ends the run.
    have hclosed : c.conn.opened = false := by simpa using hopened
    rw [if_pos hclosed, List.append_nil]
    refine ⟨h.lawful, ?_⟩
    intro ret cxt' conn' hrun
    rw [runFollowContext, if_pos hclosed] at hrun
    cases hrun
    exact Or.inl hclosed
  rw [if_neg (by simp [hopened])]
  by_cases hnone : c.cxt.messageBuffer.code = SCM_MSG_NONE
  swap
  · -- A pending message cannot be sent a second time.
    have hreq := h.ready.requestBytes_of_pending hnone
    rw [if_neg hnone, sendObserved, if_pos hopened, hreq, List.append_nil]
    refine ⟨h.lawful, ?_⟩
    intro ret cxt' conn' hrun
    rw [runFollowContext, if_neg (by simp [hopened]), if_neg hnone] at hrun
    obtain ⟨frame, hframe⟩ := (exchangeData_eq_ok hrun).2 hopened
    rw [hreq] at hframe
    cases hframe
  rw [if_pos hnone]
  by_cases hfd : c.cxt.fd ≤ 0
  · by_cases hopen : (scFollowContextOpenFile inp.opened c.cxt).1 = 0
    · -- The file is opened, and INIT goes out.
      obtain ⟨hlaw, hrest⟩ := h.opening ⟨hopened, hnone, hfd, hopen⟩ hinit
      -- A trap in the INIT request ends the program, and the trace with it.
      cases hens : ensureOpen net md5 inp c.cxt c.conn with
      | error t =>
        rw [List.append_nil]
        refine ⟨hlaw, ?_⟩
        intro ret cxt' conn' hrun
        rw [runFollowContext, if_neg (by simp [hopened]), if_pos hnone, prepareData, hens] at hrun
        cases hrun
      | ok r =>
        obtain ⟨ret1, cxt1, conn1⟩ := r
        obtain ⟨rfl, hstate⟩ := hrest ret1 cxt1 conn1 hens
        have hcont := ensureOpen_continues hv hens
        obtain ⟨hlaw', hafter⟩ := state_after_open hopened hnone hens hcont.valid
          (hcont.room.trans hroom) hlaw hstate
        rw [← List.append_assoc]
        exact ⟨hlaw', fun ret cxt' conn' hrun => (hafter ret cxt' conn' hrun).imp_right Or.inr⟩
    · -- The file cannot be opened.
      have hens : ensureOpen net md5 inp c.cxt c.conn
          = .ok (some 1, (scFollowContextOpenFile inp.opened c.cxt).2, c.conn) := by
        rw [ensureOpen, if_pos hfd]
        simp only
        rw [if_pos hopen]
      have hobs : openObserved net md5 inp c.cxt c.conn = [] := if_neg fun hopen' => hopen hopen'.2
      rw [hobs, hens, List.nil_append, List.append_nil]
      refine ⟨h.lawful, ?_⟩
      intro ret cxt' conn' hrun
      rw [runFollowContext, if_neg (by simp [hopened]), if_pos hnone, prepareData, hens] at hrun
      cases hrun
      rcases openFile_ne_zero hopen with hsame | ⟨hminus, hneg, hcxt⟩
      · rw [hsame]
        exact h.state
      · rcases h.state with hclosed | hidle | ⟨-, -, -, -, hfd', -⟩
        · exact Or.inl hclosed
        · rw [hcxt]
          exact Or.inr (Or.inl ⟨Int.le_of_lt hneg, hidle.unread⟩)
        · omega
  · -- The file is open.
    have hens : ensureOpen net md5 inp c.cxt c.conn = .ok (none, c.cxt, c.conn) := by
      rw [ensureOpen, if_neg hfd]
    have hobs : openObserved net md5 inp c.cxt c.conn = [] := by
      rw [openObserved, if_neg fun hopen => hfd hopen.1]
    have hstate : c.conn.opened = false ∨ Registered c.cxt trace :=
      h.state.imp_right fun hor => hor.resolve_left fun hidle => hfd hidle.fd
    obtain ⟨hlaw, hrest⟩ := state_after_open hopened hnone hens hv hroom h.lawful hstate
    rw [hobs, hens, List.nil_append]
    exact ⟨hlaw, fun ret cxt' conn' hrun => (hrest ret cxt' conn' hrun).imp_right Or.inr⟩

/-! ### Whole runs -/

/-- One act. What was seen up to a trap is lawful too. -/
theorem Good.act {c : Client σ} {a : Act σ} (h : Good c trace) (hinit : InitHolds net md5 c a) :
    Lawful (trace ++ c.observed net md5 a) ∧
      ∀ c', c.act net md5 a = .ok c' → Good c' (trace ++ c.observed net md5 a) := by
  cases a with
  | run inp =>
    obtain ⟨hlaw, hstate⟩ := h.run hinit
    refine ⟨hlaw, ?_⟩
    intro c' hact
    obtain ⟨⟨ret, cxt', conn'⟩, hrun, hact⟩ := bind_eq_ok.mp hact
    cases hact
    exact ⟨(runFollowContext_continues h.valid hrun).valid, h.ready.run hrun, hlaw,
      hstate ret cxt' conn' hrun⟩
  | reconnect connected =>
    have hlaw : Lawful (trace ++ c.observed net md5 (.reconnect connected)) := by
      simp only [Client.observed]
      split
      · exact h.lawful.concat nofun
      · rw [List.append_nil]
        exact h.lawful
    refine ⟨hlaw, ?_⟩
    intro c' hact
    obtain ⟨c1, hreset, hconnect⟩ := bind_eq_ok.mp hact
    have hready : Ready c'.cxt := (h.ready.step hreset).step hconnect
    cases hreset
    cases hconnect
    -- The reset leaves the context idle.
    exact ⟨h.valid.reset, hready, hlaw, Or.inr (Or.inl ⟨Int.negSucc_le_zero 0, rfl⟩)⟩
  | others change closes =>
    simp only [Client.observed, List.append_nil]
    refine ⟨h.lawful, ?_⟩
    intro c' hact
    cases hact
    refine ⟨h.valid, h.ready, h.lawful, h.state.imp_left fun hclosed => ?_⟩
    -- A connection that is closed stays closed, whatever the other contexts do.
    show (c.conn.opened && !closes) = false
    rw [hclosed, Bool.false_and]

/-- The trace of a good state stays lawful. By induction on the acts. -/
theorem Good.observations {c : Client σ} {acts : List (Act σ)} (h : Good c trace)
    (hall : Along (Client.act net md5) (InitHolds net md5) c acts) :
    Lawful (trace ++ observations net md5 c acts) := by
  induction acts generalizing c trace with
  | nil =>
    rw [Follower.observations, List.append_nil]
    exact h.lawful
  | cons a acts ih =>
    obtain ⟨hinit, hrest⟩ := hall
    obtain ⟨hlaw, hnext⟩ := h.act hinit
    rw [Follower.observations, ← List.append_assoc]
    cases hact : c.act net md5 a with
    | error t =>
      rw [List.append_nil]
      exact hlaw
    | ok c' => exact ih (hnext c' hact) (hrest c' hact)

/-- In every run of a new context in which each INIT request that follows the opening of the
file succeeds or closes the connection, each DATA frame carries the channel of the latest
success on its connection, and the texts since then are the bytes of the file from the position
on. -/
theorem lawful_observations (heap : Heap) (fname : Option Bytes) (dispname : Bytes)
    (ftimestamp : Bool) (conn : ScAggregatorConnection σ) {acts : List (Act σ)}
    (hall : Along (Client.act net md5) (InitHolds net md5)
      ⟨scFollowContextNew heap fname dispname ftimestamp BUFSIZE, conn⟩ acts) :
    Lawful (observations net md5
      ⟨scFollowContextNew heap fname dispname ftimestamp BUFSIZE, conn⟩ acts) := by
  -- A new context is idle.
  have hnew : Good ⟨scFollowContextNew heap fname dispname ftimestamp BUFSIZE, conn⟩ [] :=
    ⟨AzBuffer.valid_azBufferNew heap (by decide), ready_new heap fname dispname ftimestamp,
      lawful_nil, Or.inr (Or.inl ⟨Int.negSucc_le_zero 0, rfl⟩)⟩
  exact hnew.observations hall

end

/-! ### Small runs -/

/-- An INIT request is answered with channel 1 and position 2. -/
def grant : Bytes := ScLogMessage.netHeader SCM_RESP_OK 1 8 ++ netImage 8 (2 : BitVec 64)

/-- An INIT request is refused. -/
def refusal : Bytes := ScLogMessage.netHeader SCM_RESP_NG 0 0

/-- A DATA request is answered. -/
def receipt : Bytes := ScLogMessage.netHeader SCM_RESP_OK 1 0

/-- A socket that takes every send, with the answers to come. -/
def socket (answers : Bytes) : Streams :=
  ⟨List.replicate 4 (.upTo 8200), ⟨arrivalsOf answers, .eof⟩, []⟩

/-- A new context and its connection. -/
def newContext (answers : Bytes) : Client Streams :=
  ⟨scFollowContextNew zeroHeap (some [102]) [110] true BUFSIZE, ⟨true, socket answers⟩⟩

/-- A run that finds the lines `a` and `b` in the file. -/
def twoLines : RunInput :=
  ⟨⟨3, 0x8000⟩, .chunk 100, 0, [97, LF, 98, LF], none, [], fun _ => zeroHeap⟩

/-- The DATA frame of a line on channel 1. -/
def lineFrame (channel : BitVec 16) (line : Bytes) : Bytes :=
  ScLogMessage.netHeader SCM_MSG_DATA channel (.ofNat 32 (cb0 + line.length)) ++
    netImage 4 ATTR_TOP ++ netImage 8 (0 : BitVec 64) ++ line

/-- The INIT request succeeds, and the next run finds the end of the file. -/
theorem initHolds_granted :
    Along (Client.act Streams.net zeroMd5) (InitHolds Streams.net zeroMd5)
      (newContext (grant ++ receipt)) [.run twoLines, .run twoLines] := by
  refine ⟨?_, fun c1 h1 => ⟨?_, fun _ _ => trivial⟩⟩
  · -- The first run. Its INIT request is evaluated.
    intro _ ret cxt conn hcall
    have hvalues : (initFile Streams.net zeroMd5 twoLines zeroHeap
        (scFollowContextOpenFile twoLines.opened (newContext (grant ++ receipt)).cxt).2
        (newContext (grant ++ receipt)).conn).map
          (fun r => (r.1, r.2.1.channel, r.2.1.position)) = .ok (0, 1, 2) := rfl
    have hsame : initFile Streams.net zeroMd5 twoLines zeroHeap
        (scFollowContextOpenFile twoLines.opened (newContext (grant ++ receipt)).cxt).2
        (newContext (grant ++ receipt)).conn = .ok (ret, cxt, conn) := hcall
    rw [hsame] at hvalues
    simp only [Except.map, Except.ok.injEq, Prod.mk.injEq] at hvalues
    obtain ⟨hret, hchannel, hposition⟩ := hvalues
    exact Or.inl ⟨hret, by rw [hchannel]; decide, by rw [hposition]; decide⟩
  · -- The file is open.
    rintro ⟨-, -, hfd, -⟩
    have hopen : ((newContext (grant ++ receipt)).act Streams.net zeroMd5 (.run twoLines)).map
        (fun c => c.cxt.fd) = .ok 3 := rfl
    rw [h1] at hopen
    simp only [Except.map, Except.ok.injEq] at hopen
    omega

/-- After the grant of position 2 the second line is sent on channel 1, and the trace is
lawful. -/
theorem lawful_granted :
    sentFrames (observations Streams.net zeroMd5 (newContext (grant ++ receipt))
      [.run twoLines, .run twoLines]) = [lineFrame 1 [98, LF]] ∧
    Lawful (observations Streams.net zeroMd5 (newContext (grant ++ receipt))
      [.run twoLines, .run twoLines]) :=
  ⟨by rfl, lawful_observations zeroHeap (some [102]) [110] true
    ⟨true, socket (grant ++ receipt)⟩ initHolds_granted⟩

/-- Two refused INIT requests, and the line is sent on channel 0. Or the INIT request on a second
connection is refused, and the line is sent on the channel of the first one. -/
theorem unregistered_frames :
    ¬ Lawful (observations Streams.net zeroMd5 (newContext (refusal ++ refusal)) [.run twoLines]) ∧
    ¬ Lawful (observations Streams.net zeroMd5 (newContext (grant ++ receipt))
      [.run twoLines, .reconnect (some fun _ => socket refusal), .run twoLines]) := by
  have hzero : observations Streams.net zeroMd5 (newContext (refusal ++ refusal)) [.run twoLines]
      = [.reads [97, LF, 98, LF]] ++ .sent (lineFrame 0 [97, LF]) :: [] := rfl
  have hstale : observations Streams.net zeroMd5 (newContext (grant ++ receipt))
      [.run twoLines, .reconnect (some fun _ => socket refusal), .run twoLines]
      = [.registered 1 2, .reads [97, LF, 98, LF], .sent (lineFrame 1 [98, LF]), .connected,
          .reads [97, LF, 98, LF]] ++ .sent (lineFrame 1 [97, LF]) :: [] := rfl
  constructor
  · intro hlaw
    obtain ⟨channel, position, since, ⟨⟨start, hsplit⟩, -⟩, -⟩ := hlaw _ _ _ hzero
    -- No INIT request has succeeded.
    have hmem : Observed.registered channel position ∈ [Observed.reads [97, LF, 98, LF]] := by
      rw [hsplit]
      simp
    simp at hmem
  · intro hlaw
    obtain ⟨channel, position, since, ⟨⟨start, hsplit⟩, hsince⟩, -⟩ := hlaw _ _ _ hstale
    cases start with
    | nil =>
      -- The only success is before the second connection.
      rw [List.nil_append] at hsplit
      obtain ⟨-, hrest⟩ := List.cons.inj hsplit
      have hconnected : Observed.connected ∈ since := by
        rw [← hrest]
        simp
      exact (hsince _ hconnected).1 rfl
    | cons first start =>
      rw [List.cons_append] at hsplit
      obtain ⟨-, hrest⟩ := List.cons.inj hsplit
      have hmem : Observed.registered channel position ∈
          start ++ .registered channel position :: since := by simp
      rw [← hrest] at hmem
      simp at hmem

end Compostela.Proofs.CurrentChannel
