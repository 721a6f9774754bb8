import Compostela.Aggregator.Session
import Compostela.Lib.Pieces

/-!
# `Compostela.Proofs.SplitLines`: split lines in the separate file

A line that is longer than a DATA message, or that was not complete when the follower read
it, comes in several messages. `handler_data` keeps the pieces of an open line in the
channel's buffer, and the message that completes the line records them. The same buffer
serves the merged and the separate file: `_do_merge_file` goes first, writes the buffered
pieces and resets the buffer, and `_do_append_file` finds nothing in it.

`Progress` states what is in the buffer and in the separate file against the messages so
far. `Progress.step` is one message, and `progress_run` a run of them.
`separate_file_complete_iff` is the result: the separate file gets the whole text exactly
when merging is off or no recorded piece of an open line has text in it.
-/

set_option autoImplicit false

namespace Compostela.Proofs.SplitLines

open Compostela.Common
open Compostela.Memory
open Compostela.Runs
open Compostela.Pieces
open Compostela.Aggregator

/-- The message completes a line: bit 31 of its attribute is set. -/
def completes (r : Request) : Bool := attrOf r.msg &&& ATTR_TOP ≠ 0

/-- The text of the message. -/
def text (r : Request) : Bytes := textOf r.msg

/-- A DATA request for the channel with this id, with all of its bytes. -/
structure DataFor (id : Int) (r : Request) : Prop where
  code : r.msg.code = SCM_MSG_DATA
  channel : r.msg.channel.toInt = id
  whole : WholeData r.msg

/-- The channel's mode merges. -/
def Merging (c : ScChannel) : Bool := c.aggregateContext.all (·.fMerge)

/-- The channel's mode keeps a separate file. -/
def Separating (c : ScChannel) : Bool := c.aggregateContext.all (·.fSeparate)

/-- What `_do_append_file` has appended to the channel's separate file. -/
def separate (c : ScChannel) (s : Session) : Bytes :=
  s.fs.written .doAppendFile c.filenameFullpath

/-- The state after the messages `done`: the buffer of channel `c` holds the open line, and
the separate file has grown by the recorded text, or by the completing pieces alone when
the mode merges. -/
structure Progress (s0 : Session) (c : ScChannel) (done : List Request) (s : Session) : Prop where
  wf : s.conn.WellFormed
  results : s.fs.results = []
  channel : ∃ buffer, { c with buffer := buffer } ∈ s.conn.channelList ∧
    buffer.unread = pending completes text done
  separate_eq : separate c s = separate c s0 ++
    if Merging c then completed completes text done else recorded completes text done

/-- The write to a channel puts the new channel in the place of the old one. -/
theorem mem_update {conn : ScConnection} {c channel : ScChannel} (hc : c ∈ conn.channelList)
    (hid : c.id = channel.id) : channel ∈ (conn.update channel).channelList := by
  refine List.mem_map.mpr ⟨c, hc, ?_⟩
  rw [if_pos hid]

/-- A DATA request for a registered channel runs `handler_data` on that channel. -/
theorem handle_data {cfg : Config} {s : Session} {r : Request} {c : ScChannel}
    (hwf : s.conn.WellFormed) (hc : c ∈ s.conn.channelList) (hr : DataFor c.id r) :
    handle cfg r.heap r.chunks r.msg s.conn s.fs =
      handlerData cfg r.heap r.msg s.conn (some c) s.fs := by
  have hzero : r.msg.channel ≠ 0 := by
    intro h
    have hpos := hwf.pos c hc
    have hid := hr.channel
    rw [h] at hid
    simp at hid
    omega
  have hhandler : handlerFor r.msg.code r.msg.channel = some .data := by
    rw [handlerFor, if_neg hzero, hr.code]
    decide
  simp only [handle, hhandler]
  rw [hr.channel, scConnectionChannel_of_mem hwf hc]

/-- One more message. In the open branch the text goes to the buffer. In the completing
branch the separate file gets the text, and in front of it the buffer unless
`_do_merge_file` has emptied it. -/
theorem Progress.step {cfg : Config} {s0 s s' : Session} {c : ScChannel} {done : List Request}
    {r : Request} (hsep : Separating c = true) (h : Progress s0 c done s)
    (hr : DataFor c.id r) (hstep : s.step cfg r = .ok s') :
    Progress s0 c (done ++ [r]) s' := by
  obtain ⟨buffer, hc, hunread⟩ := h.channel
  obtain ⟨handled, hhandle, rfl⟩ := Session.step_eq_ok.mp hstep
  have hwf' : handled.conn.WellFormed := h.wf.handle hhandle
  rw [handle_data h.wf hc hr] at hhandle
  obtain ⟨buffer', hconn, -, hbranch⟩ := handlerData_eq_ok hr.whole hhandle
  have hmem : { c with buffer := buffer' } ∈ handled.conn.channelList := by
    rw [hconn]
    exact mem_update hc rfl
  have hvalid : buffer.Valid := h.wf.valid _ hc
  by_cases hattr : attrOf r.msg &&& ATTR_TOP = 0
  · -- The piece of an open line: the files stay, and the buffer grows.
    have hopen : completes r = false := by simp [completes, hattr]
    obtain ⟨hrec, hpend, hcomp⟩ := concat_of_open text hopen done
    rw [if_pos hattr] at hbranch
    obtain ⟨hfs, hbuffer⟩ := hbranch
    obtain ⟨-, hunread'⟩ := bufferText_eq_ok hvalid hbuffer
    refine ⟨hwf', by rw [hfs]; exact h.results, ⟨buffer', hmem, ?_⟩, ?_⟩
    · rw [hunread', hpend, hunread]
      rfl
    · rw [hrec, hcomp, ← h.separate_eq]
      simp only [separate, hfs]
  · -- The piece that completes a line: the two functions run one after the other.
    have hdone : completes r = true := by simpa [completes] using hattr
    obtain ⟨hrec, hpend, hcomp⟩ := concat_of_complete text hdone done
    rw [if_neg hattr] at hbranch
    obtain ⟨fs1, record, -, hresults, hmerge, happend, hempty⟩ :=
      recordText_eq_ok hvalid h.results hbranch
    refine ⟨hwf', hresults, ⟨buffer', hmem, ?_⟩, ?_⟩
    · rw [hpend]
      exact hempty (Or.inr hsep)
    · have hsep' : c.aggregateContext.all (·.fSeparate) = true := hsep
      rw [if_pos hsep'] at happend
      -- What the merged file gets is written by the other function.
      have hfirst : fs1.written .doAppendFile c.filenameFullpath
          = s.fs.written .doAppendFile c.filenameFullpath := by
        split at hmerge
        · rw [hmerge.written]
          simp
        · rw [hmerge]
      have hgrow : separate c ⟨handled.conn, handled.fs⟩ = separate c s ++
          ((if Merging c then [] else pending completes text done) ++ text r) := by
        simp only [separate]
        rw [happend.written, hfirst, ← hunread]
        simp only [and_self, if_true]
        rfl
      rw [hgrow, h.separate_eq, hrec, hcomp]
      cases Merging c <;> simp

/-- A run of DATA messages on a channel whose buffer is empty at the start. -/
theorem progress_run {cfg : Config} {s s' : Session} {c : ScChannel} {requests : List Request}
    (hwf : s.conn.WellFormed) (hc : c ∈ s.conn.channelList) (hfresh : c.buffer.unread = [])
    (hsep : Separating c = true) (hfs : s.fs.results = [])
    (hdata : ∀ r ∈ requests, DataFor c.id r)
    (hrun : requests.foldlM (Session.step cfg) s = .ok s') : Progress s c requests s' := by
  have hstart : Progress s c [] s := by
    refine ⟨hwf, hfs, ⟨c.buffer, hc, hfresh⟩, ?_⟩
    simp [completed, recorded]
  have hall := run_history (fun done s e s' h he => Progress.step hsep h he) hdata hstart hrun
  simpa using hall

/-- The separate file gets exactly the text up to the last completing message if and only
if the mode does not merge, or every message of an open line before it is empty. -/
theorem separate_file_complete_iff {cfg : Config} {s s' : Session} {c : ScChannel}
    {requests : List Request} (hwf : s.conn.WellFormed) (hc : c ∈ s.conn.channelList)
    (hfresh : c.buffer.unread = []) (hsep : Separating c = true) (hfs : s.fs.results = [])
    (hdata : ∀ r ∈ requests, DataFor c.id r)
    (hrun : requests.foldlM (Session.step cfg) s = .ok s') :
    separate c s' = separate c s ++ recorded completes text requests ↔
      Merging c = false ∨
        ∀ r ∈ requests.rdropWhile fun r => !completes r, completes r = false → text r = [] := by
  have h := progress_run hwf hc hfresh hsep hfs hdata hrun
  rw [h.separate_eq, List.append_cancel_left_eq, ← completed_eq_recorded_iff]
  cases hm : Merging c with
  | false => simp
  | true => simp

/-- The channel of the small configuration after its registration. Its path matches no
aggregate context, so the mode merges and separates. -/
def bothChannel : ScChannel := { smallChannel [] with id := 1 }

/-- The line `ab` in two messages. -/
def splitLine : List Request := [smallData 0 [97], smallData ATTR_TOP [98, LF]]

/-- Both pieces of the split line are DATA requests for the channel. -/
theorem splitLine_data : ∀ r ∈ splitLine, DataFor bothChannel.id r := by
  intro r hr
  rcases List.mem_cons.mp hr with rfl | hr
  · exact ⟨rfl, by decide, by decide, by decide⟩
  · rw [List.mem_singleton.mp hr]
    exact ⟨rfl, by decide, by decide, by decide⟩

/-- The split line on a channel that merges: the run ends, and there the law holds exactly
under its condition. -/
theorem separate_file_complete_iff_splitLine :
    ∃ s', splitLine.foldlM (Session.step (smallConfig [])) (oneChannel []) = .ok s' ∧
      (separate bothChannel s' =
          separate bothChannel (oneChannel []) ++ recorded completes text splitLine ↔
        Merging bothChannel = false ∨
          ∀ r ∈ splitLine.rdropWhile fun r => !completes r,
            completes r = false → text r = []) := by
  cases hrun : splitLine.foldlM (Session.step (smallConfig [])) (oneChannel []) with
  | error t =>
    have hok :
        (splitLine.foldlM (Session.step (smallConfig [])) (oneChannel [])).toBool = true := by
      rfl
    rw [hrun] at hok
    cases hok
  | ok s' =>
    exact ⟨s', rfl, separate_file_complete_iff (oneChannel_wellFormed [])
      (List.mem_cons_self ..) rfl (by decide) rfl splitLine_data hrun⟩

/-- With both files enabled the separate file gets the end of the split line only. -/
theorem split_line_loses_beginning :
    (splitLine.foldlM (Session.step (smallConfig [])) (oneChannel [])).map (separate bothChannel) =
        .ok [98, LF] ∧
      separate bothChannel (oneChannel []) ++ recorded completes text splitLine = [97, 98, LF] := by
  constructor
  · rfl
  · rfl

end Compostela.Proofs.SplitLines
