import Compostela.Proofs.SplitLines

/-!
# `Compostela.Proofs.MergedRecords`: the records of the merged file

Many channels, on many connections, record their lines in one merged file. Each channel keeps
the beginning of its open line in a buffer of its own, and `_do_merge_file` writes a record in up
to five calls. The aggregator handles one message after the other, so nothing comes between
these calls.

`Progress` states the merged file and the buffers of all channels against the messages so far,
in whatever order they came. `Progress.step` is one message, and `merged_records` the result:
the merged file grows by whole records in the order of the completing messages, and no text of
one channel gets into a record of another.
-/

set_option autoImplicit false

namespace Compostela.Proofs.MergedRecords

open Compostela.Common
open Compostela.Memory
open Compostela.Runs
open Compostela.Pieces
open Compostela.Aggregator
open Compostela.Proofs.SplitLines (DataFor Merging Separating handle_data mem_update)

/-- The channel that a message is for: the socket and the number. -/
def channelKey (a : Arrived) : Nat × Int := (a.socket, a.request.msg.channel.toInt)

/-- The message completes a line: bit 31 of its attribute is set. -/
def completes (a : Arrived) : Bool := attrOf a.request.msg &&& ATTR_TOP ≠ 0

/-- The text of the message. -/
def text (a : Arrived) : Bytes := textOf a.request.msg

/-- The aggregate context of the channel that a message is for. -/
def contextOf (s : Sessions) (a : Arrived) : Option ScAggregateContext :=
  (scConnectionChannel (s.conn a.socket) a.request.msg.channel.toInt).bind (·.aggregateContext)

/-- The timestamp part of a record, as `_do_merge_file` makes it: nothing for a channel whose
context asks for no timestamp, and else a space and the text of `__w3cdatetime`.
`Proofs/Timestamps` says when this is the time with a colon in its zone offset. -/
def stampOf (cfg : Config) (s : Sessions) (a : Arrived) : Bytes :=
  match mergeTimestamp cfg a.request.heap (timeOf a.request.msg) (contextOf s a) with
  | .ok stamp => stamp.getD []
  | .error _ => []

/-- What stands in front of the line in a record: the host, the timestamp and a colon. -/
def recordFront (cfg : Config) (s : Sessions) (a : Arrived) : Bytes :=
  (s.conn a.socket).remoteAddr.getD [] ++ stampOf cfg s a ++ [58, 32]

/-- The bytes of the records of these lines. -/
def recordsOf (cfg : Config) (s : Sessions) (ls : List (Arrived × Bytes)) : Bytes :=
  ls.flatMap fun line => recordFront cfg s line.1 ++ line.2

/-- A DATA request for a registered channel whose mode merges into this file, and whose separate
file is another one. The channel has no open line at the start. -/
structure MergesInto (cfg : Config) (path : Bytes) (s : Sessions) (a : Arrived) (c : ScChannel) :
    Prop where
  mem : c ∈ (s.conn a.socket).channelList
  fresh : c.buffer.unread = []
  data : DataFor c.id a.request
  merging : Merging c = true
  path_eq : mkPath cfg.logdir c.filename PATH_MAX = path
  separate_ne : Separating c = true → c.filenameFullpath ≠ path

/-- The state after the messages `done`, against the state `s0` at the start. The buffer of each
channel holds the open line of that channel, and the merged file has grown by the records of the
lines that were completed. -/
structure Progress (cfg : Config) (path : Bytes) (s0 : Sessions) (done : List Arrived)
    (s : Sessions) : Prop where
  wf : ∀ i, (s.conn i).WellFormed
  results : s.fs.results = []
  host : ∀ i, (s.conn i).remoteAddr = (s0.conn i).remoteAddr
  buffers : ∀ i, ∀ c ∈ (s0.conn i).channelList, c.buffer.unread = [] → ∃ buffer,
    { c with buffer := buffer } ∈ (s.conn i).channelList ∧
      buffer.unread = pending completes text (piecesOf channelKey (i, c.id) done)
  merged : (s.fs.file path).getD [] = (s0.fs.file path).getD [] ++
    recordsOf cfg s0 (lines completes text channelKey done)

section
variable {cfg : Config} {path : Bytes} {s0 s s' : Sessions} {a : Arrived} {c : ScChannel}
  {done : List Arrived}

/-- The message is for its channel. -/
theorem MergesInto.key_eq (h : MergesInto cfg path s a c) : channelKey a = (a.socket, c.id) := by
  rw [channelKey, h.data.channel]

/-- The context that is looked up for a message is that of its channel. -/
theorem MergesInto.contextOf_eq (hwf : (s.conn a.socket).WellFormed)
    (h : MergesInto cfg path s a c) : contextOf s a = c.aggregateContext := by
  rw [contextOf, h.data.channel, scConnectionChannel_of_mem hwf h.mem]
  rfl

/-- The buffers after one message: that of its channel is replaced, and the others hold what
they held. -/
theorem Progress.buffers_step (hwf0 : ∀ i, (s0.conn i).WellFormed)
    (h : Progress cfg path s0 done s) (hm : MergesInto cfg path s0 a c) {buffer buffer' : AzBuffer}
    (hunread :
      buffer'.unread = pending completes text (piecesOf channelKey (channelKey a) (done ++ [a])))
    {conn : ScConnection} (hmem : { c with buffer := buffer } ∈ (s.conn a.socket).channelList)
    (hconn : conn = (s.conn a.socket).update { c with buffer := buffer' }) :
    ∀ i, ∀ d ∈ (s0.conn i).channelList, d.buffer.unread = [] → ∃ buffer,
      { d with buffer := buffer } ∈ (if i = a.socket then conn else s.conn i).channelList ∧
        buffer.unread = pending completes text (piecesOf channelKey (i, d.id) (done ++ [a])) := by
  intro i d hd hfresh
  by_cases hsame : (i, d.id) = channelKey a
  · -- The channel of the message.
    rw [hm.key_eq] at hsame
    obtain ⟨rfl, hid⟩ := Prod.mk.inj hsame
    have hdc : d = c := by
      have hlookup := scConnectionChannel_of_mem (hwf0 a.socket) hd
      rw [hid, scConnectionChannel_of_mem (hwf0 a.socket) hm.mem] at hlookup
      exact (Option.some.inj hlookup).symm
    subst hdc
    refine ⟨buffer', ?_, ?_⟩
    · rw [if_pos rfl, hconn]
      exact mem_update hmem rfl
    · rw [hunread, hm.key_eq]
  · -- Another channel: its pieces are the same.
    obtain ⟨b, hb, hbu⟩ := h.buffers i d hd hfresh
    refine ⟨b, ?_, ?_⟩
    · by_cases hi : i = a.socket
      · subst hi
        rw [if_pos rfl, hconn]
        refine List.mem_map.mpr ⟨_, hb, if_neg ?_⟩
        intro hid
        exact hsame (by rw [hm.key_eq]; exact congrArg (Prod.mk a.socket) hid)
      · rw [if_neg hi]
        exact hb
    · rw [piecesOf_concat, if_neg (fun heq => hsame heq.symm), List.append_nil]
      exact hbu

/-- The merged file after one message that completes a line: one record more. -/
theorem merged_of_complete {r : Request} {conn : ScConnection} {fs fs' : Fs} {c : ScChannel}
    {buffer' : AzBuffer} (hv : c.buffer.Valid) (hfs : fs.results = [])
    (hmerge : Merging c = true) (hpath : mkPath cfg.logdir c.filename PATH_MAX = path)
    (hseparate : Separating c = true → c.filenameFullpath ≠ path)
    (h : recordText cfg r.heap conn c (timeOf r.msg) (.ok (textOf r.msg)) fs = .ok (buffer', fs')) :
    ∃ host stamp, conn.remoteAddr = some host ∧
      mergeTimestamp cfg r.heap (timeOf r.msg) c.aggregateContext = .ok stamp ∧
      fs'.results = [] ∧ buffer'.unread = [] ∧
      (fs'.file path).getD [] = (fs.file path).getD [] ++
        (host ++ stamp.getD [] ++ [58, 32] ++ (c.buffer.unread ++ textOf r.msg)) := by
  obtain ⟨host, stamp, fs1, hhost, hstamp, happ, hmode, hresults, -, hempty⟩ :=
    recordText_merging hv hfs hmerge h
  refine ⟨host, stamp, hhost, hstamp, hresults, hempty, ?_⟩
  -- The separate file is another one.
  have hsame : fs'.file path = fs1.file path := by
    split at hmode
    · rename_i hsep
      exact hmode.file_other path (hseparate hsep).symm
    · rw [hmode]
  have hself := happ.file_self
  rw [hpath] at hself
  rw [hsame, hself, Option.getD_some]

/-- One more message of any channel. -/
theorem Progress.step (hwf0 : ∀ i, (s0.conn i).WellFormed) (h : Progress cfg path s0 done s)
    (hm : ∃ c, MergesInto cfg path s0 a c) (hstep : s.step cfg a = .ok s') :
    Progress cfg path s0 (done ++ [a]) s' := by
  obtain ⟨c, hm⟩ := hm
  obtain ⟨r, hhandle, rfl⟩ := Sessions.step_eq_ok.mp hstep
  obtain ⟨buffer, hmem, hunread⟩ := h.buffers a.socket c hm.mem hm.fresh
  have hvalid : buffer.Valid := (h.wf a.socket).valid _ hmem
  have hwf' : r.conn.WellFormed := (h.wf a.socket).handle hhandle
  have hdata : DataFor ({ c with buffer := buffer } : ScChannel).id a.request := hm.data
  -- The request is for a channel of the session, so `handle` calls the DATA handler on it.
  rw [handle_data (s := ⟨s.conn a.socket, s.fs⟩) (h.wf a.socket) hmem hdata] at hhandle
  obtain ⟨buffer', hconn, -, hbranch⟩ := handlerData_eq_ok hm.data.whole hhandle
  have hhost : ∀ i, (if i = a.socket then r.conn else s.conn i).remoteAddr
      = (s0.conn i).remoteAddr := by
    intro i
    by_cases hi : i = a.socket
    · rw [if_pos hi, hconn, ScConnection.update_remoteAddr, hi]
      exact h.host a.socket
    · rw [if_neg hi]
      exact h.host i
  have hwf : ∀ i, (if i = a.socket then r.conn else s.conn i).WellFormed := by
    intro i
    by_cases hi : i = a.socket
    · rw [if_pos hi]
      exact hwf'
    · rw [if_neg hi]
      exact h.wf i
  have hkey : (a.socket, c.id) = channelKey a := hm.key_eq.symm
  rw [hkey] at hunread
  by_cases hattr : attrOf a.request.msg &&& ATTR_TOP = 0
  · -- The piece of an open line: the files stay, and one buffer grows.
    have hopen : completes a = false := by simp [completes, hattr]
    rw [if_pos hattr] at hbranch
    obtain ⟨hfs, hbuffer⟩ := hbranch
    obtain ⟨-, hunread'⟩ := bufferText_eq_ok hvalid hbuffer
    refine ⟨hwf, by rw [hfs]; exact h.results, hhost, ?_, ?_⟩
    · refine h.buffers_step hwf0 hm ?_ hmem hconn
      rw [piecesOf_concat, if_pos rfl, (concat_of_open text hopen _).2.1, hunread', hunread]
      rfl
    · rw [lines_concat, hopen, hfs]
      simpa using h.merged
  · -- The piece that completes a line: a record is written.
    have hdone : completes a = true := by simpa [completes] using hattr
    rw [if_neg hattr] at hbranch
    obtain ⟨host, stamp, haddr, hstamp, hresults, hempty, hfile⟩ :=
      merged_of_complete (r := a.request) (c := { c with buffer := buffer }) hvalid h.results
        hm.merging hm.path_eq hm.separate_ne hbranch
    refine ⟨hwf, hresults, hhost, ?_, ?_⟩
    · refine h.buffers_step hwf0 hm ?_ hmem hconn
      rw [piecesOf_concat, if_pos rfl, (concat_of_complete text hdone _).2.1]
      exact hempty
    · have hfront : recordFront cfg s0 a = host ++ stamp.getD [] ++ [58, 32] := by
        have hcontext := hm.contextOf_eq (hwf0 a.socket)
        have hstamp' : stampOf cfg s0 a = stamp.getD [] := by
          rw [stampOf, hcontext, show mergeTimestamp cfg a.request.heap (timeOf a.request.msg)
            c.aggregateContext = .ok stamp from hstamp]
        rw [recordFront, hstamp', ← h.host a.socket, haddr, Option.getD_some]
      rw [lines_concat, hdone, if_pos rfl, recordsOf, List.flatMap_append, ← recordsOf,
        ← List.append_assoc, ← h.merged, hfile, List.flatMap_singleton, hfront, hunread]
      rfl

end

/-! ### The result -/

/-- Every interleaving of DATA messages for channels that share a merged file. The file grows by
the records of the completed lines, in the order in which they were completed, and the lines of
one channel are together its own text up to its last completing message. -/
theorem merged_records {cfg : Config} {path : Bytes} {s s' : Sessions} {events : List Arrived}
    (hwf : ∀ i, (s.conn i).WellFormed) (hfs : s.fs.results = [])
    (hevents : ∀ a ∈ events, ∃ c, MergesInto cfg path s a c)
    (hrun : events.foldlM (Sessions.step cfg) s = .ok s') :
    (s'.fs.file path).getD [] = (s.fs.file path).getD [] ++
        recordsOf cfg s (lines completes text channelKey events) ∧
      ∀ k, ((lines completes text channelKey events).filter
          fun line => channelKey line.1 = k).flatMap Prod.snd =
        recorded completes text (piecesOf channelKey k events) := by
  have hstart : Progress cfg path s [] s := by
    refine ⟨hwf, hfs, fun i => rfl, ?_, ?_⟩
    · intro i c hc hfresh
      exact ⟨c.buffer, hc, hfresh⟩
    · simp [recordsOf, lines, linesFrom]
  have hall := run_history (fun done s a s' h hm => Progress.step hwf h hm) hevents hstart hrun
  rw [List.nil_append] at hall
  exact ⟨hall.merged, fun k => lines_of_writer completes text channelKey k events⟩

/-- Records with a timestamp and no separate file, for the first host. -/
def firstContext : ScAggregateContext := ⟨[47, 108, 47, 97, 47, 110], true, false, true⟩

/-- A clock in a zone nine hours to the east. -/
def stampedConfig : Config :=
  { smallConfig [firstContext] with
    strftime := fun n _ => if 24 < n then some (ascii "1970-01-01T09:00:00+0900") else none
    strftime_fits := by
      intro n t s h
      split at h
      · cases h
        assumption
      · cases h }

/-- The channel of a second host for the same name, which has no context. -/
def secondChannel : ScChannel :=
  { smallChannel [] with filenameFullpath := [47, 108, 47, 98, 47, 110] }

/-- Two hosts with a channel each for the same name. -/
def twoHosts : Sessions where
  conn i := if i = 0 then ⟨some [97], registered (smallChannel [firstContext]) 1⟩
    else ⟨some [98], registered secondChannel 1⟩
  fs := Fs.empty

/-- A connection with one channel. -/
theorem wellFormed_one {addr : Option Bytes} {channel : ScChannel}
    (hvalid : channel.buffer.Valid) :
    (⟨addr, registered channel 1⟩ : ScConnection).WellFormed where
  nodup := List.pairwise_singleton _ _
  pos := List.forall_mem_singleton.mpr Int.one_pos
  le_max := List.forall_mem_singleton.mpr (by show (1 : Int) ≤ INT_MAX; decide)
  valid := List.forall_mem_singleton.mpr hvalid

/-- Both connections are well formed. -/
theorem twoHosts_wellFormed (i : Nat) : (twoHosts.conn i).WellFormed := by
  have hvalid : (azBufferNew zeroHeap LINE_BUFFER_SIZE).Valid :=
    AzBuffer.valid_azBufferNew zeroHeap (by decide)
  unfold twoHosts
  by_cases h : i = 0
  · simp only [if_pos h]
    exact wellFormed_one hvalid
  · simp only [if_neg h]
    exact wellFormed_one hvalid

/-- A line of the second host between the two pieces of a line of the first. -/
def between : List Arrived :=
  [⟨0, smallData 0 [99]⟩, ⟨1, smallData ATTR_TOP [100, LF]⟩, ⟨0, smallData ATTR_TOP [101, LF]⟩]

/-- The three messages are for channels that merge into one file. -/
theorem between_mergesInto :
    ∀ a ∈ between, ∃ c, MergesInto stampedConfig [47, 108, 47, 110] twoHosts a c := by
  intro a ha
  simp only [between, List.mem_cons, List.not_mem_nil, or_false] at ha
  rcases ha with rfl | rfl | rfl
  all_goals
    exact ⟨_, List.mem_cons_self .., rfl, ⟨rfl, by decide, by decide, by decide⟩, by decide,
      by rfl, by decide⟩

/-- The run of `between` ends, and the merged file gets its two lines unmixed, the line of the
first host with its timestamp. -/
theorem merged_records_between :
    ∃ s', between.foldlM (Sessions.step stampedConfig) twoHosts = .ok s' ∧
      (s'.fs.file [47, 108, 47, 110]).getD [] =
        [98, 58, 32, 100, LF] ++
          ([97] ++ ascii " 1970-01-01T09:00:00+09:00" ++ [58, 32] ++ [99, 101, LF]) := by
  cases hrun : between.foldlM (Sessions.step stampedConfig) twoHosts with
  | error t =>
    have hok : (between.foldlM (Sessions.step stampedConfig) twoHosts).toBool = true := by
      rfl
    rw [hrun] at hok
    cases hok
  | ok s' =>
    obtain ⟨hfile, -⟩ := merged_records twoHosts_wellFormed rfl between_mergesInto hrun
    refine ⟨s', rfl, ?_⟩
    rw [hfile]
    rfl

end Compostela.Proofs.MergedRecords
