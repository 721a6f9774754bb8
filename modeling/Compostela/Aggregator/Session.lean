import Compostela.Aggregator.Receive
import Compostela.Lib.Runs

/-!
# `Compostela.Aggregator.Session`: the requests of one connection

A session is a connection and the files, and a request takes it one handler call further.
The channel list of a session is well formed after every run of requests:
`WellFormed.handle` is the step, and `wellFormed_run` the run. `init_run` is the run that
registers `n` channels.

`Sessions` are all connections of the aggregator over the same files.

The requests are messages as `do_receive` leaves them. No request is excluded: a wrong
length or a handler call that traps ends the run.
-/

set_option autoImplicit false

namespace Compostela.Aggregator

open Compostela.Common
open Compostela.Common.AzBuffer
open Compostela.Memory
open Compostela.Runs

/-- A connection and the files. -/
structure Session where
  conn : ScConnection
  fs : Fs

/-- A message that `do_receive` hands on, with the memory and the digest reads of its
handler call. -/
structure Request where
  heap : Heap
  chunks : List Nat
  msg : ScLogMessage

/-- One handler call. -/
def Session.step (cfg : Config) (s : Session) (r : Request) : Except Trap Session :=
  (handle cfg r.heap r.chunks r.msg s.conn s.fs).map fun h => ⟨h.conn, h.fs⟩

/-- A connection that was just accepted. -/
def Session.start (addr : Option Bytes) (fs : Fs) : Session := ⟨⟨addr, []⟩, fs⟩

/-! ### What a handler call keeps -/

/-- The flush of a valid buffer leaves a valid buffer. -/
theorem flushBuffer_valid {writer : Writer} {path : Bytes} {buffer buffer' : AzBuffer}
    {fs fs' : Fs} (hv : buffer.Valid)
    (h : flushBuffer writer path buffer fs = .ok (buffer', fs')) : buffer'.Valid := by
  simp only [flushBuffer] at h
  split at h
  · obtain ⟨head, -, heq⟩ := bind_eq_ok.mp h
    cases heq
    exact hv.reset
  · cases h
    exact hv

/-- `_do_append_file` keeps the buffer valid. -/
theorem doAppendFile_valid {path : Bytes} {buffer buffer' : AzBuffer} {data : Except Trap Bytes}
    {fs fs' : Fs} {n : Int} (hv : buffer.Valid)
    (h : doAppendFile path buffer data fs = .ok (n, buffer', fs')) : buffer'.Valid := by
  simp only [doAppendFile] at h
  split at h
  · cases h
    exact hv
  · obtain ⟨⟨b, f⟩, hflush, hrest⟩ := bind_eq_ok.mp h
    obtain ⟨text, -, heq⟩ := bind_eq_ok.mp hrest
    cases heq
    exact flushBuffer_valid hv hflush

/-- `_do_merge_file` keeps the buffer valid. -/
theorem doMergeFile_valid {cfg : Config} {heap : Heap} {host : Option Bytes} {path : Bytes}
    {ts : BitVec 64} {buffer buffer' : AzBuffer} {data : Except Trap Bytes}
    {aggr : Option ScAggregateContext} {fs fs' : Fs} {n : Int} (hv : buffer.Valid)
    (h : doMergeFile cfg heap host path ts buffer data aggr fs = .ok (n, buffer', fs')) :
    buffer'.Valid := by
  obtain ⟨stamp, -, h⟩ := bind_eq_ok.mp h
  simp only at h
  split at h
  · cases h
    exact hv
  · obtain ⟨addr, -, h⟩ := bind_eq_ok.mp h
    obtain ⟨⟨b, f⟩, hflush, hrest⟩ := bind_eq_ok.mp h
    obtain ⟨text, -, heq⟩ := bind_eq_ok.mp hrest
    cases heq
    exact flushBuffer_valid hv hflush

/-- Both branches of `handler_data` leave the channel a valid buffer. -/
theorem takeText_valid {cfg : Config} {heap : Heap} {conn : ScConnection} {channel : ScChannel}
    {attr : BitVec 32} {t : BitVec 64} {len : Nat} {text : Except Trap Bytes} {fs fs' : Fs}
    {buffer' : AzBuffer} (hv : channel.buffer.Valid)
    (hlen : ∀ bs, text = .ok bs → bs.length = len)
    (h : takeText cfg heap conn channel attr t len text fs = .ok (buffer', fs')) :
    buffer'.Valid := by
  unfold takeText at h
  split at h
  · obtain ⟨b, hb, heq⟩ := bind_eq_ok.mp h
    cases heq
    cases htext : text with
    | error t =>
      -- The text is read by the fetch, which is reached in every case that succeeds.
      rw [htext] at hb
      simp only [bufferText, error_bind] at hb
      split at hb
      · split at hb <;> cases hb
      · cases hb
    | ok bs =>
      rw [htext, ← hlen bs htext] at hb
      exact (bufferText_eq_ok hv hb).1
  · obtain ⟨⟨b1, f1⟩, hmerge, happ⟩ := bind_eq_ok.mp h
    have hv1 : b1.Valid := by
      simp only [mergeText] at hmerge
      split at hmerge
      · obtain ⟨⟨n, b, f⟩, hdo, heq⟩ := bind_eq_ok.mp hmerge
        cases heq
        exact doMergeFile_valid hv hdo
      · cases hmerge
        exact hv
    simp only [appendText] at happ
    split at happ
    · obtain ⟨⟨n, b, f⟩, hdo, heq⟩ := bind_eq_ok.mp happ
      cases heq
      exact doAppendFile_valid hv1 hdo
    · cases happ
      exact hv1

/-- What a successful `handler_data` does to the connection: the channel that the lookup
found gets another buffer. -/
theorem handlerData_conn {cfg : Config} {heap : Heap} {msg : ScLogMessage}
    {conn : ScConnection} {channel : Option ScChannel} {fs : Fs} {r : Handled}
    (h : handlerData cfg heap msg conn channel fs = .ok r) :
    ∃ c buffer', channel = some c ∧ r.conn = conn.update { c with buffer := buffer' } ∧
      (c.buffer.Valid → buffer'.Valid) := by
  cases channel with
  | none => cases h
  | some c =>
    obtain ⟨attr, -, h⟩ := bind_eq_ok.mp h
    obtain ⟨t, -, h⟩ := bind_eq_ok.mp h
    obtain ⟨⟨buffer', fs'⟩, htake, h⟩ := bind_eq_ok.mp h
    obtain ⟨sent, -, heq⟩ := bind_eq_ok.mp h
    cases heq
    refine ⟨c, buffer', rfl, rfl, fun hv => takeText_valid hv ?_ htake⟩
    -- The text is as long as it was asked for.
    intro bs hbs
    obtain ⟨-, rfl⟩ := Block.load_eq_ok.mp hbs
    exact Block.length_bytes _ _ _

/-- What a successful `handler_init` does: a new channel is registered. -/
theorem handlerInit_conn {cfg : Config} {heap : Heap} {chunks : List Nat} {msg : ScLogMessage}
    {conn : ScConnection} {fs : Fs} {r : Handled}
    (h : handlerInit cfg heap chunks msg conn fs = .ok r) :
    ∃ name channel channel', scChannelNew cfg heap conn name = .ok channel ∧
      scConnectionRegisterChannel conn channel = .ok (r.conn, channel') ∧ r.fs = fs := by
  obtain ⟨attr, -, h⟩ := bind_eq_ok.mp h
  split at h
  · cases h
  obtain ⟨p, -, h⟩ := bind_eq_ok.mp h
  obtain ⟨channel, hnew, h⟩ := bind_eq_ok.mp h
  obtain ⟨⟨conn', channel'⟩, hreg, h⟩ := bind_eq_ok.mp h
  obtain ⟨sent, -, heq⟩ := bind_eq_ok.mp h
  cases heq
  exact ⟨_, channel, channel', hnew, hreg, rfl⟩

/-- What a successful `handler_rele` does: the channel that the lookup found is deleted. -/
theorem handlerRele_conn {msg : ScLogMessage} {conn : ScConnection}
    {channel : Option ScChannel} {fs : Fs} {r : Handled}
    (h : handlerRele msg conn channel fs = .ok r) :
    scConnectionDeleteChannel conn channel = .ok r.conn ∧ r.fs = fs := by
  obtain ⟨conn', hdel, h⟩ := bind_eq_ok.mp h
  obtain ⟨sent, -, heq⟩ := bind_eq_ok.mp h
  cases heq
  exact ⟨hdel, rfl⟩

/-- On a well-formed connection it needs a channel, and the others stay. -/
theorem handlerRele_sublist {msg : ScLogMessage} {conn : ScConnection} {id : Int} {fs : Fs}
    {r : Handled} (hwf : conn.WellFormed)
    (h : handlerRele msg conn (scConnectionChannel conn id) fs = .ok r) :
    ∃ li, r.conn = { conn with channelList := li } ∧ li.Sublist conn.channelList := by
  obtain ⟨hdel, -⟩ := handlerRele_conn h
  cases hc : scConnectionChannel conn id with
  | none =>
    rw [hc] at hdel
    cases hdel
  | some c =>
    obtain ⟨li, hli, hsub, -⟩ :=
      scConnectionDeleteChannel_of_mem hwf (mem_of_scConnectionChannel hc)
    rw [hc, hli, Except.ok.injEq] at hdel
    exact ⟨li, hdel.symm, hsub⟩

/-- What a successful `handler_seek` does: it needs a channel, and only opens its file. -/
theorem handlerSeek_conn {msg : ScLogMessage} {conn : ScConnection}
    {channel : Option ScChannel} {fs : Fs} {r : Handled}
    (h : handlerSeek msg conn channel fs = .ok r) :
    channel ≠ none ∧ r.conn = conn ∧ r.fs.file = fs.file := by
  obtain ⟨pos, -, h⟩ := bind_eq_ok.mp h
  cases channel with
  | none => cases h
  | some c =>
    obtain ⟨sent, -, heq⟩ := bind_eq_ok.mp h
    cases heq
    exact ⟨by simp, rfl, rfl⟩

/-- Every handler keeps the channel list well formed. -/
theorem ScConnection.WellFormed.handle {cfg : Config} {heap : Heap} {chunks : List Nat}
    {msg : ScLogMessage} {conn : ScConnection} {fs : Fs} {r : Handled} (hwf : conn.WellFormed)
    (h : handle cfg heap chunks msg conn fs = .ok r) : r.conn.WellFormed := by
  simp only [Aggregator.handle] at h
  cases hhandler : handlerFor msg.code msg.channel with
  | none =>
    rw [hhandler] at h
    cases h
    exact hwf
  | some handler =>
    rw [hhandler] at h
    -- One case for each handler. Those that are not shown to change the list keep it as it is.
    cases handler with
    | init =>
      obtain ⟨name, channel, channel', hnew, hreg, -⟩ := handlerInit_conn h
      exact hwf.register (scChannelNew_eq_ok hnew).2.1 hreg
    | dummy =>
      obtain ⟨sent, -, heq⟩ := bind_eq_ok.mp h
      cases heq
      exact hwf
    | seek =>
      rw [(handlerSeek_conn h).2.1]
      exact hwf
    | data =>
      obtain ⟨c, buffer', hc, hconn, hvalid⟩ := handlerData_conn h
      have hmem := mem_of_scConnectionChannel hc
      rw [hconn]
      exact hwf.update hmem rfl (hvalid (hwf.valid c hmem))
    | rele =>
      obtain ⟨li, hconn, hsub⟩ := handlerRele_sublist hwf h
      rw [hconn]
      exact hwf.sublist hsub

/-- One request of a session: the handler ends, and its connection and files are the next state. -/
theorem Session.step_eq_ok {cfg : Config} {s s' : Session} {r : Request} :
    s.step cfg r = .ok s' ↔ ∃ h, handle cfg r.heap r.chunks r.msg s.conn s.fs = .ok h ∧
      s' = ⟨h.conn, h.fs⟩ := by
  unfold Session.step
  cases handle cfg r.heap r.chunks r.msg s.conn s.fs with
  | error t => simp [Except.map]
  | ok h => simp [Except.map, eq_comm]

/-- The channel list is well formed after every run of requests. -/
theorem Session.wellFormed_run {cfg : Config} {addr : Option Bytes} {fs : Fs}
    {requests : List Request} {s : Session}
    (h : requests.foldlM (Session.step cfg) (Session.start addr fs) = .ok s) :
    s.conn.WellFormed := by
  refine run_invariant (I := fun s => s.conn.WellFormed) ?_ (ScConnection.wellFormed_nil addr) h
  intro s r s' hwf hstep
  obtain ⟨handled, hhandle, rfl⟩ := Session.step_eq_ok.mp hstep
  exact hwf.handle hhandle

/-! ### A run of INIT requests -/

/-- The channels of `n` registrations of one channel: the latest is first. -/
def registered (channel : ScChannel) : Nat → List ScChannel
  | 0 => []
  | n + 1 => { channel with id := n + 1 } :: registered channel n

/-- The numbers of the registered channels go from 1 to their count. -/
theorem mem_registered {channel c : ScChannel} {n : Nat} (h : c ∈ registered channel n) :
    1 ≤ c.id ∧ c.id ≤ n := by
  induction n with
  | zero => cases h
  | succ n ih =>
    rcases List.mem_cons.mp h with rfl | h
    · simp only
      omega
    · have := ih h
      omega

/-- The largest of the registered numbers is their count. -/
theorem maxId_registered (channel : ScChannel) (n : Nat) : maxId (registered channel n) = n := by
  cases n with
  | zero => rfl
  | succ n =>
    have hhead : ({ channel with id := (n : Int) + 1 } : ScChannel).id
        ≤ maxId (registered channel (n + 1)) := le_maxId (List.mem_cons_self ..)
    simp only at hhead
    rcases maxId_cases (registered channel (n + 1)) with h0 | ⟨c, hc, hid⟩
    · omega
    · have := (mem_registered hc).2
      omega

section
variable {cfg : Config} {addr : Option Bytes} {r : Request} {channel : ScChannel}

/-- The same INIT request `n` times on a fresh connection registers the ids from 1 to `n`. -/
theorem Session.init_run (hinit : handlerFor r.msg.code r.msg.channel = some .init)
    (hw : WholeInit r.msg) (hnew : scChannelNew cfg r.heap ⟨addr, []⟩ (nameOf r.msg) = .ok channel)
    (fs : Fs) (n : Nat) (hn : n ≤ INT_MAX) :
    (List.replicate n r).foldlM (Session.step cfg) (Session.start addr fs) =
      .ok ⟨⟨addr, registered channel n⟩, fs⟩ := by
  induction n with
  | zero => rfl
  | succ n ih =>
    rw [List.replicate_succ', foldlM_concat_eq_ok]
    refine ⟨_, ih (by omega), Session.step_eq_ok.mpr ?_⟩
    refine ⟨⟨⟨addr, registered channel (n + 1)⟩, fs,
      (initFrame cfg r.chunks fs { channel with id := n + 1 } (attrOf r.msg)).bytes⟩, ?_, rfl⟩
    simp only [handle, hinit]
    refine (handlerInit_eq_ok hw).mpr ⟨channel, { channel with id := n + 1 }, hnew, ?_, rfl, rfl⟩
    -- The largest id is the number of registrations, and still below `INT_MAX`.
    refine scConnectionRegisterChannel_eq_ok.mpr ⟨?_, ?_, rfl⟩
    · simp only [maxId_registered]
      omega
    · simp only [maxId_registered]

end

/-! ### All connections -/

/-- The connections of the aggregator, by socket, and the files that they share. -/
structure Sessions where
  conn : Nat → ScConnection
  fs : Fs

/-- A message that `do_receive` hands on, and the socket that it came from. -/
structure Arrived where
  socket : Nat
  request : Request

/-- One handler call. The other connections stay as they are. -/
def Sessions.step (cfg : Config) (s : Sessions) (a : Arrived) : Except Trap Sessions :=
  (Session.step cfg ⟨s.conn a.socket, s.fs⟩ a.request).map fun next =>
    ⟨fun i => if i = a.socket then next.conn else s.conn i, next.fs⟩

/-- One request among several connections: the handler ends, and only its own connection changes. -/
theorem Sessions.step_eq_ok {cfg : Config} {s s' : Sessions} {a : Arrived} :
    s.step cfg a = .ok s' ↔ ∃ h, handle cfg a.request.heap a.request.chunks a.request.msg
        (s.conn a.socket) s.fs = .ok h ∧
      s' = ⟨fun i => if i = a.socket then h.conn else s.conn i, h.fs⟩ := by
  unfold Sessions.step Session.step
  cases handle cfg a.request.heap a.request.chunks a.request.msg (s.conn a.socket) s.fs with
  | error t => simp [Except.map]
  | ok h => simp [Except.map, eq_comm]

/-! ### A small configuration

The fixed inputs of this development use it. -/

/-- The files go to `/l`, a pattern matches itself, and no time fits its buffer. -/
def smallConfig (contexts : List ScAggregateContext) : Config where
  logdir := [47, 108]
  contexts := contexts
  fnmatch := fun pattern name => pattern = name
  strftime := fun _ _ => none
  strftime_fits := by simp
  md5 := zeroMd5

/-- No files, and every call succeeds. -/
def Fs.empty : Fs := ⟨fun _ => none, [], [], [], []⟩

/-- An INIT request for the name `n`, without a digest. -/
def smallInit : Request := ⟨zeroHeap, [], .received SCM_MSG_INIT 0 [0, 0, 0, 0, 110]⟩

/-- The channel of `smallInit` on a connection from `a`, with its file `/l/a/n`. -/
def smallChannel (contexts : List ScAggregateContext) : ScChannel where
  id := 0
  filename := [110]
  filenameFullpath := [47, 108, 47, 97, 47, 110]
  buffer := azBufferNew zeroHeap LINE_BUFFER_SIZE
  aggregateContext := findAggregateContext (smallConfig contexts) [47, 108, 47, 97, 47, 110]

/-- The INIT request of the small session has a path behind its attribute. -/
theorem smallInit_whole : WholeInit smallInit.msg := ⟨by decide, by decide⟩

/-- The channel that the small INIT request makes. -/
theorem scChannelNew_smallInit (contexts : List ScAggregateContext) :
    scChannelNew (smallConfig contexts) smallInit.heap ⟨some [97], []⟩ (nameOf smallInit.msg) =
      .ok (smallChannel contexts) := by
  have hname : nameOf smallInit.msg = [110] := by decide
  have hpath : pathcat zeroHeap [47, 108] [[97], [110]] = .ok [47, 108, 47, 97, 47, 110] :=
    rfl
  rw [hname]
  simp only [scChannelNew, smallConfig, smallInit, hpath, ok_bind]
  rfl

/-- `smallInit` sent `n` times on a fresh connection. -/
theorem Session.small_run (contexts : List ScAggregateContext) (fs : Fs) (n : Nat)
    (hn : n ≤ INT_MAX) :
    (List.replicate n smallInit).foldlM (Session.step (smallConfig contexts))
      (Session.start (some [97]) fs) =
        .ok ⟨⟨some [97], registered (smallChannel contexts) n⟩, fs⟩ :=
  Session.init_run (by decide) smallInit_whole (scChannelNew_smallInit contexts) fs n hn

/-- The session after one `smallInit`. -/
def oneChannel (contexts : List ScAggregateContext) : Session :=
  ⟨⟨some [97], registered (smallChannel contexts) 1⟩, Fs.empty⟩

/-- One registration leaves a connection that is well formed. -/
theorem oneChannel_wellFormed (contexts : List ScAggregateContext) :
    (oneChannel contexts).conn.WellFormed :=
  Session.wellFormed_run (Session.small_run contexts Fs.empty 1 (by decide))

/-- A DATA request for channel 1. -/
def smallData (attr : BitVec 32) (text : Bytes) : Request :=
  ⟨zeroHeap, [], .received SCM_MSG_DATA 1
    (netImage 4 attr ++ netImage 8 (0 : BitVec 64) ++ text)⟩

end Compostela.Aggregator
