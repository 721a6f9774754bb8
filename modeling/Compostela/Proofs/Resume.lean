import Compostela.System.Following

/-!
# `Compostela.Proofs.Resume`: every byte of a followed file once

A follow context resumes at the size of its separate file. In a mode with separate files only
this is exact: the separate file is a prefix of the followed file that is empty or ends with a
newline, however often the connection is lost, wherever the file is when it grows, and however
the reads cut it into pieces.

A piece of a line that is not complete waits in the buffer of the aggregator's channel, and
the rest of what was read in the buffer of the context. `Synced` is the invariant of a
connection that works: the file up to the offset of the context is the separate file, the
channel's buffer, the line in hand and the context's buffer, in this order. When the
connection is lost the two buffers are thrown away, and `Kept` is what remains: both the
separate file and the separate file with the channel's buffer are prefixes of the file.

`SeparateOnly.tracks` says what every event does to the two, and `resume_exactly_once` is the
result for every run.
-/

set_option autoImplicit false

namespace Compostela.Proofs.Resume

open Compostela.Common
open Compostela.Memory
open Compostela.Runs
open Compostela.Aggregator
open Compostela.Follower
open Compostela.System
open Link

/-! ### The invariant -/

/-- The bytes of the separate file, and none when it is not there. -/
def separate (path : Bytes) (fs : Fs) : Bytes := (fs.file path).getD []

/-- Empty, or ending with a newline. -/
def WholeLines (bs : Bytes) : Prop := bs = [] ∨ ∃ init, bs = init ++ [LF]

/-- The channel of the separate file. -/
structure IsFor (cfg : Config) (path : Bytes) (c : ScChannel) : Prop where
  id_eq : c.id = 1
  path_eq : c.filenameFullpath = path
  context_eq : c.aggregateContext = findAggregateContext cfg path
  valid : c.buffer.Valid

/-- What the aggregator keeps, whatever happens to the connection. -/
structure Kept (cfg : Config) (addr : Option Bytes) (path file : Bytes) (l : Link) : Prop where
  results : l.fs.results = []
  addr_eq : l.conn.remoteAddr = addr
  whole : WholeLines (separate path l.fs)
  sub_file : separate path l.fs <+: file
  channels : l.conn.channelList = [] ∨ ∃ c, l.conn.channelList = [c] ∧ IsFor cfg path c ∧
    separate path l.fs ++ c.buffer.unread <+: file

/-- The context is registered, and the file up to its offset is at the aggregator or in
hand. -/
structure Synced (path file : Bytes) (cxt : ScFollowContext) (l : Link) (c : ScChannel)
    (line : Bytes) : Prop where
  channels : l.conn.channelList = [c]
  channel : cxt.channel = 1
  fd : cxt.fd ≠ -1
  offset : cxt.offset ≤ file.length
  bytes : file.take cxt.offset =
    separate path l.fs ++ c.buffer.unread ++ line ++ cxt.buffer.unread

/-! ### Changes that keep it -/

section
variable {cfg : Config} {addr : Option Bytes} {path file : Bytes}

/-- `Kept` speaks of the files and the channels of a link only. -/
theorem Kept.same {l l' : Link} (h : Kept cfg addr path file l) (hfs : l'.fs = l.fs)
    (hconn : l'.conn = l.conn) : Kept cfg addr path file l' := by
  constructor
  · rw [hfs]
    exact h.results
  · rw [hconn]
    exact h.addr_eq
  · rw [hfs]
    exact h.whole
  · rw [hfs]
    exact h.sub_file
  · rw [hfs, hconn]
    exact h.channels

/-- The followed file grows. -/
theorem Kept.grow {l : Link} (h : Kept cfg addr path file l) (more : Bytes) :
    Kept cfg addr path (file ++ more) l where
  results := h.results
  addr_eq := h.addr_eq
  whole := h.whole
  sub_file := h.sub_file.trans (List.prefix_append file more)
  channels := by
    rcases h.channels with hnil | ⟨c, hc, hfor, hsub⟩
    · exact Or.inl hnil
    · exact Or.inr ⟨c, hc, hfor, hsub.trans (List.prefix_append file more)⟩

/-- A new connection throws the channel away. -/
theorem Kept.reconnect {l : Link} (h : Kept cfg addr path file l) :
    Kept cfg addr path file (l.reconnect addr) where
  results := h.results
  addr_eq := rfl
  whole := h.whole
  sub_file := h.sub_file
  channels := Or.inl rfl

/-- A context stays in step while the files and the channels do not change. -/
theorem Synced.same {cxt : ScFollowContext} {l l' : Link} {c : ScChannel} {line : Bytes}
    (h : Synced path file cxt l c line) (hfs : l'.fs = l.fs) (hconn : l'.conn = l.conn) :
    Synced path file cxt l' c line where
  channels := by
    rw [hconn]
    exact h.channels
  channel := h.channel
  fd := h.fd
  offset := h.offset
  bytes := by
    rw [hfs]
    exact h.bytes

/-- A context stays in step when its file grows. -/
theorem Synced.grow {cxt : ScFollowContext} {l : Link} {c : ScChannel} {line : Bytes}
    (h : Synced path file cxt l c line) (more : Bytes) :
    Synced path (file ++ more) cxt l c line where
  channels := h.channels
  channel := h.channel
  fd := h.fd
  offset := by
    rw [List.length_append]
    exact Nat.le_add_right_of_le h.offset
  bytes := by
    rw [List.take_append_of_le_length h.offset]
    exact h.bytes

/-- A read moves a line from the file and the context's buffer into hand. -/
theorem Synced.took {cxt cxt' : ScFollowContext} {l : Link} {c : ScChannel} {got line : Bytes}
    {inp : RunInput} (h : Synced path inp.file cxt l c []) (htook : Took inp cxt cxt' got line) :
    Synced path inp.file cxt' l c line := by
  obtain ⟨rest, hrest⟩ := htook.fetched
  have hoffset : cxt'.offset = cxt.offset + got.length := by rw [htook.rest]
  have hlen := congrArg List.length hrest
  rw [List.length_append, List.length_drop] at hlen
  have hle := h.offset
  constructor
  · exact h.channels
  · rw [htook.rest]
    exact h.channel
  · rw [htook.rest]
    exact h.fd
  · omega
  · have hgot : (inp.file.drop cxt.offset).take got.length = got := by
      rw [← hrest, List.take_left]
    calc inp.file.take cxt'.offset
        = inp.file.take cxt.offset ++ got := by rw [hoffset, List.take_add, hgot]
      _ = separate path l.fs ++ c.buffer.unread ++ (cxt.buffer.unread ++ got) := by
          rw [h.bytes, List.append_nil, List.append_assoc]
      _ = separate path l.fs ++ c.buffer.unread ++ line ++ cxt'.buffer.unread := by
          rw [htook.bytes, List.append_assoc _ line]

end

/-! ### The aggregator -/

/-- The components that `sc_channel_new` joins to the log directory. -/
def components (addr : Option Bytes) (name : Bytes) : List Bytes :=
  match addr with
  | some a => [a, name]
  | none => []

/-- A registration on a connection without channels: the new channel is the one of the path
that belongs to the display name. -/
theorem registered_isFor {cfg : Config} {addr : Option Bytes} {name path : Bytes}
    (hpath : ∃ heap, pathcat heap cfg.logdir (components addr name) = .ok path)
    {sender : Sender} {cxt : ScFollowContext} {l l' : Link} {c : ScChannel} {answer : Frame}
    (hname : cxt.displayName = name) (haddr : l.conn.remoteAddr = addr)
    (hnone : l.conn.channelList = []) (h : Registers cfg sender cxt l l' c answer) :
    IsFor cfg path c ∧ c.filename = name ∧ c.buffer.unread = [] ∧
      l'.conn = { l.conn with channelList := [c] } := by
  obtain ⟨heap, channel, hnew, hc⟩ := h.channel
  obtain ⟨hfilename, hvalid, hempty, hcontext⟩ := scChannelNew_eq_ok hnew
  have hfull : channel.filenameFullpath = path := by
    obtain ⟨heap', hpath'⟩ := hpath
    obtain ⟨p, hp, hchan⟩ := bind_eq_ok.mp hnew
    cases hchan
    rw [haddr, hname] at hp
    exact pathcat_unique hp hpath'
  -- The first channel of a connection has the number 1.
  have hid : c.id = 1 := by
    rw [hc, hnone]
    rfl
  refine ⟨⟨hid, ?_, ?_, ?_⟩, ?_, ?_, ?_⟩
  · rw [hc]
    exact hfull
  · rw [hc]
    show channel.aggregateContext = _
    rw [hcontext, hfull]
  · rw [hc]
    exact hvalid
  · rw [hc]
    exact hfilename.trans hname
  · rw [hc]
    exact hempty
  · rw [h.conn, hnone]

/-- The configuration keeps separate files only, at the path that belongs to the display
name. -/
structure SeparateOnly (cfg : Config) (addr : Option Bytes) (name path : Bytes) : Prop where
  isName : IsName name
  path_eq : ∃ heap, pathcat heap cfg.logdir (components addr name) = .ok path
  mode : ∃ ctx, findAggregateContext cfg path = some ctx ∧ ctx.fSeparate = true ∧
    ctx.fMerge = false

section
variable {cfg : Config} {addr : Option Bytes} {name path file : Bytes}
  (hmode : SeparateOnly cfg addr name path)
include hmode

/-- A registration on a connection without channels: the channel is the one of the separate
file. -/
theorem SeparateOnly.registered {sender : Sender} {cxt : ScFollowContext} {l l' : Link}
    {c : ScChannel} {answer : Frame} (hname : cxt.displayName = name)
    (haddr : l.conn.remoteAddr = addr) (hnone : l.conn.channelList = [])
    (h : Registers cfg sender cxt l l' c answer) :
    IsFor cfg path c ∧ c.buffer.unread = [] ∧ l'.conn = { l.conn with channelList := [c] } := by
  obtain ⟨hfor, -, hempty, hconn⟩ := registered_isFor hmode.path_eq hname haddr hnone h
  exact ⟨hfor, hempty, hconn⟩

/-- `handler_data` moves a line into the channel's buffer, or a complete line behind the
buffered bytes into the separate file. -/
theorem SeparateOnly.handleData {c : ScChannel} (hfor : IsFor cfg path c) {complete : Bool}
    {time : BitVec 64} {line : Bytes} {call : Call} {msg : ScLogMessage} {conn : ScConnection}
    {fs : Fs} {r : Handled}
    (hframe : IsFrame msg.frame SCM_MSG_DATA 1 (Req.data 1 complete time line).content)
    (hsize : msg.content.size = BUFSIZE)
    (hfit : (Req.data 1 complete time line).content.length ≤ BUFSIZE) (hfs : fs.results = [])
    (hchannels : conn.channelList = [c])
    (h : handle cfg call.heap call.chunks msg conn fs = .ok r) :
    ∃ c', IsFor cfg path c' ∧ r.conn = { conn with channelList := [c'] } ∧ r.fs.results = [] ∧
      separate path r.fs ++ c'.buffer.unread = separate path fs ++ c.buffer.unread ++ line ∧
      (if complete then c'.buffer.unread = [] else r.fs = fs) := by
  obtain ⟨buffer', hupdate, hbranch⟩ :=
    branches_of_data hframe hsize hfit hfor.id_eq hchannels h
  by_cases hcomplete : complete = true
  · -- A complete line goes to the separate file.
    rw [if_pos hcomplete] at hbranch
    obtain ⟨ctx, hctx, hsep, hmerge⟩ := hmode.mode
    have hall : c.aggregateContext = some ctx := by rw [hfor.context_eq, hctx]
    obtain ⟨fs1, record, hvalid, hresults, hmerged, happended, hempty⟩ :=
      recordText_eq_ok hfor.valid hfs hbranch
    simp only [hall, Option.all_some, hsep, hmerge, Bool.false_eq_true, if_false, if_true]
      at hmerged happended hempty
    subst hmerged
    have hnil := hempty (Or.inr trivial)
    refine ⟨{ c with buffer := buffer' }, ⟨hfor.id_eq, hfor.path_eq, hfor.context_eq, hvalid⟩,
      hupdate, hresults, ?_, ?_⟩
    · have hfile := happended.file_self
      rw [hfor.path_eq] at hfile
      simp only [separate, hfile, Option.getD_some, hnil, List.append_nil, List.append_assoc]
    · rw [if_pos hcomplete]
      exact hnil
  · -- A piece goes to the channel's buffer.
    rw [if_neg hcomplete] at hbranch
    obtain ⟨hsame, hbuffer⟩ := hbranch
    obtain ⟨hvalid, hunread⟩ := bufferText_eq_ok hfor.valid hbuffer
    refine ⟨{ c with buffer := buffer' }, ⟨hfor.id_eq, hfor.path_eq, hfor.context_eq, hvalid⟩,
      hupdate, by rw [hsame]; exact hfs, ?_, ?_⟩
    · rw [hsame]
      show separate path fs ++ buffer'.unread = _
      rw [hunread, List.append_assoc]
    · rw [if_neg hcomplete]
      exact hsame

/-! ### The registration -/

omit hmode in
/-- A registration moves the context to the end of the separate file. -/
theorem resumed_of_isFor {cxt : ScFollowContext} {c : ScChannel} {fs : Fs}
    (hfor : IsFor cfg path c) (hsize : (separate path fs).length < 2 ^ 63) :
    resumed cxt c fs = { cxt with
      channel := 1
      position := (separate path fs).length
      offset := (separate path fs).length } := by
  have hone : (BitVec.ofInt 16 c.id).toInt = 1 := by
    rw [hfor.id_eq]
    decide
  have hfsize : fs.size c.filenameFullpath = (separate path fs).length := by
    rw [hfor.path_eq]
    rfl
  rw [resumed_eq cxt (by omega), hone, hfsize]

/-- What the aggregator keeps after the registration. -/
theorem SeparateOnly.kept_registered {sender : Sender} {cxt : ScFollowContext} {l l' : Link}
    {c : ScChannel} {answer : Frame} (hkept : Kept cfg addr path file l)
    (hname : cxt.displayName = name) (hnone : l.conn.channelList = [])
    (h : Registers cfg sender cxt l l' c answer) : Kept cfg addr path file l' := by
  obtain ⟨hfor, hempty, hconn⟩ := hmode.registered hname hkept.addr_eq hnone h
  have hchannels : l'.conn.channelList = [c] := by rw [hconn]
  refine ⟨?_, ?_, ?_, ?_, Or.inr ⟨c, hchannels, hfor, ?_⟩⟩
  · rw [h.fs]
    exact hkept.results
  · rw [hconn]
    exact hkept.addr_eq
  · rw [h.fs]
    exact hkept.whole
  · rw [h.fs]
    exact hkept.sub_file
  · rw [h.fs, hempty, List.append_nil]
    exact hkept.sub_file

/-- A registration on a new connection: the context is at the end of the separate file. -/
theorem SeparateOnly.synced_registered {sender : Sender} {cxt : ScFollowContext} {l l' : Link}
    {c : ScChannel} {answer : Frame} (hkept : Kept cfg addr path file l)
    (hsize : file.length < 2 ^ 63) (hname : cxt.displayName = name)
    (hnone : l.conn.channelList = []) (h : Registers cfg sender cxt l l' c answer)
    (hfd : cxt.fd ≠ -1) (hempty : cxt.buffer.unread = []) :
    Synced path file (resumed cxt c l.fs) l' c [] := by
  obtain ⟨hfor, hcempty, hconn⟩ := hmode.registered hname hkept.addr_eq hnone h
  have hshort : (separate path l.fs).length < 2 ^ 63 :=
    Nat.lt_of_le_of_lt hkept.sub_file.length_le hsize
  rw [resumed_of_isFor hfor hshort]
  refine ⟨by rw [hconn], rfl, hfd, hkept.sub_file.length_le, ?_⟩
  show file.take (separate path l.fs).length
    = separate path l'.fs ++ c.buffer.unread ++ [] ++ cxt.buffer.unread
  rw [h.fs, hcempty, hempty, List.append_nil, List.append_nil, List.append_nil]
  exact (List.prefix_iff_eq_take.mp hkept.sub_file).symm

/-! ### The exchange of a line -/

omit hmode in
/-- What the aggregator keeps after it took the line in hand. -/
theorem Kept.data {l l' : Link} {cxt : ScFollowContext} {c c' : ScChannel} {line : Bytes}
    {complete : Bool} (h : Kept cfg addr path file l) (hsync : Synced path file cxt l c line)
    (hpiece : IsPiece complete line) (hfor : IsFor cfg path c')
    (hresults : l'.fs.results = []) (haddr : l'.conn.remoteAddr = l.conn.remoteAddr)
    (hchannels : l'.conn.channelList = [c'])
    (hbytes : separate path l'.fs ++ c'.buffer.unread =
      separate path l.fs ++ c.buffer.unread ++ line)
    (hbranch : if complete then c'.buffer.unread = [] else l'.fs = l.fs) :
    Kept cfg addr path file l' := by
  have hsub : separate path l'.fs ++ c'.buffer.unread <+: file := by
    refine List.IsPrefix.trans ⟨cxt.buffer.unread, ?_⟩ (List.take_prefix cxt.offset file)
    rw [hbytes, hsync.bytes]
  refine ⟨hresults, haddr.trans h.addr_eq, ?_,
    (List.prefix_append _ _).trans hsub, Or.inr ⟨c', hchannels, hfor, hsub⟩⟩
  cases hcomplete : complete with
  | true =>
    -- The separate file ends with the line.
    obtain ⟨init, hinit⟩ := hpiece.ends hcomplete
    rw [hcomplete, if_pos rfl] at hbranch
    rw [hbranch, List.append_nil, hinit] at hbytes
    exact Or.inr ⟨separate path l.fs ++ c.buffer.unread ++ init, by
      rw [hbytes, List.append_assoc _ init]⟩
  | false =>
    rw [hcomplete, if_neg Bool.false_ne_true] at hbranch
    rw [hbranch]
    exact h.whole

/-- What the aggregator keeps after it handled the line in hand, and its channel then. -/
theorem SeparateOnly.kept_handled {sender : Sender} {inp : RunInput} {cxt : ScFollowContext}
    {l l' : Link} {c : ScChannel} {complete : Bool} {line : Bytes} {msg : ScLogMessage}
    {r : Handled} (hkept : Kept cfg addr path file l) (hsync : Synced path file cxt l c line)
    (hroom : msg.content.size = BUFSIZE)
    (hstore : storeLine inp complete line msg = .ok cxt.messageBuffer)
    (hpiece : IsPiece complete line)
    (h : Handles cfg sender (dataHeader line.length cxt).messageBuffer.frame l l' r) :
    Kept cfg addr path file l' ∧ ∃ c', l'.conn.channelList = [c'] ∧
      separate path l'.fs ++ c'.buffer.unread =
        separate path l.fs ++ c.buffer.unread ++ line := by
  have hsend : Sendable (dataHeader line.length cxt).messageBuffer SCM_MSG_DATA 1
      (Req.data 1 complete inp.time line).content :=
    sendable_dataHeader hsync.channel hroom hstore
  -- The connection has one channel, and it is for the path.
  have hfor : IsFor cfg path c := by
    rcases hkept.channels with hnil | ⟨c1, hc1, hfor1, -⟩
    · rw [hsync.channels] at hnil
      cases hnil
    · rw [hsync.channels] at hc1
      cases hc1
      exact hfor1
  obtain ⟨call, m, hm, hmsize, hhandle⟩ := h.handled
  obtain ⟨c', hfor', hrconn, hresults, hbytes, hbranch⟩ :=
    hmode.handleData hfor (by rw [hm]; exact hsend.frame) hmsize hsend.fits hkept.results
      hsync.channels hhandle
  have hchannels : l'.conn.channelList = [c'] := by rw [h.conn, hrconn]
  rw [← h.fs] at hresults hbytes hbranch
  have haddr : l'.conn.remoteAddr = l.conn.remoteAddr := by rw [h.conn, hrconn]
  exact ⟨hkept.data hsync hpiece hfor' hresults haddr hchannels hbytes hbranch,
    c', hchannels, hbytes⟩

/-- What every event does to the file, the separate file and the two buffers. -/
theorem SeparateOnly.tracks : Tracks cfg addr name (Kept cfg addr path)
    (fun file cxt l line => ∃ c, Synced path file cxt l c line) where
  isName := hmode.isName
  lost h hlost := h.same hlost.fs hlost.conn
  grow more h := h.grow more
  reconnect h := h.reconnect
  registers hkept hsize hname hnone hreg :=
    ⟨hmode.kept_registered hkept hname hnone hreg, fun hfd hempty =>
      ⟨_, hmode.synced_registered hkept hsize hname hnone hreg hfd hempty⟩⟩
  handles := by
    rintro file sender inp cxt l l' complete line msg r hkept - ⟨c, hsync⟩ hroom hstore hpiece hr
    obtain ⟨hkept', c', hchannels, hbytes⟩ :=
      hmode.kept_handled hkept hsync hroom hstore hpiece hr
    -- The line has moved from the context to the channel, and the sum is the same.
    refine ⟨hkept', fun m => ⟨c', hchannels, hsync.channel, hsync.fd, hsync.offset, ?_⟩⟩
    show file.take cxt.offset = separate path l'.fs ++ c'.buffer.unread ++ [] ++
      cxt.buffer.unread
    rw [hbytes, List.append_nil]
    exact hsync.bytes
  attached := by
    rintro file cxt l line ⟨c, hsync⟩
    exact ⟨hsync.channel, hsync.fd⟩
  unheard := by
    rintro file cxt l l' line ⟨c, hsync⟩ hsame
    exact ⟨c, hsync.same hsame.fs hsame.conn⟩
  synced_grow := by
    rintro file cxt l line more ⟨c, hsync⟩
    exact ⟨c, hsync.grow more⟩
  took := by
    rintro inp cxt cxt' l got line ⟨c, hsync⟩ htook
    exact ⟨c, hsync.took htook⟩

end

/-! ### Every run of the system -/

section
variable {cfg : Config} {md5 : Md5} {addr : Option Bytes} {name path : Bytes}

/-- The follower gets the memory that it asks for. -/
def Served : Pipeline.Event → Prop
  | .pass inp _ _ => ∀ k n, (inp.heap k).malloc n = true
  | _ => True

/-- A pass of a served run gets the memory that it asks for. -/
theorem Served.malloc {e : Pipeline.Event} (h : Served e) {inp : RunInput} {fates : List Fate}
    {reconnected : Bool} (he : e = .pass inp fates reconnected) :
    ∀ k n, (inp.heap k).malloc n = true := by
  rw [he] at h
  exact h

/-- A new context, before its first run. The connection may be open or not. -/
def start (heap : Heap) (fname : Option Bytes) (name : Bytes) (ftimestamp : Bool) (file : Bytes)
    (fs : Fs) (addr : Option Bytes) (opened : Bool) : Pipeline where
  file := file
  cxt := scFollowContextNew heap fname name ftimestamp BUFSIZE
  conn := ⟨opened, ⟨fs, ⟨addr, []⟩, true, [], .eof, [], []⟩⟩

/-- The separate file in a mode with separate files only, from an absent or empty one on: in
every state that a run reaches it is a prefix of the followed file that is empty or ends with
a newline, and with the buffered bytes of the channel behind it it is still a prefix. -/
theorem resume_exactly_once (hmode : SeparateOnly cfg addr name path) {heap : Heap}
    {fname : Option Bytes} {ftimestamp opened : Bool} {file : Bytes} {fs : Fs}
    (hfile : file.length < 2 ^ 63) (hresults : fs.results = []) (hempty : separate path fs = [])
    {es : List Pipeline.Event} (hserved : ∀ e ∈ es, Served e) {s : Pipeline}
    (hrun : es.foldlM (Pipeline.step cfg md5 addr)
      (start heap fname name ftimestamp file fs addr opened) = .ok s) :
    separate path s.conn.net.fs <+: s.file ∧ WholeLines (separate path s.conn.net.fs) ∧
      ∀ c ∈ s.conn.net.conn.channelList,
        separate path s.conn.net.fs ++ c.buffer.unread <+: s.file := by
  -- No channel is registered at the start, and the separate file is empty.
  have hkept : Kept cfg addr path file ⟨fs, ⟨addr, []⟩, true, [], .eof, [], []⟩ := by
    refine ⟨hresults, rfl, Or.inl hempty, ?_, Or.inl rfl⟩
    show separate path fs <+: file
    rw [hempty]
    exact List.nil_prefix
  have hend := hmode.tracks.reached (Tracks.running_new hfile hkept)
    (fun e he _ _ _ heq => Served.malloc (hserved e he) heq) hrun
  refine ⟨hend.kept.sub_file, hend.kept.whole, ?_⟩
  intro c hc
  rcases hend.kept.channels with hnil | ⟨c', hc', -, hsub⟩
  · rw [hnil] at hc
    cases hc
  · rw [hc', List.mem_singleton] at hc
    rw [hc]
    exact hsub

end

/-! ### A small run -/

/-- Separate files only, for the path of `smallChannel`. -/
def separateConfig : Config :=
  smallConfig [⟨(smallChannel []).filenameFullpath, false, true, false⟩]

/-- The small configuration keeps a separate file for its name. -/
theorem separateOnly_small :
    SeparateOnly separateConfig (some [97]) [110] (smallChannel []).filenameFullpath where
  isName := ⟨by decide, by decide⟩
  path_eq := ⟨zeroHeap, by rfl⟩
  mode := ⟨_, rfl, rfl, rfl⟩

/-- A pass that finds the followed file and reads all of it at once. -/
def smallPass (deliveries : List Delivery) : Pipeline.Event :=
  .pass ⟨⟨3, 0x8000⟩, .chunk 100, 0, [], none, [], fun _ => zeroHeap⟩
    (deliveries.map fun d => ⟨d, ⟨zeroHeap, []⟩, .eof⟩) true

/-- The first line arrives. The beginning of the second reaches the channel's buffer, but its
response is lost, and after the reconnection the second line is sent as a whole. -/
def smallEvents : List Pipeline.Event :=
  [.grow [97, LF, 98], smallPass [.answered, .answered], smallPass [.unanswered],
    .grow [LF], smallPass [.answered, .answered]]

/-- Both lines arrive once, although the response to the beginning of the second was lost. -/
theorem resume_exactly_once_small :
    ∃ s, smallEvents.foldlM (Pipeline.step separateConfig zeroMd5 (some [97]))
        (start zeroHeap (some [102]) [110] false [] Fs.empty (some [97]) true) = .ok s ∧
      separate (smallChannel []).filenameFullpath s.conn.net.fs = [97, LF, 98, LF] ∧
      separate (smallChannel []).filenameFullpath s.conn.net.fs <+: s.file ∧
      WholeLines (separate (smallChannel []).filenameFullpath s.conn.net.fs) ∧
      ∀ c ∈ s.conn.net.conn.channelList,
        separate (smallChannel []).filenameFullpath s.conn.net.fs ++ c.buffer.unread
          <+: s.file := by
  have hfile : (smallEvents.foldlM (Pipeline.step separateConfig zeroMd5 (some [97]))
      (start zeroHeap (some [102]) [110] false [] Fs.empty (some [97]) true)).map
        (fun s => separate (smallChannel []).filenameFullpath s.conn.net.fs) =
      .ok [97, LF, 98, LF] := rfl
  cases hrun : smallEvents.foldlM (Pipeline.step separateConfig zeroMd5 (some [97]))
      (start zeroHeap (some [102]) [110] false [] Fs.empty (some [97]) true) with
  | error t =>
    rw [hrun] at hfile
    cases hfile
  | ok s =>
    rw [hrun] at hfile
    have hserved : ∀ e ∈ smallEvents, Served e := by
      simp [smallEvents, smallPass, Served, zeroHeap]
    refine ⟨s, rfl, Except.ok.inj hfile, ?_⟩
    exact resume_exactly_once separateOnly_small (by decide) rfl rfl hserved hrun

end Compostela.Proofs.Resume
