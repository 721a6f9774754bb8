import Compostela.Lib.Ranges
import Compostela.Proofs.Resume
import Compostela.System.Network

/-!
# `Compostela.Proofs.FrameOrder`: what the frames of several connections append

A registration resumes at the size of the separate file at that moment. When a line of an old
connection is still in flight then, and is handled afterwards, the new connection sends the
line again and the file gets it twice. Nothing ties the frames of the two connections
together. What makes the difference is their order: as long as no DATA frame is handled after
the INIT frame of a newer connection, the lines of the newest registered connection are the
only ones that are still to come.

`appended` are the ranges of the followed file that were appended, taken from the history of
the frames, and `InOrder` is the order. `Consistent` is the invariant of the aggregator and
the frames in flight: every registered connection holds, in its channel and in flight, what
follows the position that it has `reached`, and for the newest of them this position is the
end of the separate file and the buffered bytes. `wake_consistent` is its step lemma.
-/

set_option autoImplicit false

namespace Compostela.Proofs.OldConnections

open Compostela.Common
open Compostela.Memory
open Compostela.Runs
open Compostela.Ranges
open Compostela.Segments
open Compostela.Aggregator
open Compostela.Follower
open Compostela.System
open Compostela.Proofs.Resume

/-! ### The property -/

/-- The code of a frame that was handled. -/
def code (h : Handling) : BitVec 16 := codeOf h.request

/-- The number of text bytes of a DATA frame. -/
def textLength (h : Handling) : Nat := h.request.length - (headerSize + cb0)

/-- Where a connection is in the followed file: the position that its registration was
answered with, and the text that was handled on it since then. -/
def reached (path : Bytes) (k : Nat) : List Handling → Nat
  | [] => 0
  | h :: log =>
      if h.connection = k then
        if code h = SCM_MSG_INIT then h.before.size path
        else reached path k log + textLength h
      else reached path k log

/-- The ranges of the followed file that were appended to the separate file, newest first. A
frame that makes the file longer appends the bytes up to the position that it reaches. -/
def appended (path : Bytes) : List Handling → List Range
  | [] => []
  | h :: log =>
      if h.before.size path < h.after.size path then
        ⟨reached path h.connection (h :: log) - (h.after.size path - h.before.size path),
          reached path h.connection (h :: log)⟩ :: appended path log
      else appended path log

/-- No DATA frame was handled after the INIT frame of a newer connection. The history has its
newest entry first. -/
def InOrder (log : List Handling) : Prop :=
  log.Pairwise fun later earlier =>
    code later = SCM_MSG_DATA → code earlier = SCM_MSG_INIT → earlier.connection ≤ later.connection

instance (log : List Handling) : Decidable (InOrder log) :=
  inferInstanceAs (Decidable (List.Pairwise _ _))

/-- A history in order was in order before. -/
theorem InOrder.of_suffix {log log' : List Handling} (h : InOrder log') (hlog : log <:+ log') :
    InOrder log := List.Pairwise.sublist hlog.sublist h

/-! ### The invariant -/

/-- A line for the first channel of a connection. -/
def IsLine (f : Frame) (line : Bytes) : Prop :=
  ∃ complete time, IsFrame f SCM_MSG_DATA 1 (Req.data 1 complete time line).content ∧
    (Req.data 1 complete time line).content.length ≤ BUFSIZE

section
variable (cfg : Config) (addr : Option Bytes) (path name file : Bytes)

/-- Nothing was handled on a connection. Its INIT may be in flight. -/
structure Unregistered (n : Network) (k : Nat) : Prop where
  conn : (n.connections k).conn = ⟨addr, []⟩
  unlogged : ∀ h ∈ n.log, h.connection ≠ k
  inFlight : (n.connections k).inFlight = [] ∨ ∃ cxt : ScFollowContext,
    cxt.displayName = name ∧ (n.connections k).inFlight = [(initMessage cxt).frame.bytes]

/-- A connection with its channel. What the channel's buffer holds ends at the position that
the connection has reached, and a line in flight follows it. As long as no newer connection
is registered, the separate file and the buffer end there. -/
structure Registered (n : Network) (k : Nat) (c : ScChannel) : Prop where
  conn : (n.connections k).conn = ⟨addr, [c]⟩
  isFor : IsFor cfg path c
  logged : ∃ h ∈ n.log, code h = SCM_MSG_INIT ∧ h.connection = k
  short : c.buffer.unread.length ≤ reached path k n.log
  buffered : c.buffer.unread <+: file.drop (reached path k n.log - c.buffer.unread.length)
  stored : (∀ h ∈ n.log, code h = SCM_MSG_INIT → h.connection ≤ k) →
    (separate path n.fs).length + c.buffer.unread.length = reached path k n.log
  inFlight : (n.connections k).inFlight = [] ∨ ∃ f line,
    (n.connections k).inFlight = [Frame.bytes f] ∧ IsLine f line ∧
      line <+: file.drop (reached path k n.log)

/-- The ranges that were appended follow each other, and the separate file is what was there
before with their bytes. -/
structure Covered (before : Bytes) (log : List Handling) (fs : Fs) : Prop where
  sorted : (appended path log).Pairwise fun later earlier => earlier.stop ≤ later.start
  stored : ∀ r ∈ appended path log, r.stop ≤ (separate path fs).length
  inside : ∀ r ∈ appended path log, r.stop ≤ file.length
  bytes : separate path fs =
    before ++ (appended path log).reverse.flatMap (Range.slice file)

/-- The network, whatever the follower does. -/
structure Consistent (before : Bytes) (n : Network) : Prop where
  results : n.fs.results = []
  size : (separate path n.fs).length < 2 ^ 63
  ends : ∀ m ∈ n.moments, m.survives = false
  known : ∀ h ∈ n.log, h.connection ≤ n.newest
  beyond : ∀ k, n.newest < k → (n.connections k).inFlight = []
  each : ∀ k, Unregistered addr name n k ∨ ∃ c, Registered cfg addr path file n k c
  covered : Covered path file before n.log n.fs

end

/-! ### A frame is handled -/

section
variable {path : Bytes} {k : Nat} {h : Handling} {log : List Handling}

/-- A request on another connection does not move the position that this one has reached. -/
theorem reached_of_ne (hne : h.connection ≠ k) : reached path k (h :: log) = reached path k log :=
  if_neg hne

/-- A registration puts the position at the size of the separate file. -/
theorem reached_of_init (path : Bytes) (log : List Handling) (hk : h.connection = k)
    (hcode : code h = SCM_MSG_INIT) :
    reached path k (h :: log) = h.before.size path := by
  rw [reached, if_pos hk, if_pos hcode]

/-- A piece of text moves the position by its length. -/
theorem reached_of_data (path : Bytes) (log : List Handling) (hk : h.connection = k)
    (hcode : code h = SCM_MSG_DATA) :
    reached path k (h :: log) = reached path k log + textLength h := by
  rw [reached, if_pos hk, if_neg (by rw [hcode]; decide)]

/-- A frame that leaves the file as it is appends nothing. -/
theorem appended_of_same (hsame : h.after.size path = h.before.size path) :
    appended path (h :: log) = appended path log :=
  if_neg (by rw [hsame]; exact Nat.lt_irrefl _)

end

/-- The history entry of a line. -/
theorem textLength_of_line {f : Frame} {line : Bytes} (h : IsLine f line) (k : Nat)
    (before after : Fs) : textLength ⟨k, f.bytes, before, after⟩ = line.length := by
  obtain ⟨complete, time, hframe, -⟩ := h
  show f.bytes.length - (headerSize + cb0) = line.length
  rw [← drop_bytes_of_data hframe.content_eq, List.length_drop]

section
variable {cfg : Config} {addr : Option Bytes} {name path file : Bytes}
  (hmode : SeparateOnly cfg addr name path)
include hmode

/-- The INIT frame of a connection is handled: the connection has its channel, and the answer
says how long the separate file is. -/
theorem wake_init {n n' : Network} {w : Wake} {cxt : ScFollowContext}
    (hname : cxt.displayName = name) (hconn : (n.connections w.connection).conn = ⟨addr, []⟩)
    (hflight : (n.connections w.connection).inFlight = [(initMessage cxt).frame.bytes])
    (h : n.wake cfg w = .ok n') :
    ∃ c chunks attr, IsFor cfg path c ∧ c.buffer.unread = [] ∧
      n' = { n.set w.connection ⟨⟨addr, [c]⟩, [], (n.connections w.connection).replies ++
          (initFrame cfg chunks n.fs c attr).bytes, (n.connections w.connection).alive⟩ with
        log := ⟨w.connection, (initMessage cxt).frame.bytes, n.fs, n.fs⟩ :: n.log } := by
  have hisName : IsName cxt.displayName := by
    rw [hname]
    exact hmode.isName
  have hsend := hisName.init_built.sendable
  obtain ⟨msg, r, hframe, hsize, hhandle, hn'⟩ := Network.wake_of_frame hflight
    (by rw [hsend.frame.content_eq]; exact hsend.fits) h
  -- The handler, as it works on one link.
  let l : Link := ⟨n.fs, (n.connections w.connection).conn, true, [], .eof, [], []⟩
  have hhandles : Link.Handles cfg ⟨0, none, []⟩ (initMessage cxt).frame l
      { l with fs := r.fs, conn := r.conn, log := [Item.exchange
        ⟨⟨0, none, []⟩, (initMessage cxt).frame.bytes, r.sent⟩] } r :=
    ⟨⟨w.call, msg, hframe, hsize, hhandle⟩, rfl, rfl, rfl⟩
  obtain ⟨c, answer, hreg, hsent⟩ := registers_of_handles hisName hhandles
  obtain ⟨hfor, hempty, hlconn⟩ := hmode.registered hname
    (show (n.connections w.connection).conn.remoteAddr = addr by rw [hconn])
    (show (n.connections w.connection).conn.channelList = [] by rw [hconn]) hreg
  obtain ⟨chunks, attr, hanswer⟩ := hreg.answer_eq
  have hrconn : r.conn = ⟨addr, [c]⟩ := by
    rw [show r.conn = _ from hlconn]
    show { (n.connections w.connection).conn with channelList := [c] } = _
    rw [hconn]
  have hrfs : r.fs = n.fs := hreg.fs
  refine ⟨c, chunks, attr, hfor, hempty, ?_⟩
  rw [hn', hrconn, hrfs, hsent, hanswer]
  rfl

/-- A line of a connection is handled: it is in the channel's buffer afterwards, or with the
buffered bytes in the separate file. -/
theorem wake_line {n n' : Network} {w : Wake} {c : ScChannel} {f : Frame} {line : Bytes}
    (hconn : (n.connections w.connection).conn = ⟨addr, [c]⟩) (hfor : IsFor cfg path c)
    (hflight : (n.connections w.connection).inFlight = [f.bytes]) (hline : IsLine f line)
    (hresults : n.fs.results = []) (h : n.wake cfg w = .ok n') :
    ∃ c' fs', IsFor cfg path c' ∧ fs'.results = [] ∧
      separate path fs' ++ c'.buffer.unread = separate path n.fs ++ c.buffer.unread ++ line ∧
      (c'.buffer.unread = [] ∨ fs' = n.fs) ∧
      n' = { n.set w.connection ⟨⟨addr, [c']⟩, [], (n.connections w.connection).replies ++
          (okFrame 1).bytes, (n.connections w.connection).alive⟩ with
        fs := fs'
        log := ⟨w.connection, f.bytes, n.fs, fs'⟩ :: n.log } := by
  obtain ⟨complete, time, hisFrame, hfits⟩ := hline
  obtain ⟨msg, r, hframe, hsize, hhandle, hn'⟩ := Network.wake_of_frame hflight
    (by rw [hisFrame.content_eq]; exact hfits) h
  have hchannels : (n.connections w.connection).conn.channelList = [c] := by rw [hconn]
  obtain ⟨c', hfor', hrconn, hresults', hbytes, hbranch⟩ := hmode.handleData hfor
    (by rw [hframe]; exact hisFrame) hsize hfits hresults hchannels hhandle
  -- The answer, as the handler gives it on one link.
  let l : Link := ⟨n.fs, (n.connections w.connection).conn, true, [], .eof, [], []⟩
  have hhandles : Link.Handles cfg ⟨0, none, []⟩ f l
      { l with fs := r.fs, conn := r.conn, log := [Item.exchange
        ⟨⟨0, none, []⟩, f.bytes, r.sent⟩] } r :=
    ⟨⟨w.call, msg, hframe, hsize, hhandle⟩, rfl, rfl, rfl⟩
  have hsent := sent_of_data hisFrame hfits (by decide) hhandles
  refine ⟨c', r.fs, hfor', hresults', hbytes, ?_, ?_⟩
  · cases complete with
    | true => exact Or.inl hbranch
    | false => exact Or.inr hbranch
  · rw [hn', hsent, hrconn, hconn]

end

/-! ### What a handled frame keeps -/

section
variable {cfg : Config} {addr : Option Bytes} {path name file before : Bytes}

/-- A request on another connection does not register a name here. -/
theorem Unregistered.other {n n' : Network} {j : Nat} {h : Handling}
    (hun : Unregistered addr name n j) (hconn : n'.connections j = n.connections j)
    (hlog : n'.log = h :: n.log) (hne : h.connection ≠ j) : Unregistered addr name n' j := by
  constructor
  · rw [hconn]
    exact hun.conn
  · intro h' hmem
    rw [hlog] at hmem
    rcases List.mem_cons.mp hmem with rfl | hmem
    · exact hne
    · exact hun.unlogged h' hmem
  · rw [hconn]
    exact hun.inFlight

/-- A frame of another connection leaves a connection as it is. Only whether the separate file
still ends where the connection is has to be asked again. -/
theorem Registered.other {n n' : Network} {j : Nat} {c : ScChannel} {h : Handling}
    (hreg : Registered cfg addr path file n j c) (hconn : n'.connections j = n.connections j)
    (hlog : n'.log = h :: n.log) (hne : h.connection ≠ j)
    (hstored : (∀ h ∈ n'.log, code h = SCM_MSG_INIT → h.connection ≤ j) →
      separate path n'.fs = separate path n.fs) :
    Registered cfg addr path file n' j c := by
  have hreached : reached path j n'.log = reached path j n.log := by
    rw [hlog, reached_of_ne hne]
  constructor
  · rw [hconn]
    exact hreg.conn
  · exact hreg.isFor
  · obtain ⟨h', hmem, hinit⟩ := hreg.logged
    refine ⟨h', ?_, hinit⟩
    rw [hlog]
    exact List.mem_cons_of_mem h hmem
  · rw [hreached]
    exact hreg.short
  · rw [hreached]
    exact hreg.buffered
  · intro hnewest
    rw [hstored hnewest, hreached]
    -- What is newest after the handling was newest before it.
    refine hreg.stored ?_
    intro h' hmem
    exact hnewest h' (by rw [hlog]; exact List.mem_cons_of_mem h hmem)
  · rw [hconn, hreached]
    exact hreg.inFlight

/-- A frame that leaves the separate file as it is. -/
theorem Covered.same {log : List Handling} {fs fs' : Fs} {h : Handling}
    (hcov : Covered path file before log fs) (hsame : h.after.size path = h.before.size path)
    (hfs : separate path fs' = separate path fs) : Covered path file before (h :: log) fs' := by
  constructor
  · rw [appended_of_same hsame]
    exact hcov.sorted
  · rw [appended_of_same hsame, hfs]
    exact hcov.stored
  · rw [appended_of_same hsame]
    exact hcov.inside
  · rw [appended_of_same hsame, hfs]
    exact hcov.bytes

/-- A frame that appends what follows the end of the separate file. -/
theorem Covered.append {log : List Handling} {fs fs' : Fs} {h : Handling} {bytes : Bytes}
    (hcov : Covered path file before log fs)
    (hbefore : h.before.size path = (separate path fs).length)
    (hafter : h.after.size path = (separate path fs').length)
    (hfs : separate path fs' = separate path fs ++ bytes)
    (hreached : reached path h.connection (h :: log) = (separate path fs').length)
    (hfile : bytes <+: file.drop (separate path fs).length) :
    Covered path file before (h :: log) fs' := by
  have hlen := congrArg List.length hfs
  rw [List.length_append] at hlen
  by_cases hnil : bytes = []
  · rw [hnil, List.append_nil] at hfs
    exact hcov.same (by rw [hafter, hbefore, hfs]) hfs
  · have hpos := List.length_pos_of_ne_nil hnil
    -- The new range is the one between the two ends of the file.
    have happended : appended path (h :: log) =
        ⟨(separate path fs).length, (separate path fs).length + bytes.length⟩ ::
          appended path log := by
      rw [appended, if_pos (by rw [hbefore, hafter, hlen]; omega), hreached, hbefore, hafter]
      have hstart : (separate path fs').length -
          ((separate path fs').length - (separate path fs).length) = (separate path fs).length := by
        omega
      rw [hstart, hlen]
    constructor
    · rw [happended, List.pairwise_cons]
      exact ⟨fun r hr => hcov.stored r hr, hcov.sorted⟩
    · intro r hr
      rw [happended] at hr
      rw [hlen]
      rcases List.mem_cons.mp hr with rfl | hr
      · exact Nat.le_refl _
      · exact Nat.le_add_right_of_le (hcov.stored r hr)
    · intro r hr
      rw [happended] at hr
      rcases List.mem_cons.mp hr with rfl | hr
      · exact length_of_prefix_drop hfile hnil
      · exact hcov.inside r hr
    · rw [happended, List.reverse_cons, List.flatMap_append, ← List.append_assoc, ← hcov.bytes,
        hfs]
      show separate path fs ++ bytes = separate path fs ++ (Range.slice file _ ++ [])
      rw [List.append_nil, slice_of_prefix hfile]

/-- A frame is handled on a connection that is registered afterwards. What is left to show is
the connection itself, the file, and that no other connection counts on its end. -/
theorem Consistent.handled {n : Network} {k : Nat} {c : ScChannel} {replies request : Bytes}
    {alive : Bool} {fs : Fs} (hcons : Consistent cfg addr path name file before n)
    (hle : k ≤ n.newest) (hresults : fs.results = []) (hsize : (separate path fs).length < 2 ^ 63)
    (hothers : ∀ j c', Registered cfg addr path file n j c' → j ≠ k →
      (∀ h ∈ n.log, code h = SCM_MSG_INIT → h.connection ≤ j) →
      separate path fs = separate path n.fs)
    (hreg : Registered cfg addr path file
      { n.set k ⟨⟨addr, [c]⟩, [], replies, alive⟩ with
        fs := fs
        log := ⟨k, request, n.fs, fs⟩ :: n.log } k c)
    (hcovered : Covered path file before (⟨k, request, n.fs, fs⟩ :: n.log) fs) :
    Consistent cfg addr path name file before
      { n.set k ⟨⟨addr, [c]⟩, [], replies, alive⟩ with
        fs := fs
        log := ⟨k, request, n.fs, fs⟩ :: n.log } := by
  have hother : ∀ j, j ≠ k → (n.set k ⟨⟨addr, [c]⟩, [], replies, alive⟩).connections j =
      n.connections j := fun j hj => Network.set_of_ne n _ hj
  constructor
  · exact hresults
  · exact hsize
  · exact hcons.ends
  · intro h hmem
    rcases List.mem_cons.mp hmem with rfl | hmem
    · exact hle
    · exact hcons.known h hmem
  · intro j hj
    have hne : j ≠ k := by
      change n.newest < j at hj
      omega
    show ((n.set k _).connections j).inFlight = []
    rw [hother j hne]
    exact hcons.beyond j hj
  · intro j
    by_cases hj : j = k
    · rw [hj]
      exact Or.inr ⟨c, hreg⟩
    -- The other connections only see the log and the file of this one.
    · rcases hcons.each j with hun | ⟨c', hreg'⟩
      · exact Or.inl (hun.other (hother j hj) rfl fun heq => hj heq.symm)
      · refine Or.inr ⟨c', hreg'.other (hother j hj) rfl (fun heq => hj heq.symm) ?_⟩
        intro hnewest
        exact hothers j c' hreg' hj fun h hmem => hnewest h (List.mem_cons_of_mem _ hmem)
  · exact hcovered

section
variable (hmode : SeparateOnly cfg addr name path)
include hmode

/-- An INIT frame that is handled keeps the invariant. -/
theorem Consistent.init {n n' : Network} {w : Wake} {cxt : ScFollowContext}
    (hcons : Consistent cfg addr path name file before n) (hname : cxt.displayName = name)
    (hun : Unregistered addr name n w.connection)
    (hflight : (n.connections w.connection).inFlight = [(initMessage cxt).frame.bytes])
    (h : n.wake cfg w = .ok n') : Consistent cfg addr path name file before n' := by
  obtain ⟨c, chunks, attr, hfor, hempty, rfl⟩ := wake_init hmode hname hun.conn hflight h
  have hcode : code ⟨w.connection, (initMessage cxt).frame.bytes, n.fs, n.fs⟩ = SCM_MSG_INIT :=
    codeOf_bytes _
  have hle : w.connection ≤ n.newest := by
    by_contra hgt
    have hnone := hcons.beyond w.connection (by omega)
    rw [hflight] at hnone
    cases hnone
  refine hcons.handled hle hcons.results hcons.size (fun _ _ _ _ _ => rfl) ?_
    (hcons.covered.same rfl rfl)
  -- The connection is at the end of the separate file.
  have hreached := reached_of_init path n.log rfl hcode
  constructor
  · show ((n.set w.connection _).connections w.connection).conn = _
    rw [Network.set_self]
  · exact hfor
  · exact ⟨_, List.mem_cons_self .., hcode, rfl⟩
  · rw [hempty]
    exact Nat.zero_le _
  · rw [hempty]
    exact List.nil_prefix
  · intro _
    rw [hempty]
    exact hreached.symm
  · left
    show ((n.set w.connection _).connections w.connection).inFlight = []
    rw [Network.set_self]

/-- A line that is handled in order keeps the invariant. -/
theorem Consistent.line {n n' : Network} {w : Wake} {c : ScChannel} {f : Frame} {line : Bytes}
    (hcons : Consistent cfg addr path name file before n) (hfile : file.length < 2 ^ 63)
    (hreg : Registered cfg addr path file n w.connection c)
    (hflight : (n.connections w.connection).inFlight = [f.bytes]) (hline : IsLine f line)
    (hnext : line <+: file.drop (reached path w.connection n.log))
    (h : n.wake cfg w = .ok n') (hin : InOrder n'.log) :
    Consistent cfg addr path name file before n' := by
  obtain ⟨c', fs', hfor, hresults, hbytes, hbranch, rfl⟩ :=
    wake_line hmode hreg.conn hreg.isFor hflight hline hcons.results h
  have hcode : code ⟨w.connection, f.bytes, n.fs, fs'⟩ = SCM_MSG_DATA := by
    obtain ⟨complete, time, hframe, -⟩ := hline
    show codeOf f.bytes = SCM_MSG_DATA
    rw [codeOf_bytes]
    exact hframe.code_eq
  -- The order makes this connection the newest one that is registered.
  have hnewest : ∀ h' ∈ n.log, code h' = SCM_MSG_INIT → h'.connection ≤ w.connection :=
    fun h' hmem => (List.pairwise_cons.mp hin).1 h' hmem hcode
  obtain ⟨h1, hmem1, hinit1, hk1⟩ := hreg.logged
  have hle : w.connection ≤ n.newest := by
    rw [← hk1]
    exact hcons.known h1 hmem1
  have hreached : reached path w.connection (⟨w.connection, f.bytes, n.fs, fs'⟩ :: n.log) =
      reached path w.connection n.log + line.length := by
    rw [reached_of_data path n.log rfl hcode, textLength_of_line hline]
  -- What the buffer held and the line follow the end of the separate file.
  have hend := hreg.stored hnewest
  have hstart : reached path w.connection n.log - c.buffer.unread.length =
      (separate path n.fs).length := by omega
  have hfollow : c.buffer.unread ++ line <+: file.drop (separate path n.fs).length := by
    refine prefix_drop_append (hstart ▸ hreg.buffered) ?_
    rw [hend]
    exact hnext
  have hlen := congrArg List.length hbytes
  simp only [List.length_append] at hlen
  refine hcons.handled hle hresults ?_ ?_ ?_ ?_
  · rcases hbranch with hempty | rfl
    · by_cases hnil : c.buffer.unread ++ line = []
      · rw [List.append_assoc, hnil, hempty, List.append_nil, List.append_nil] at hbytes
        rw [hbytes]
        exact hcons.size
      · have hinside := length_of_prefix_drop hfollow hnil
        rw [List.length_append] at hinside
        omega
    · exact hcons.size
  · -- Two registered connections are not both the newest one.
    intro j c1 hregj hne hlast
    obtain ⟨h2, hmem2, hinit2, hk2⟩ := hregj.logged
    have hle1 := hlast h1 hmem1 hinit1
    have hle2 := hnewest h2 hmem2 hinit2
    omega
  · constructor
    · show ((n.set w.connection _).connections w.connection).conn = _
      rw [Network.set_self]
    · exact hfor
    · exact ⟨h1, List.mem_cons_of_mem _ hmem1, hinit1, hk1⟩
    · show c'.buffer.unread.length ≤ reached path w.connection (_ :: n.log)
      rw [hreached]
      omega
    · show c'.buffer.unread <+: file.drop (reached path w.connection (_ :: n.log) - _)
      rcases hbranch with hempty | rfl
      · rw [hempty]
        exact List.nil_prefix
      · -- The buffer holds the line behind what it held.
        rw [List.append_assoc] at hbytes
        have hunread := List.append_cancel_left hbytes
        have hback : reached path w.connection n.log + line.length - c'.buffer.unread.length =
            (separate path n.fs).length := by omega
        rw [hreached, hback, hunread]
        exact hfollow
    · intro _
      show (separate path fs').length + c'.buffer.unread.length =
        reached path w.connection (_ :: n.log)
      rw [hreached]
      omega
    · left
      show ((n.set w.connection _).connections w.connection).inFlight = []
      rw [Network.set_self]
  · rcases hbranch with hempty | rfl
    · rw [hempty, List.append_nil, List.append_assoc] at hbytes
      rw [hempty, List.length_nil, Nat.add_zero] at hlen
      refine hcons.covered.append rfl rfl hbytes ?_ hfollow
      rw [hreached]
      omega
    · exact hcons.covered.same rfl rfl

/-- Every frame that is handled in order keeps the invariant. -/
theorem wake_consistent {n n' : Network} {w : Wake}
    (hcons : Consistent cfg addr path name file before n) (hfile : file.length < 2 ^ 63)
    (h : n.wake cfg w = .ok n') (hin : InOrder n'.log) :
    Consistent cfg addr path name file before n' := by
  -- With nothing in flight nothing happens.
  have hidle : (n.connections w.connection).inFlight = [] →
      Consistent cfg addr path name file before n' := by
    intro hnil
    rw [Network.wake_of_nil hnil] at h
    cases h
    exact hcons
  rcases hcons.each w.connection with hun | ⟨c, hreg⟩
  · rcases hun.inFlight with hnil | ⟨cxt, hname, hflight⟩
    · exact hidle hnil
    · exact hcons.init hmode hname hun hflight h
  · rcases hreg.inFlight with hnil | ⟨f, line, hflight, hline, hnext⟩
    · exact hidle hnil
    · exact hcons.line hmode hfile hreg hflight hline hnext h hin

end

end

end Compostela.Proofs.OldConnections
