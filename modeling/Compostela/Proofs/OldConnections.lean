import Compostela.Proofs.Awaited

/-!
# `Compostela.Proofs.OldConnections`: the last frame of a connection that was given up

The runs of a follower whose old connections still have a frame in flight. A context on a
connection that works is `Synced`: what it holds follows the position that its connection has
reached. `Tracked` puts this and the invariant of the frames together, and `Tracked.step` is
its step lemma.

`appended_once` is the result for every run in which the frames are handled in order, and
`line_appended_twice` a run in which they are not.
-/

set_option autoImplicit false

namespace Compostela.Proofs.OldConnections

open Compostela.Common
open Compostela.Memory
open Compostela.Runs
open Compostela.Ranges
open Compostela.Segments
open Compostela.Aggregator
open Compostela.Follower
open Compostela.System
open Compostela.Proofs.Resume

/-! ### The exchange of a line -/

/-- The context is where its connection is: what it holds, with the line in hand in front,
follows the position that the connection has reached, up to the offset of the file. -/
structure Synced (path file : Bytes) (cxt : ScFollowContext) (n : Network) (line : Bytes) :
    Prop where
  channels : n.front.conn.channelList ≠ []
  channel : cxt.channel = 1
  fd : cxt.fd ≠ -1
  offset : cxt.offset = reached path n.newest n.log + (line ++ cxt.buffer.unread).length
  bytes : line ++ cxt.buffer.unread <+: file.drop (reached path n.newest n.log)

section
variable {cfg : Config} {addr : Option Bytes} {name path file before : Bytes}

/-- A connection with a channel is registered. -/
theorem Consistent.registered {n : Network}
    (hcons : Consistent cfg addr path name file before n)
    (hchannels : n.front.conn.channelList ≠ []) :
    ∃ c, Registered cfg addr path file n n.newest c := by
  rcases hcons.each n.newest with hun | hreg
  · refine absurd ?_ hchannels
    show (n.connections n.newest).conn.channelList = []
    rw [hun.conn]
  · exact hreg

/-- A read moves a line from the file and the context's buffer into hand. -/
theorem Synced.took {cxt cxt' : ScFollowContext} {n : Network} {got line : Bytes}
    {inp : RunInput} (h : Synced path inp.file cxt n []) (htook : Took inp cxt cxt' got line) :
    Synced path inp.file cxt' n line := by
  have hoffset : cxt'.offset = cxt.offset + got.length := by rw [htook.rest]
  have hstart := h.offset
  rw [List.nil_append] at hstart
  constructor
  · exact h.channels
  · rw [htook.rest]
    exact h.channel
  · rw [htook.rest]
    exact h.fd
  · rw [hoffset, hstart, ← htook.bytes, List.length_append, Nat.add_assoc]
  · rw [← htook.bytes]
    refine prefix_drop_append h.bytes ?_
    rw [← hstart]
    exact htook.fetched

section
variable (hmode : SeparateOnly cfg addr name path) (hfile : file.length < 2 ^ 63)
include hmode hfile

/-- The exchange of the line in hand: the connection has the line and the context is in step
with it, or the connection was given up and the main loop is told to reconnect. -/
theorem Synced.exchangeData {inp : RunInput} {cxt cxt' : ScFollowContext}
    {conn conn' : ScAggregatorConnection Network} {ret : Int} {complete : Bool} {line : Bytes}
    {msg : ScLogMessage} (hsync : Synced path file cxt conn.net line) (hset : Settled conn)
    (hcons : Consistent cfg addr path name file before conn.net)
    (hroom : msg.content.size = BUFSIZE)
    (hstore : storeLine inp complete line msg = .ok cxt.messageBuffer)
    (hmem : ∀ k, (inp.heap 2).malloc k = true)
    (h : exchangeData (Network.net cfg) inp (dataHeader line.length cxt) conn
      = .ok (ret, cxt', conn')) (hin : InOrder conn'.net.log) :
    Consistent cfg addr path name file before conn'.net ∧
      (ret = ERR_MUST_RECONNECT ∧ GivenUp conn' ∨
        ret = 0 ∧ Settled conn' ∧ cxt'.messageBuffer.code = SCM_MSG_NONE ∧
          Synced path file cxt' conn'.net []) := by
  have hsend : Sendable (dataHeader line.length cxt).messageBuffer SCM_MSG_DATA 1
      (Req.data 1 complete inp.time line).content :=
    sendable_dataHeader hsync.channel hroom hstore
  have hlen := hsend.length_eq
  have hle := hsend.length_le
  have hline : IsLine (dataHeader line.length cxt).messageBuffer.frame line :=
    ⟨complete, inp.time, hsend.frame, hsend.fits⟩
  obtain ⟨sent, conn1, msg1, hcall, hcases⟩ := exchangeData_cases h
  -- The log of the send is the end of the log of the exchange, so it is in order as well.
  have hsuffix : conn1.net.log <:+ conn'.net.log := by
    have hkeep := Network.net_log cfg conn1.net.log
    rcases hcases with ⟨-, -, -, rfl⟩ | ⟨-, got, resp, hrecv, -⟩
    · exact List.suffix_refl _
    · exact hkeep.receiveMessage (List.suffix_refl _) hrecv
  rcases hset.sendMessage hmode hfile hcons (by omega) (by omega) hcall
    (hin.of_suffix hsuffix) with ⟨hne, hcons1, hlost⟩ | ⟨hzero, n, hcalm, hconsn, rfl⟩
  · rcases hcases with ⟨-, hret, -, rfl⟩ | ⟨hsent, -⟩
    · exact ⟨hcons1, Or.inl ⟨hret, hlost⟩⟩
    · exact absurd hsent hne
  · -- The line is in flight, and follows the position that the connection has reached.
    have hreached := reached_calm path hcalm
    obtain ⟨c, hreg⟩ := hconsn.registered (by rw [hcalm.front]; exact hsync.channels)
    have hreg1 := hreg.request hline
      (by rw [hreached]; exact (List.prefix_append _ _).trans hsync.bytes)
    have hcons1 := hconsn.send (Or.inr ⟨c, hreg1⟩)
    have hawait : Awaits path
        (AsksData addr path (reached path conn.net.newest conn.net.log) line)
        (DataAnswer (reached path conn.net.newest conn.net.log) line)
        (n.set n.newest { n.front with
          inFlight := [(dataHeader line.length cxt).messageBuffer.frame.bytes] }) := by
      refine hset.awaits hcalm ⟨⟨c, ?_⟩, hreached, _, ?_, hline⟩
      · rw [Network.front_set]
        exact hreg.conn
      · rw [Network.front_set]
    rcases hcases with ⟨hne, -⟩ | ⟨-, got, resp, hrecv, hgot⟩
    · exact absurd hzero hne
    refine ⟨receive_consistent hmode hfile hcons1 hrecv hin, ?_⟩
    -- The connection is lost while the answer is awaited, or the answer is there and the line is
    -- recorded.
    rcases receive_awaited hmode hfile (fun hc ha hw => awaits_data hmode hc ha hw)
      (fun _ hasked => hasked) hmem hcons1 hawait hrecv hin with
      ⟨hne, hlost⟩ | ⟨hret, m, hresp, hsettled, hchannels, hok, hposition⟩
    · rcases hgot with ⟨-, hret, -⟩ | ⟨m, hgot0, -⟩
      · exact Or.inl ⟨hret, hlost⟩
      · exact absurd hgot0 hne
    · have hcode : m.code = SCM_RESP_OK := congrArg Frame.code hok
      rcases hgot with ⟨hnone, -⟩ | ⟨m1, -, hm, hret1, rfl⟩
      · rw [hret, hresp] at hnone
        exact hnone.elim (absurd rfl) nofun
      · rw [hresp] at hm
        cases hm
        refine Or.inr ⟨hret1, hsettled, by simp only [hcode, if_true], hchannels, hsync.channel,
          hsync.fd, ?_, ?_⟩
        · show cxt.offset = _ + ([] ++ cxt.buffer.unread).length
          have hoffset := hsync.offset
          rw [List.length_append] at hoffset
          rw [hposition, List.nil_append]
          omega
        · show [] ++ cxt.buffer.unread <+: _
          rw [List.nil_append, hposition]
          exact prefix_drop_of_append hsync.bytes

end

end

/-! ### A run -/

/-- A context that has not opened its file yet, on a new connection. -/
structure Fresh (addr : Option Bytes) (name : Bytes) (cxt : ScFollowContext)
    (conn : ScAggregatorConnection Network) : Prop where
  settled : Settled conn
  unregistered : Unregistered addr name conn.net conn.net.newest
  fd : cxt.fd < 0
  empty : cxt.buffer.unread = []

/-- A context on a connection that works, before it has opened its file or after that. -/
def Working (addr : Option Bytes) (path name file : Bytes) (cxt : ScFollowContext)
    (conn : ScAggregatorConnection Network) : Prop :=
  Fresh addr name cxt conn ∨ Settled conn ∧ Synced path file cxt conn.net []

section
variable {cfg : Config} {addr : Option Bytes} {name path file before : Bytes}

section
variable (hmode : SeparateOnly cfg addr name path) (hfile : file.length < 2 ^ 63)
include hmode hfile

/-- The first part of a run. When it does not end the run, the context is in step with its
connection, or the connection was given up. -/
theorem Working.ensureOpen {md5 : Md5} {inp : RunInput} {cxt cxt' : ScFollowContext}
    {conn conn' : ScAggregatorConnection Network} {ret : Option Int}
    (hworks : Working addr path name file cxt conn)
    (hcons : Consistent cfg addr path name file before conn.net) (hidle : Idle name cxt)
    (hmem : ∀ k, (inp.heap 0).malloc k = true)
    (h : ensureOpen (Network.net cfg) md5 inp cxt conn = .ok (ret, cxt', conn'))
    (hin : InOrder conn'.net.log) :
    Consistent cfg addr path name file before conn'.net ∧
      (ret = none ∧ (GivenUp conn' ∨ Settled conn' ∧ Synced path file cxt' conn'.net []) ∨
        ret = some 1 ∧ Working addr path name file cxt' conn') := by
  rcases ensureOpen_cases h with ⟨hfd, rfl, rfl, rfl⟩ | ⟨-, -, rfl, rfl, rfl⟩ |
    ⟨hclosed, hfail, rfl, rfl, rfl⟩ | ⟨hclosed, hopen, rfl, ret1, hinit⟩
  -- The file is open already.
  · refine ⟨hcons, Or.inl ⟨rfl, Or.inr (hworks.resolve_left fun hfresh => ?_)⟩⟩
    exact Int.not_le.mpr hfd (Int.le_of_lt hfresh.fd)
  · -- A descriptor that is not -1 counts as open.
    exact ⟨hcons, Or.inr ⟨rfl, hworks⟩⟩
  · have hfresh : Fresh addr name cxt conn' := hworks.resolve_right fun hsync =>
      hsync.2.fd hclosed
    exact ⟨hcons, Or.inr ⟨rfl, Or.inl ⟨hfresh.settled, hfresh.unregistered, hfail,
      hfresh.empty⟩⟩⟩
  · -- The file is opened, by a context that is not in step with anything yet.
    have hfresh : Fresh addr name cxt conn := hworks.resolve_right fun hsync =>
      hsync.2.fd hclosed
    obtain ⟨hcons1, hcase⟩ := hfresh.settled.initFile hmode hfile hcons hfresh.unregistered
      (by exact hidle.name_eq) hmem hinit hin
    refine ⟨hcons1, Or.inl ⟨rfl, ?_⟩⟩
    rcases hcase with hlost | ⟨hsettled, hchannels, hcxt⟩
    · exact Or.inl hlost
    · refine Or.inr ⟨hsettled, hchannels, by rw [hcxt], ?_, ?_, ?_⟩
      · rw [hcxt]
        show inp.opened.fd ≠ -1
        omega
      · rw [hcxt]
        show reached path conn'.net.newest conn'.net.log = _ +
          ([] ++ cxt.buffer.unread).length
        rw [hfresh.empty]
        rfl
      · rw [hcxt]
        show [] ++ cxt.buffer.unread <+: _
        rw [hfresh.empty]
        exact List.nil_prefix

end

section
variable (hmode : SeparateOnly cfg addr name path)
include hmode

/-- One run on a connection that works: it still works afterwards, or the connection was
given up and the main loop is told to reconnect. -/
theorem Working.run {md5 : Md5} {inp : RunInput} {cxt cxt' : ScFollowContext}
    {conn conn' : ScAggregatorConnection Network} {ret : Int} (hfile : inp.file.length < 2 ^ 63)
    (hworks : Working addr path name inp.file cxt conn)
    (hcons : Consistent cfg addr path name inp.file before conn.net) (hidle : Idle name cxt)
    (hnothing : cxt.messageBuffer.code = SCM_MSG_NONE)
    (hmem : ∀ i k, (inp.heap i).malloc k = true)
    (h : runFollowContext (Network.net cfg) md5 inp cxt conn = .ok (ret, cxt', conn'))
    (hin : InOrder conn'.net.log) :
    Consistent cfg addr path name inp.file before conn'.net ∧
      (GivenUp conn' ∨ ret ≠ ERR_MUST_RECONNECT ∧ cxt'.messageBuffer.code = SCM_MSG_NONE ∧
        Working addr path name inp.file cxt' conn') := by
  have hopened : conn.opened = true :=
    hworks.elim (fun hfresh => hfresh.settled.opened) fun hsync => hsync.1.opened
  obtain ⟨ret1, cxt1, conn1, hopen, hrest⟩ := runFollowContext_of_nothing hopened hnothing h
  -- The log up to here is the end of the whole log, whichever way the run goes on.
  have hlog1 : conn1.net.log <:+ conn'.net.log := by
    have hkeep := Network.net_log cfg conn1.net.log
    rcases hrest with
      ⟨-, -, rfl⟩ | ⟨-, ret2, cb, cxt2, -, ⟨-, -, rfl⟩ | ⟨-, cxt3, conn3, hchan, hex⟩⟩
    · exact List.suffix_refl _
    · exact List.suffix_refl _
    · exact hkeep.exchangeData (hkeep.ensureChannel (List.suffix_refl _) hchan) hex
  obtain ⟨hcons1, hcase1⟩ := hworks.ensureOpen hmode hfile hcons hidle (hmem 0) hopen
    (hin.of_suffix hlog1)
  have hidle1 := hidle.continues (ensureOpen_continues hidle.valid hopen)
  have hmsg1 := ensureOpen_messageBuffer hopen
  rcases hcase1 with ⟨rfl, hcase1⟩ | ⟨rfl, hworks1⟩
  · rcases hrest with ⟨hsome, -⟩ | ⟨-, ret2, cb, cxt2, hfill, hrest⟩
    · cases hsome
    obtain ⟨got, line, complete, htook, hended, hline⟩ := fillMessage_took hidle1.valid hfill
    rcases hcase1 with hlost | ⟨hset1, hsync1⟩
    · -- Whatever is left of the run, the connection was given up.
      have hkeep : Keeps (Network.net cfg) (fun n => n.front.alive = false ∧
          (InOrder n.log → Consistent cfg addr path name inp.file before n)) :=
        givenUp_keeps hmode hfile
      have hgone : conn'.net.front.alive = false ∧ (InOrder conn'.net.log →
          Consistent cfg addr path name inp.file before conn'.net) := by
        rcases hrest with ⟨-, -, rfl⟩ | ⟨-, cxt3, conn3, hchan, hex⟩
        · exact ⟨hlost, fun _ => hcons1⟩
        · exact hkeep.exchangeData (hkeep.ensureChannel ⟨hlost, fun _ => hcons1⟩ hchan) hex
      exact ⟨hgone.2 hin, Or.inl hgone.1⟩
    have hsync2 := hsync1.took htook
    rcases hrest with ⟨rfl, rfl, rfl⟩ | ⟨rfl, cxt3, conn3, hchan, hex⟩
    · -- There is no line to send.
      obtain ⟨hnil, hmsg2, hne⟩ := hended nofun
      rw [hnil] at hsync2
      refine ⟨hcons1, Or.inr ⟨fun heq => hne (by rw [heq]), ?_, Or.inr ⟨hset1, hsync2⟩⟩⟩
      rw [hmsg2, hmsg1]
      exact hnothing
    · -- The context has its channel number, and needs no second registration.
      obtain ⟨rfl, rfl⟩ := ensureChannel_of_ne (by rw [hsync2.channel]; decide) hchan
      obtain ⟨rfl, hstore, -⟩ := hline rfl
      obtain ⟨hcons', hcase⟩ := hsync2.exchangeData hmode hfile hset1 hcons1 hidle1.room hstore
        (hmem 2) hex hin
      refine ⟨hcons', ?_⟩
      rcases hcase with ⟨-, hlost⟩ | ⟨hret, hset', hnothing', hsync'⟩
      · exact Or.inl hlost
      · refine Or.inr ⟨?_, hnothing', Or.inr ⟨hset', hsync'⟩⟩
        rw [hret]
        decide
  · rcases hrest with ⟨hsome, rfl, rfl⟩ | ⟨hnone, -⟩
    · cases hsome
      refine ⟨hcons1, Or.inr ⟨by decide, ?_, hworks1⟩⟩
      rw [hmsg1]
      exact hnothing
    · cases hnone

end

end

/-! ### Every run of the system -/

section
variable {cfg : Config} {addr : Option Bytes} {name path file before : Bytes}

/-- The invariant of the system. What it says of the network holds as long as the frames were
handled in order. -/
structure Tracked (cfg : Config) (addr : Option Bytes) (path name before : Bytes)
    (s : Reconnecting) : Prop where
  size : s.file.length < 2 ^ 63
  idle : Idle name s.cxt
  sound : InOrder s.conn.net.log → Consistent cfg addr path name s.file before s.conn.net ∧
    (GivenUp s.conn ∨ s.cxt.messageBuffer.code = SCM_MSG_NONE ∧
      Working addr path name s.file s.cxt s.conn)

/-- The follower gets the memory that it asks for, and a call that fails ends its
connection. -/
def Served : Reconnecting.Event → Prop
  | .pass inp moments _ =>
      (∀ i k, (inp.heap i).malloc k = true) ∧ ∀ m ∈ moments, m.survives = false
  | _ => True

/-- The followed file grows. -/
theorem Consistent.grow {n : Network} (hcons : Consistent cfg addr path name file before n)
    (more : Bytes) : Consistent cfg addr path name (file ++ more) before n where
  results := hcons.results
  size := hcons.size
  ends := hcons.ends
  known := hcons.known
  beyond := hcons.beyond
  each := by
    intro k
    refine (hcons.each k).imp id ?_
    rintro ⟨c, hreg⟩
    refine ⟨c, hreg.conn, hreg.isFor, hreg.logged, hreg.short,
      prefix_drop_grow hreg.buffered more, hreg.stored, ?_⟩
    refine hreg.inFlight.imp id ?_
    rintro ⟨f, line, hflight, hline, hnext⟩
    exact ⟨f, line, hflight, hline, prefix_drop_grow hnext more⟩
  covered := by
    have hinside := hcons.covered.inside
    -- The records lie inside the old file, and the new bytes come behind all of them.
    refine ⟨hcons.covered.sorted, hcons.covered.stored, ?_, ?_⟩
    · intro r hr
      rw [List.length_append]
      exact Nat.le_add_right_of_le (hinside r hr)
    · rw [hcons.covered.bytes]
      congr 1
      exact (flatMap_slice_append (fun r hr => hinside r (List.mem_reverse.mp hr)) more).symm

/-- A context stays in step when its file grows. -/
theorem Synced.grow {cxt : ScFollowContext} {n : Network} {line : Bytes}
    (h : Synced path file cxt n line) (more : Bytes) : Synced path (file ++ more) cxt n line :=
  ⟨h.channels, h.channel, h.fd, h.offset, prefix_drop_grow h.bytes more⟩

/-- What happens on other connections leaves a connection that works as it is. -/
theorem Working.calm {cxt : ScFollowContext} {opened : Bool} {n n' : Network}
    (h : Working addr path name file cxt ⟨opened, n⟩) (hcalm : Network.Calm n n') :
    Working addr path name file cxt ⟨opened, n'⟩ := by
  -- Nothing has happened on the newest connection.
  have hsettled : Settled ⟨opened, n⟩ → Settled ⟨opened, n'⟩ := by
    intro hset
    refine ⟨hset.opened, ?_, ?_, ?_⟩
    · show n'.front.alive = true
      rw [hcalm.front]
      exact hset.alive
    · show n'.front.inFlight = []
      rw [hcalm.front]
      exact hset.inFlight
    · show n'.front.replies = []
      rw [hcalm.front]
      exact hset.replies
  rcases h with hfresh | ⟨hset, hsync⟩
  · left
    obtain ⟨others, hlog, hne⟩ := hcalm.log
    have hun := hfresh.unregistered
    have hfront : n'.connections n'.newest = n.connections n.newest := hcalm.front
    refine ⟨hsettled hfresh.settled, ⟨?_, ?_, ?_⟩, hfresh.fd, hfresh.empty⟩
    · show (n'.connections n'.newest).conn = _
      rw [hfront]
      exact hun.conn
    · intro e he
      change e ∈ n'.log at he
      show e.connection ≠ n'.newest
      rw [hcalm.newest]
      rw [hlog] at he
      exact (List.mem_append.mp he).elim (hne e) (hun.unlogged e)
    · show (n'.connections n'.newest).inFlight = [] ∨ _
      rw [hfront]
      exact hun.inFlight
  · right
    have hreached := reached_calm path hcalm
    refine ⟨hsettled hset, ?_, hsync.channel, hsync.fd, ?_, ?_⟩
    · show n'.front.conn.channelList ≠ []
      rw [hcalm.front]
      exact hsync.channels
    · show cxt.offset = reached path n'.newest n'.log + _
      rw [hreached]
      exact hsync.offset
    · show _ <+: file.drop (reached path n'.newest n'.log)
      rw [hreached]
      exact hsync.bytes

/-- A new connection is the newest one, and nothing is registered on it. -/
theorem Consistent.reconnect {n : Network} (hcons : Consistent cfg addr path name file before n) :
    Consistent cfg addr path name file before (n.reconnect addr) ∧
      Unregistered addr name (n.reconnect addr) (n.reconnect addr).newest := by
  have hnewest : (n.reconnect addr).newest = n.newest + 1 := rfl
  have hself : (n.reconnect addr).connections (n.newest + 1) = ⟨⟨addr, []⟩, [], [], true⟩ :=
    Function.update_self ..
  have hother : ∀ {k}, k ≠ n.newest + 1 →
      (n.reconnect addr).connections k = n.connections k :=
    fun hk => Function.update_of_ne hk ..
  -- A new connection has no channel, and no handling of it is in the log yet.
  have hun : Unregistered addr name (n.reconnect addr) (n.newest + 1) := by
    refine ⟨by rw [hself], ?_, Or.inl (by rw [hself])⟩
    intro e he
    have hle := hcons.known e he
    omega
  refine ⟨⟨hcons.results, hcons.size, hcons.ends, ?_, ?_, ?_, hcons.covered⟩, hun⟩
  · intro e he
    have hle := hcons.known e he
    rw [hnewest]
    omega
  · intro k hk
    rw [hnewest] at hk
    rw [hother (by omega)]
    exact hcons.beyond k (by omega)
  · intro k
    by_cases hk : k = n.newest + 1
    · rw [hk]
      exact Or.inl hun
    · rcases hcons.each k with hunk | ⟨c, hreg⟩
      · left
        exact ⟨by rw [hother hk]; exact hunk.conn, hunk.unlogged,
          by rw [hother hk]; exact hunk.inFlight⟩
      · right
        exact ⟨c, by rw [hother hk]; exact hreg.conn, hreg.isFor, hreg.logged, hreg.short,
          hreg.buffered, hreg.stored, by rw [hother hk]; exact hreg.inFlight⟩

/-- The reset and the reconnection after a connection was given up. -/
theorem Tracked.reconnect {cxt : ScFollowContext} {conn : ScAggregatorConnection Network}
    (hsize : file.length < 2 ^ 63) (hidle : Idle name cxt)
    (hcons : InOrder conn.net.log → Consistent cfg addr path name file before conn.net ∧
      GivenUp conn) (reconnected : Bool) :
    Tracked cfg addr path name before
      ⟨file, scFollowContextReset cxt, (scAggregatorConnectionOpen
        (if reconnected then some (Network.reconnect addr) else none) conn).2⟩ := by
  have hreset : Idle name (scFollowContextReset cxt) :=
    ⟨hidle.name_eq, hidle.room, hidle.valid.reset⟩
  -- The attempt to connect may fail, and the old connection stays given up.
  cases reconnected with
  | false => exact ⟨hsize, hreset, fun hin => ⟨(hcons hin).1, Or.inl (hcons hin).2⟩⟩
  | true =>
    refine ⟨hsize, hreset, ?_⟩
    intro hin
    obtain ⟨hcons', hun⟩ := (hcons hin).1.reconnect
    have hself : (conn.net.reconnect addr).front = ⟨⟨addr, []⟩, [], [], true⟩ :=
      Function.update_self ..
    refine ⟨hcons', Or.inr ⟨rfl, Or.inl ⟨⟨rfl, ?_, ?_, ?_⟩, hun, Int.negSucc_lt_zero 0, rfl⟩⟩⟩
    · show (conn.net.reconnect addr).front.alive = true
      rw [hself]
    · show (conn.net.reconnect addr).front.inFlight = []
      rw [hself]
    · show (conn.net.reconnect addr).front.replies = []
      rw [hself]

section
variable {md5 : Md5} (hmode : SeparateOnly cfg addr name path)
include hmode

omit hmode in
/-- The moments of a pass change nothing else. -/
theorem Tracked.moments {s : Reconnecting} (h : Tracked cfg addr path name before s)
    {moments : List Moment} (hends : ∀ m ∈ moments, m.survives = false) :
    Tracked cfg addr path name before
      { s with conn := ⟨s.conn.opened, { s.conn.net with moments := moments }⟩ } := by
  refine ⟨h.size, h.idle, ?_⟩
  intro hin
  obtain ⟨hcons, hphase⟩ := h.sound hin
  have hcalm : Network.Calm s.conn.net { s.conn.net with moments := moments } :=
    ⟨rfl, rfl, [], rfl, nofun⟩
  refine ⟨hcons.congr rfl rfl rfl hends (fun _ => rfl) fun _ => rfl, ?_⟩
  rcases hphase with hlost | ⟨hnothing, hworks⟩
  · exact Or.inl hlost
  · exact Or.inr ⟨hnothing, Working.calm hworks hcalm⟩

/-- A pass keeps the invariant. -/
theorem Tracked.pass {inp : RunInput} {cxt cxt' : ScFollowContext}
    {conn conn' : ScAggregatorConnection Network} {ret : Int}
    (h : Tracked cfg addr path name before ⟨inp.file, cxt, conn⟩)
    (hmem : ∀ i k, (inp.heap i).malloc k = true)
    (hrun : runFollowContext (Network.net cfg) md5 inp cxt conn = .ok (ret, cxt', conn')) :
    Idle name cxt' ∧ (InOrder conn'.net.log →
      Consistent cfg addr path name inp.file before conn'.net ∧
        (GivenUp conn' ∨ ret ≠ ERR_MUST_RECONNECT ∧ cxt'.messageBuffer.code = SCM_MSG_NONE ∧
          Working addr path name inp.file cxt' conn')) := by
  have hidle : Idle name cxt := h.idle
  refine ⟨hidle.continues (runFollowContext_continues hidle.valid hrun), ?_⟩
  intro hin
  have hsuffix : conn.net.log <:+ conn'.net.log :=
    (Network.net_log cfg conn.net.log).run (List.suffix_refl _) hrun
  -- The state before the pass was sound, since its log is the end of the new one.
  obtain ⟨hcons, hphase⟩ := h.sound (hin.of_suffix hsuffix)
  rcases hphase with hlost | ⟨hnothing, hworks⟩
  · have hkeep : Keeps (Network.net cfg) (fun n => n.front.alive = false ∧
        (InOrder n.log → Consistent cfg addr path name inp.file before n)) :=
      givenUp_keeps hmode h.size
    obtain ⟨hdead, hcons'⟩ := hkeep.run ⟨hlost, fun _ => hcons⟩ hrun
    exact ⟨hcons' hin, Or.inl hdead⟩
  · exact hworks.run hmode h.size hcons hidle hnothing hmem hrun hin

/-- Every event keeps the invariant. -/
theorem Tracked.step {s s' : Reconnecting} {e : Reconnecting.Event}
    (h : Tracked cfg addr path name before s) (hserved : Served e)
    (hstep : s.step cfg md5 addr e = .ok s') : Tracked cfg addr path name before s' := by
  cases e with
  | grow more =>
    cases hstep
    split
    · rename_i hsize
      refine ⟨hsize, h.idle, ?_⟩
      intro hin
      obtain ⟨hcons, hphase⟩ := h.sound hin
      refine ⟨hcons.grow more, hphase.imp id fun hworks => ⟨hworks.1, ?_⟩⟩
      exact hworks.2.imp id fun hsync => ⟨hsync.1, hsync.2.grow more⟩
    · exact h
  | wake w =>
    obtain ⟨n, hwake, hstep⟩ := bind_eq_ok.mp hstep
    cases hstep
    refine ⟨h.size, h.idle, ?_⟩
    intro hin
    obtain ⟨hcons, hphase⟩ := h.sound (hin.of_suffix (Network.wake_log hwake))
    refine ⟨wake_consistent hmode hcons h.size hwake hin, ?_⟩
    rcases hphase with hlost | ⟨hnothing, hworks⟩
    · exact Or.inl (wake_given_up hlost hwake)
    · have hnone : s.conn.net.front.inFlight = [] :=
        hworks.elim (fun hfresh => hfresh.settled.inFlight) fun hsync => hsync.1.inFlight
      exact Or.inr ⟨hnothing, hworks.calm (Network.wake_calm hnone hwake)⟩
  | pass inp moments reconnected =>
    obtain ⟨⟨ret, cxt, conn⟩, hrun, hstep⟩ := bind_eq_ok.mp hstep
    have hbefore : Tracked cfg addr path name before
        ⟨({ inp with file := s.file } : RunInput).file, s.cxt,
          { s.conn with net := { s.conn.net with moments := moments } }⟩ := h.moments hserved.2
    obtain ⟨hidle, hsound⟩ := Tracked.pass hmode hbefore hserved.1 hrun
    simp only at hstep
    split at hstep
    -- The run asks for a new connection, so it has lost this one.
    · rename_i hret
      cases hstep
      refine Tracked.reconnect h.size hidle ?_ reconnected
      intro hin
      obtain ⟨hcons, hcase⟩ := hsound hin
      exact ⟨hcons, hcase.resolve_right fun hworks => hworks.1 hret⟩
    · split at hstep
      · cases hstep
      · cases hstep
        refine ⟨h.size, hidle, ?_⟩
        intro hin
        obtain ⟨hcons, hcase⟩ := hsound hin
        exact ⟨hcons, hcase.imp id fun hworks => hworks.2⟩

end

/-- A new context, before its first run. The connection may be open or not. -/
def start (heap : Heap) (fname : Option Bytes) (name : Bytes) (ftimestamp : Bool) (file : Bytes)
    (fs : Fs) (addr : Option Bytes) (opened : Bool) : Reconnecting where
  file := file
  cxt := scFollowContextNew heap fname name ftimestamp BUFSIZE
  conn := ⟨opened, ⟨fs, fun _ => ⟨⟨addr, []⟩, [], [], opened⟩, 0, [], []⟩⟩

/-- A separate file in a mode with separate files only, with any number of connections one
after the other and the frames of all of them handled in any order in which no DATA frame
comes after the INIT frame of a newer connection: no two of the ranges of the followed file
that were appended overlap, and the separate file is what was there before and the bytes of
these ranges. -/
theorem appended_once (hmode : SeparateOnly cfg addr name path) {md5 : Md5} {heap : Heap}
    {fname : Option Bytes} {ftimestamp opened : Bool} {fs : Fs} (hfile : file.length < 2 ^ 63)
    (hresults : fs.results = []) (hsize : (separate path fs).length < 2 ^ 63)
    {es : List Reconnecting.Event} (hserved : ∀ e ∈ es, Served e) {s : Reconnecting}
    (hrun : es.foldlM (Reconnecting.step cfg md5 addr)
      (start heap fname name ftimestamp file fs addr opened) = .ok s)
    (hin : InOrder s.conn.net.log) :
    (appended path s.conn.net.log).Pairwise Range.Apart ∧
      separate path s.conn.net.fs =
        separate path fs ++ (appended path s.conn.net.log).reverse.flatMap
          (Range.slice s.file) := by
  have hstart : Tracked cfg addr path name (separate path fs)
      (start heap fname name ftimestamp file fs addr opened) := by
    refine ⟨hfile, ⟨rfl, rfl, AzBuffer.valid_azBufferNew heap (by decide)⟩, fun _ => ?_⟩
    have hun : ∀ k, Unregistered addr name
        (start heap fname name ftimestamp file fs addr opened).conn.net k :=
      fun k => ⟨rfl, nofun, Or.inl rfl⟩
    refine ⟨⟨hresults, hsize, nofun, nofun, fun _ _ => rfl, fun k => Or.inl (hun k), .nil,
      nofun, nofun, (List.append_nil _).symm⟩, ?_⟩
    cases opened with
    | false => exact Or.inl rfl
    | true => exact Or.inr ⟨rfl, Or.inl ⟨⟨rfl, rfl, rfl, rfl⟩, hun 0, Int.negSucc_lt_zero 0, rfl⟩⟩
  -- Each step keeps the invariant, so the end has it.
  have hend : Tracked cfg addr path name (separate path fs) s :=
    run_invariant_of (fun s e s' hP hP' hstep => hP.step hmode hP' hstep) hserved hstart hrun
  have hcov := (hend.sound hin).1.covered
  refine ⟨hcov.sorted.imp ?_, hcov.bytes⟩
  intro later earlier hle
  exact Or.inr hle

end

/-! ### Two orders of two frames -/

/-- A call during which the aggregator is woken for these connections. -/
def woken (connections : List Nat) : Moment :=
  ⟨connections.map fun k => ⟨k, ⟨zeroHeap, []⟩⟩, false, .eof, false⟩

/-- A call that waits for a response until it gives up. -/
def timedOut : Moment := ⟨[], true, .error, false⟩

/-- A pass that finds the followed file and reads all of it at once. -/
def smallPass (moments : List Moment) : Reconnecting.Event :=
  .pass ⟨⟨3, 0x8000⟩, .chunk 100, 0, [], none, [], fun _ => zeroHeap⟩ moments true

/-- The first line is sent on the first connection, and the follower gives up waiting for the
answer. -/
def firstLine : List Reconnecting.Event :=
  [.grow [97, LF], smallPass [woken [], woken [0], woken [], woken [], timedOut]]

/-- The start of both runs. -/
def smallStart : Reconnecting :=
  start zeroHeap (some [102]) [110] false [] Fs.empty (some [97]) true

/-- The line is handled before the INIT of the new connection. The follower goes on after it. -/
def inOrderEvents : List Reconnecting.Event :=
  firstLine ++ [smallPass [woken [], woken [0, 1], woken []], .grow [98, LF],
    smallPass [woken [], woken [1], woken []]]

/-- The last line of the old connection comes in before the INIT of the new one, so it is appended
once. -/
theorem appended_once_small :
    ∃ s, inOrderEvents.foldlM (Reconnecting.step separateConfig zeroMd5 (some [97])) smallStart =
        .ok s ∧
      appended (smallChannel []).filenameFullpath s.conn.net.log = [⟨2, 4⟩, ⟨0, 2⟩] ∧
      separate (smallChannel []).filenameFullpath s.conn.net.fs = [97, LF, 98, LF] ∧
      (appended (smallChannel []).filenameFullpath s.conn.net.log).Pairwise Range.Apart := by
  have hend : (inOrderEvents.foldlM (Reconnecting.step separateConfig zeroMd5 (some [97]))
      smallStart).map (fun s => (decide (InOrder s.conn.net.log),
        appended (smallChannel []).filenameFullpath s.conn.net.log,
        separate (smallChannel []).filenameFullpath s.conn.net.fs)) =
      .ok (true, [⟨2, 4⟩, ⟨0, 2⟩], [97, LF, 98, LF]) := by decide +kernel
  cases hrun : inOrderEvents.foldlM (Reconnecting.step separateConfig zeroMd5 (some [97]))
      smallStart with
  | error t =>
    rw [hrun] at hend
    cases hend
  | ok s =>
    rw [hrun] at hend
    -- The log is in order, so the theorem applies to this run.
    obtain ⟨hin, happended, hfile⟩ : decide (InOrder s.conn.net.log) = true ∧
        appended (smallChannel []).filenameFullpath s.conn.net.log = [⟨2, 4⟩, ⟨0, 2⟩] ∧
        separate (smallChannel []).filenameFullpath s.conn.net.fs = [97, LF, 98, LF] := by
      simpa only [Except.map, Except.ok.injEq, Prod.mk.injEq] using hend
    have hserved : ∀ e ∈ inOrderEvents, Served e := by
      simp [inOrderEvents, firstLine, smallPass, woken, timedOut, Served, zeroHeap]
    have honce := appended_once separateOnly_small (by decide) rfl (by decide) hserved hrun
      (of_decide_eq_true hin)
    exact ⟨s, rfl, happended, hfile, honce.1⟩

/-- The INIT of the new connection is handled first, and answered with the beginning of the
file. Then the line of the old connection is handled, and the follower sends it again. -/
def lateEvents : List Reconnecting.Event :=
  firstLine ++ [smallPass [woken [], woken [1, 0], woken [], woken [], woken [1], woken []]]

/-- The followed file has one line, and the separate file gets it twice. -/
theorem line_appended_twice :
    ∃ s, lateEvents.foldlM (Reconnecting.step separateConfig zeroMd5 (some [97])) smallStart =
        .ok s ∧
      s.file = [97, LF] ∧
      separate (smallChannel []).filenameFullpath s.conn.net.fs = [97, LF, 97, LF] ∧
      appended (smallChannel []).filenameFullpath s.conn.net.log = [⟨0, 2⟩, ⟨0, 2⟩] ∧
      ¬ (appended (smallChannel []).filenameFullpath s.conn.net.log).Pairwise Range.Apart := by
  have hend : (lateEvents.foldlM (Reconnecting.step separateConfig zeroMd5 (some [97]))
      smallStart).map (fun s => (s.file,
        separate (smallChannel []).filenameFullpath s.conn.net.fs,
        appended (smallChannel []).filenameFullpath s.conn.net.log)) =
      .ok ([97, LF], [97, LF, 97, LF], [⟨0, 2⟩, ⟨0, 2⟩]) := by decide +kernel
  cases hrun : lateEvents.foldlM (Reconnecting.step separateConfig zeroMd5 (some [97]))
      smallStart with
  | error t =>
    rw [hrun] at hend
    cases hend
  | ok s =>
    rw [hrun] at hend
    obtain ⟨hfile, hseparate, happended⟩ : s.file = [97, LF] ∧
        separate (smallChannel []).filenameFullpath s.conn.net.fs = [97, LF, 97, LF] ∧
        appended (smallChannel []).filenameFullpath s.conn.net.log = [⟨0, 2⟩, ⟨0, 2⟩] := by
      simpa only [Except.map, Except.ok.injEq, Prod.mk.injEq] using hend
    refine ⟨s, rfl, hfile, hseparate, happended, ?_⟩
    rw [happended]
    decide

end Compostela.Proofs.OldConnections
