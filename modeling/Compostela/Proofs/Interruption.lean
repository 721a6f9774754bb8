import Compostela.System.Exchange
import Compostela.System.Socket

/-!
# `Compostela.Proofs.Interruption`: the alarm handler inside an exchange

The handler of SIGALRM calls `do_rotate`, which releases a channel with an exchange of its own
when a display name has changed. The signal is not blocked while the main loop is inside an
exchange, so the two exchanges can be mixed on the one connection.

`interruption_safe` is what holds in the runs where every signal inside an exchange finds
nothing to release: the frames are on the stream one after the other, and every response byte
is read by the exchange that it answers. `interruption_mixes` has two runs of one context in
which a signal finds a display name that has changed: between two `send` calls, and between
the last `send` and the first `recv`.

`Settled` is the invariant between exchanges. `Sending` and `Awaits` are its two stages inside
one.
-/

set_option autoImplicit false

namespace Compostela.Proofs.Interruption

open Compostela.Common
open Compostela.Memory
open Compostela.Runs
open Compostela.Segments
open Compostela.Tagged
open Compostela.Aggregator
open Compostela.Follower
open Compostela.System
open Compostela.System.Socket

/-! ### The system -/

/-- What can happen to the follower: a run of one of its contexts with signals at any of its
system calls, a signal between two runs, and a new connection. The contexts are those of the
moment. They are a part of the events, so what is proved here holds for any. -/
inductive Event
  | run (cxt : ScFollowContext) (ready : Ready cxt) (inp : RunInput) (turns : List Turn)
      (calls : List Call) (signals : List Interruption)
  | alarm (a : Alarm) (turns : List Turn) (calls : List Call)
  | reopen (connected : Bool)

/-- The connection before an event, with what its system calls and the aggregator will do. -/
def prepared (turns : List Turn) (calls : List Call) (signals : List Interruption)
    (conn : ScAggregatorConnection Socket) : Socket :=
  { conn.net with
      turns := turns, calls := calls, signals := ⟨[], signals⟩, closed := !conn.opened }

section
variable (cfg : Config) (md5 : Md5) (addr : Option Bytes) (patterns : List ScConfigPatternEntry)

/-- One event. A socket that the handler closed is closed for the main loop too. -/
def step (conn : ScAggregatorConnection Socket) :
    Event → Except Trap (ScAggregatorConnection Socket)
  | .run cxt _ inp turns calls signals => do
      let (_, _, conn) ← runFollowContext (Socket.net cfg (interrupted cfg patterns)) md5 inp cxt
        ⟨conn.opened, prepared turns calls signals conn⟩
      .ok ⟨conn.opened && !conn.net.closed, conn.net⟩
  | .alarm a turns calls => do
      let s ← handlerAlarm cfg patterns (prepared turns calls [] conn) a
      .ok ⟨!s.closed, s⟩
  | .reopen connected =>
      .ok (scAggregatorConnectionOpen (if connected then some (reconnect addr) else none) conn).2

/-- The follower with a connection on which nothing happened yet. -/
def start (fs : Fs) : ScAggregatorConnection Socket :=
  ⟨true, ⟨fs, ⟨addr, []⟩, [], [], false, false, [], [], ⟨[], []⟩, 0, ⟨[], [], []⟩⟩⟩

/-! ### The condition -/

/-- `do_rotate` releases a channel for this entry: the first context of its file has another
display name, and its file is open. -/
def releases (clock : Clock) (contexts : List Listed) (pe : ScConfigPatternEntry) : Bool :=
  match entryNames clock pe with
  | .ok (fn, dn) =>
      match contexts.find? fun c => c.cxt.filename = some fn with
      | some c => c.cxt.displayName ≠ dn ∧ 0 ≤ c.cxt.fd
      | none => false
  | .error _ => false

/-- The handler finds nothing to release. -/
def Harmless (a : Alarm) : Prop := ∀ pe ∈ patterns, releases a.clock a.contexts pe = false

/-- The handler gets the memory that it asks for. -/
def Served (a : Alarm) : Prop := ∀ k n, (a.heap k).malloc n = true

/-- The signals of an exchange do not disturb it. Before its first system call there is
nothing to disturb. -/
structure Undisturbed (x : Interruption) : Prop where
  before : ∀ a ∈ x.before, Served a
  during : ∀ as ∈ x.during, ∀ a ∈ as, Harmless patterns a

/-- The condition on an event. A run starts without a message from an earlier run. -/
def Quiet : Event → Prop
  | .run cxt _ inp _ _ signals =>
      cxt.messageBuffer.code = SCM_MSG_NONE ∧ (∀ i n, (inp.heap i).malloc n = true) ∧
        ∀ x ∈ signals, Undisturbed patterns x
  | .alarm a _ _ => Served a
  | .reopen _ => True

end

/-- Every response byte was read by the exchange that it answers. -/
def Matched (t : Trace) : Prop := ∀ r ∈ t.reads, r.1 = r.2

/-! ### The invariant -/

/-- No signal to come disturbs an exchange. -/
structure Calm (patterns : List ScConfigPatternEntry) (signals : Signals) : Prop where
  during : ∀ as ∈ signals.during, ∀ a ∈ as, Harmless patterns a
  next : ∀ x ∈ signals.next, Undisturbed patterns x

/-- The invariant between exchanges: nothing is on its way. -/
structure Settled (patterns : List ScConfigPatternEntry) (s : Socket) : Prop where
  calm : Calm patterns s.signals
  contiguous : Contiguous s.trace.requests s.trace.wire
  matched : Matched s.trace
  arrived : s.arrived = []
  unread : s.unread = []

/-- What a handler sends: nothing, or one frame. -/
def IsAnswer (sent : Bytes) : Prop :=
  sent = [] ∨ ∃ f : Frame, sent = f.bytes ∧ 0 ≤ f.contentLength.toInt

/-- The invariant after a request was sent: its response is on its way, if there is one. -/
structure Awaits (patterns : List ScConfigPatternEntry) (s : Socket) : Prop where
  calm : Calm patterns s.signals
  contiguous : Contiguous s.trace.requests s.trace.wire
  matched : Matched s.trace
  arrived : s.arrived = []
  answer : ∃ sent, s.unread = tag s.owner sent ∧ IsAnswer sent

/-- The invariant inside the send of a frame, when `done` was sent. `requests` and `wire` are
from before the exchange. The aggregator has the same bytes, unless the connection is lost. -/
structure Sending (patterns : List ScConfigPatternEntry) (requests : List Bytes)
    (wire : List (Nat × UInt8)) (f : Frame) (done : Bytes) (s : Socket) : Prop where
  calm : Calm patterns s.signals
  before : Contiguous requests wire
  matched : Matched s.trace
  owner : s.owner = requests.length
  requests_eq : s.trace.requests = requests ++ [f.bytes]
  wire_eq : s.trace.wire = wire ++ tag requests.length done
  lost : s.lost = true → s.arrived = []
  arrived : s.lost = false → s.arrived = tag s.owner done
  unread : s.unread = []

/-- A frame that the aggregator can take: it fits the block, and is no SEEK request. -/
structure Takes (f : Frame) : Prop where
  fits : f.content.length ≤ BUFSIZE
  handler : handlerFor f.code f.channel ≠ some .seek

section
variable {cfg : Config} {patterns : List ScConfigPatternEntry} {s s' : Socket} {f : Frame}
  {requests : List Bytes} {wire : List (Nat × UInt8)} {done : Bytes}

/-- A socket on which everything is answered awaits a request. -/
theorem Settled.awaits (h : Settled patterns s) : Awaits patterns s :=
  ⟨h.calm, h.contiguous, h.matched, h.arrived, [], h.unread, Or.inl rfl⟩

/-- What was sent of a frame is contiguous. -/
theorem Sending.contiguous (h : Sending patterns requests wire f done s)
    (hdone : done <+: f.bytes) : Contiguous s.trace.requests s.trace.wire := by
  rw [h.requests_eq, h.wire_eq]
  exact h.before.concat hdone

/-- A connection that ends inside a send. -/
theorem Sending.hangUp (h : Sending patterns requests wire f done s) (hdone : done <+: f.bytes)
    (turns : List Turn) : Settled patterns ({ s with turns := turns }.hangUp) :=
  ⟨h.calm, h.contiguous hdone, h.matched, rfl, rfl⟩

/-- A start of a frame that has the header says how long the frame is. -/
theorem frameSize_of_start {bs : Bytes} (hbs : bs <+: f.bytes) (hlen : headerSize ≤ bs.length) :
    frameSize bs = f.bytes.length := by
  have hhead : bs.take headerSize
      = ScLogMessage.netHeader f.code f.channel f.contentLength := by
    obtain ⟨rest, hrest⟩ := hbs
    have htake : (bs ++ rest).take headerSize = bs.take headerSize :=
      List.take_append_of_le_length hlen
    rw [← htake, hrest, Frame.bytes, List.take_left' (by simp)]
  rw [frameSize, hhead, seenHeader_netHeader, Frame.length_bytes, f.complete]

/-- The aggregator waits for the rest of a frame. -/
theorem serve_of_start {owner : Nat} {bs : Bytes} (harrived : s.arrived = tag owner bs)
    (hbs : bs <+: f.bytes) (hlt : bs.length < f.bytes.length) : serve cfg s = .ok s := by
  unfold serve
  simp only [harrived, map_snd_tag]
  rw [if_neg]
  rintro ⟨hlen, hsize⟩
  rw [frameSize_of_start hbs hlen] at hsize
  omega

/-- The aggregator handles a frame that is complete, and its response belongs to the sender. -/
theorem serve_of_frame {owner : Nat} (hf : Takes f) (harrived : s.arrived = tag owner f.bytes)
    (h : serve cfg s = .ok s') :
    ∃ fs conn sent, IsAnswer sent ∧
      s' = { s with
        fs := fs, conn := conn, calls := s.calls.tail, arrived := []
        unread := s.unread ++ tag owner sent } := by
  have hlen : headerSize ≤ f.bytes.length := by
    rw [Frame.length_bytes]
    omega
  have hsize := frameSize_of_start (f := f) (List.prefix_refl _) hlen
  have howner : ((tag owner f.bytes).map Prod.fst).headD 0 = owner := by
    cases hbytes : f.bytes with
    | nil =>
      rw [hbytes] at hlen
      exact absurd hlen (by decide)
    | cons b bs => rfl
  unfold serve at h
  simp only [harrived, map_snd_tag, hsize, howner, List.take_length, tag_drop, List.drop_length,
    tag_nil] at h
  rw [if_pos ⟨hlen, Nat.le_refl _⟩] at h
  -- The call of `do_receive`.
  have hbytes : (⟨arrivalsOf f.bytes, .eof⟩ : Incoming).bytes = f.bytes ++ [] := by
    rw [List.append_nil]
    exact bytesOf_arrivalsOf f.bytes
  obtain ⟨msg, rest, hframe, -, -, -, hrecv⟩ := doReceive_of_frame cfg
    (s.calls.headD ⟨zeroHeap, []⟩).heap (s.calls.headD ⟨zeroHeap, []⟩).chunks s.conn s.fs hbytes
    hf.fits
  rw [hrecv] at h
  cases hhandle : handle cfg (s.calls.headD ⟨zeroHeap, []⟩).heap
      (s.calls.headD ⟨zeroHeap, []⟩).chunks msg s.conn s.fs with
  | error t =>
    rw [hhandle] at h
    cases h
  | ok r =>
    rw [hhandle] at h
    cases h
    refine ⟨r.fs, r.conn, r.sent, ?_, rfl⟩
    refine handle_sent ?_ hhandle
    have hhandler := hf.handler
    rw [← hframe] at hhandler
    exact hhandler

/-- The wire after a `send` call, and what the aggregator makes of it. -/
theorem Sending.arrive (hf : Takes f) (h : Sending patterns requests wire f done s)
    {bytes rest : Bytes} (hbytes : f.bytes = done ++ bytes ++ rest)
    (harrive : arrive cfg s bytes = .ok s') :
    (rest = [] → Awaits patterns s') ∧
      (rest ≠ [] → Sending patterns requests wire f (done ++ bytes) s') := by
  have hprefix : done ++ bytes <+: f.bytes := ⟨rest, hbytes.symm⟩
  have hwire : s.trace.wire ++ tag s.owner bytes = wire ++ tag requests.length (done ++ bytes) := by
    rw [h.wire_eq, h.owner, tag_append, List.append_assoc]
  have hcontiguous : Contiguous s.trace.requests (s.trace.wire ++ tag s.owner bytes) := by
    rw [h.requests_eq, hwire]
    exact h.before.concat hprefix
  unfold Socket.arrive at harrive
  simp only at harrive
  cases hlost : s.lost with
  | true =>
    -- A lost connection takes the bytes to nobody.
    rw [hlost, if_pos rfl] at harrive
    cases harrive
    have harrived := h.lost hlost
    constructor
    · intro _
      exact ⟨h.calm, hcontiguous, h.matched, harrived, [], h.unread, Or.inl rfl⟩
    · intro _
      refine ⟨h.calm, h.before, h.matched, h.owner, h.requests_eq, hwire, fun _ => harrived, ?_,
        h.unread⟩
      intro hfalse
      cases hfalse
  | false =>
    rw [hlost, if_neg (by decide)] at harrive
    have harrived : s.arrived ++ tag s.owner bytes = tag s.owner (done ++ bytes) := by
      rw [h.arrived hlost, tag_append]
    constructor
    · intro hrest
      have hall : done ++ bytes = f.bytes := by rw [hbytes, hrest, List.append_nil]
      rw [hall] at harrived
      obtain ⟨fs, conn, sent, hanswer, hs'⟩ := serve_of_frame hf harrived harrive
      rw [hs']
      refine ⟨h.calm, hcontiguous, h.matched, rfl, sent, ?_, hanswer⟩
      show s.unread ++ tag s.owner sent = tag s.owner sent
      rw [h.unread, List.nil_append]
    · intro hrest
      -- The frame is not complete.
      have hlt : (done ++ bytes).length < f.bytes.length := by
        have hpos := List.length_pos_of_ne_nil hrest
        simp only [hbytes, List.length_append]
        omega
      rw [serve_of_start harrived hprefix hlt] at harrive
      cases harrive
      refine ⟨h.calm, h.before, h.matched, h.owner, h.requests_eq, hwire, ?_, fun _ => harrived,
        h.unread⟩
      intro htrue
      cases htrue

/-- One `send` call. It ends the connection, or it sends the next bytes of the frame. -/
theorem Sending.send (hf : Takes f) (h : Sending patterns requests wire f done s) {data : Bytes}
    {cb : Int} (hdata : f.bytes = done ++ data) (hne : data ≠ [])
    (hsend : send cfg s data = .ok (cb, s')) :
    (cb ≤ 0 ∧ Settled patterns s') ∨
    ∃ n : Nat, cb = n ∧ 0 < n ∧ n ≤ data.length ∧
      (data.drop n = [] → Awaits patterns s') ∧
      (data.drop n ≠ [] → Sending patterns requests wire f (done ++ data.take n) s') := by
  have hprefix : done <+: f.bytes := ⟨data, hdata.symm⟩
  unfold Socket.send at hsend
  split at hsend
  · cases hsend
    exact Or.inl ⟨by decide, h.hangUp hprefix s.turns⟩
  · split at hsend
    · cases hsend
      exact Or.inl ⟨by decide, h.hangUp hprefix s.turns.tail⟩
    · rename_i k _
      obtain ⟨s1, harrive, hsend⟩ := bind_eq_ok.mp hsend
      cases hsend
      have hpos : 0 < (data.take (k + 1)).length := by
        have hlen := List.length_pos_of_ne_nil hne
        rw [List.length_take]
        omega
      have htake : data.take (data.take (k + 1)).length = data.take (k + 1) := by
        rw [List.length_take, List.take_eq_take_iff]
        omega
      -- `send` accepts part of the frame, and what it accepts arrives.
      have hsplit : f.bytes = done ++ data.take (k + 1)
          ++ data.drop (data.take (k + 1)).length := by
        have hboth := List.take_append_drop (data.take (k + 1)).length data
        rw [htake] at hboth
        rw [List.append_assoc, hboth, hdata]
      have hturn : Sending patterns requests wire f done { s with turns := s.turns.tail } :=
        ⟨h.calm, h.before, h.matched, h.owner, h.requests_eq, h.wire_eq, h.lost, h.arrived,
          h.unread⟩
      obtain ⟨hlast, hmore⟩ := hturn.arrive hf hsplit harrive
      refine Or.inr ⟨_, rfl, hpos, List.length_take_le' _ _, hlast, ?_⟩
      rw [htake]
      exact hmore

/-! ### The loops -/

/-- Hooks that keep the invariant between exchanges, and touch nothing inside one. -/
structure Polite (patterns : List ScConfigPatternEntry) (h : Hooks) : Prop where
  first : ∀ s s', Settled patterns s → h.first s = .ok s' → Settled patterns s'
  later : ∀ s s', Calm patterns s.signals → h.later s = .ok s' →
    Calm patterns s'.signals ∧ s' = { s with signals := s'.signals }

/-- The loop of `sendall`, by induction on its iterations. -/
theorem Sending.sendLoop {hooks : Hooks} (hooks_polite : Polite patterns hooks) (hf : Takes f)
    (fuel : Nat) {data : Bytes} {cb : Int} {n : Nat}
    (hsend : sendLoop cfg hooks fuel s data = .ok (cb, n, s')) (hfuel : data.length ≤ fuel)
    (hne : data ≠ []) (h : Sending patterns requests wire f done s)
    (hdata : f.bytes = done ++ data) :
    Awaits patterns s' ∧ (n = 0 → cb ≤ 0 → Settled patterns s') := by
  induction fuel generalizing s done data cb n with
  | zero =>
    have hpos := List.length_pos_of_ne_nil hne
    omega
  | succ fuel ih =>
    unfold Socket.sendLoop at hsend
    obtain ⟨⟨cb1, s1⟩, hone, hsend⟩ := bind_eq_ok.mp hsend
    simp only at hsend
    rcases h.send hf hdata hne hone with ⟨hle, hsettled⟩ | ⟨m, rfl, hpos, hm, hlast, hmore⟩
    · rw [if_pos hle] at hsend
      cases hsend
      exact ⟨hsettled.awaits, fun _ _ => hsettled⟩
    · rw [if_neg (by omega), Int.toNat_natCast] at hsend
      split at hsend
      · rename_i hend
        cases hsend
        exact ⟨hlast hend, fun hzero => absurd hzero (by omega)⟩
      · rename_i hend
        obtain ⟨s2, hhook, hsend⟩ := bind_eq_ok.mp hsend
        obtain ⟨⟨cb', n', s3⟩, hrest, hsend⟩ := bind_eq_ok.mp hsend
        cases hsend
        have h1 := hmore hend
        obtain ⟨hcalm, hsame⟩ := hooks_polite.later s1 s2 h1.calm hhook
        -- The hook left the exchange as it was.
        have h2 : Sending patterns requests wire f (done ++ data.take m) s2 := by
          rw [hsame]
          exact ⟨hcalm, h1.before, h1.matched, h1.owner, h1.requests_eq, h1.wire_eq, h1.lost,
            h1.arrived, h1.unread⟩
        have hlen : (data.drop m).length ≤ fuel := by
          rw [List.length_drop]
          omega
        have hsplit : f.bytes = done ++ data.take m ++ data.drop m := by
          rw [List.append_assoc, List.take_append_drop, hdata]
        obtain ⟨hawaits, -⟩ := ih hrest hlen hend h2 hsplit
        exact ⟨hawaits, fun hzero => absurd hzero (by omega)⟩

/-- `sendall` of a whole frame. -/
theorem Settled.sendall {hooks : Hooks} (hooks_polite : Polite patterns hooks) (hf : Takes f)
    {ret : Int} (h : Settled patterns s) (hsend : sendall cfg hooks s f.bytes = .ok (ret, s')) :
    Awaits patterns s' ∧ (ret ≤ 0 → Settled patterns s') := by
  unfold Socket.sendall at hsend
  obtain ⟨s1, hfirst, hsend⟩ := bind_eq_ok.mp hsend
  obtain ⟨⟨cb, n, s2⟩, hloop, hsend⟩ := bind_eq_ok.mp hsend
  cases hsend
  have h1 := hooks_polite.first s s1 h hfirst
  -- A frame has a header at least, so the loop is entered.
  have hne : f.bytes ≠ [] := by
    apply List.ne_nil_of_length_pos
    rw [Frame.length_bytes]
    unfold headerSize
    omega
  have hstart : Sending patterns s1.trace.requests s1.trace.wire f [] (s1.start f.bytes) := by
    refine ⟨h1.calm, h1.contiguous, h1.matched, rfl, rfl, ?_, fun _ => h1.arrived,
      fun _ => h1.arrived, h1.unread⟩
    rw [tag_nil, List.append_nil]
    rfl
  obtain ⟨hawaits, hfailed⟩ :=
    hstart.sendLoop hooks_polite hf _ hloop (Nat.le_refl _) hne rfl
  refine ⟨hawaits, ?_⟩
  intro hle
  by_cases hn : n = 0
  · rw [if_neg (not_not.mpr hn)] at hle
    exact hfailed hn hle
  · rw [if_pos hn] at hle
    omega

/-- The invariant inside a receive: `rest` is what is still to be read. -/
structure Reading (patterns : List ScConfigPatternEntry) (rest : Bytes) (s : Socket) : Prop where
  calm : Calm patterns s.signals
  contiguous : Contiguous s.trace.requests s.trace.wire
  matched : Matched s.trace
  arrived : s.arrived = []
  unread : s.unread = tag s.owner rest

/-- A socket on which everything is answered has nothing left to read. -/
theorem Settled.reading (h : Settled patterns s) : Reading patterns [] s :=
  ⟨h.calm, h.contiguous, h.matched, h.arrived, h.unread⟩

/-- A socket on which nothing is left to read has everything answered. -/
theorem Reading.settled (h : Reading patterns [] s) : Settled patterns s :=
  ⟨h.calm, h.contiguous, h.matched, h.arrived, h.unread⟩

/-- A connection that ends inside a receive. -/
theorem Reading.hangUp {rest : Bytes} (h : Reading patterns rest s) (turns : List Turn) :
    Settled patterns ({ s with turns := turns }.hangUp) :=
  ⟨h.calm, h.contiguous, h.matched, rfl, rfl⟩

/-- One `recv` call. It ends the connection, or it gets the next bytes of the response. -/
theorem Reading.recv {rest : Bytes} {size : Nat} {cb : Int} {bytes : Bytes}
    (h : Reading patterns rest s) (hrecv : recv s size = (cb, bytes, s')) :
    (cb ≤ 0 ∧ Settled patterns s') ∨
    ∃ n : Nat, cb = n ∧ 0 < n ∧ n ≤ size ∧ n ≤ rest.length ∧ bytes = rest.take n ∧
      Reading patterns (rest.drop n) s' := by
  unfold Socket.recv at hrecv
  split at hrecv
  · cases hrecv
    exact Or.inl ⟨by decide, h.hangUp s.turns⟩
  · split at hrecv
    · rename_i ending _
      cases hrecv
      refine Or.inl ⟨?_, h.hangUp s.turns.tail⟩
      cases ending <;> decide
    · rename_i k _
      simp only [h.unread, tag_take, tag_eq_nil_iff, map_snd_tag] at hrecv
      split at hrecv
      · cases hrecv
        exact Or.inl ⟨Int.le_refl 0, h.hangUp s.turns.tail⟩
      · rename_i hne
        cases hrecv
        -- Between the calls nobody else reads, so the bytes are the next of the response.
        have hlen : (tag s.owner (rest.take (min size (k + 1)))).length
            = (rest.take (min size (k + 1))).length := List.length_map _
        have hpos := List.length_pos_of_ne_nil hne
        have hle : (rest.take (min size (k + 1))).length ≤ min size (k + 1) :=
          List.length_take_le _ _
        refine Or.inr ⟨(rest.take (min size (k + 1))).length, by rw [hlen], hpos, by omega,
          List.length_take_le' _ _, ?_, ?_⟩
        · rw [List.length_take, List.take_eq_take_iff]
          omega
        · refine ⟨h.calm, h.contiguous, ?_, h.arrived, ?_⟩
          · -- The bytes that were read have the tag of the reader.
            intro r hr
            rcases List.mem_append.mp hr with hr | hr
            · exact h.matched r hr
            · obtain ⟨x, hx, rfl⟩ := List.mem_map.mp hr
              exact (eq_of_mem_tag hx).symm
          · show List.drop _ _ = _
            rw [hlen, tag_drop]

/-- The loop of `recvall`, by induction on its iterations. It ends the connection, or it gets
all of what it asks for. -/
theorem Reading.recvLoop {hooks : Hooks} (hooks_polite : Polite patterns hooks) (fuel : Nat)
    {rest : Bytes} {size : Nat} {cb : Int} {bytes : Bytes}
    (hrecv : recvLoop hooks fuel s size = .ok (cb, bytes, s')) (hfuel : size ≤ fuel)
    (h : Reading patterns rest s) :
    Settled patterns s' ∨
      (size ≤ rest.length ∧ bytes = rest.take size ∧ Reading patterns (rest.drop size) s') := by
  induction fuel generalizing s rest size cb bytes with
  | zero =>
    cases hrecv
    have hzero : size = 0 := by omega
    rw [hzero]
    exact Or.inr ⟨Nat.zero_le _, rfl, h⟩
  | succ fuel ih =>
    unfold Socket.recvLoop at hrecv
    split at hrecv
    · rename_i hzero
      cases hrecv
      rw [hzero]
      exact Or.inr ⟨Nat.zero_le _, rfl, h⟩
    · obtain ⟨s1, hhook, hrecv⟩ := bind_eq_ok.mp hrecv
      -- A signal between two calls changes nothing on this socket.
      obtain ⟨hcalm, hsame⟩ := hooks_polite.later s s1 h.calm hhook
      have h1 : Reading patterns rest s1 := by
        rw [hsame]
        exact ⟨hcalm, h.contiguous, h.matched, h.arrived, h.unread⟩
      cases hone : Socket.recv s1 size with
      | mk cb1 out =>
        obtain ⟨bytes1, s2⟩ := out
        rw [hone] at hrecv
        simp only at hrecv
        rcases h1.recv hone with ⟨hle, hsettled⟩ | ⟨n, rfl, hpos, hn, hrest, hbytes, h2⟩
        · rw [if_pos hle] at hrecv
          cases hrecv
          exact Or.inl hsettled
        · rw [if_neg (by omega)] at hrecv
          obtain ⟨⟨cb', more, s3⟩, hmore, hrecv⟩ := bind_eq_ok.mp hrecv
          cases hrecv
          have hlen : bytes1.length = n := by
            rw [hbytes, List.length_take]
            omega
          rw [hlen] at hmore
          rcases ih hmore (by omega) h2 with hsettled | ⟨hsize, hmore', h3⟩
          · exact Or.inl hsettled
          · rw [List.length_drop] at hsize
            have hsum : n + (size - n) = size := by omega
            rw [List.drop_drop, hsum] at h3
            refine Or.inr ⟨by omega, ?_, h3⟩
            rw [hbytes, hmore', ← List.take_add, hsum]

/-- `recvall`. -/
theorem Reading.recvall {hooks : Hooks} (hooks_polite : Polite patterns hooks) {rest : Bytes}
    {size : Nat} {ret : Int} {bytes : Bytes}
    (hrecv : recvall hooks s size = .ok (ret, bytes, s')) (h : Reading patterns rest s) :
    Settled patterns s' ∨
      (size ≤ rest.length ∧ (0 < size → ret = size) ∧ bytes = rest.take size ∧
        Reading patterns (rest.drop size) s') := by
  unfold Socket.recvall at hrecv
  obtain ⟨⟨cb, bs, s1⟩, hloop, hrecv⟩ := bind_eq_ok.mp hrecv
  cases hrecv
  rcases h.recvLoop hooks_polite _ hloop (Nat.le_refl _) with hsettled | ⟨hsize, hbytes, h1⟩
  · exact Or.inl hsettled
  · refine Or.inr ⟨hsize, ?_, hbytes, h1⟩
    intro hpos
    have hlen : bytes.length = size := by
      rw [hbytes, List.length_take]
      omega
    have hne : bytes ≠ [] := List.ne_nil_of_length_pos (by omega)
    rw [if_pos hne, hlen]

/-! ### The exchanges -/

variable {hooks : Hooks} {conn conn' : ScAggregatorConnection Socket} {heap : Heap} {ret : Int}
  {cxt cxt' : ScFollowContext} {md5 : Md5} {inp : RunInput}

/-- The requests that the follower builds. -/
theorem takes_of_built {msg : ScLogMessage} {req : Req} (h : Built msg req) : Takes msg.frame := by
  have hsend := h.sendable
  constructor
  · rw [hsend.frame.content_eq]
    exact hsend.fits
  · rw [hsend.frame.code_eq, hsend.frame.channel_eq]
    -- None of the three codes is that of a SEEK request.
    have hcode : req.code ≠ SCM_MSG_SEEK := by cases req <;> simp only [Req.code] <;> decide
    unfold handlerFor
    repeat' split
    all_goals simp_all

/-- The send of a request. When it fails, the socket is closed. -/
theorem Settled.sendMessage (hooks_polite : Polite patterns hooks) {msg msg' : ScLogMessage}
    {req : Req} (h : Settled patterns conn.net) (hbuilt : Built msg req)
    (hsend : scAggregatorConnectionSendMessage (Socket.net cfg hooks) conn msg
      = .ok (ret, conn', msg')) :
    (ret ≠ 0 ∧ Settled patterns conn'.net) ∨
      (ret = 0 ∧ conn'.opened = true ∧ Awaits patterns conn'.net) := by
  have hsendable := hbuilt.sendable
  have hlen := hsendable.length_eq
  have hle := hsendable.length_le
  cases hopen : conn.opened with
  | false =>
    unfold scAggregatorConnectionSendMessage connSendall at hsend
    simp only [hopen, Bool.false_eq_true, if_false] at hsend
    cases hsend
    exact Or.inl ⟨by decide, h⟩
  | true =>
    rw [scAggregatorConnectionSendMessage_of_frame hopen (by omega) (by omega)] at hsend
    cases hcall : Socket.sendall cfg hooks conn.net msg.frame.bytes with
    | error t =>
      have herr : (Socket.net cfg hooks).sendall conn.net msg.frame.bytes = .error t := hcall
      rw [herr] at hsend
      cases hsend
    | ok out =>
      obtain ⟨n, s⟩ := out
      have hok : (Socket.net cfg hooks).sendall conn.net msg.frame.bytes = .ok (n, s) := hcall
      rw [hok] at hsend
      simp only [Except.map, Except.ok.injEq] at hsend
      -- `sendall` fails and nothing is awaited, or it returns a length and the response is.
      obtain ⟨hawaits, hfailed⟩ := h.sendall hooks_polite (takes_of_built hbuilt) hcall
      by_cases hn : n ≤ 0
      · rw [if_pos hn] at hsend
        cases hsend
        exact Or.inl ⟨by decide, hfailed hn⟩
      · rw [if_neg hn] at hsend
        cases hsend
        exact Or.inr ⟨rfl, rfl, hawaits⟩

/-- A receive that finds nothing on its way, or the rest of a response. -/
theorem Reading.connRecvall (hooks_polite : Polite patterns hooks) {rest bytes : Bytes}
    {size : Nat} (hopen : conn.opened = true) (h : Reading patterns rest conn.net)
    (hrecv : connRecvall (Socket.net cfg hooks) conn size = .ok (ret, bytes, conn')) :
    conn'.opened = true ∧ (Settled patterns conn'.net ∨
      (size ≤ rest.length ∧ (0 < size → ret = size) ∧ bytes = rest.take size ∧
        Reading patterns (rest.drop size) conn'.net)) := by
  unfold Follower.connRecvall at hrecv
  rw [if_pos hopen] at hrecv
  obtain ⟨⟨n, bs, s1⟩, hcall, hrecv⟩ := bind_eq_ok.mp hrecv
  cases hrecv
  exact ⟨hopen, h.recvall hooks_polite hcall⟩

/-- The second half of a receive. -/
theorem Reading.receiveContent (hooks_polite : Polite patterns hooks) {rest : Bytes}
    {m : ScLogMessage} {resp : Option ScLogMessage} (hopen : conn.opened = true)
    (h : Reading patterns rest conn.net)
    (hrest : rest = [] ∨ rest.length = m.contentLength.toInt.toNat)
    (hrecv : receiveContent (Socket.net cfg hooks) conn m = .ok (ret, resp, conn')) :
    Settled patterns conn'.net := by
  unfold Follower.receiveContent at hrecv
  split at hrecv
  · obtain ⟨⟨n, bytes, conn1⟩, hcall, hrecv⟩ := bind_eq_ok.mp hrecv
    obtain ⟨content, -, hrecv⟩ := bind_eq_ok.mp hrecv
    have hconn : conn'.net = conn1.net := by
      split at hrecv <;> cases hrecv <;> rfl
    rw [hconn]
    obtain ⟨-, hsettled | ⟨hsize, -, -, h1⟩⟩ := h.connRecvall hooks_polite hopen hcall
    · exact hsettled
    · -- Nothing is left of the response.
      have hnil : rest.drop m.contentLength.toInt.toNat = [] := by
        rcases hrest with hnil | hlen
        · rw [hnil, List.drop_nil]
        · rw [← hlen, List.drop_length]
      rw [hnil] at h1
      exact h1.settled
  · cases hrecv
    have hnil : rest = [] := by
      rcases hrest with hnil | hlen
      · exact hnil
      · apply List.eq_nil_of_length_eq_zero
        omega
    rw [hnil] at h
    exact h.settled

/-- The receive of a response, with the memory for it. -/
theorem Awaits.receiveMessage (hooks_polite : Polite patterns hooks)
    {resp : Option ScLogMessage} (hopen : conn.opened = true) (h : Awaits patterns conn.net)
    (hmem : ∀ n, heap.malloc n = true)
    (hrecv : scAggregatorConnectionReceiveMessage (Socket.net cfg hooks) heap conn
      = .ok (ret, resp, conn')) : Settled patterns conn'.net := by
  obtain ⟨sent, hunread, hanswer⟩ := h.answer
  have hreading : Reading patterns sent conn.net :=
    ⟨h.calm, h.contiguous, h.matched, h.arrived, hunread⟩
  unfold scAggregatorConnectionReceiveMessage at hrecv
  obtain ⟨⟨n, bytes, conn1⟩, hhead, hrecv⟩ := bind_eq_ok.mp hrecv
  simp only at hrecv
  obtain ⟨hopen1, hsettled | ⟨hsize, hret, hbytes, h1⟩⟩ :=
    hreading.connRecvall hooks_polite hopen hhead
  · -- The connection has ended, and whatever was read of the header, no more comes.
    split at hrecv
    · cases hrecv
      exact hsettled
    split at hrecv
    · cases hrecv
      exact hsettled
    · obtain ⟨m, -, hrecv⟩ := bind_eq_ok.mp hrecv
      cases m with
      | none =>
        cases hrecv
        exact hsettled
      | some m => exact hsettled.reading.receiveContent hooks_polite hopen1 (Or.inl rfl) hrecv
  · -- The header is there, so there is a response.
    obtain ⟨f, hf, hlen⟩ : ∃ f : Frame, sent = f.bytes ∧ 0 ≤ f.contentLength.toInt := by
      rcases hanswer with hnil | hf
      · rw [hnil] at hsize
        exact absurd hsize (by decide)
      · exact hf
    have hn : n = headerSize := hret (by decide)
    have hnet : bytes = ScLogMessage.netHeader f.code f.channel f.contentLength := by
      rw [hbytes, hf, Frame.bytes, List.take_left' (by simp)]
    have hrest : sent.drop headerSize = f.content := by
      rw [hf, Frame.bytes, List.drop_left' (by simp)]
    -- The length that is read is the one that was sent, in the byte order of the host.
    have hclen : htonl (stackHeader heap bytes).contentLength = f.contentLength := by
      rw [hnet]
      exact congrArg ScLogMessage.contentLength
        (stackHeader_netHeader heap f.code f.channel f.contentLength)
    rw [hrest] at h1
    rw [hn, if_neg (by decide), if_neg (by decide), hclen] at hrecv
    obtain ⟨m, hnew, hrecv⟩ := bind_eq_ok.mp hrecv
    have hcomplete := f.complete
    have hlt := BitVec.toInt_lt (x := f.contentLength)
    have hcast : f.contentLength.toInt = (f.content.length : Int) := by omega
    obtain ⟨m', hnew', -, hlength⟩ := scLogMessageNew_of_malloc heap f.content.length
      (by unfold headerSize PTRDIFF_MAX; omega) (hmem _)
    rw [hcast, hnew'] at hnew
    cases hnew
    refine h1.receiveContent hooks_polite hopen1 (Or.inr ?_) hrecv
    show f.content.length = m'.contentLength.toInt.toNat
    rw [hlength, toInt_ofNat_of_lt (by omega), Int.toNat_natCast]

/-- `_init_file`. -/
theorem Settled.initFile (hooks_polite : Polite patterns hooks) (h : Settled patterns conn.net)
    (hname : IsName cxt.displayName) (hmem : ∀ n, heap.malloc n = true)
    (hinit : initFile (Socket.net cfg hooks) md5 inp heap cxt conn = .ok (ret, cxt', conn')) :
    Settled patterns conn'.net := by
  rcases initFile_cases hinit with ⟨-, -, -, rfl⟩ | ⟨sent, conn1, msg, hsend, hcase⟩
  · exact h
  · rcases h.sendMessage hooks_polite hname.init_built hsend with
      ⟨hne, hsettled⟩ | ⟨hzero, hopen, hawaits⟩
    · rcases hcase with ⟨-, -, -, rfl⟩ | ⟨hsent, -⟩
      · exact hsettled
      · exact absurd hsent hne
    · rcases hcase with ⟨hne, -⟩ | ⟨-, hinit⟩
      · exact absurd hzero hne
      · obtain ⟨got, resp, hrecv, -⟩ := receiveInitResponse_cases hinit
        exact hawaits.receiveMessage hooks_polite hopen hmem hrecv

/-- `sc_follow_context_close`. -/
theorem Settled.close (hooks_polite : Polite patterns hooks) (h : Settled patterns conn.net)
    (hmem : ∀ n, heap.malloc n = true)
    (hclose : scFollowContextClose (Socket.net cfg hooks) heap cxt conn = .ok (ret, conn')) :
    Settled patterns conn'.net := by
  rcases scFollowContextClose_cases hclose with
    ⟨-, -, rfl⟩ | ⟨-, -, -, rfl⟩ | ⟨-, -, sent, conn1, msg, hsend, hcase⟩
  · exact h
  · exact h
  · rcases h.sendMessage hooks_polite (.rele cxt) hsend with
      ⟨hne, hsettled⟩ | ⟨hzero, hopen, hawaits⟩
    · rcases hcase with ⟨-, -, rfl⟩ | ⟨hsent, -⟩
      · exact hsettled
      · exact absurd hsent hne
    · rcases hcase with ⟨hne, -⟩ | ⟨-, got, resp, hrecv, -⟩
      · exact absurd hzero hne
      · exact hawaits.receiveMessage hooks_polite hopen hmem hrecv

/-- The exchange of a request in the message buffer. -/
theorem Settled.exchangeData (hooks_polite : Polite patterns hooks) {req : Req}
    (h : Settled patterns conn.net) (hbuilt : Built cxt.messageBuffer req)
    (hmem : ∀ n, (inp.heap 2).malloc n = true)
    (hrun : exchangeData (Socket.net cfg hooks) inp cxt conn = .ok (ret, cxt', conn')) :
    Settled patterns conn'.net := by
  obtain ⟨sent, conn1, msg, hsend, hcase⟩ := exchangeData_cases hrun
  rcases h.sendMessage hooks_polite hbuilt hsend with
    ⟨hne, hsettled⟩ | ⟨hzero, hopen, hawaits⟩
  · rcases hcase with ⟨-, -, -, rfl⟩ | ⟨hsent, -⟩
    · exact hsettled
    · exact absurd hsent hne
  · rcases hcase with ⟨hne, -⟩ | ⟨-, got, resp, hrecv, -⟩
    · exact absurd hzero hne
    · exact hawaits.receiveMessage hooks_polite hopen hmem hrecv

/-! ### The handler -/

/-- While the signal is blocked no hook does anything, so the hooks are polite. -/
theorem polite_blocked (patterns : List ScConfigPatternEntry) : Polite patterns blocked := by
  constructor
  · intro s s' h hs
    cases hs
    exact h
  · intro s s' h hs
    cases hs
    exact ⟨h, rfl⟩

/-- `do_rotate` with SIGALRM blocked, by induction on the patterns. -/
theorem Settled.doRotate {entries : List ScConfigPatternEntry} {clock : Clock}
    {heap : Nat → Heap} {contexts contexts' : List Listed}
    (hrun : doRotate (fun _ => Socket.net cfg blocked) clock heap entries contexts conn
      = .ok (contexts', conn'))
    (h : Settled patterns conn.net) (hmem : ∀ k n, (heap k).malloc n = true) :
    Settled patterns conn'.net := by
  induction entries generalizing contexts conn with
  | nil =>
    cases hrun
    exact h
  | cons pe rest ih =>
    obtain ⟨⟨contexts1, conn1⟩, hentry, hrun⟩ := bind_eq_ok.mp hrun
    refine ih hrun ?_
    obtain ⟨fn, dn, -, ⟨c, -, -, -, rfl⟩ | ⟨-, ⟨-, rfl⟩ | ⟨c, ret1, -, -, hclose⟩⟩⟩ :=
      rotateEntry_cases hentry
    · exact h
    · exact h
    · exact h.close (polite_blocked patterns) (hmem _) hclose

/-- A handler that runs between two exchanges. -/
theorem Settled.handlerAlarm {a : Alarm} (h : Settled patterns s) (hserved : Served a)
    (hrun : handlerAlarm cfg patterns s a = .ok s') : Settled patterns s' := by
  unfold Socket.handlerAlarm at hrun
  obtain ⟨⟨contexts, conn⟩, hrotate, hrun⟩ := bind_eq_ok.mp hrun
  cases hrun
  have hstart : Settled patterns (⟨!s.closed, s⟩ : ScAggregatorConnection Socket).net := h
  have hsettled := Settled.doRotate hrotate hstart hserved
  exact ⟨hsettled.calm, hsettled.contiguous, hsettled.matched, hsettled.arrived,
    hsettled.unread⟩

/-- A new context is not open, so it hides what was found before and is not released. -/
theorem releases_cons {clock : Clock} {contexts : List Listed} {c : Listed}
    {pe : ScConfigPatternEntry} (hc : c.cxt.fd < 0) (h : releases clock contexts pe = false) :
    releases clock (c :: contexts) pe = false := by
  unfold releases at h ⊢
  split
  · rename_i fn dn hnames
    rw [hnames] at h
    simp only at h
    rw [List.find?_cons]
    by_cases hfile : c.cxt.filename = some fn
    · simp only [hfile, decide_true]
      rw [decide_eq_false_iff_not]
      omega
    · simp only [hfile, decide_false]
      exact h
  · rfl

/-- A handler that finds nothing to release uses the connection for nothing. -/
theorem doRotate_of_harmless {entries : List ScConfigPatternEntry} {clock : Clock}
    {heap : Nat → Heap} {contexts contexts' : List Listed}
    (hrun : doRotate (fun _ => Socket.net cfg blocked) clock heap entries contexts conn
      = .ok (contexts', conn'))
    (h : ∀ pe ∈ entries, releases clock contexts pe = false) : conn' = conn := by
  induction entries generalizing contexts conn with
  | nil =>
    cases hrun
    rfl
  | cons pe rest ih =>
    obtain ⟨⟨contexts1, conn1⟩, hentry, hlater⟩ := bind_eq_ok.mp hrun
    have hfirst := h pe (List.mem_cons_self ..)
    have hrest : ∀ q ∈ rest, releases clock contexts q = false := fun q hq =>
      h q (List.mem_cons_of_mem _ hq)
    -- The new context of an entry is not open.
    have hadded : ∀ new : Listed, new.cxt.fd < 0 → ∀ q ∈ rest,
        releases clock (new :: contexts) q = false := fun new hnew q hq =>
      releases_cons hnew (hrest q hq)
    obtain ⟨fn, dn, hnames,
        ⟨c, -, -, rfl, rfl⟩ | ⟨rfl, ⟨-, rfl⟩ | ⟨c, ret1, hfind, hname, hclose⟩⟩⟩ :=
      rotateEntry_cases hentry
    · exact ih hlater hrest
    · exact ih hlater (hadded _ (Int.negSucc_lt_zero 0))
    · unfold releases at hfirst
      simp only [hnames, hfind] at hfirst
      have hfd : c.cxt.fd < 0 := by
        have hnot := of_decide_eq_false hfirst
        by_contra hge
        exact hnot ⟨hname, by omega⟩
      -- The close of a context that is not open sends nothing.
      have hsame : conn1 = conn := by
        rcases scFollowContextClose_cases hclose with
          ⟨-, -, hconn⟩ | ⟨-, -, -, hconn⟩ | ⟨-, hopen, -⟩
        · exact hconn
        · exact hconn
        · omega
      rw [hsame] at hlater
      exact ih hlater (hadded _ (Int.negSucc_lt_zero 0))

/-- A signal that finds nothing to release changes nothing. -/
theorem handlerAlarm_of_harmless {a : Alarm} (h : Harmless patterns a)
    (hrun : handlerAlarm cfg patterns s a = .ok s') : s' = s := by
  unfold Socket.handlerAlarm at hrun
  obtain ⟨⟨contexts, conn⟩, hrotate, hrun⟩ := bind_eq_ok.mp hrun
  have hsame := doRotate_of_harmless hrotate h
  subst hsame
  simp only [Bool.not_not] at hrun
  cases hrun
  rfl

/-- The signals of the main loop, when none of them disturbs an exchange. -/
theorem polite_interrupted (cfg : Config) (patterns : List ScConfigPatternEntry) :
    Polite patterns (interrupted cfg patterns) := by
  constructor
  · intro s s' h hs
    unfold interrupted at hs
    simp only at hs
    split at hs
    · cases hs
      exact ⟨⟨nofun, nofun⟩, h.contiguous, h.matched, h.arrived, h.unread⟩
    · rename_i x rest hnext
      have hx : Undisturbed patterns x := h.calm.next x (by rw [hnext]; exact List.mem_cons_self ..)
      have hrest : ∀ y ∈ rest, Undisturbed patterns y := fun y hy =>
        h.calm.next y (by rw [hnext]; exact List.mem_cons_of_mem _ hy)
      have hpopped : Settled patterns { s with signals := ⟨x.during, rest⟩ } :=
        ⟨⟨hx.during, hrest⟩, h.contiguous, h.matched, h.arrived, h.unread⟩
      exact run_invariant_of
        (fun s a s' hsettled hserved hstep => hsettled.handlerAlarm hserved hstep)
        hx.before hpopped hs
  · intro s s' h hs
    unfold interrupted at hs
    simp only at hs
    split at hs
    · cases hs
      exact ⟨h, rfl⟩
    · rename_i as rest hduring
      have has : ∀ a ∈ as, Harmless patterns a :=
        h.during as (by rw [hduring]; exact List.mem_cons_self ..)
      -- No signal changes anything, so neither do all of them.
      have hsame : s' = { s with signals := ⟨rest, s.signals.next⟩ } :=
        run_invariant_of (I := fun t => t = { s with signals := ⟨rest, s.signals.next⟩ })
          (fun t a t' ht ha hstep => (handlerAlarm_of_harmless ha hstep).trans ht) has rfl hs
      subst hsame
      refine ⟨⟨?_, h.next⟩, rfl⟩
      intro bs hbs
      exact h.during bs (by rw [hduring]; exact List.mem_cons_of_mem _ hbs)

/-! ### The main loop -/

/-- Opening the file leaves a socket on which everything is answered. -/
theorem Settled.ensureOpen {opened : Option Int} (hooks_polite : Polite patterns hooks)
    (h : Settled patterns conn.net) (hready : Ready cxt)
    (hmem : ∀ i n, (inp.heap i).malloc n = true)
    (hrun : ensureOpen (Socket.net cfg hooks) md5 inp cxt conn = .ok (opened, cxt', conn')) :
    Settled patterns conn'.net := by
  rcases ensureOpen_cases hrun with
    ⟨-, -, -, rfl⟩ | ⟨-, -, -, -, rfl⟩ | ⟨-, -, -, -, rfl⟩ | ⟨-, -, -, ret1, hinit⟩
  · exact h
  · exact h
  · exact h
  · exact h.initFile hooks_polite (by exact hready.isName) (hmem 0) hinit

/-- The preparation of a request ends with a request in the buffer, or with a return code. -/
theorem Settled.prepareData {prepared : Option Int} (hooks_polite : Polite patterns hooks)
    (h : Settled patterns conn.net) (hready : Ready cxt)
    (hmem : ∀ i n, (inp.heap i).malloc n = true)
    (hrun : prepareData (Socket.net cfg hooks) md5 inp cxt conn = .ok (prepared, cxt', conn')) :
    Settled patterns conn'.net ∧
      (prepared = none → ∃ req, Built cxt'.messageBuffer req) := by
  rcases prepareData_cases hrun with ⟨r, rfl, hopen⟩ | ⟨cxt1, conn1, hopen, hcase⟩
  · exact ⟨h.ensureOpen hooks_polite hready hmem hopen, nofun⟩
  · have h1 := h.ensureOpen hooks_polite hready hmem hopen
    have hready1 := hready.continues (ensureOpen_continues hready.valid hopen)
    rcases hcase with ⟨r, cb, rfl, -, rfl⟩ | ⟨cb, cxt2, cxt3, rfl, hfill, hchan, rfl⟩
    · exact ⟨h1, nofun⟩
    · have hready2 := hready1.continues (fillMessage_continues hready1.valid hfill)
      obtain ⟨got, line, complete, -, -, hline⟩ := fillMessage_took hready1.valid hfill
      obtain ⟨rfl, hstore, -⟩ := hline rfl
      rw [← ensureChannel_messageBuffer hchan] at hstore
      refine ⟨?_, fun _ => ⟨_, .data inp complete line _ _ cxt3 hready1.room hstore⟩⟩
      rcases ensureChannel_cases hchan with ⟨-, -, rfl⟩ | ⟨-, ret1, hinit⟩
      · exact h1
      · exact h1.initFile hooks_polite hready2.isName (hmem 1) hinit

/-- A run of a context that has no message from an earlier run. -/
theorem Settled.run (hooks_polite : Polite patterns hooks) (h : Settled patterns conn.net)
    (hready : Ready cxt) (hnone : cxt.messageBuffer.code = SCM_MSG_NONE)
    (hmem : ∀ i n, (inp.heap i).malloc n = true)
    (hrun : runFollowContext (Socket.net cfg hooks) md5 inp cxt conn = .ok (ret, cxt', conn')) :
    Settled patterns conn'.net := by
  rcases runFollowContext_cases hrun with
    ⟨-, -, -, rfl⟩ | ⟨-, -, hprep | ⟨cxt1, conn1, hprep, hex⟩⟩ | ⟨-, hpending, -⟩
  · exact h
  · exact (h.prepareData hooks_polite hready hmem hprep).1
  · obtain ⟨h1, hbuilt⟩ := h.prepareData hooks_polite hready hmem hprep
    obtain ⟨req, hreq⟩ := hbuilt rfl
    exact h1.exchangeData hooks_polite hreq (hmem 2) hex
  · exact absurd hnone hpending

/-- The invariant holds with any signals that disturb no exchange. -/
theorem Settled.prepared (h : Settled patterns conn.net) (turns : List Turn) (calls : List Call)
    {signals : List Interruption} (hsignals : ∀ x ∈ signals, Undisturbed patterns x) :
    Settled patterns (prepared turns calls signals conn) :=
  ⟨⟨nofun, hsignals⟩, h.contiguous, h.matched, h.arrived, h.unread⟩

/-- One event under the condition. -/
theorem Settled.step {addr : Option Bytes} {e : Event} (h : Settled patterns conn.net)
    (hquiet : Quiet patterns e) (hstep : step cfg md5 addr patterns conn e = .ok conn') :
    Settled patterns conn'.net := by
  cases e with
  | run cxt ready inp turns calls signals =>
    obtain ⟨hnone, hmem, hsignals⟩ := hquiet
    obtain ⟨⟨ret, cxt1, conn1⟩, hrun, hstep⟩ := bind_eq_ok.mp hstep
    cases hstep
    have hprepared :
        Settled patterns (⟨conn.opened, Interruption.prepared turns calls signals conn⟩ :
          ScAggregatorConnection Socket).net := h.prepared turns calls hsignals
    have hend := hprepared.run (polite_interrupted cfg patterns) ready hnone hmem hrun
    exact hend
  | alarm a turns calls =>
    obtain ⟨s, hrun, hstep⟩ := bind_eq_ok.mp hstep
    cases hstep
    exact (h.prepared turns calls (by simp)).handlerAlarm hquiet hrun
  | reopen connected =>
    cases hstep
    cases connected with
    | false => exact h
    | true => exact ⟨h.calm, contiguous_nil, nofun, rfl, rfl⟩

end

/-- In a run whose signals disturb no exchange, the stream consists of the frames one after the
other, and every response byte is read by the exchange that it answers, in every state that the
run reaches. -/
theorem interruption_safe {cfg : Config} {md5 : Md5} {addr : Option Bytes}
    {patterns : List ScConfigPatternEntry} {fs : Fs} {es : List Event}
    (hquiet : ∀ e ∈ es, Quiet patterns e) {conn : ScAggregatorConnection Socket}
    (hrun : es.foldlM (step cfg md5 addr patterns) (start addr fs) = .ok conn) :
    Contiguous conn.net.trace.requests conn.net.trace.wire ∧ Matched conn.net.trace := by
  have hstart : Settled patterns (start addr fs).net :=
    ⟨⟨nofun, nofun⟩, contiguous_nil, nofun, rfl, rfl⟩
  have hend : Settled patterns conn.net :=
    run_invariant_of (I := fun c => Settled patterns c.net)
      (fun c e c' hsettled hq hstep => hsettled.step hq hstep) hquiet hstart hrun
  exact ⟨hend.contiguous, hend.matched⟩

/-! ### Small runs -/

/-- One pattern: the file `f`, under a display name that rotates. -/
def onePattern : List ScConfigPatternEntry := [⟨[102], some [PERCENT], true, false⟩]

/-- The clock when the display name is this letter, twice. -/
def letterClock (letter : UInt8) (h : letter ≠ 0) : Clock where
  strftime := fun _ => some [letter, letter]
  strftime_fits := by
    intro fmt s hs
    cases hs
    refine ⟨?_, by simp [PATH_MAX]⟩
    intro hzero
    simp only [List.mem_cons, List.not_mem_nil, or_false, or_self] at hzero
    exact h hzero.symm

/-- The context of the file, under the name `aa`. -/
def oneContext : ScFollowContext := scFollowContextNew zeroHeap (some [102]) [97, 97] false BUFSIZE

/-- A signal that finds this name. The context has opened its file and is registered. -/
def oneAlarm (letter : UInt8) (h : letter ≠ 0) : Alarm :=
  ⟨letterClock letter h, fun _ => zeroHeap, [⟨0, { oneContext with fd := 3, channel := 1 }⟩]⟩

/-- The first run of the context. Its file has one line. -/
def oneRun (turns : List Turn) (signals : List Interruption) : Event :=
  .run oneContext (ready_new zeroHeap (some [102]) false ⟨by decide, by decide⟩)
    ⟨⟨3, 0x8000⟩, .chunk 100, 0, [97, LF], none, [], fun _ => zeroHeap⟩ turns [] signals

/-- The steps of the small runs. -/
def oneStep : ScAggregatorConnection Socket → Event → Except Trap (ScAggregatorConnection Socket) :=
  step (smallConfig []) zeroMd5 (some [97]) onePattern

/-- The exchanges on the stream and in the reads, in their order. -/
def mixture (conn : ScAggregatorConnection Socket) : List Nat × List (Nat × Nat) :=
  (conn.net.trace.wire.map Prod.fst, conn.net.trace.reads)

/-- The signal comes when ten bytes of the DATA frame were sent. -/
def betweenSends : Event :=
  oneRun [.upTo 100, .upTo 100, .upTo 100, .upTo 9]
    [⟨[], []⟩, ⟨[], [[oneAlarm 98 (by decide)]]⟩]

/-- The signal comes when the DATA frame was sent and its response was not received. -/
def beforeReceive : Event := oneRun [] [⟨[], []⟩, ⟨[], [[oneAlarm 98 (by decide)]]⟩]

/-- A signal that finds another display name mixes two exchanges. Between two `send` calls it
puts its frame into the middle of the other one. Before the first `recv` call it takes the
response to the DATA request for its own. -/
theorem interruption_mixes :
    (∃ conn, [betweenSends].foldlM oneStep (start (some [97]) Fs.empty) = .ok conn ∧
      ¬ Contiguous conn.net.trace.requests conn.net.trace.wire) ∧
    (∃ conn, [beforeReceive].foldlM oneStep (start (some [97]) Fs.empty) = .ok conn ∧
      ¬ Matched conn.net.trace) := by
  constructor
  · have hwire : ([betweenSends].foldlM oneStep (start (some [97]) Fs.empty)).map
        (fun conn => (mixture conn).1) =
          .ok (List.replicate 14 0 ++ List.replicate 10 1 ++ List.replicate 12 2
            ++ List.replicate 12 1) := rfl
    cases hrun : [betweenSends].foldlM oneStep (start (some [97]) Fs.empty) with
    | error t =>
      rw [hrun] at hwire
      cases hwire
    | ok conn =>
      rw [hrun] at hwire
      refine ⟨conn, rfl, ?_⟩
      -- The frame of the signal lies inside the other one, so the owners are not in order.
      intro hcontiguous
      have hsorted := hcontiguous.sorted
      have heq : conn.net.trace.wire.map Prod.fst = _ := Except.ok.inj hwire
      rw [heq] at hsorted
      exact absurd hsorted (by decide)
  · have hreads : ([beforeReceive].foldlM oneStep (start (some [97]) Fs.empty)).map
        (fun conn => (mixture conn).2) =
          .ok (List.replicate 16 (0, 0) ++ List.replicate 12 (2, 1)
            ++ List.replicate 12 (1, 2)) := rfl
    cases hrun : [beforeReceive].foldlM oneStep (start (some [97]) Fs.empty) with
    | error t =>
      rw [hrun] at hreads
      cases hreads
    | ok conn =>
      rw [hrun] at hreads
      refine ⟨conn, rfl, ?_⟩
      -- The handler of the signal has read the response of the main program.
      intro hmatched
      have heq : conn.net.trace.reads = _ := Except.ok.inj hreads
      have hall : ∀ r ∈ conn.net.trace.reads, r.1 = r.2 := hmatched
      rw [heq] at hall
      exact absurd hall (by decide)

/-- A signal inside the INIT exchange finds the same display name, and one after the run finds
another and releases the channel. -/
theorem interruption_safe_small :
    ∃ conn, [oneRun [.upTo 4] [⟨[], [[oneAlarm 97 (by decide)]]⟩],
        .alarm (oneAlarm 98 (by decide)) [] []].foldlM oneStep
          (start (some [97]) Fs.empty) = .ok conn ∧
      mixture conn = (List.replicate 14 0 ++ List.replicate 22 1 ++ List.replicate 12 2,
        List.replicate 16 (0, 0) ++ List.replicate 12 (1, 1) ++ List.replicate 12 (2, 2)) ∧
      Contiguous conn.net.trace.requests conn.net.trace.wire ∧ Matched conn.net.trace := by
  have hmixture : ([oneRun [.upTo 4] [⟨[], [[oneAlarm 97 (by decide)]]⟩],
      .alarm (oneAlarm 98 (by decide)) [] []].foldlM oneStep
        (start (some [97]) Fs.empty)).map mixture =
      .ok (List.replicate 14 0 ++ List.replicate 22 1 ++ List.replicate 12 2,
        List.replicate 16 (0, 0) ++ List.replicate 12 (1, 1) ++ List.replicate 12 (2, 2)) :=
    rfl
  cases hrun : [oneRun [.upTo 4] [⟨[], [[oneAlarm 97 (by decide)]]⟩],
      .alarm (oneAlarm 98 (by decide)) [] []].foldlM oneStep (start (some [97]) Fs.empty) with
  | error t =>
    rw [hrun] at hmixture
    cases hmixture
  | ok conn =>
    rw [hrun] at hmixture
    -- The handlers of the signals find nothing to release.
    have hquiet : ∀ e ∈ [oneRun [.upTo 4] [⟨[], [[oneAlarm 97 (by decide)]]⟩],
        .alarm (oneAlarm 98 (by decide)) [] []], Quiet onePattern e := by
      intro e he
      rcases List.mem_pair.mp he with rfl | rfl
      · refine ⟨rfl, fun _ _ => rfl, ?_⟩
        intro x hx
        cases List.mem_singleton.mp hx
        refine ⟨by simp, ?_⟩
        intro as has a ha
        cases List.mem_singleton.mp has
        cases List.mem_singleton.mp ha
        intro pe hpe
        cases List.mem_singleton.mp hpe
        decide
      · exact fun _ _ => rfl
    obtain ⟨hcontiguous, hmatched⟩ := interruption_safe hquiet hrun
    exact ⟨conn, rfl, Except.ok.inj hmixture, hcontiguous, hmatched⟩

end Compostela.Proofs.Interruption
