import Compostela.Follower.Client
import Compostela.Follower.Rotate
import Compostela.System.Pass

/-!
# `Compostela.System.MainLoop`: the follower with all of its contexts

`MainLoop` is the context list of the follower and its one connection, with the aggregator
behind it. An event is a call of `do_rotate`, a pass of the main loop, or the loss of the
connection. A tick of the clock interrupts no pass here.

The history of the link tells the contexts apart: each frame has the sender of its context.
What happens over a connection that is down is treated here, and it changes nothing at the
aggregator.
-/

set_option autoImplicit false

namespace Compostela.System

open Compostela.Common
open Compostela.Memory
open Compostela.Segments
open Compostela.Aggregator
open Compostela.Follower
open Link

/-- A context of the list as the sender of its frames. -/
def senderOf (c : Listed) : Sender := ⟨c.serial, c.cxt.filename, c.cxt.displayName⟩

/-- The calls of a context of the list. -/
def listedNet (cfg : Config) (c : Listed) : Net Link := Link.net cfg (senderOf c)

/-- The follower: its contexts and its connection. -/
structure MainLoop where
  contexts : List Listed
  conn : ScAggregatorConnection Link

/-- What can happen. The fates are those of the frames of the event, `inputs` is what the run
of each context finds, by serial number, and `reconnected` says whether
`sc_aggregator_connection_open` succeeds if it is called. -/
inductive MainLoop.Event
  | tick (clock : Clock) (heap : Nat → Heap) (fates : List Fate)
  | pass (inputs : Nat → RunInput) (fates : List Fate) (reconnected : Bool)
  | drop (ending : Ending)

/-- The connection with the fates of the frames to come. -/
def withFates (fates : List Fate) (conn : ScAggregatorConnection Link) :
    ScAggregatorConnection Link :=
  { conn with net := { conn.net with fates := fates } }

/-- One event. -/
def MainLoop.step (cfg : Config) (md5 : Md5) (addr : Option Bytes)
    (patterns : List ScConfigPatternEntry) (s : MainLoop) : Event → Except Trap MainLoop
  | .tick clock heap fates => do
      let (contexts, conn) ←
        doRotate (listedNet cfg) clock heap patterns s.contexts (withFates fates s.conn)
      .ok ⟨contexts, conn⟩
  | .pass inputs fates reconnected => do
      let (contexts, conn) ← mainPass (listedNet cfg) md5 inputs
        (if reconnected then some (Link.reconnect addr) else none) s.contexts
        (withFates fates s.conn)
      .ok ⟨contexts, conn⟩
  | .drop ending => .ok { s with conn := { s.conn with net := s.conn.net.cut ending } }

/-- The follower before the first call of `do_rotate`. -/
def MainLoop.start (fs : Fs) (addr : Option Bytes) (opened : Bool) : MainLoop :=
  ⟨[], ⟨opened, ⟨fs, ⟨addr, []⟩, true, [], .eof, [], []⟩⟩⟩

/-! ### A connection that is down -/

section
variable {cfg : Config} {sender : Sender} {md5 : Md5} {inp : RunInput} {heap : Heap}
  {cxt cxt' : ScFollowContext} {conn conn' : ScAggregatorConnection Link}

/-- A connection that is down does not come up by the fates of later frames. -/
theorem Down.withFates (h : Down conn) (fates : List Fate) : Down (withFates fates conn) :=
  fun hopen => ⟨(h hopen).alive, (h hopen).unread⟩

/-- Opening a file over a connection that is down leaves it down, and nobody hears of it. -/
theorem Down.ensureOpen {ret : Option Int} (h : Down conn)
    (hopen : ensureOpen (Link.net cfg sender) md5 inp cxt conn = .ok (ret, cxt', conn')) :
    Down conn' ∧ Unheard conn.net conn'.net := by
  rcases ensureOpen_cases hopen with
    ⟨-, -, -, rfl⟩ | ⟨-, -, -, -, rfl⟩ | ⟨-, -, -, -, rfl⟩ | ⟨-, -, -, ret1, hinit⟩
  · exact ⟨h, .refl _⟩
  · exact ⟨h, .refl _⟩
  · exact ⟨h, .refl _⟩
  · exact (h.initFile hinit).2

/-- The part of a run before the DATA exchange leaves a connection down that is down. -/
theorem Down.prepareData {ret : Option Int} (h : Down conn)
    (hprep : prepareData (Link.net cfg sender) md5 inp cxt conn = .ok (ret, cxt', conn')) :
    Down conn' ∧ Unheard conn.net conn'.net := by
  rcases prepareData_cases hprep with ⟨r, -, hopen⟩ | ⟨cxt1, conn1, hopen, hcase⟩
  · exact h.ensureOpen hopen
  · obtain ⟨hdown, hsame⟩ := h.ensureOpen hopen
    rcases hcase with ⟨r, cb, -, -, rfl⟩ | ⟨cb, cxt2, cxt3, -, -, hchan, -⟩
    · exact ⟨hdown, hsame⟩
    · obtain ⟨-, hdown3, hsame3⟩ := hdown.ensureChannel hchan
      exact ⟨hdown3, hsame.trans hsame3⟩

/-- A run over a connection that is down. -/
theorem Down.run {ret : Int} (h : Down conn)
    (hrun : runFollowContext (Link.net cfg sender) md5 inp cxt conn = .ok (ret, cxt', conn')) :
    Down conn' ∧ Unheard conn.net conn'.net := by
  rcases runFollowContext_cases hrun with
    ⟨-, -, -, rfl⟩ | ⟨-, -, hprep | ⟨cxt1, conn1, hprep, hex⟩⟩ | ⟨-, -, hex⟩
  · exact ⟨h, .refl _⟩
  · exact h.prepareData hprep
  · obtain ⟨hdown, hsame⟩ := h.prepareData hprep
    obtain ⟨-, hdown', hsame'⟩ := hdown.exchangeData hex
    exact ⟨hdown', hsame.trans hsame'⟩
  · exact (h.exchangeData hex).2

/-- A close over a connection that is down. -/
theorem Down.close {ret : Int} (h : Down conn)
    (hclose : scFollowContextClose (Link.net cfg sender) heap cxt conn = .ok (ret, conn')) :
    Down conn' ∧ Unheard conn.net conn'.net := by
  rcases scFollowContextClose_cases hclose with
    ⟨-, -, rfl⟩ | ⟨-, -, -, rfl⟩ | ⟨-, -, sent, conn1, msg, hsend, hcase⟩
  · exact ⟨h, .refl _⟩
  · exact ⟨h, .refl _⟩
  · obtain ⟨hdown, hsame⟩ := h.sendMessage hsend
    rcases hcase with ⟨-, -, rfl⟩ | ⟨-, got, resp, hrecv, -⟩
    · exact ⟨hdown, hsame⟩
    · obtain ⟨-, hdown', hsame'⟩ := hdown.receiveMessage hrecv
      exact ⟨hdown', hsame.trans hsame'⟩

end

end Compostela.System
