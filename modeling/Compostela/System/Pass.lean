import Compostela.Follower.Client
import Compostela.System.Link

/-!
# `Compostela.System.Pass`: the main loop of a follower with one context

One pass of the main loop calls `_run_follow_context`. After `ERR_MUST_RECONNECT` it resets
the context and opens the connection, which can fail. After -1 it deletes the context and
goes on to the next element through the node that it freed.

`Pipeline` is the followed file, the context and the connection with the aggregator behind it.
Between the passes the file can grow and the connection can be lost. `Down` connections are
treated here: a pass over one changes nothing at the aggregator.
-/

set_option autoImplicit false

namespace Compostela.System

open Compostela.Common
open Compostela.Memory
open Compostela.Segments
open Compostela.Aggregator
open Compostela.Follower

/-- A followed file, its context and the connection. -/
structure Pipeline where
  file : Bytes
  cxt : ScFollowContext
  conn : ScAggregatorConnection Link

/-- What can happen. The fates of a pass are those of the frames that it sends, and
`reconnected` says whether `sc_aggregator_connection_open` succeeds if it is called. -/
inductive Pipeline.Event
  | grow (bytes : Bytes)
  | drop (ending : Ending)
  | pass (inp : RunInput) (fates : List Fate) (reconnected : Bool)

/-- One event. A file never has `2 ^ 63` bytes or more. -/
def Pipeline.step (cfg : Config) (md5 : Md5) (addr : Option Bytes) (s : Pipeline) :
    Pipeline.Event → Except Trap Pipeline
  | .grow bytes =>
      .ok (if (s.file ++ bytes).length < 2 ^ 63 then { s with file := s.file ++ bytes } else s)
  | .drop ending => .ok { s with conn := { s.conn with net := s.conn.net.cut ending } }
  | .pass inp fates reconnected => do
      let (ret, cxt, conn) ← runFollowContext (Link.net cfg ⟨0, s.cxt.filename, s.cxt.displayName⟩)
        md5 { inp with file := s.file } s.cxt
        { s.conn with net := { s.conn.net with fates := fates } }
      if ret = ERR_MUST_RECONNECT then
        .ok
          { s with
            cxt := scFollowContextReset cxt
            conn := (scAggregatorConnectionOpen
              (if reconnected then some (Link.reconnect addr) else none) conn).2 }
      else if ret = -1 then .error .useAfterFree
      else .ok { s with cxt := cxt, conn := conn }

/-! ### A pass on a connection that is down -/

section
variable {cfg : Config} {sender : Sender} {md5 : Md5} {inp : RunInput} {heap : Heap}
    {cxt cxt' : ScFollowContext}
  {conn conn' : ScAggregatorConnection Link}

/-- No response, no registration. -/
theorem Down.receiveInitResponse {ret : Int} (h : Down conn)
    (hinit : receiveInitResponse (Link.net cfg sender) md5 inp heap cxt conn =
      .ok (ret, cxt', conn')) :
    cxt' = cxt ∧ Down conn' ∧ Link.Unheard conn.net conn'.net := by
  obtain ⟨got, resp, hrecv, hcase⟩ := receiveInitResponse_cases hinit
  obtain ⟨hne, hdown, hsame⟩ := h.receiveMessage hrecv
  rcases hcase with ⟨-, -, rfl⟩ | ⟨m, hzero, -, -⟩
  · exact ⟨rfl, hdown, hsame⟩
  · exact absurd hzero hne

/-- `_init_file` over a connection that is down changes neither the context nor the aggregator. -/
theorem Down.initFile {ret : Int} (h : Down conn)
    (hinit : initFile (Link.net cfg sender) md5 inp heap cxt conn = .ok (ret, cxt', conn')) :
    cxt' = cxt ∧ Down conn' ∧ Link.Unheard conn.net conn'.net := by
  rcases initFile_cases hinit with ⟨-, -, rfl, rfl⟩ | ⟨sent, conn1, msg, hsend, hcase⟩
  · exact ⟨rfl, h, .refl _⟩
  · obtain ⟨hdown, hsame⟩ := h.sendMessage hsend
    rcases hcase with ⟨-, -, rfl, rfl⟩ | ⟨-, hrecv⟩
    · exact ⟨rfl, hdown, hsame⟩
    · obtain ⟨hcxt, hdown2, hsame2⟩ := hdown.receiveInitResponse hrecv
      exact ⟨hcxt, hdown2, hsame.trans hsame2⟩

/-- Asking for a channel over a connection that is down changes neither the context nor the
aggregator. -/
theorem Down.ensureChannel (h : Down conn)
    (hchan : ensureChannel (Link.net cfg sender) md5 inp cxt conn = .ok (cxt', conn')) :
    cxt' = cxt ∧ Down conn' ∧ Link.Unheard conn.net conn'.net := by
  rcases ensureChannel_cases hchan with ⟨-, rfl, rfl⟩ | ⟨-, ret, hinit⟩
  · exact ⟨rfl, h, .refl _⟩
  · exact h.initFile hinit

/-- The DATA exchange over a connection that is down asks for a reconnection. -/
theorem Down.exchangeData {ret : Int} (h : Down conn)
    (hex : exchangeData (Link.net cfg sender) inp cxt conn = .ok (ret, cxt', conn')) :
    ret = ERR_MUST_RECONNECT ∧ Down conn' ∧ Link.Unheard conn.net conn'.net := by
  obtain ⟨sent, conn1, msg, hsend, hcase⟩ := exchangeData_cases hex
  obtain ⟨hdown, hsame⟩ := h.sendMessage hsend
  rcases hcase with ⟨-, hret, -, rfl⟩ | ⟨-, got, resp, hrecv, hcase⟩
  · exact ⟨hret, hdown, hsame⟩
  · obtain ⟨hne, hdown1, hsame1⟩ := hdown.receiveMessage hrecv
    rcases hcase with ⟨-, hret, -⟩ | ⟨m, hzero, -⟩
    · exact ⟨hret, hdown1, hsame.trans hsame1⟩
    · exact absurd hzero hne

end

end Compostela.System
