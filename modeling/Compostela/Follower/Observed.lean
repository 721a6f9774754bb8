import Compostela.Follower.Client

/-!
# `Compostela.Follower.Observed`: what a run of a context shows to the outside

`Client.observed` lists what an act of the follower shows of a context: a new connection, an
INIT request that succeeded with its channel and position, the file that the line read finds,
and the DATA frame that goes to `sendall`. It makes the calls of `runFollowContext` in their
order and looks at their results. `sentFrames_observed` connects it with `Client.transmission`.

In an act, the main loop resets the contexts before it opens the connection again. The other
contexts of the list use the same connection, and a failed send of theirs closes it.
-/

set_option autoImplicit false

namespace Compostela.Follower

open Compostela.Common
open Compostela.Memory

/-- What is seen of a context. -/
inductive Observed
  | connected
  | registered (channel position : Int)
  | reads (file : Bytes)
  | sent (frame : Bytes)
  deriving DecidableEq, Repr

/-- What happens to a context and its connection. -/
inductive Act (σ : Type)
  | run (inp : RunInput)
  | reconnect (connected : Option (σ → σ))
  | others (change : σ → σ) (closes : Bool)

section
variable {σ : Type} (net : Net σ) (md5 : Md5)

/-- One act. -/
def Client.act (c : Client σ) : Act σ → Except Trap (Client σ)
  | .run inp => c.step net md5 (.run inp)
  | .reconnect connected => do
      let c ← c.step net md5 .reset
      c.step net md5 (.connect connected)
  | .others change closes =>
      .ok { c with conn := ⟨c.conn.opened && !closes, change c.conn.net⟩ }

/-- An INIT request that succeeds. -/
def initObserved (inp : RunInput) (heap : Heap) (cxt : ScFollowContext)
    (conn : ScAggregatorConnection σ) : List Observed :=
  match initFile net md5 inp heap cxt conn with
  | .ok (0, cxt, _) => [.registered cxt.channel cxt.position]
  | _ => []

/-- The INIT request after the file was opened. -/
def openObserved (inp : RunInput) (cxt : ScFollowContext) (conn : ScAggregatorConnection σ) :
    List Observed :=
  if cxt.fd ≤ 0 ∧ (scFollowContextOpenFile inp.opened cxt).1 = 0 then
    initObserved net md5 inp (inp.heap 0) (scFollowContextOpenFile inp.opened cxt).2 conn
  else []

/-- The INIT request for a channel number that is still zero. -/
def channelObserved (inp : RunInput) (cxt : ScFollowContext) (conn : ScAggregatorConnection σ) :
    List Observed :=
  if cxt.channel = 0 then initObserved net md5 inp (inp.heap 1) cxt conn else []

/-- The DATA frame. -/
def sendObserved (cxt : ScFollowContext) (conn : ScAggregatorConnection σ) : List Observed :=
  if conn.opened = true then
    match requestBytes cxt.messageBuffer with
    | .ok frame => [.sent frame]
    | .error _ => []
  else []

/-- What is seen from the line read of a run on. -/
def readObserved (inp : RunInput) (cxt : ScFollowContext) (conn : ScAggregatorConnection σ) :
    List Observed :=
  .reads inp.file ::
    match fillMessage inp cxt with
    | .ok (none, cb, cxt) =>
        channelObserved net md5 inp cxt conn ++
          match ensureChannel net md5 inp cxt conn with
          | .ok (cxt, conn) => sendObserved (dataHeader cb cxt) conn
          | .error _ => []
    | _ => []

/-- What is seen of a run. -/
def runObserved (inp : RunInput) (cxt : ScFollowContext) (conn : ScAggregatorConnection σ) :
    List Observed :=
  if conn.opened = false then []
  else if cxt.messageBuffer.code = SCM_MSG_NONE then
    openObserved net md5 inp cxt conn ++
      match ensureOpen net md5 inp cxt conn with
      | .ok (none, cxt, conn) => readObserved net md5 inp cxt conn
      | _ => []
  else sendObserved cxt conn

/-- What is seen of an act. -/
def Client.observed (c : Client σ) : Act σ → List Observed
  | .run inp => runObserved net md5 inp c.cxt c.conn
  | .reconnect connected => if connected.isSome then [.connected] else []
  | .others .. => []

/-- What is seen of a run of acts, up to the first act that traps. -/
def observations : Client σ → List (Act σ) → List Observed
  | _, [] => []
  | c, a :: acts =>
      c.observed net md5 a ++
        match c.act net md5 a with
        | .ok c' => observations c' acts
        | .error _ => []

end

/-- The frames among what was seen. -/
def sentFrames (trace : List Observed) : List Bytes :=
  trace.filterMap fun x => match x with
    | .sent frame => some frame
    | _ => none

section
variable {σ : Type} {net : Net σ} {md5 : Md5}

/-- `_init_file` shows no DATA frame. -/
theorem sentFrames_initObserved (inp : RunInput) (heap : Heap) (cxt : ScFollowContext)
    (conn : ScAggregatorConnection σ) :
    sentFrames (initObserved net md5 inp heap cxt conn) = [] := by
  unfold initObserved
  split <;> rfl

/-- The DATA exchange shows the request that it sends, if it sends one. -/
theorem sentFrames_sendObserved (resend : Bool) (cxt : ScFollowContext)
    (conn : ScAggregatorConnection σ) :
    sentFrames (sendObserved cxt conn) =
      (dataRequest resend cxt conn).toList.filterMap (·.request.toOption) := by
  unfold sendObserved dataRequest
  cases conn.opened with
  | false => rfl
  | true =>
    rw [if_pos rfl, if_pos rfl]
    cases hreq : requestBytes cxt.messageBuffer with
    | error t => simp [sentFrames, Except.toOption]
    | ok frame => simp [sentFrames, Except.toOption]

/-- The DATA frames of two parts are one behind the other. -/
theorem sentFrames_append (trace trace' : List Observed) :
    sentFrames (trace ++ trace') = sentFrames trace ++ sentFrames trace' := List.filterMap_append

/-- Opening the file shows no DATA frame. -/
theorem sentFrames_openObserved (inp : RunInput) (cxt : ScFollowContext)
    (conn : ScAggregatorConnection σ) : sentFrames (openObserved net md5 inp cxt conn) = [] := by
  unfold openObserved
  split
  · exact sentFrames_initObserved ..
  · rfl

/-- Asking for a channel shows no DATA frame. -/
theorem sentFrames_channelObserved (inp : RunInput) (cxt : ScFollowContext)
    (conn : ScAggregatorConnection σ) : sentFrames (channelObserved net md5 inp cxt conn) = [] := by
  unfold channelObserved
  split
  · exact sentFrames_initObserved ..
  · rfl

/-- The frames that are seen of a run are its DATA requests. -/
theorem sentFrames_observed (c : Client σ) (inp : RunInput) :
    sentFrames (c.observed net md5 (.run inp)) =
      (c.transmission net md5 inp).toList.filterMap (·.request.toOption) := by
  show sentFrames (runObserved net md5 inp c.cxt c.conn) = _
  unfold runObserved Client.transmission
  split
  · rfl
  split
  · rw [sentFrames_append, sentFrames_openObserved, List.nil_append]
    unfold prepareData
    -- The calls before the exchange, one after the other.
    cases hopen : ensureOpen net md5 inp c.cxt c.conn with
    | error t => rfl
    | ok r =>
      obtain ⟨_ | ret, cxt1, conn1⟩ := r
      · rw [ok_bind]
        simp only
        unfold readObserved
        cases hfill : fillMessage inp cxt1 with
        | error t => rfl
        | ok r =>
          obtain ⟨_ | ret, cb, cxt2⟩ := r
          · rw [ok_bind]
            simp only
            cases hchan : ensureChannel net md5 inp cxt2 conn1 with
            | error t =>
              show sentFrames (channelObserved net md5 inp cxt2 conn1 ++ []) = _
              rw [List.append_nil]
              exact sentFrames_channelObserved ..
            | ok r =>
              show sentFrames (channelObserved net md5 inp cxt2 conn1 ++ _) = _
              rw [sentFrames_append, sentFrames_channelObserved, List.nil_append]
              exact sentFrames_sendObserved false _ _
          · rfl
      · rfl
  · exact sentFrames_sendObserved true _ _

end

end Compostela.Follower
