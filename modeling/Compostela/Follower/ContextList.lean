import Compostela.Follower.Controller
import Compostela.Lib.Runs

/-!
# `Compostela.Follower.ContextList`: every operation on `g_context_list`

The list changes in three places of `follower/main.c`: `do_rotate` and the `OPEN` command add
contexts, and the main loop deletes a context whose run returned -1. `ContextList` is the list
with the connection, over any `Net`, and an event is one of these operations or the reset of
all contexts.

The main loop goes on through the node that it has freed, so which context comes next is not
determined. Here any context of the list can be the next one. An event of the network can
change the other end at any time.
-/

set_option autoImplicit false

namespace Compostela.Follower

open Compostela.Common
open Compostela.Memory

/-- `g_context_list` and the connection. -/
structure ContextList (σ : Type) where
  contexts : List Listed
  conn : ScAggregatorConnection σ

/-- The deletion of the context at a place of the list. Its address is told apart from the
others by its place. -/
def deleteContext (contexts : List Listed) (place : Nat) : Except Trap (List Listed) := do
  let li ← azListDelete (fun p => decide (p.2 = place)) contexts.zipIdx
  .ok (li.map Prod.fst)

/-- What can happen. `control` is a connection on the control socket with the data that is
received from it. `run` is the body of the main loop for the context at a place. -/
inductive ContextList.Event (σ : Type)
  | tick (clock : Clock) (heap : Nat → Heap)
  | control (heap : Heap) (heaps : Nat → Heap) (data : Bytes)
  | run (place : Nat) (inp : RunInput)
  | reconnect (connected : Option (σ → σ))
  | network (change : σ → σ)

section
variable {σ : Type} (net : Listed → Net σ)

/-- One event. -/
def ContextList.step (md5 : Md5) (patterns : List ScConfigPatternEntry) (s : ContextList σ) :
    Event σ → Except Trap (ContextList σ)
  | .tick clock heap => do
      let (contexts, conn) ← doRotate net clock heap patterns s.contexts s.conn
      .ok ⟨contexts, conn⟩
  | .control heap heaps data => do
      let contexts ← doReceiveData0 heap heaps data s.contexts
      .ok { s with contexts := contexts }
  | .run place inp =>
      match s.contexts[place]? with
      | none => .ok s
      | some c => do
          let (ret, cxt, conn) ← runFollowContext (net c) md5 inp c.cxt s.conn
          if ret = -1 then do
            let contexts ← deleteContext s.contexts place
            .ok ⟨contexts, conn⟩
          else .ok ⟨s.contexts.set place { c with cxt := cxt }, conn⟩
  | .reconnect connected =>
      .ok ⟨resetContexts s.contexts, (scAggregatorConnectionOpen connected s.conn).2⟩
  | .network change => .ok { s with conn := { s.conn with net := change s.conn.net } }

end

/-- A deletion leaves the other contexts in their order. -/
theorem deleteContext_eq_ok {contexts contexts' : List Listed} {place : Nat}
    (h : deleteContext contexts place = .ok contexts') : contexts'.Sublist contexts := by
  obtain ⟨li, hdelete, h⟩ := bind_eq_ok.mp h
  cases h
  obtain ⟨-, rfl⟩ := azListDelete_eq_ok.mp hdelete
  have hsub := (List.eraseP_sublist (p := fun q : Listed × Nat => decide (q.2 = place))
    (l := contexts.zipIdx)).map Prod.fst
  rwa [List.zipIdx_map_fst] at hsub

end Compostela.Follower
