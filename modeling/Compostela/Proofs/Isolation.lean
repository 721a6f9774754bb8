import Compostela.Aggregator.Locality
import Compostela.Lib.Unwinding

/-!
# `Compostela.Proofs.Isolation`: a client gets what it would get alone

The aggregator serves all connections in one loop over shared files. `Clients` is this system:
sockets are accepted, and the requests of the connections arrive in any order. For one socket
the territory is a set of paths with the separate files of its channels in it. While no other
connection has a separate or merged file there, the socket gets the responses that it would
get if the other requests had never come, its channels and their buffers are the same, and so
is every file of the territory. `isolated` is the theorem, by the unwinding conditions of
`Lib/Unwinding`.

An INIT request is answered with the size of the separate file, so the condition on the other
connections is a real one: two clients for the same separate file see each other.
-/

set_option autoImplicit false

namespace Compostela.Proofs.Isolation

open Compostela.Common
open Compostela.Memory
open Compostela.Runs
open Compostela.Unwinding
open Compostela.Aggregator

/-- The connections of the aggregator, with all that was sent on each socket. -/
structure Clients where
  sessions : Sessions
  sent : Nat → Bytes

/-- What can happen: a connection is accepted on a socket, or a request arrives. -/
inductive Clients.Event
  | accept (socket : Nat)
  | request (a : Arrived)

/-- The socket of an event. -/
def Clients.Event.socket : Clients.Event → Nat
  | .accept socket => socket
  | .request a => a.socket

/-- One event. `addr` is the name of the host behind a socket. -/
def Clients.step (cfg : Config) (addr : Nat → Option Bytes) (s : Clients) :
    Clients.Event → Except Trap Clients
  | .accept socket =>
      .ok { s with sessions := { s.sessions with
        conn := fun i => if i = socket then ⟨addr socket, []⟩ else s.sessions.conn i } }
  | .request a => do
      let r ← handle cfg a.request.heap a.request.chunks a.request.msg (s.sessions.conn a.socket)
        s.sessions.fs
      .ok ⟨⟨fun i => if i = a.socket then r.conn else s.sessions.conn i, r.fs⟩,
        fun i => if i = a.socket then s.sent i ++ r.sent else s.sent i⟩

/-- No channel yet. -/
def Clients.start (addr : Nat → Option Bytes) (fs : Fs) : Clients :=
  ⟨⟨fun i => ⟨addr i, []⟩, fs⟩, fun _ => []⟩

/-- An INIT request of the socket `k` asks for a separate file of the territory, and one of
another socket for files outside. -/
def Respects (cfg : Config) (addr : Nat → Option Bytes) (k : Nat) (T : Bytes → Prop) :
    Clients.Event → Prop
  | .accept _ => True
  | .request a =>
      handlerFor a.request.msg.code a.request.msg.channel = some .init →
      ∀ c, scChannelNew cfg a.request.heap ⟨addr a.socket, []⟩ (nameOf a.request.msg) = .ok c →
        if a.socket = k then T c.filenameFullpath
        else ¬ T c.filenameFullpath ∧ ¬ T (mergedPath cfg c)

/-! ### The relation -/

/-- The whole run on the left, and the run of the socket `k` alone on the right: the socket
cannot tell them apart. Of the whole run it is kept that the channels have their files on the
right side of the border. -/
structure Sees (cfg : Config) (addr : Nat → Option Bytes) (k : Nat) (T : Bytes → Prop)
    (s t : Clients) : Prop where
  conn : s.sessions.conn k = t.sessions.conn k
  sent : s.sent k = t.sent k
  twin : Fs.Twin T s.sessions.fs t.sessions.fs
  results : s.sessions.fs.results = []
  addr_eq : ∀ i, (s.sessions.conn i).remoteAddr = addr i
  wf : ∀ i, (s.sessions.conn i).WellFormed
  apart : ∀ i, i ≠ k → ∀ c ∈ (s.sessions.conn i).channelList,
    ¬ T c.filenameFullpath ∧ ¬ T (mergedPath cfg c)

section
variable {cfg : Config} {addr : Nat → Option Bytes} {k : Nat} {T : Bytes → Prop}
  {s t s' : Clients}

/-- A new connection, in both runs when it is on the socket `k`. -/
theorem Sees.accept (h : Sees cfg addr k T s t) (socket : Nat) {conn' : Nat → ScConnection}
    (hconn' : (if k = socket then ⟨addr socket, []⟩ else s.sessions.conn k) = conn' k) :
    Sees cfg addr k T
      { s with sessions := { s.sessions with
        conn := fun i => if i = socket then ⟨addr socket, []⟩ else s.sessions.conn i } }
      { t with sessions := { t.sessions with conn := conn' } } where
  conn := hconn'
  sent := h.sent
  twin := h.twin
  results := h.results
  addr_eq i := by
    by_cases hi : i = socket
    · subst hi
      simp only [if_true]
    · simp only [hi, if_false]
      exact h.addr_eq i
  wf i := by
    by_cases hi : i = socket
    · simp only [hi, if_true]
      exact ScConnection.wellFormed_nil _
    · simp only [hi, if_false]
      exact h.wf i
  apart i hi c hc := by
    by_cases heq : i = socket
    · simp only [heq, if_true] at hc
      cases hc
    · simp only [heq, if_false] at hc
      exact h.apart i hi c hc

/-- The invariant part of the relation after a request. -/
theorem Sees.handled (h : Sees cfg addr k T s t) {a : Arrived}
    (hrespects : Respects cfg addr k T (.request a)) {r : Handled}
    (hhandle : handle cfg a.request.heap a.request.chunks a.request.msg
      (s.sessions.conn a.socket) s.sessions.fs = .ok r) :
    (∀ i, (if i = a.socket then r.conn else s.sessions.conn i).remoteAddr = addr i) ∧
    (∀ i, (if i = a.socket then r.conn else s.sessions.conn i).WellFormed) ∧
    ∀ i, i ≠ k → ∀ c ∈ (if i = a.socket then r.conn else s.sessions.conn i).channelList,
      ¬ T c.filenameFullpath ∧ ¬ T (mergedPath cfg c) := by
  obtain ⟨haddr, hchannels⟩ := handle_channels (h.wf a.socket) hhandle
  refine ⟨fun i => ?_, fun i => ?_, fun i hi c hc => ?_⟩
  · split
    · rename_i heq
      rw [haddr, heq]
      exact h.addr_eq a.socket
    · exact h.addr_eq i
  · split
    · exact (h.wf a.socket).handle hhandle
    · exact h.wf i
  · split at hc
    · rename_i heq
      have hother : a.socket ≠ k := heq ▸ hi
      rcases hchannels c hc with ⟨d, hd, hsame⟩ | ⟨hinit, d, hnew, hsame⟩
      · have hd' := h.apart a.socket hother d hd
        rw [mergedPath, hsame.filename, hsame.filenameFullpath]
        exact hd'
      · rw [scChannelNew_addr, h.addr_eq] at hnew
        have hd' := hrespects hinit d hnew
        rw [if_neg hother] at hd'
        rw [mergedPath, hsame.filename, hsame.filenameFullpath]
        exact hd'
    · exact h.apart i hi c hc

/-- The conditions on single events. -/
theorem unwinds (cfg : Config) (addr : Nat → Option Bytes) (k : Nat) (T : Bytes → Prop) :
    Unwinds (Clients.step cfg addr) (fun e => decide (e.socket = k)) (Respects cfg addr k T)
      (Sees cfg addr k T) where
  other := by
    rintro s t s' (socket | a) h hrespects hown hstep
    · have hne : socket ≠ k := of_decide_eq_false hown
      cases hstep
      refine h.accept socket ?_
      rw [if_neg (Ne.symm hne)]
      exact h.conn
    · have hne : a.socket ≠ k := of_decide_eq_false hown
      obtain ⟨r, hhandle, hstep⟩ := bind_eq_ok.mp hstep
      cases hstep
      obtain ⟨haddr, hwf, hapart⟩ := h.handled hrespects hhandle
      have hresults : r.fs.results = [] := handle_results h.results hhandle
      refine ⟨?_, ?_, ⟨?_, ?_⟩, hresults, haddr, hwf, hapart⟩
      · simp only [if_neg (Ne.symm hne)]
        exact h.conn
      · simp only [if_neg (Ne.symm hne)]
        exact h.sent
      · exact hresults.trans (h.results.symm.trans h.twin.results)
      · -- The files of the other connection are outside of the territory.
        intro p hp
        rw [← h.twin.file p hp]
        have hleaves := handle_leaves (fun c hc =>
          ⟨(h.apart a.socket hne c hc).1, fun _ => (h.apart a.socket hne c hc).2⟩) hhandle
        exact hleaves.file p hp
  same := by
    rintro s t s' (socket | a) h hrespects hown hstep
    · have heq : socket = k := of_decide_eq_true hown
      cases hstep
      refine ⟨_, rfl, h.accept socket ?_⟩
      simp only [heq, if_true]
    · have heq : a.socket = k := of_decide_eq_true hown
      obtain ⟨r, hhandle, hstep⟩ := bind_eq_ok.mp hstep
      cases hstep
      obtain ⟨haddr, hwf, hapart⟩ := h.handled hrespects hhandle
      have hinit : handlerFor a.request.msg.code a.request.msg.channel = some .init →
          ∀ c, scChannelNew cfg a.request.heap (s.sessions.conn a.socket) (nameOf a.request.msg)
            = .ok c → T c.filenameFullpath := by
        intro hinit c hnew
        rw [scChannelNew_addr, h.addr_eq] at hnew
        have hT := hrespects hinit c hnew
        rw [if_pos heq] at hT
        exact hT
      obtain ⟨fs', hhandle', htwin⟩ := handle_twin h.twin hinit hhandle
      have hresults : r.fs.results = [] := handle_results h.results hhandle
      have hconn : t.sessions.conn a.socket = s.sessions.conn a.socket := by
        rw [heq]
        exact h.conn.symm
      refine ⟨_, by rw [Clients.step, hconn, hhandle', ok_bind], ?_, ?_, htwin, hresults, haddr,
        hwf, hapart⟩
      · simp only [heq, if_true]
      · simp only [heq, if_true, h.sent]

end

/-! ### Two clients -/

/-- The host `a` behind the socket 0, and the host `b` behind all others. -/
def smallHosts (socket : Nat) : Option Bytes := if socket = 0 then some [97] else some [98]

/-- Both hosts register the name `n` and send lines of their own, by turns. -/
def smallTurns : List Clients.Event :=
  [.accept 0, .accept 1, .request ⟨0, smallInit⟩, .request ⟨1, smallInit⟩,
    .request ⟨1, smallData 0 [120]⟩, .request ⟨0, smallData 0 [104]⟩,
    .request ⟨1, smallData ATTR_TOP [LF]⟩, .request ⟨0, smallData ATTR_TOP [105, LF]⟩]

/-- A mode for the separate file of the host `a`, without merging. -/
def smallModes : List ScAggregateContext := [⟨[47, 108, 47, 97, 47, 110], false, true, false⟩]

/-- The separate file of the host `a`. -/
def smallTerritory (p : Bytes) : Prop := p = [47, 108, 47, 97, 47, 110]

/-- The other sockets of the small run keep out of the first one's files. -/
theorem respects_small :
    ∀ e ∈ smallTurns, Respects (smallConfig smallModes) smallHosts 0 smallTerritory e := by
  have hnone : handlerFor SCM_MSG_DATA 1 ≠ some .init := by decide
  have hdata : ∀ (socket : Nat) (attr : BitVec 32) (text : Bytes),
      Respects (smallConfig smallModes) smallHosts 0 smallTerritory
        (.request ⟨socket, smallData attr text⟩) := fun _ _ _ hinit => absurd hinit hnone
  have hone :
      Respects (smallConfig smallModes) smallHosts 0 smallTerritory (.request ⟨0, smallInit⟩) := by
    intro _ c hnew
    cases (scChannelNew_smallInit smallModes).symm.trans hnew
    exact rfl
  have htwo :
      Respects (smallConfig smallModes) smallHosts 0 smallTerritory (.request ⟨1, smallInit⟩) := by
    intro _ c hnew
    have hchannel : scChannelNew (smallConfig smallModes) smallInit.heap ⟨smallHosts 1, []⟩
        (nameOf smallInit.msg) =
        .ok { smallChannel [] with filenameFullpath := [47, 108, 47, 98, 47, 110] } := rfl
    cases hchannel.symm.trans hnew
    unfold smallTerritory mergedPath
    exact ⟨by decide, by decide⟩
  intro e he
  simp only [smallTurns, List.mem_cons, List.not_mem_nil, or_false] at he
  rcases he with rfl | rfl | rfl | rfl | rfl | rfl | rfl | rfl
  · trivial
  · trivial
  · exact hone
  · exact htwo
  · exact hdata 1 0 [120]
  · exact hdata 0 0 [104]
  · exact hdata 1 ATTR_TOP [LF]
  · exact hdata 0 ATTR_TOP [105, LF]

end Compostela.Proofs.Isolation
