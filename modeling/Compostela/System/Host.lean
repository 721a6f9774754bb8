import Compostela.Lib.Runs
import Compostela.System.Shared

/-!
# `Compostela.System.Host`: a follower with the files that it follows

`Host` is a machine with any number of files and a follower on it. The files grow between the
events of the main loop, and each context reads the file that its name leads to. All contexts
use one connection, so the runs of one pass register and send beside one another.

* `Down.run_settled`: how a run over a connection that is down ends.
-/

set_option autoImplicit false

namespace Compostela.System

open Compostela.Common
open Compostela.Memory
open Compostela.Aggregator
open Compostela.Follower
open Link

/-- The files of a machine, by name, and the follower on it. -/
structure Host where
  files : Bytes → Bytes
  loop : MainLoop

/-- What can happen. A pass reads the files as they are, whatever its inputs say of them. -/
inductive Host.Event
  | grow (name bytes : Bytes)
  | loop (e : MainLoop.Event)

namespace Host

/-- The bytes of the file of a context, by the serial number of the context. -/
def fileOf (s : Host) (serial : Nat) : Bytes :=
  match s.loop.contexts.find? fun c => c.serial = serial with
  | some c => s.files (c.cxt.filename.getD [])
  | none => []

/-- The inputs of a pass with the files of the machine. -/
def inputs (s : Host) (found : Nat → RunInput) (serial : Nat) : RunInput :=
  { found serial with file := s.fileOf serial }

/-- An event of the main loop on this machine. -/
def seen (s : Host) : MainLoop.Event → MainLoop.Event
  | .pass found fates reconnected => .pass (s.inputs found) fates reconnected
  | e => e

/-- One event. A file never has `2 ^ 63` bytes or more. -/
def step (cfg : Config) (md5 : Md5) (addr : Option Bytes) (patterns : List ScConfigPatternEntry)
    (s : Host) : Event → Except Trap Host
  | .grow name bytes =>
      .ok (if (s.files name ++ bytes).length < 2 ^ 63 then
        { s with files := fun n => if n = name then s.files n ++ bytes else s.files n }
      else s)
  | .loop e => do
      let loop ← s.loop.step cfg md5 addr patterns (s.seen e)
      .ok { s with loop := loop }

/-- Before the first event: no context, and a connection that is open or not. -/
def start (files : Bytes → Bytes) (fs : Fs) (addr : Option Bytes) (opened : Bool) : Host :=
  ⟨files, .start fs addr opened⟩

/-- A context reads its own file while the serial numbers are distinct. -/
theorem fileOf_of_mem {s : Host} (hserials : (s.loop.contexts.map Listed.serial).Nodup)
    {c : Listed} (hc : c ∈ s.loop.contexts) :
    s.fileOf c.serial = s.files (c.cxt.filename.getD []) := by
  have hfind : (s.loop.contexts.find? fun d => d.serial = c.serial) = some c := by
    cases hfound : s.loop.contexts.find? fun d => d.serial = c.serial with
    | none =>
      rw [List.find?_eq_none] at hfound
      exact absurd (decide_eq_true rfl) (hfound c hc)
    | some d =>
      have hsame : d.serial = c.serial := by simpa using List.find?_some hfound
      rw [List.inj_on_of_nodup_map hserials (List.mem_of_find?_eq_some hfound) hc hsame]
  rw [fileOf, hfind]

end Host

/-- A run over a connection that is down, with the end that every run has. -/
theorem Down.run_settled {cfg : Config} {sender : Sender} {md5 : Md5} {inp : RunInput}
    {cxt cxt' : ScFollowContext} {conn conn' : ScAggregatorConnection Link} {ret : Int}
    (h : Down conn) (hvalid : cxt.buffer.Valid)
    (hnothing : cxt.messageBuffer.code = SCM_MSG_NONE)
    (hrun : runFollowContext (Link.net cfg sender) md5 inp cxt conn = .ok (ret, cxt', conn')) :
    Shares.Settled ret cxt' conn' := by
  have hdown' := (h.run hrun).1
  cases hopened : conn.opened with
  | false =>
    rcases runFollowContext_cases hrun with ⟨-, rfl, -⟩ | ⟨hopen, -⟩ | ⟨hopen, -⟩
    · exact Or.inl ⟨rfl, hdown'⟩
    · exact absurd hopen (by rw [hopened]; decide)
    · exact absurd hopen (by rw [hopened]; decide)
  | true =>
    obtain ⟨ret1, cxt1, conn1, hopen, hrest⟩ := runFollowContext_of_nothing hopened hnothing hrun
    have hvalid1 := (ensureOpen_continues hvalid hopen).valid
    have hdown1 := (h.ensureOpen hopen).1
    rw [← ensureOpen_messageBuffer hopen] at hnothing
    rcases hrest with ⟨hret, rfl, -⟩ | ⟨-, ret2, cb, cxt2, hfill, hrest⟩
    -- The file could not be opened, so nothing was read or sent.
    · refine Or.inr ⟨?_, hnothing⟩
      rcases ensureOpen_cases hopen with ⟨-, hr, -⟩ | ⟨-, -, hr, -⟩ | ⟨-, -, hr, -⟩ | ⟨-, -, hr, -⟩
      · cases hr.symm.trans hret
      · cases hr.symm.trans hret
        decide
      · cases hr.symm.trans hret
        decide
      · cases hr.symm.trans hret
    rcases hrest with ⟨rfl, rfl, -⟩ | ⟨-, cxt3, conn3, hchan, hex⟩
    · obtain ⟨got, line, complete, -, hended, -⟩ := fillMessage_took hvalid1 hfill
      obtain ⟨-, hmsg, hne⟩ := hended nofun
      rw [← hmsg] at hnothing
      exact Or.inr ⟨fun heq => hne (by rw [heq]), hnothing⟩
    -- The send of a line fails, and the run asks for a new connection.
    · exact Or.inl ⟨((hdown1.ensureChannel hchan).2.1.exchangeData hex).1, hdown'⟩

end Compostela.System
