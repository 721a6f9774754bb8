import Compostela.Follower.Controller

/-!
# `Compostela.Proofs.ControlStreams`: one read for each control connection

`do_server_socket` accepts a control connection, makes a controller for it and calls
`do_receive_0`, which calls `recv` once. The code that would poll the connection afterwards is
commented out, so no later segment is read.

* `executed_iff`: the streams of which all commands are executed. No command is behind the lines
  that the first segment completes, and none of these lines overruns a buffer on the stack.
* `open_cut_in_two`: a command in two segments is not executed.
-/

set_option autoImplicit false

namespace Compostela.Follower

open Compostela.Common
open Compostela.Lines
open Compostela.Memory

/-- What the `recv` of `do_receive_0` gives: bytes, the end of the stream, or an error. -/
inductive ControlRecv
  | data (bytes : Bytes)
  | closed
  | error

/-- `do_receive_0`, with the commands that it executes, in their order. -/
def doReceive0 (heap : Heap) (heaps : Nat → Heap) (contexts : List Listed) :
    ControlRecv → Except Trap (List Bytes × List Listed)
  | .data bytes => do
      let lines ← readControl heap bytes
      let contexts ← openLines heaps lines contexts
      .ok (commands lines, contexts)
  | .closed | .error => .ok ([], contexts)

/-- The body of the loop of `do_server_socket`, for one accepted connection with the results that
`recv` has for it, call by call. There is one call. -/
def doServerSocket (heap : Heap) (heaps : Nat → Heap) (segments : List Bytes)
    (contexts : List Listed) : Except Trap (List Bytes × List Listed) :=
  match segments with
  | [] => doReceive0 heap heaps contexts .closed
  | first :: _ => doReceive0 heap heaps contexts (.data first)

/-- The contexts are those that `_do_receive_data_0` leaves. -/
theorem map_snd_doReceive0 (heap : Heap) (heaps : Nat → Heap) (contexts : List Listed)
    (data : Bytes) :
    (doReceive0 heap heaps contexts (.data data)).map Prod.snd =
      doReceiveData0 heap heaps data contexts := by
  simp only [doReceive0, doReceiveData0]
  cases readControl heap data with
  | error t => rfl
  | ok lines =>
    simp only [ok_bind]
    cases openLines heaps lines contexts with
    | error t => rfl
    | ok contexts' => rfl

/-- The lines that the controller reads from the first segment. -/
def readable (segments : List Bytes) : List Bytes :=
  shortLines LF CONTROLLER_BUFFER_SIZE (segments.headD [])

/-- The first segment has every command of the stream, and the controller can take it. -/
structure FirstHasAll (heap : Heap) (segments : List Bytes) : Prop where
  /-- The buffer for the segment is there. -/
  room : HasRoom heap (segments.headD [])
  /-- A line with its newline leaves room for the terminator. -/
  short : ∀ line ∈ readable segments, line.length ≠ CONTROLLER_BUFFER_SIZE
  /-- The table has a place for every field of a command. -/
  fields : ∀ line ∈ commands (readable segments), (atbl line).length < 51
  /-- No command is behind the lines that are read. -/
  last : commands ((linesOf LF segments.flatten).drop (readable segments).length) = []

/-- The lines that are read are the first lines of the stream. -/
theorem readable_prefix (segments : List Bytes) :
    readable segments <+: linesOf LF segments.flatten := by
  cases segments with
  | nil => exact List.nil_prefix
  | cons first more => exact shortLines_prefix CONTROLLER_BUFFER_SIZE first more.flatten

/-- The commands that are executed, of a stream that the controller can take. -/
theorem doServerSocket_eq_ok {heap : Heap} {heaps : Nat → Heap} {segments : List Bytes}
    {contexts : List Listed} {executed : List Bytes} :
    (∃ contexts', doServerSocket heap heaps segments contexts = .ok (executed, contexts')) ↔
      HasRoom heap (segments.headD []) ∧
        (∀ line ∈ readable segments, line.length ≠ CONTROLLER_BUFFER_SIZE) ∧
        (∀ line ∈ commands (readable segments), (atbl line).length < 51) ∧
        executed = commands (readable segments) := by
  cases segments with
  | nil =>
    have hroom : HasRoom heap [] := fun h => absurd h (Nat.not_lt_zero _)
    constructor
    · rintro ⟨contexts', h⟩
      cases h
      exact ⟨hroom, by simp [readable, shortLines], by simp [readable, shortLines, commands], rfl⟩
    · rintro ⟨-, -, -, rfl⟩
      exact ⟨contexts, rfl⟩
  -- One `recv` for each accepted connection: the other segments are never read.
  | cons first more =>
    show (∃ contexts', doReceive0 heap heaps contexts (.data first) = .ok (executed, contexts')) ↔ _
    constructor
    · rintro ⟨contexts', h⟩
      obtain ⟨lines, hlines, h⟩ := bind_eq_ok.mp h
      obtain ⟨contexts1, hopen, h⟩ := bind_eq_ok.mp h
      cases h
      obtain ⟨hroom, rfl, hshort⟩ := readControl_eq_ok_iff.mp hlines
      exact ⟨hroom, hshort, (exists_openLines _ _ _).mp ⟨_, hopen⟩, rfl⟩
    · rintro ⟨hroom, hshort, hfields, rfl⟩
      have hlines := readControl_eq_ok_iff.mpr ⟨hroom, rfl, hshort⟩
      obtain ⟨contexts', hopen⟩ := (exists_openLines heaps _ contexts).mpr hfields
      exact ⟨contexts', bind_eq_ok.mpr ⟨_, hlines, bind_eq_ok.mpr ⟨_, hopen, rfl⟩⟩⟩

/-- The commands that are executed are all commands of the stream when none is behind the lines
that are read. -/
theorem commands_readable_eq_iff (segments : List Bytes) :
    commands (linesOf LF segments.flatten) = commands (readable segments) ↔
      commands ((linesOf LF segments.flatten).drop (readable segments).length) = [] := by
  obtain ⟨rest, hrest⟩ := readable_prefix segments
  have hall : commands (linesOf LF segments.flatten) =
      commands (readable segments) ++ commands rest := by
    rw [← hrest, commands, commands, commands, List.filter_append]
  have hdrop : (linesOf LF segments.flatten).drop (readable segments).length = rest := by
    rw [← hrest, List.drop_left]
  rw [hall, hdrop]
  exact List.append_right_eq_self

/-- The commands of a stream, in their order, are executed exactly when the first segment has all
of them and the controller can take it. -/
theorem executed_iff (heap : Heap) (heaps : Nat → Heap) (contexts : List Listed)
    (segments : List Bytes) :
    (∃ contexts', doServerSocket heap heaps segments contexts =
        .ok (commands (linesOf LF segments.flatten), contexts')) ↔
      FirstHasAll heap segments := by
  rw [doServerSocket_eq_ok, commands_readable_eq_iff]
  constructor
  · rintro ⟨hroom, hshort, hfields, hlast⟩
    exact ⟨hroom, hshort, hfields, hlast⟩
  · intro h
    exact ⟨h.room, h.short, h.fields, h.last⟩

/-- The command `OPEN a b` in two segments. The stream has it, and it is not executed. -/
theorem open_cut_in_two :
    let segments : List Bytes := [[79, 80, 69, 78, 32, 97], [32, 98, 10]]
    commands (linesOf LF segments.flatten) = [[79, 80, 69, 78, 32, 97, 32, 98, 10]] ∧
      ¬ ∃ contexts', doServerSocket zeroHeap (fun _ => zeroHeap) segments [] =
        .ok (commands (linesOf LF segments.flatten), contexts') := by
  intro segments
  refine ⟨by decide, ?_⟩
  rintro ⟨contexts', h⟩
  have hexecuted := (doServerSocket_eq_ok.mp ⟨contexts', h⟩).2.2.2
  exact absurd hexecuted (by decide)

end Compostela.Follower
