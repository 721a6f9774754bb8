import Compostela.Follower.Client
import Compostela.Follower.ContextList
import Compostela.Lib.Owners

/-!
# `Compostela.Follower.Descriptors`: the descriptors of the follower

`Descriptors` is the context list with the connection, as in `ContextList`, and the numbers behind
it: the socket of the connection, the control socket and the epoll descriptor. `table` holds every
descriptor that the program opened and did not close. `open`, `socket` and `accept` give the lowest
number that is not in use.

The calls of `close` stand where the source has them:

* `send_message` and `receive_message` close the socket where they set it to -1, so a connection
  that is closed after a call was closed in it.
* `sc_aggregator_connection_open` closes a socket that cannot be connected. It does not look at the
  socket that the connection has.
* `sc_follow_context_reset` closes the file of a context, and `sc_follow_context_destroy` does not.
* `do_receive_0` closes a control connection at its end and after an error.

The file of `mhash_with_size` is closed in the same call, and is left out.
-/

set_option autoImplicit false

namespace Compostela.Follower

open Compostela.Common
open Compostela.Memory
open Compostela.Owners

/-- What an address of the aggregator leads to: no socket, a `connect` that fails, or a
connection. -/
inductive Attempt (σ : Type)
  | noSocket
  | refused
  | connected (change : σ → σ)

/-- How far `setup_server_unix_socket` gets. -/
inductive Listening
  | noSocket
  | blocking
  | refused
  | listening

/-- The state of the follower with its descriptors. A field is -1 when it has none. -/
structure Descriptors (σ : Type) where
  table : List Int
  socket : Int
  list : ContextList σ
  listener : Int
  epfd : Int

/-- What can happen. `control` is an event on the control socket: whether `accept` succeeds, and
the bytes of the one `recv`, or nothing at the end of the connection and after an error. -/
inductive Descriptors.Event (σ : Type)
  | tick (clock : Clock) (heap : Nat → Heap)
  | control (heap : Heap) (heaps : Nat → Heap) (accepted : Bool) (received : Option Bytes)
  | run (place : Nat) (inp : RunInput)
  | reconnect (attempts : List (Attempt σ))
  | network (change : σ → σ)

section
variable {σ : Type} (inherited : List Int)

/-- The number of the next descriptor. -/
def nextDescriptor (table : List Int) : Int := lowestFree (inherited ++ table)

/-- The loop of `sc_aggregator_connection_open` over the addresses: the table after it, and the
socket that is connected, with what its connection does to the network. -/
def openLoop (table : List Int) : List (Attempt σ) → List Int × Option (Int × (σ → σ))
  | [] => (table, none)
  | .noSocket :: rest => openLoop table rest
  | .refused :: rest =>
      let s := nextDescriptor inherited table
      openLoop ((s :: table).erase s) rest
  | .connected change :: _ =>
      let s := nextDescriptor inherited table
      (s :: table, some (s, change))

/-- `setup_server_unix_socket`. A socket that stays blocking is not closed. -/
def setupServerUnixSocket (table : List Int) : Listening → Int × List Int
  | .noSocket => (-1, table)
  | .blocking => (-1, nextDescriptor inherited table :: table)
  | .refused =>
      let ss := nextDescriptor inherited table
      (-1, (ss :: table).erase ss)
  | .listening => (nextDescriptor inherited table, nextDescriptor inherited table :: table)

/-- `setup_epoll`. -/
def setupEpoll (table : List Int) (created : Bool) : Int × List Int :=
  if created then (nextDescriptor inherited table, nextDescriptor inherited table :: table)
  else (-1, table)

/-- `main` up to its loop. The first `do_rotate` is left to the events: it adds contexts that are
not open. -/
def Descriptors.start (net : σ) (attempts : List (Attempt σ)) (how : Listening) (created : Bool) :
    Descriptors σ :=
  let found := openLoop inherited [] attempts
  let listening := setupServerUnixSocket inherited found.1 how
  let epoll := setupEpoll inherited listening.2 created
  { table := epoll.2
    socket := (found.2.map Prod.fst).getD (-1)
    list := ⟨[], (scAggregatorConnectionOpen (found.2.map Prod.snd) ⟨false, net⟩).2⟩
    listener := listening.1
    epfd := epoll.1 }

/-- The descriptors of the open files of a list. -/
def openFiles (contexts : List Listed) : List Int := contexts.flatMap fun c => held (-1) c.cxt.fd

/-- `sc_follow_context_close_file` of every context of the list. -/
def closeFiles (contexts : List Listed) (table : List Int) : List Int :=
  (openFiles contexts).foldl List.erase table

/-- The socket after calls of `send_message` and `receive_message` that leave `list`. -/
def Descriptors.afterCalls (s : Descriptors σ) (table : List Int) (list : ContextList σ) :
    Descriptors σ :=
  if list.conn.opened then { s with table := table, list := list }
  else { s with table := table.erase s.socket, socket := -1, list := list }

/-- A run opens the file of its context: it gets to the call of `open`, which succeeds. -/
def OpensFile (inp : RunInput) (cxt : ScFollowContext) (conn : ScAggregatorConnection σ) : Prop :=
  conn.opened = true ∧ cxt.messageBuffer.code = SCM_MSG_NONE ∧ cxt.fd = -1 ∧ 0 ≤ inp.opened.fd

instance (inp : RunInput) (cxt : ScFollowContext) (conn : ScAggregatorConnection σ) :
    Decidable (OpensFile inp cxt conn) := inferInstanceAs (Decidable (_ ∧ _ ∧ _ ∧ _))

/-- The result of `open` has the number of the next descriptor. -/
def RunInput.numbered (inp : RunInput) (fd : Int) : RunInput :=
  { inp with opened := { inp.opened with fd := if inp.opened.fd < 0 then -1 else fd } }

variable (net : Listed → Net σ) (md5 : Md5) (patterns : List ScConfigPatternEntry)

/-- One event. -/
def Descriptors.step (s : Descriptors σ) : Event σ → Except Trap (Descriptors σ)
  | .tick clock heap => do
      let list ← s.list.step net md5 patterns (.tick clock heap)
      .ok (s.afterCalls s.table list)
  | .control heap heaps accepted received =>
      -- Without a connection `recv` and `close` get -1.
      if accepted = false then .ok s
      else
        let c := nextDescriptor inherited s.table
        match received with
        | none => .ok { s with table := (c :: s.table).erase c }
        | some data => do
            let list ← s.list.step net md5 patterns (.control heap heaps data)
            .ok { s with table := c :: s.table, list := list }
  | .run place inp => do
      let inp := inp.numbered (nextDescriptor inherited s.table)
      let list ← s.list.step net md5 patterns (.run place inp)
      let table := match s.list.contexts[place]? with
        | none => s.table
        | some c => if OpensFile inp c.cxt s.list.conn then inp.opened.fd :: s.table else s.table
      .ok (s.afterCalls table list)
  | .reconnect attempts => do
      let found := openLoop inherited (closeFiles s.list.contexts s.table) attempts
      let list ← s.list.step net md5 patterns (.reconnect (found.2.map Prod.snd))
      .ok { s with
        table := found.1, socket := (found.2.map Prod.fst).getD s.socket, list := list }
  | .network change => do
      let list ← s.list.step net md5 patterns (.network change)
      .ok { s with list := list }

end

/-! ### What a run does with the file -/

section
variable {σ : Type} {net : Net σ} {md5 : Md5} {inp : RunInput} {heap : Heap}
  {cxt cxt' : ScFollowContext} {conn conn' : ScAggregatorConnection σ}

/-- `_init_file` leaves the file and the read buffer. -/
theorem initFile_fd {ret : Int}
    (h : initFile net md5 inp heap cxt conn = .ok (ret, cxt', conn')) :
    cxt'.fd = cxt.fd ∧ cxt'.buffer = cxt.buffer := by
  rcases initFile_cxt h with rfl | ⟨ch, pos, rfl⟩
  · exact ⟨rfl, rfl⟩
  · exact ⟨lseek_fd _ _, lseek_buffer _ _⟩

/-- The first part of a run goes on with an open file: one that was open, or one that it has
opened. -/
theorem ensureOpen_fd {ret : Option Int} (hneg : inp.opened.fd < 0 → inp.opened.fd = -1)
    (h : ensureOpen net md5 inp cxt conn = .ok (ret, cxt', conn')) :
    cxt'.fd = (if cxt.fd = -1 ∧ 0 ≤ inp.opened.fd then inp.opened.fd else cxt.fd) ∧
      cxt'.buffer = cxt.buffer ∧
      (ret = none ∧ (0 < cxt.fd ∨ cxt.fd = -1 ∧ 0 ≤ inp.opened.fd) ∨
        ret = some 1 ∧ ¬ (0 < cxt.fd ∨ cxt.fd = -1 ∧ 0 ≤ inp.opened.fd)) := by
  rcases ensureOpen_cases h with ⟨hpos, rfl, rfl, -⟩ | ⟨hfd, hclosed, rfl, rfl, -⟩ |
    ⟨hclosed, hfail, rfl, rfl, -⟩ | ⟨hclosed, hopen, rfl, ret1, hinit⟩
  · exact ⟨(if_neg (by omega)).symm, rfl, Or.inl ⟨rfl, Or.inl hpos⟩⟩
  · -- Descriptor zero counts as opened already.
    exact ⟨(if_neg fun hboth => hclosed hboth.1).symm, rfl, Or.inr ⟨rfl, by omega⟩⟩
  · refine ⟨?_, rfl, Or.inr ⟨rfl, by omega⟩⟩
    rw [if_neg (by omega)]
    show inp.opened.fd = cxt.fd
    rw [hneg hfail, hclosed]
  · obtain ⟨hfd, hbuffer⟩ := initFile_fd hinit
    refine ⟨?_, hbuffer, Or.inl ⟨rfl, Or.inr ⟨hclosed, hopen⟩⟩⟩
    rw [if_pos ⟨hclosed, hopen⟩]
    exact hfd

/-- The exchange of a run leaves the file. -/
theorem exchangeData_fd {ret : Int}
    (h : exchangeData net inp cxt conn = .ok (ret, cxt', conn')) :
    cxt'.fd = cxt.fd ∧ ret ≠ -1 := by
  obtain ⟨sent, conn1, msg, -, hcase⟩ := exchangeData_cases h
  rcases hcase with ⟨-, rfl, rfl, -⟩ | ⟨-, got, resp, -, ⟨-, rfl, rfl⟩ | ⟨m, -, -, rfl, rfl⟩⟩
  · exact ⟨rfl, by decide⟩
  · exact ⟨rfl, by decide⟩
  · exact ⟨rfl, by decide⟩

/-- The part in front of the exchange does with the file what the first part does, and ends with
-1 where the `read` fails. -/
theorem prepareData_fd {ret : Option Int} (hv : cxt.buffer.Valid)
    (hneg : inp.opened.fd < 0 → inp.opened.fd = -1)
    (h : prepareData net md5 inp cxt conn = .ok (ret, cxt', conn')) :
    cxt'.fd = (if cxt.fd = -1 ∧ 0 ≤ inp.opened.fd then inp.opened.fd else cxt.fd) ∧
      (ret = some (-1) ↔ (0 < cxt.fd ∨ cxt.fd = -1 ∧ 0 ≤ inp.opened.fd) ∧
        cxt.buffer.unread = [] ∧ inp.read = .error) := by
  rcases prepareData_cases h with ⟨r, rfl, hopen⟩ | ⟨cxt1, conn1, hopen, hcase⟩
  · obtain ⟨hfd, -, ⟨hnone, -⟩ | ⟨hone, hstays⟩⟩ := ensureOpen_fd hneg hopen
    · cases hnone
    · rw [hone]
      exact ⟨hfd, nofun, fun hall => absurd hall.1 hstays⟩
  · obtain ⟨hfd, hbuffer, ⟨-, hgoes⟩ | ⟨hone, -⟩⟩ := ensureOpen_fd hneg hopen
    -- The first step returned nothing, so the case where it returned a result goes first.
    swap
    · cases hone
    have hv1 : cxt1.buffer.Valid := by
      rw [hbuffer]
      exact hv
    rcases hcase with ⟨r, cb, rfl, hfill, -⟩ | ⟨cb, cxt2, cxt3, rfl, hfill, hchannel, rfl⟩
    · have hfailed := fillMessage_failed_iff hv1 hfill
      rw [hbuffer] at hfailed
      obtain ⟨got, line, complete, htook, -, -⟩ := fillMessage_took hv1 hfill
      refine ⟨by rw [htook.rest]; exact hfd, hfailed.trans ⟨fun hboth => ⟨hgoes, hboth⟩, And.right⟩⟩
    · have hfailed := fillMessage_failed_iff hv1 hfill
      rw [hbuffer] at hfailed
      obtain ⟨got, line, complete, htook, -, -⟩ := fillMessage_took hv1 hfill
      have hfd2 : cxt2.fd = cxt1.fd := by rw [htook.rest]
      -- The second INIT keeps the descriptor, as the line did.
      have hfd3 : cxt3.fd = cxt2.fd := by
        rcases ensureChannel_cases hchannel with ⟨-, rfl, -⟩ | ⟨-, ret1, hinit⟩
        · rfl
        · exact (initFile_fd hinit).1
      refine ⟨hfd3.trans (hfd2.trans hfd), hfailed.trans ⟨fun hboth => ⟨hgoes, hboth⟩, And.right⟩⟩

/-- The `read` of a run fails with another error than `EAGAIN`. The run gets to it when it can go
on with an open file and its buffer is empty. -/
def ReadFails (inp : RunInput) (cxt : ScFollowContext) (conn : ScAggregatorConnection σ) : Prop :=
  conn.opened = true ∧ cxt.messageBuffer.code = SCM_MSG_NONE ∧
    (0 < cxt.fd ∨ cxt.fd = -1 ∧ 0 ≤ inp.opened.fd) ∧ cxt.buffer.unread = [] ∧ inp.read = .error

/-- A run changes the descriptor of its context where it opens the file, and returns -1 where its
`read` fails. -/
theorem runFollowContext_fd {ret : Int} (hv : cxt.buffer.Valid)
    (hneg : inp.opened.fd < 0 → inp.opened.fd = -1)
    (h : runFollowContext net md5 inp cxt conn = .ok (ret, cxt', conn')) :
    cxt'.fd = (if OpensFile inp cxt conn then inp.opened.fd else cxt.fd) ∧
      (ret = -1 ↔ ReadFails inp cxt conn) ∧ (conn.opened = false → conn'.opened = false) := by
  rcases runFollowContext_cases h with ⟨hclosed, rfl, rfl, rfl⟩ |
    ⟨hopen, hcode, hprep⟩ | ⟨hopen, hcode, hex⟩
  · refine ⟨(if_neg fun hopens => ?_).symm, ⟨nofun, fun hfails => ?_⟩, fun _ => hclosed⟩
    · exact absurd hopens.1 (by rw [hclosed]; decide)
    · exact absurd hfails.1 (by rw [hclosed]; decide)
  · refine and_assoc.mp ⟨?_, fun hclosed => absurd hopen (by rw [hclosed]; decide)⟩
    -- The connection is open and no message waits, so the file alone decides.
    have hopens : OpensFile inp cxt conn ↔ cxt.fd = -1 ∧ 0 ≤ inp.opened.fd :=
      ⟨fun hall => hall.2.2, fun hboth => ⟨hopen, hcode, hboth⟩⟩
    have hreads : ReadFails inp cxt conn ↔ (0 < cxt.fd ∨ cxt.fd = -1 ∧ 0 ≤ inp.opened.fd) ∧
        cxt.buffer.unread = [] ∧ inp.read = .error :=
      ⟨fun hall => hall.2.2, fun hboth => ⟨hopen, hcode, hboth⟩⟩
    simp only [hopens]
    rcases hprep with hprep | ⟨cxt1, conn1, hprep, hex⟩
    · obtain ⟨hfd, hret⟩ := prepareData_fd hv hneg hprep
      rw [hreads, ← hret, Option.some.injEq]
      exact ⟨hfd, Iff.rfl⟩
    · obtain ⟨hfd1, hret1⟩ := prepareData_fd hv hneg hprep
      obtain ⟨hfd, hret⟩ := exchangeData_fd hex
      rw [hreads, ← hret1]
      exact ⟨hfd.trans hfd1, fun hminus => absurd hminus hret, nofun⟩
  · -- A message is pending.
    obtain ⟨hfd, hret⟩ := exchangeData_fd hex
    refine ⟨?_, ⟨fun hminus => absurd hminus hret, fun hfails => absurd hfails.2.1 hcode⟩,
      fun hclosed => absurd hopen (by rw [hclosed]; decide)⟩
    rw [if_neg fun hopens => hcode hopens.2.1]
    exact hfd

end

end Compostela.Follower
