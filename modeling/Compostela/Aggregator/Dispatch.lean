import Compostela.Lib.Runs
import Mathlib.Algebra.Order.Ring.Nat
import Mathlib.Data.List.Dedup
import Mathlib.Data.List.Nodup

/-!
# `Compostela.Aggregator.Dispatch`: the events of `run_main`

`run_main` registers the listening sockets and the accepted connections with one `epoll`. The data
of an event is a union: the number of a listening socket, or the address of an `sc_connection`.
For each event the inner loop compares the number in the union with all listening sockets. When
none of them has accepted and registered a connection, the event goes to `do_receive` with the
address in the union.

`Dispatcher` has the connections in memory, the open descriptors, what is registered, and the
events of the batch that are still to come. `Inv` is its invariant. What `do_receive` does with a
message is in `Aggregator.Session`. Here it keeps the connection or destroys it.

* `acceptLoop_done_iff`: when the inner loop takes an event.
* `Inv.acceptLoop`, `Inv.receiveOn` and `Inv.wait`: what keeps the invariant.
-/

set_option autoImplicit false

namespace Compostela.Aggregator

open Compostela.Memory

/-- A listening socket, which is an `int` that is not negative. -/
abbrev ListenSocket := Fin (2 ^ 31)

/-- `MAX_EVENTS`. -/
def MAX_EVENTS : Nat := 10

/-- `data.fd` of the eight bytes of an event's data: the first four of them. -/
def dataFd (data : BitVec 64) : Nat := data.toNat % 2 ^ 32

/-- The data of a listening socket. The structure is cleared before the number is set. -/
def ofFd (sock : ListenSocket) : BitVec 64 := .ofNat 64 sock

/-- An accepted connection: the address of its `sc_connection`, and its socket. -/
structure Accepted where
  addr : BitVec 64
  socket : Nat
  deriving DecidableEq

/-- What is registered for a descriptor. -/
structure Registered where
  fd : Nat
  data : BitVec 64
  deriving DecidableEq

/-- The state of `run_main` between two events. -/
structure Dispatcher where
  conns : List Accepted
  opened : List Nat
  interest : List Registered
  ready : List Registered

/-- What `accept`, `malloc` and `epoll_ctl` do for one listening socket that is reported. A new
descriptor was not open, and `malloc` gives memory that is not in use, or null. -/
structure Answer where
  accepted : Bool
  fd : List Nat → Nat
  fd_new : ∀ opened, fd opened ∉ opened
  malloc : List (BitVec 64) → BitVec 64
  malloc_new : ∀ used, malloc used = 0 ∨ malloc used ∉ used
  added : Bool

namespace Dispatcher

/-- The descriptor that `accept` opens. -/
def newSocket (s : Dispatcher) (answer : Answer) : Nat := answer.fd s.opened

/-- What `sc_connection_new` returns. -/
def newConn (s : Dispatcher) (answer : Answer) : BitVec 64 :=
  answer.malloc (s.conns.map Accepted.addr)

/-- `accept` and `sc_connection_new`. -/
def accept (s : Dispatcher) (answer : Answer) : Dispatcher :=
  { s with
    conns :=
      if s.newConn answer = 0 then s.conns
      else ⟨s.newConn answer, s.newSocket answer⟩ :: s.conns
    opened := s.newSocket answer :: s.opened }

/-- `accept`, `sc_connection_new` and an `epoll_ctl` that succeeds. -/
def acceptAndAdd (s : Dispatcher) (answer : Answer) : Dispatcher :=
  { s.accept answer with interest := ⟨s.newSocket answer, s.newConn answer⟩ :: s.interest }

end Dispatcher

/-- The loop over the listening sockets for an event. The first component is `done`. The sockets
are counted by `j`. -/
def acceptLoop (data : BitVec 64) (answers : Nat → Answer) :
    Nat → List ListenSocket → Dispatcher → Bool × Dispatcher
  | _, [], s => (false, s)
  | j, sock :: rest, s =>
      if dataFd data = sock then
        if (answers j).accepted = false then acceptLoop data answers (j + 1) rest s
        else if (answers j).added = false then
          acceptLoop data answers (j + 1) rest (s.accept (answers j))
        else (true, s.acceptAndAdd (answers j))
      else acceptLoop data answers (j + 1) rest s

/-- `do_receive` with an address. A connection that is closed or broken is taken out of the
`epoll`, closed and freed. -/
def receiveOn (s : Dispatcher) (addr : BitVec 64) (destroyed : Bool) : Except Trap Dispatcher :=
  match s.conns.find? (·.addr = addr) with
  | none => .error .oobRead
  | some conn =>
      if destroyed then
        .ok { s with
          conns := s.conns.filter (·.addr ≠ addr)
          opened := s.opened.erase conn.socket
          interest := s.interest.filter (·.fd ≠ conn.socket) }
      else .ok s

/-- What happens in `run_main`. `wait` is a return of `epoll_wait` that reports these descriptors,
and `turn` is the body of the loop for the next event of the batch. -/
inductive DispatchEvent
  | wait (fds : List Nat)
  | turn (answers : Nat → Answer) (destroyed : Bool)

/-- The events that `epoll_wait` stores: for descriptors that are registered, each one once. -/
def Dispatcher.reported (s : Dispatcher) (fds : List Nat) : List Registered :=
  (fds.dedup.filterMap fun fd => s.interest.find? (·.fd = fd)).take MAX_EVENTS

/-- One event. `epoll_wait` is not called before the batch is done. -/
def dispatch (socks : List ListenSocket) (s : Dispatcher) : DispatchEvent → Except Trap Dispatcher
  | .wait fds => .ok (if s.ready = [] then { s with ready := s.reported fds } else s)
  | .turn answers destroyed =>
      match s.ready with
      | [] => .ok s
      | event :: rest =>
          let (done, s) := acceptLoop event.data answers 0 socks { s with ready := rest }
          if done then .ok s else receiveOn s event.data destroyed

/-- `run_main` before its loop. The result of `epoll_ctl` for a listening socket is not looked
at. -/
def dispatcherStart (socks : List ListenSocket) (added : ListenSocket → Bool) : Dispatcher where
  conns := []
  opened := socks.map Fin.val
  interest := (socks.filter added).map fun sock : ListenSocket => ⟨sock.val, ofFd sock⟩
  ready := []

/-! ### The inner loop -/

/-- Some listening socket is the one of the event, and its `accept` and `epoll_ctl` succeed. -/
def Taken (socks : List ListenSocket) (data : BitVec 64) (answers : Nat → Answer) : Prop :=
  ∃ (j : Nat) (sock : ListenSocket), socks[j]? = some sock ∧ dataFd data = sock ∧
    (answers j).accepted = true ∧ (answers j).added = true

/-- The loop over the listening sockets takes an event exactly when one of them has the data of the
event and its connection is accepted. -/
theorem acceptLoop_done_iff (data : BitVec 64) (answers : Nat → Answer) (j : Nat)
    (socks : List ListenSocket) (s : Dispatcher) :
    (acceptLoop data answers j socks s).1 = true ↔
      Taken socks data fun i => answers (j + i) := by
  induction socks generalizing j s with
  | nil =>
    constructor
    · intro h
      cases h
    · rintro ⟨i, sock, hsock, -⟩
      cases hsock
  | cons sock rest ih =>
    -- A success of a later socket is one of the loop from there.
    have hlater : ∀ s, ¬ (dataFd data = sock ∧ (answers j).accepted = true ∧
        (answers j).added = true) →
        ((acceptLoop data answers (j + 1) rest s).1 = true ↔
          Taken (sock :: rest) data fun i => answers (j + i)) := by
      intro s hnot
      rw [ih]
      constructor
      · rintro ⟨i, sock', hi, hfd, hyes⟩
        have hidx : j + 1 + i = j + (i + 1) := by omega
        refine ⟨i + 1, sock', hi, hfd, ?_⟩
        simpa only [hidx] using hyes
      · rintro ⟨i, sock', hi, hfd, hyes⟩
        cases i with
        | zero =>
          cases hi
          exact absurd ⟨hfd, hyes⟩ hnot
        | succ i =>
          have hidx : j + 1 + i = j + (i + 1) := by omega
          refine ⟨i, sock', hi, hfd, ?_⟩
          simpa only [hidx] using hyes
    unfold acceptLoop
    by_cases hfd : dataFd data = sock
    · rw [if_pos hfd]
      by_cases hacc : (answers j).accepted = false
      · rw [if_pos hacc]
        exact hlater s fun h => by simp [hacc] at h
      rw [if_neg hacc]
      by_cases hadd : (answers j).added = false
      · rw [if_pos hadd]
        exact hlater _ fun h => by simp [hadd] at h
      rw [if_neg hadd]
      refine iff_of_true rfl ⟨0, sock, rfl, hfd, ?_⟩
      exact ⟨eq_true_of_ne_false hacc, eq_true_of_ne_false hadd⟩
    · rw [if_neg hfd]
      exact hlater s fun h => hfd h.1

/-! ### The invariant -/

/-- What is registered for a descriptor fits it: the number of a listening socket, and for a
connection the address of its `sc_connection`, or null when there was no memory for it. -/
def Fitting (socks : List ListenSocket) (conns : List Accepted) (r : Registered) : Prop :=
  (∃ sock ∈ socks, r.fd = sock ∧ r.data = ofFd sock) ∨
    ((∀ sock ∈ socks, r.fd ≠ Fin.val sock) ∧ (r.data = 0 ∨ ⟨r.data, r.fd⟩ ∈ conns))

/-- The invariant of the loop. -/
structure Inv (socks : List ListenSocket) (s : Dispatcher) : Prop where
  addr_ne : ∀ conn ∈ s.conns, conn.addr ≠ 0
  addrs_nodup : (s.conns.map Accepted.addr).Nodup
  sockets_nodup : (s.conns.map Accepted.socket).Nodup
  sockets_open : ∀ conn ∈ s.conns, conn.socket ∈ s.opened
  sockets_apart : ∀ conn ∈ s.conns, ∀ sock ∈ socks, conn.socket ≠ Fin.val sock
  socks_open : ∀ sock ∈ socks, Fin.val sock ∈ s.opened
  interest : ∀ r ∈ s.interest, Fitting socks s.conns r
  ready : ∀ r ∈ s.ready, Fitting socks s.conns r
  ready_nodup : (s.ready.map Registered.fd).Nodup

/-- Before the first event every listening socket is registered under its own address. -/
theorem inv_dispatcherStart (socks : List ListenSocket) (added : ListenSocket → Bool) :
    Inv socks (dispatcherStart socks added) where
  addr_ne := nofun
  addrs_nodup := List.nodup_nil
  sockets_nodup := List.nodup_nil
  sockets_open := nofun
  sockets_apart := nofun
  socks_open := fun _ hsock => List.mem_map_of_mem hsock
  interest := by
    intro r hr
    obtain ⟨sock, hsock, rfl⟩ := List.mem_map.mp hr
    exact Or.inl ⟨sock, (List.mem_filter.mp hsock).1, rfl, rfl⟩
  ready := nofun
  ready_nodup := List.nodup_nil

section
variable {socks : List ListenSocket} {s : Dispatcher} {r : Registered}

/-- More connections change nothing for what is registered. -/
theorem Fitting.mono {conns conns' : List Accepted} (h : Fitting socks conns r)
    (hsub : conns ⊆ conns') : Fitting socks conns' r := by
  rcases h with h | ⟨hother, hnull | hmem⟩
  · exact Or.inl h
  · exact Or.inr ⟨hother, Or.inl hnull⟩
  · exact Or.inr ⟨hother, Or.inr (hsub hmem)⟩

/-- The other connections stay when one is taken out. -/
theorem Fitting.filter (h : Fitting socks s.conns r) (hinv : Inv socks s) {conn : Accepted}
    (hconn : conn ∈ s.conns) (hfd : r.fd ≠ conn.socket) :
    Fitting socks (s.conns.filter (·.addr ≠ conn.addr)) r := by
  rcases h with h | ⟨hother, hnull | hmem⟩
  · exact Or.inl h
  · exact Or.inr ⟨hother, Or.inl hnull⟩
  · refine Or.inr ⟨hother, Or.inr (List.mem_filter.mpr ⟨hmem, decide_eq_true ?_⟩)⟩
    intro hsame
    have heq := List.inj_on_of_nodup_map hinv.addrs_nodup hmem hconn hsame
    exact hfd (congrArg Accepted.socket heq)

/-- An accepted connection. Its socket and its address are new. -/
theorem Inv.accept (h : Inv socks s) (answer : Answer) :
    Inv socks (s.accept answer) ∧ s.conns ⊆ (s.accept answer).conns ∧
      (∀ sock ∈ socks, s.newSocket answer ≠ Fin.val sock) ∧
      (s.newConn answer = 0 ∨
        ⟨s.newConn answer, s.newSocket answer⟩ ∈ (s.accept answer).conns) := by
  have hsocket : s.newSocket answer ∉ s.opened := answer.fd_new s.opened
  have hapart : ∀ sock ∈ socks, s.newSocket answer ≠ Fin.val sock := by
    intro sock hsock heq
    exact hsocket (heq ▸ h.socks_open sock hsock)
  -- `sc_connection_new` fails, and the socket stays open without a connection, or there is a
  -- connection at an address that is new.
  by_cases hnull : s.newConn answer = 0
  · have hconns : (s.accept answer).conns = s.conns := if_pos hnull
    refine ⟨⟨?_, ?_, ?_, ?_, ?_, ?_, ?_, ?_, h.ready_nodup⟩, ?_, hapart, Or.inl hnull⟩
    · exact hconns ▸ h.addr_ne
    · exact hconns ▸ h.addrs_nodup
    · exact hconns ▸ h.sockets_nodup
    · exact fun conn hconn => List.mem_cons_of_mem _ (h.sockets_open conn (hconns ▸ hconn))
    · exact hconns ▸ h.sockets_apart
    · exact fun sock hsock => List.mem_cons_of_mem _ (h.socks_open sock hsock)
    · exact hconns ▸ h.interest
    · exact hconns ▸ h.ready
    · exact hconns ▸ List.Subset.refl _
  · have hconns : (s.accept answer).conns = ⟨s.newConn answer, s.newSocket answer⟩ :: s.conns :=
      if_neg hnull
    have haddr : s.newConn answer ∉ s.conns.map Accepted.addr :=
      (answer.malloc_new _).resolve_left hnull
    have hfresh : s.newSocket answer ∉ s.conns.map Accepted.socket := by
      intro hmem
      obtain ⟨conn, hconn, heq⟩ := List.mem_map.mp hmem
      exact hsocket (heq ▸ h.sockets_open conn hconn)
    have hsub : s.conns ⊆ (s.accept answer).conns := hconns ▸ List.subset_cons_self ..
    refine ⟨⟨?_, ?_, ?_, ?_, ?_, ?_, ?_, ?_, h.ready_nodup⟩, hsub, hapart, Or.inr ?_⟩
    · rw [hconns]
      exact List.forall_mem_cons.mpr ⟨hnull, h.addr_ne⟩
    · rw [hconns]
      exact List.nodup_cons.mpr ⟨haddr, h.addrs_nodup⟩
    · rw [hconns]
      exact List.nodup_cons.mpr ⟨hfresh, h.sockets_nodup⟩
    · rw [hconns]
      refine List.forall_mem_cons.mpr ⟨List.mem_cons_self, ?_⟩
      exact fun conn hconn => List.mem_cons_of_mem _ (h.sockets_open conn hconn)
    · rw [hconns]
      exact List.forall_mem_cons.mpr ⟨hapart, h.sockets_apart⟩
    · exact fun sock hsock => List.mem_cons_of_mem _ (h.socks_open sock hsock)
    · exact fun r hr => (h.interest r hr).mono hsub
    · exact fun r hr => (h.ready r hr).mono hsub
    · rw [hconns]
      exact List.mem_cons_self

/-- The inner loop keeps the invariant, the connections that there are, and the rest of the
batch. -/
theorem Inv.acceptLoop (h : Inv socks s) (data : BitVec 64) (answers : Nat → Answer) (j : Nat)
    (rest : List ListenSocket) :
    Inv socks (acceptLoop data answers j rest s).2 ∧
      s.conns ⊆ (Aggregator.acceptLoop data answers j rest s).2.conns ∧
      (Aggregator.acceptLoop data answers j rest s).2.ready = s.ready := by
  induction rest generalizing j s with
  | nil => exact ⟨h, List.Subset.refl _, rfl⟩
  | cons sock rest ih =>
    unfold Aggregator.acceptLoop
    by_cases hfd : dataFd data = sock
    · obtain ⟨hinv, hsub, hapart, hconn⟩ := h.accept (answers j)
      rw [if_pos hfd]
      -- A failed `accept` goes on with the next socket, and so does a failed `epoll_ctl`.
      by_cases hacc : (answers j).accepted = false
      · rw [if_pos hacc]
        exact ih h (j + 1)
      rw [if_neg hacc]
      by_cases hadd : (answers j).added = false
      · rw [if_pos hadd]
        obtain ⟨hinv', hsub', hready⟩ := ih hinv (j + 1)
        exact ⟨hinv', List.Subset.trans hsub hsub', hready⟩
      · rw [if_neg hadd]
        refine ⟨{ hinv with interest := ?_ }, hsub, rfl⟩
        exact List.forall_mem_cons.mpr ⟨Or.inr ⟨hapart, hconn⟩, hinv.interest⟩
    · rw [if_neg hfd]
      exact ih h (j + 1)

/-- The connection of an address. -/
theorem find?_addr {conn : Accepted} (h : Inv socks s) (hconn : conn ∈ s.conns) :
    s.conns.find? (·.addr = conn.addr) = some conn := by
  cases hfind : s.conns.find? (·.addr = conn.addr) with
  | none => exact absurd (List.find?_eq_none.mp hfind conn hconn) (by simp)
  | some conn' =>
    have hsame : conn'.addr = conn.addr := by simpa using List.find?_some hfind
    rw [List.inj_on_of_nodup_map h.addrs_nodup (List.mem_of_find?_eq_some hfind) hconn hsame]

/-- `do_receive` on a connection that is there. No other event of the batch is for its socket. -/
theorem Inv.receiveOn (h : Inv socks s) {conn : Accepted} (hconn : conn ∈ s.conns)
    (hready : ∀ r ∈ s.ready, r.fd ≠ conn.socket) (destroyed : Bool) :
    ∃ s', receiveOn s conn.addr destroyed = .ok s' ∧ Inv socks s' := by
  unfold Aggregator.receiveOn
  rw [find?_addr h hconn]
  cases destroyed with
  | false => exact ⟨s, rfl, h⟩
  | true =>
    have hkept : ∀ c ∈ s.conns.filter (·.addr ≠ conn.addr), c ∈ s.conns ∧ c.addr ≠ conn.addr := by
      intro c hc
      simpa using List.mem_filter.mp hc
    refine ⟨_, rfl, ?_, ?_, ?_, ?_, ?_, ?_, ?_, ?_, h.ready_nodup⟩
    · exact fun c hc => h.addr_ne c (hkept c hc).1
    · exact h.addrs_nodup.sublist (List.filter_sublist.map _)
    · exact h.sockets_nodup.sublist (List.filter_sublist.map _)
    -- The other connections have other sockets, so theirs stay open.
    · intro c hc
      obtain ⟨hmem, hne⟩ := hkept c hc
      have hother : c.socket ≠ conn.socket := by
        intro heq
        exact hne (congrArg Accepted.addr
          (List.inj_on_of_nodup_map h.sockets_nodup hmem hconn heq))
      exact (List.mem_erase_of_ne hother).mpr (h.sockets_open c hmem)
    · exact fun c hc => h.sockets_apart c (hkept c hc).1
    · intro sock hsock
      have hother := h.sockets_apart conn hconn sock hsock
      exact (List.mem_erase_of_ne (Ne.symm hother)).mpr (h.socks_open sock hsock)
    -- `close` takes the descriptor out of the interest list.
    · intro r hr
      obtain ⟨hmem, hne⟩ := List.mem_filter.mp hr
      exact (h.interest r hmem).filter h hconn (of_decide_eq_true hne)
    · exact fun r hr => (h.ready r hr).filter h hconn (hready r hr)

/-- A batch has each descriptor once. -/
theorem Inv.wait (h : Inv socks s) (fds : List Nat) :
    Inv socks { s with ready := s.reported fds } := by
  have hfd : ∀ fd r, s.interest.find? (·.fd = fd) = some r → r.fd = fd := by
    intro fd r hfind
    simpa using List.find?_some hfind
  refine { h with ready := ?_, ready_nodup := ?_ }
  · intro r hr
    obtain ⟨fd, -, hfind⟩ := List.mem_filterMap.mp (List.mem_of_mem_take hr)
    exact h.interest r (List.mem_of_find?_eq_some hfind)
  · -- The descriptors of the batch are some of those that are reported.
    have hsub : ∀ l : List Nat,
        ((l.filterMap fun fd => s.interest.find? (·.fd = fd)).map Registered.fd).Sublist l := by
      intro l
      induction l with
      | nil => exact List.Sublist.refl _
      | cons fd l ih =>
        cases hfind : s.interest.find? (·.fd = fd) with
        | none =>
          simp only [List.filterMap_cons, hfind]
          exact ih.cons fd
        | some r =>
          simp only [List.filterMap_cons, hfind, List.map_cons, hfd fd r hfind]
          exact ih.cons_cons fd
    exact ((List.take_sublist _ _).map _).nodup ((hsub fds.dedup).nodup (List.nodup_dedup fds))

end

end Compostela.Aggregator
