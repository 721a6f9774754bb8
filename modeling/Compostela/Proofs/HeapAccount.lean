import Compostela.Aggregator.Serving
import Mathlib.Data.Fintype.EquivFin

/-!
# `Compostela.Proofs.HeapAccount`: the aggregator does not misuse its memory

The memory of the aggregator over whole runs of `run_main`: connections are accepted, serve
requests and are closed in any order, and `malloc` gives out addresses as it likes, also those that
were freed. `heap_accounted` says that every run on values is also a run in memory. So no block is
used after it was freed, or freed twice, and what is sent and written is the same. It also says
what is in memory after the run: what the open connections own, and a string for each INIT request
so far. `handler_init` copies the name of the file into a block and does not free it.
-/

set_option autoImplicit false

namespace Compostela.Proofs.HeapAccount

open Compostela.Common
open Compostela.Memory
open Compostela.Runs
open Compostela.Segments
open Compostela.Separation
open Compostela.Aggregator
open Compostela.Aggregator.Blocks

/-- An open connection and where it is. -/
structure Placed where
  socket : Nat
  addr : Nat
  remote : Option Bytes
  entries : List Entry

namespace Placed

def conn (p : Placed) : ScConnection := ⟨p.remote, channelsOf p.entries⟩

/-- The connection in memory. -/
def held (p : Placed) : Assertion Held := connectionAt p.addr p.socket p.remote p.entries

end Placed

/-- The open connections in memory, and the strings that are lost. -/
def heapOf (ps : List Placed) (inits : Nat) : Assertion Held :=
  (ps.map Placed.held).prod * lostString ^ inits

/-- The states on values and in memory, after `n` calls. -/
structure InMemory (ps : List Placed) (n : Nat) (s : Serving) (t : Machine) : Prop where
  conns : s.conns = ps.map fun p => (p.socket, p.conn)
  interest : t.interest = ps.map fun p => (p.socket, p.addr)
  nodup : (ps.map Placed.socket).Nodup
  wellFormed : ∀ p ∈ ps, p.conn.WellFormed
  short : ∀ p ∈ ps, p.entries.length ≤ n
  fs : t.fs = s.fs
  sent : t.sent = s.sent
  finite : t.memory.Finite
  memory : heapOf ps s.inits t.memory

section
variable {cfg : Config} {fuel n : Nat} {ps : List Placed} {s s' : Serving} {t : Machine}

/-- The entry for a socket, among the open connections. -/
theorem entryFor_map {κ : Type} (f : Placed → κ) (socket : Nat) :
    entryFor socket (ps.map fun p => (p.socket, f p)) =
      (ps.find? fun p => p.socket = socket).map fun p => (p.socket, f p) := by
  rw [entryFor, List.find?_map]
  rfl

/-- An entry that is there, and the others. -/
theorem split_of_find {socket : Nat} {p : Placed} (hnodup : (ps.map Placed.socket).Nodup)
    (h : (ps.find? fun p => p.socket = socket) = some p) :
    ∃ front back, ps = front ++ p :: back ∧ p.socket = socket ∧
      ∀ q ∈ front ++ back, q.socket ≠ socket := by
  obtain ⟨hp, front, back, rfl, hfront⟩ := List.find?_eq_some_iff_append.mp h
  have hsocket : p.socket = socket := by simpa using hp
  refine ⟨front, back, rfl, hsocket, fun q hq => ?_⟩
  rw [List.map_append, List.map_cons] at hnodup
  obtain ⟨-, hback, hapart⟩ := List.nodup_append.mp hnodup
  rcases List.mem_append.mp hq with hq | hq
  · simpa using hfront q hq
  · intro heq
    exact (List.nodup_cons.mp hback).1 (hsocket.trans heq.symm ▸ List.mem_map_of_mem hq)

/-- A closed connection is taken out of the list, and the others stay. -/
theorem filter_socket {κ : Type} {f : Placed → κ} {socket : Nat} {p : Placed}
    {front back : List Placed} (hp : p.socket = socket)
    (hothers : ∀ q ∈ front ++ back, q.socket ≠ socket) :
    (((front ++ p :: back).map fun p => (p.socket, f p)).filter fun c => c.1 ≠ socket) =
      (front ++ back).map fun p => (p.socket, f p) := by
  rw [List.map_append, List.map_cons, List.filter_append, List.filter_cons_of_neg (by simp [hp]),
    ← List.filter_append, ← List.map_append]
  refine List.filter_eq_self.mpr fun c hc => ?_
  obtain ⟨q, hq, rfl⟩ := List.mem_map.mp hc
  simpa using hothers q hq

/-- A connection after a request stands in the place that it had. -/
theorem replace_socket {f : Placed → ScConnection} {socket : Nat} {p q : Placed}
    {front back : List Placed} (hp : p.socket = socket) (hq : q.socket = socket)
    (hothers : ∀ q ∈ front ++ back, q.socket ≠ socket) :
    (((front ++ p :: back).map fun p => (p.socket, f p)).map fun c =>
      if c.1 = socket then (socket, f q) else c) =
      (front ++ q :: back).map fun p => (p.socket, f p) := by
  have hsame : ∀ qs : List Placed, (∀ q ∈ qs, q.socket ≠ socket) →
      ((qs.map fun p => (p.socket, f p)).map fun c =>
        if c.1 = socket then (socket, f q) else c) = qs.map fun p => (p.socket, f p) := by
    intro qs hqs
    rw [List.map_map]
    exact List.map_congr_left fun x hx => if_neg (hqs x hx)
  simp only [List.map_append, List.map_cons]
  rw [hsame front fun x hx => hothers x (List.mem_append_left _ hx),
    hsame back fun x hx => hothers x (List.mem_append_right _ hx), if_pos hp, hq]

/-- What holds of all connections still does when one of them is replaced by one of which it
holds. -/
theorem forall_replace {Q : Placed → Prop} {p q : Placed} {front back : List Placed}
    (h : ∀ x ∈ front ++ p :: back, Q x) (hq : Q q) : ∀ x ∈ front ++ q :: back, Q x := by
  rw [List.forall_mem_append, List.forall_mem_cons] at h ⊢
  obtain ⟨hfront, -, hback⟩ := h
  exact ⟨hfront, hq, hback⟩

/-- The memory of the first connection beside that of the others. -/
theorem heapOf_cons {p : Placed} {inits : Nat} :
    heapOf (p :: ps) inits = p.held * heapOf ps inits := by
  rw [heapOf, List.map_cons, List.prod_cons, mul_assoc]
  rfl

/-- One connection, apart from the others. -/
theorem heapOf_split {p : Placed} {front back : List Placed} {inits : Nat} :
    heapOf (front ++ p :: back) inits = p.held * heapOf (front ++ back) inits := by
  rw [heapOf, Assertion.prod_map_split, mul_assoc]
  rfl

/-- Each further INIT request leaves one more lost string. -/
theorem heapOf_add {inits k : Nat} :
    heapOf ps (inits + k) = lostString ^ k * heapOf ps inits := by
  rw [heapOf, heapOf, pow_add]
  ac_rfl

/-- A call of `do_receive` closes the connection before it calls a handler, or keeps it. -/
theorem doReceive_closes_or_keeps {heap : Heap} {chunks : List Nat} {conn : ScConnection} {fs : Fs}
    {incoming : Incoming} {o : Outcome} (hwf : conn.WellFormed)
    (h : Aggregator.doReceive cfg heap chunks conn fs incoming = .ok o) :
    (o.conn = none → o.called = none) ∧ ∀ conn' ∈ o.conn, conn'.WellFormed := by
  obtain ⟨⟨received, rest⟩, -, h⟩ := bind_eq_ok.mp h
  cases received with
  | none =>
    cases h
    exact ⟨fun _ => rfl, nofun⟩
  | some m =>
    obtain ⟨r, hhandle, heq⟩ := bind_eq_ok.mp h
    cases heq
    refine ⟨nofun, fun conn' hconn' => ?_⟩
    rw [← Option.some.inj hconn']
    exact hwf.handle hhandle

/-- The run on blocks may have more fuel than it needs. -/
theorem InMemory.later (h : InMemory ps n s t) : InMemory ps (n + 1) s t :=
  { h with short := fun p hp => Nat.le_succ_of_le (h.short p hp) }

/-- An accepted connection gets its blocks. -/
theorem InMemory.accept (h : InMemory ps n s t) {alloc : Allocator} {socket : Nat} {sa : Bytes}
    {name : Option Bytes} (hstep : s.step cfg (.accept socket sa name) = .ok s') :
    ∃ ps' t', t.step cfg fuel (alloc, .accept socket sa name) = .ok t' ∧
      InMemory ps' (n + 1) s' t' := by
  simp only [Serving.step, h.conns, entryFor_map] at hstep
  simp only [Machine.step, h.interest, entryFor_map]
  cases hfind : ps.find? fun p => p.socket = socket with
  | some p =>
    rw [hfind] at hstep
    cases hstep
    exact ⟨ps, t, rfl, h.later⟩
  | none =>
    rw [hfind] at hstep
    cases hstep
    have hnew : ∀ p ∈ ps, p.socket ≠ socket := by
      intro p hp
      simpa using List.find?_eq_none.mp hfind p hp
    -- What was allocated before is the frame of the triple.
    have htriple : Triple (heapOf ps s.inits) (scConnectionNew alloc sa socket name)
        fun conn => connectionAt conn socket name [] * heapOf ps s.inits :=
      Triple.last (scConnectionNew_triple fun conn => Triple.pure fun m hm => hm)
    obtain ⟨conn, memory, hrun, hfin, hm⟩ := htriple.run h.finite h.memory
    refine ⟨⟨socket, conn, name, []⟩ :: ps, { t with
      interest := (socket, conn) :: t.interest, memory := memory }, ?_, ?_⟩
    · rw [← h.interest]
      simp only [Option.map_none, hrun, ok_bind]
    · refine ⟨rfl, congrArg (List.cons _) h.interest, ?_, ?_, ?_, h.fs, h.sent, hfin, ?_⟩
      · refine List.nodup_cons.mpr ⟨fun hmem => ?_, h.nodup⟩
        obtain ⟨p, hp, heq⟩ := List.mem_map.mp hmem
        exact hnew p hp heq
      · intro p hp
        rcases List.mem_cons.mp hp with rfl | hp
        · exact ScConnection.wellFormed_nil name
        · exact h.wellFormed p hp
      · intro p hp
        rcases List.mem_cons.mp hp with rfl | hp
        · exact Nat.zero_le _
        · exact h.later.short p hp
      · rw [heapOf_cons]
        exact hm

/-- What a call of `do_receive` leaves in memory of one connection. -/
theorem doReceive_leaves (alloc : Allocator) {call : Call} {p : Placed} {fs : Fs}
    {incoming : Incoming} {o : Outcome} {F : Assertion Held} {m : Memory}
    (hfuel : p.entries.length < fuel) (hwf : p.conn.WellFormed)
    (h : Aggregator.doReceive cfg call.heap call.chunks p.conn fs incoming = .ok o)
    (hfin : m.Finite) (hm : (p.held * F) m) :
    ∃ r m', doReceive alloc cfg call.heap fuel call.chunks p.addr fs incoming m = .ok (r, m') ∧
      m'.Finite ∧ r.fs = o.fs ∧ r.sent = o.sent ∧
      ((o.conn = none ∧ r.closed = some p.socket ∧ F m') ∨
        ∃ es', o.conn = some ⟨p.remote, channelsOf es'⟩ ∧ es'.length ≤ p.entries.length + 1 ∧
          r.closed = none ∧ (connectionAt p.addr p.socket p.remote es' *
            (lostString ^ initsOf (o.called.map Prod.fst) * F)) m') := by
  have htriple : Triple (p.held * F)
      (doReceive alloc cfg call.heap fuel call.chunks p.addr fs incoming) fun r m' =>
        r.fs = o.fs ∧ r.sent = o.sent ∧
        ((o.conn = none ∧ r.closed = some p.socket ∧ F m') ∨
          ∃ es', o.conn = some ⟨p.remote, channelsOf es'⟩ ∧ es'.length ≤ p.entries.length + 1 ∧
            r.closed = none ∧ (connectionAt p.addr p.socket p.remote es' *
              (lostString ^ initsOf (o.called.map Prod.fst) * F)) m') := by
    -- The connection is closed and its blocks are freed, or it stays with the list it has now.
    refine Triple.last (doReceive_triple hfuel hwf h rfl (fun hclosed => ?_)
      fun es' hopen hlen => ?_)
    · exact Triple.pure fun m hm => ⟨rfl, rfl, Or.inl ⟨hclosed, rfl, hm⟩⟩
    · exact Triple.pure fun m hm => ⟨rfl, rfl, Or.inr ⟨es', hopen, hlen, rfl, hm⟩⟩
  exact htriple.run hfin hm

/-- A call of `do_receive`. -/
theorem InMemory.receive (h : InMemory ps n s t) (hfuel : n < fuel) {alloc : Allocator}
    {socket : Nat} {call : Call} {incoming : Incoming}
    (hstep : s.step cfg (.receive socket call incoming) = .ok s') :
    ∃ ps' t', t.step cfg fuel (alloc, .receive socket call incoming) = .ok t' ∧
      InMemory ps' (n + 1) s' t' := by
  simp only [Serving.step, h.conns, entryFor_map] at hstep
  simp only [Machine.step, h.interest, entryFor_map]
  cases hfind : ps.find? fun p => p.socket = socket with
  | none =>
    rw [hfind] at hstep
    cases hstep
    exact ⟨ps, t, rfl, h.later⟩
  | some p =>
    rw [hfind] at hstep
    obtain ⟨front, back, rfl, hsocket, hothers⟩ := split_of_find h.nodup hfind
    simp only [Option.map_some] at hstep ⊢
    obtain ⟨o, hdo, heq⟩ := bind_eq_ok.mp hstep
    cases heq
    have hp : p ∈ front ++ p :: back := List.mem_append_right _ List.mem_cons_self
    have hsub : ∀ q ∈ front ++ back, q ∈ front ++ p :: back := fun q hq =>
      (List.mem_append.mp hq).elim (List.mem_append_left _)
        fun hq => List.mem_append_right _ (List.mem_cons_of_mem _ hq)
    have hm := h.memory
    -- The blocks of this connection are taken out of the heap, and the others are the frame.
    rw [heapOf_split] at hm
    obtain ⟨r, memory, hrun, hfin, hfs, hsent, hconn⟩ := doReceive_leaves alloc
      (Nat.lt_of_le_of_lt (h.short p hp) hfuel) (h.wellFormed p hp) hdo h.finite hm
    obtain ⟨hcloses, hkeeps⟩ := doReceive_closes_or_keeps (h.wellFormed p hp) hdo
    rw [h.fs, hrun, ok_bind]
    rcases hconn with ⟨hclosed, hr, hm'⟩ | ⟨es', hopen, hlen, hr, hm'⟩
    · refine ⟨front ++ back, _, rfl, ?_⟩
      simp only [hr, hclosed, hcloses hclosed, hsocket]
      refine ⟨filter_socket hsocket hothers, filter_socket hsocket hothers, ?_, ?_, ?_, hfs, ?_,
        hfin, hm'⟩
      · exact h.nodup.sublist ((List.sublist_cons_self p back).append_left front |>.map _)
      · exact fun q hq => h.wellFormed q (hsub q hq)
      · exact fun q hq => h.later.short q (hsub q hq)
      · rw [hsent, h.sent]
    · -- The connection is where it was, with another list.
      let q : Placed := ⟨p.socket, p.addr, p.remote, es'⟩
      refine ⟨front ++ q :: back, _, rfl, ?_⟩
      simp only [hr, hopen]
      refine ⟨replace_socket (f := Placed.conn) (q := q) hsocket hsocket hothers, ?_, ?_, ?_, ?_,
        hfs, ?_, hfin, ?_⟩
      · simp [q]
      · have hnodup := h.nodup
        rw [List.map_append, List.map_cons] at hnodup ⊢
        exact hnodup
      · exact forall_replace h.wellFormed (hkeeps _ hopen)
      · exact forall_replace h.later.short
          (Nat.le_trans hlen (Nat.succ_le_succ (h.short p hp)))
      · rw [hsent, h.sent]
      · rw [heapOf_split, heapOf_add]
        exact hm'

/-- One call. -/
theorem InMemory.step (h : InMemory ps n s t) (hfuel : n < fuel) {call : Allocator × ServingEvent}
    (hstep : s.step cfg call.2 = .ok s') :
    ∃ ps' t', t.step cfg fuel call = .ok t' ∧ InMemory ps' (n + 1) s' t' := by
  obtain ⟨alloc, event⟩ := call
  cases event with
  | accept socket sa name => exact h.accept hstep
  | receive socket call incoming => exact h.receive hfuel hstep

/-- A run, from any state. -/
theorem InMemory.run {calls : List (Allocator × ServingEvent)} (h : InMemory ps n s t)
    (hfuel : n + calls.length ≤ fuel)
    (hrun : (calls.map Prod.snd).foldlM (Serving.step cfg) s = .ok s') :
    ∃ ps' n' t', calls.foldlM (Machine.step cfg fuel) t = .ok t' ∧ InMemory ps' n' s' t' := by
  induction calls generalizing ps n s t with
  | nil =>
    cases hrun
    exact ⟨ps, n, t, rfl, h⟩
  | cons call calls ih =>
    rw [List.length_cons] at hfuel
    obtain ⟨s1, hstep, hrun⟩ := foldlM_cons_eq_ok.mp hrun
    have hlt : n < fuel := by omega
    have hle : n + 1 + calls.length ≤ fuel := by omega
    obtain ⟨ps1, t1, hstep', h1⟩ := h.step hlt hstep
    obtain ⟨ps', n', t', hrun', h'⟩ := ih h1 hle hrun
    exact ⟨ps', n', t', foldlM_cons_eq_ok.mpr ⟨t1, hstep', hrun'⟩, h'⟩

/-- The blocks of the open connections, and one for each lost string. -/
theorem InMemory.uses (h : InMemory ps n s t) :
    t.memory.Uses ((s.conns.map fun c => blocksOf c.2).sum + s.inits) := by
  have hconns : (s.conns.map fun c => blocksOf c.2) = ps.map fun p => blocksOf p.conn := by
    rw [h.conns, List.map_map]
    rfl
  have hlost : lostString.Counts 1 := Assertion.Counts.any fun _ => Assertion.Counts.cell
  have hcounts : (heapOf ps s.inits).Counts ((ps.map fun p => blocksOf p.conn).sum + s.inits * 1) :=
    (Assertion.Counts.prod_map fun p _ => counts_connectionAt).mul hlost.pow
  rw [Nat.mul_one, ← hconns] at hcounts
  exact hcounts _ h.memory

/-- Every run on values is a run in memory, with the same files and responses. After it the memory
holds the open connections, one string for each call of `handler_init`, and nothing else. -/
theorem heap_accounted {fs : Fs} {calls : List (Allocator × ServingEvent)}
    (hrun : (calls.map Prod.snd).foldlM (Serving.step cfg) (Serving.start fs) = .ok s)
    (hfuel : calls.length ≤ fuel) :
    ∃ ps t, calls.foldlM (Machine.step cfg fuel) (Machine.start fs) = .ok t ∧
      t.fs = s.fs ∧ t.sent = s.sent ∧
      s.conns = (ps.map fun p : Placed => (p.socket, p.conn)) ∧
      t.interest = (ps.map fun p : Placed => (p.socket, p.addr)) ∧
      heapOf ps s.inits t.memory ∧
      t.memory.Uses ((s.conns.map fun c => blocksOf c.2).sum + s.inits) := by
  have hstart : InMemory [] 0 (Serving.start fs) (Machine.start fs) := by
    refine ⟨rfl, rfl, List.nodup_nil, nofun, nofun, rfl, rfl, ⟨[], fun a ha => absurd rfl ha⟩, ?_⟩
    show ((1 : Assertion Held) * lostString ^ 0) Mem.empty
    rw [pow_zero, one_mul]
    rfl
  have hle : 0 + calls.length ≤ fuel := by omega
  obtain ⟨ps, n, t, hrun', h⟩ := hstart.run hle hrun
  exact ⟨ps, t, hrun', h.fs, h.sent, h.conns, h.interest, h.memory, h.uses⟩

end

/-! ### A small run -/

/-- What new memory holds. -/
def zeroed : (k : Kind) → BlockOf k
  | .string => []
  | .digest => []
  | .message => .ofContent 0 0 []
  | .sockaddr => []
  | .bytes => ⟨0, fun _ => 0⟩
  | .buffer => ⟨none, 0, 0, 0⟩
  | .node => ⟨none, 0⟩
  | .channel => ⟨0, 0, 0, 0, 0, none⟩
  | .connection => ⟨0, none, none, 0⟩

/-- Some address of every kind is not in use, since the memory is finite. -/
theorem exists_free (k : Kind) {m : Memory} (h : m.Finite) : ∃ n, m (k, n) = none := by
  obtain ⟨used, hused⟩ := h
  obtain ⟨n, hn⟩ := Infinite.exists_notMem_finset (used.map Prod.snd).toFinset
  refine ⟨n, ?_⟩
  by_contra hsome
  exact hn (List.mem_toFinset.mpr (List.mem_map_of_mem (hused (k, n) hsome)))

open Classical in
/-- A `malloc` that takes the first address that is not in use. -/
noncomputable def firstFree : Allocator where
  take k m := if h : ∃ n, m (k, n) = none then Nat.find h else 0
  fresh k _ := zeroed k
  take_new k m hfin := by
    have hfree := exists_free k hfin
    rw [dif_pos hfree]
    exact Nat.find_spec hfree

/-- An INIT request for the name `n`. -/
def initRequest : Frame := .ofContent SCM_MSG_INIT 0 [0, 0, 0, 0, 110] (by decide)

/-- A connection is accepted, registers a channel and is closed. -/
def smallEvents : List ServingEvent :=
  [.accept 4 [127] (some [97]),
    .receive 4 ⟨zeroHeap, []⟩ ⟨arrivalsOf initRequest.bytes, .eof⟩,
    .receive 4 ⟨zeroHeap, []⟩ ⟨[], .eof⟩]

/-- The name of the INIT request is all that is left. -/
theorem heap_accounted_small :
    ∃ t, (smallEvents.map (firstFree, ·)).foldlM (Machine.step (smallConfig []) 3)
        (Machine.start Fs.empty) = .ok t ∧ t.interest = [] ∧ t.memory.Uses 1 := by
  have hsmall : (((smallEvents.map (firstFree, ·)).map Prod.snd).foldlM
      (Serving.step (smallConfig [])) (Serving.start Fs.empty)).map
        (fun s => (s.conns.length, s.inits)) = .ok (0, 1) := rfl
  cases hrun : ((smallEvents.map (firstFree, ·)).map Prod.snd).foldlM
      (Serving.step (smallConfig [])) (Serving.start Fs.empty) with
  | error t =>
    rw [hrun] at hsmall
    cases hsmall
  | ok s =>
    rw [hrun] at hsmall
    have hfields : (s.conns.length, s.inits) = (0, 1) := Except.ok.inj hsmall
    -- No connection is left, and one INIT was handled.
    obtain ⟨hlength, hinits⟩ := Prod.mk.inj hfields
    have hconns := List.length_eq_zero_iff.mp hlength
    obtain ⟨ps, t, hrun', -, -, hps, hinterest, -, huses⟩ :=
      heap_accounted hrun (Nat.le_refl 3)
    rw [hconns] at hps
    obtain rfl := List.map_eq_nil_iff.mp hps.symm
    rw [hconns, hinits] at huses
    exact ⟨t, hrun', hinterest, huses⟩

end Compostela.Proofs.HeapAccount
