import Compostela.Aggregator.Channels
import Compostela.Common.AzListNodes
import Compostela.Lib.Separation

/-!
# `Compostela.Aggregator.Blocks`: what the aggregator allocates

Each object that `aggregator/main.c` gets from `malloc` is a block here, with the other blocks it
points to as addresses: an `sc_connection`, its `sockaddr` and `remote_addr`, the nodes of its
`channel_list`, each `sc_channel` with its two strings, the `az_buffer` of a channel and the bytes
of that. A pointer that can be null is an `Option`. `malloc` does not fail here, and what new
memory holds is not known.

The functions of `common/azbuffer.c` and `common/azlist.c` that the aggregator calls are here with
their allocations. `bufferAt` and `nodesAt` say what they own.

* `azBufferNew_triple`, `azBufferResize_triple` and `azBufferDestroy_triple`: a buffer has two
  blocks, and a resize moves the second one.
* `onNodes_triple`: what a function on the nodes of a list does to the memory.
-/

set_option autoImplicit false

namespace Compostela.Aggregator.Blocks

open Compostela.Chains
open Compostela.Common
open Compostela.Memory
open Compostela.Separation
open Compostela.Separation.Assertion

/-- What a block is allocated for. -/
inductive Kind
  | string
  | digest
  | message
  | sockaddr
  | bytes
  | buffer
  | node
  | channel
  | connection
  deriving DecidableEq, Repr

/-- `struct _az_buffer`, without the bytes. -/
structure BufferBlock where
  buffer : Option Nat
  cursor : Nat
  size : Nat
  used : Nat

/-- `sc_channel`. The aggregate contexts are not freed, so this one is not an address. -/
structure ChannelBlock where
  id : Int
  filename : Nat
  filenameFullpath : Nat
  buffer : Nat
  connection : Nat
  aggregateContext : Option ScAggregateContext

/-- `sc_connection`. -/
structure ConnectionBlock where
  sockaddr : Nat
  remoteAddr : Option Nat
  channelList : Option Nat
  socket : Nat

/-- What a block of a kind holds. -/
abbrev BlockOf : Kind → Type
  | .string => Bytes
  | .digest => Bytes
  | .message => ScLogMessage
  | .sockaddr => Bytes
  | .bytes => Block
  | .buffer => BufferBlock
  | .node => Node Nat Nat
  | .channel => ChannelBlock
  | .connection => ConnectionBlock

/-- What is held at an address. -/
abbrev Held (a : Kind × Nat) : Type := BlockOf a.1

/-- `malloc`: an address that is not in use, and what is in the new memory. -/
structure Allocator where
  take : Kind → Mem Held → Nat
  fresh : (k : Kind) → Mem Held → BlockOf k
  take_new : ∀ (k : Kind) (m : Mem Held), m.Finite → m (k, take k m) = none

/-- The memory of the aggregator. -/
abbrev Memory := Mem Held

/-- One block in memory. -/
abbrev held (k : Kind) (a : Nat) (b : BlockOf k) : Assertion Held := cell ((k, a) : Kind × Nat) b

/-! ### Allocation and pointers -/

/-- The block at an address. -/
abbrev read (k : Kind) (a : Nat) : Prog Held (BlockOf k) := load ((k, a) : Kind × Nat)

/-- A store to the block at an address. -/
abbrev write (k : Kind) (a : Nat) (b : BlockOf k) : Prog Held Unit :=
  store ((k, a) : Kind × Nat) b

/-- `free`, which does nothing for a null pointer. -/
def free (k : Kind) : Option Nat → Prog Held Unit
  | none => pure ()
  | some a => release ((k, a) : Kind × Nat)

section
variable (alloc : Allocator)

/-- `malloc`. -/
def malloc (k : Kind) : Prog Held Nat := fun m =>
  .ok (alloc.take k m, m.set (k, alloc.take k m) (alloc.fresh k m))

/-- `malloc`, and the stores to the new block. -/
def mallocWith (k : Kind) (b : BlockOf k) : Prog Held Nat := do
  let a ← malloc alloc k
  write k a b
  pure a

end

section
variable {alloc : Allocator} {γ : Type} {P F : Assertion Held} {S : γ → Assertion Held} {k : Kind}

/-- A field is read from a block of its kind. -/
theorem read_triple {a : Nat} {b : BlockOf k} {f : BlockOf k → Prog Held γ}
    (hP : P = held k a b * F) (hf : Triple P (f b) S) : Triple P (read k a >>= f) S :=
  Triple.load hP hf

/-- A block of one kind is written. -/
theorem write_triple {a : Nat} {b b' : BlockOf k} {f : Unit → Prog Held γ}
    (hP : P = held k a b' * F) (hf : Triple (held k a b * F) (f ()) S) :
    Triple P (write k a b >>= f) S :=
  Triple.store hP hf

/-- `malloc` gives a block whose content is not known. -/
theorem malloc_triple {f : Nat → Prog Held γ} (hf : ∀ a b, Triple (held k a b * P) (f a) S) :
    Triple P (malloc alloc k >>= f) S := by
  intro G m hfin hm
  have hnew : (held k (alloc.take k m) (alloc.fresh k m) * (P * G))
      (m.set (k, alloc.take k m) (alloc.fresh k m)) :=
    Mem.set_new hm (alloc.take_new k m hfin)
  rw [← mul_assoc] at hnew
  exact hf _ _ G _ (hfin.set _ _) hnew

/-- `malloc` with a content that is set at once. -/
theorem mallocWith_triple {b : BlockOf k} {f : Nat → Prog Held γ}
    (hf : ∀ a, Triple (held k a b * P) (f a) S) : Triple P (mallocWith alloc k b >>= f) S := by
  unfold mallocWith
  rw [bind_assoc]
  refine malloc_triple fun a b' => ?_
  rw [bind_assoc]
  exact write_triple rfl (hf a)

/-- `free` of a block that is owned. -/
theorem free_triple {a : Nat} {b : BlockOf k} {f : Unit → Prog Held γ} (hP : P = held k a b * F)
    (hf : Triple F (f ()) S) : Triple P (free k (some a) >>= f) S :=
  Triple.release hP hf

end

/-! ### Buffers -/

section
variable (alloc : Allocator) (heap : Heap)

/-- `az_buffer_new`. -/
def azBufferNew (size : Nat) : Prog Held Nat := do
  let buf ← malloc alloc .buffer
  let buffer ← mallocWith alloc .bytes ⟨size, heap.fresh⟩
  write .buffer buf ⟨some buffer, 0, size, 0⟩
  pure buf

/-- `az_buffer_destroy`. -/
def azBufferDestroy (buf : Nat) : Prog Held Unit := do
  let b ← read .buffer buf
  free .bytes b.buffer
  free .buffer (some buf)

/-- The bytes that `buf->buffer` points to. -/
def bytesAt : Option Nat → Prog Held Block
  | none => pure ⟨0, heap.fresh⟩
  | some buffer => read .bytes buffer

/-- A buffer with its bytes. -/
def readBuffer (buf : Nat) : Prog Held AzBuffer := do
  let b ← read .buffer buf
  let bytes ← bytesAt heap b.buffer
  pure ⟨bytes, b.cursor, b.size, b.used⟩

/-- The stores of a function that does not move the bytes. -/
def writeBuffer (buf : Nat) (v : AzBuffer) : Prog Held Unit := do
  let b ← read .buffer buf
  match b.buffer with
  | none => pure ()
  | some buffer => write .bytes buffer v.buffer
  write .buffer buf ⟨b.buffer, v.cursor, v.size, v.used⟩

/-- `az_buffer_resize`. A `realloc` that fails leaves the bytes where they are, and nothing points
to them. -/
def azBufferResize (buf newsize : Nat) : Prog Held Unit := do
  let b ← read .buffer buf
  let bytes ← bytesAt heap b.buffer
  if newsize < b.used then pure ()
  else if newsize ≤ PTRDIFF_MAX ∧ heap.realloc newsize = true then do
    free .bytes b.buffer
    let buffer ← mallocWith alloc .bytes
      ⟨newsize, fun i => if i < bytes.size then bytes.byte i else heap.fresh i⟩
    write .buffer buf { b with buffer := some buffer, size := newsize }
  else write .buffer buf { b with buffer := none, size := 0, cursor := 0 }

/-- `az_buffer_fetch_bytes`. -/
def azBufferFetchBytes (buf : Nat) (data : Bytes) : Prog Held Unit := do
  let v ← readBuffer heap buf
  let (_, v) ← Prog.call (Common.azBufferFetchBytes v data)
  writeBuffer buf v

end

/-- A buffer and its bytes. -/
def bufferAt (buf : Nat) (v : AzBuffer) : Assertion Held :=
  any fun buffer => held .buffer buf ⟨some buffer, v.cursor, v.size, v.used⟩ *
    held .bytes buffer v.buffer

section
variable {alloc : Allocator} {heap : Heap} {γ : Type} {P F : Assertion Held}
  {S : γ → Assertion Held} {buf : Nat} {v v' : AzBuffer}

/-- `az_buffer_new` allocates an empty buffer: its record, and the block of its bytes. -/
theorem azBufferNew_triple {size : Nat} {f : Nat → Prog Held γ}
    (hf : ∀ buf, Triple (bufferAt buf (Common.azBufferNew heap size) * P) (f buf) S) :
    Triple P (azBufferNew alloc heap size >>= f) S := by
  unfold azBufferNew
  rw [bind_assoc]
  refine malloc_triple fun buf b => ?_
  rw [bind_assoc]
  refine mallocWith_triple fun buffer => ?_
  rw [bind_assoc]
  refine write_triple (mul_left_comm _ _ _) ?_
  exact Triple.pack buffer (mul_assoc _ _ _).symm (hf buf)

/-- `az_buffer_destroy` frees both blocks of a buffer. -/
theorem azBufferDestroy_triple {f : Unit → Prog Held γ} (hP : P = bufferAt buf v * F)
    (hf : Triple F (f ()) S) : Triple P (azBufferDestroy buf >>= f) S := by
  refine Triple.unpack hP fun buffer => ?_
  unfold azBufferDestroy
  rw [bind_assoc]
  refine read_triple (mul_assoc _ _ _) ?_
  rw [bind_assoc]
  refine free_triple (F := held .buffer buf _ * F) (by ac_rfl) ?_
  exact free_triple rfl hf

/-- The value of a buffer is read from its two blocks. -/
theorem readBuffer_triple {f : AzBuffer → Prog Held γ} (hP : P = bufferAt buf v * F)
    (hf : Triple P (f v) S) : Triple P (readBuffer heap buf >>= f) S := by
  refine Triple.unpack hP fun buffer => ?_
  unfold readBuffer
  rw [bind_assoc]
  refine read_triple (mul_assoc _ _ _) ?_
  rw [bind_assoc]
  refine read_triple (F := held .buffer buf _ * F) (by ac_rfl) ?_
  rw [hP] at hf
  exact Triple.pack buffer rfl hf

/-- A new value of a buffer is written to its two blocks. -/
theorem writeBuffer_triple {f : Unit → Prog Held γ} (hP : P = bufferAt buf v * F)
    (hf : Triple (bufferAt buf v' * F) (f ()) S) : Triple P (writeBuffer buf v' >>= f) S := by
  refine Triple.unpack hP fun buffer => ?_
  unfold writeBuffer
  rw [bind_assoc]
  refine read_triple (mul_assoc _ _ _) ?_
  rw [bind_assoc]
  refine write_triple (F := held .buffer buf _ * F) (by ac_rfl) ?_
  refine write_triple (mul_left_comm _ _ _) ?_
  exact Triple.pack buffer (mul_assoc _ _ _).symm hf

/-- A resize that `realloc` serves. -/
theorem azBufferResize_triple {newsize : Nat} {f : Unit → Prog Held γ} (hused : v.used ≤ newsize)
    (hrealloc : newsize ≤ PTRDIFF_MAX ∧ heap.realloc newsize = true)
    (hP : P = bufferAt buf v * F)
    (hf : Triple (bufferAt buf (Common.azBufferResize heap v newsize).2 * F) (f ()) S) :
    Triple P (azBufferResize alloc heap buf newsize >>= f) S := by
  have hsmall : ¬ newsize < v.used := Nat.not_lt.mpr hused
  refine Triple.unpack hP fun buffer => ?_
  unfold azBufferResize
  rw [bind_assoc]
  refine read_triple (mul_assoc _ _ _) ?_
  rw [bind_assoc]
  refine read_triple (F := held .buffer buf _ * F) (by ac_rfl) ?_
  rw [if_neg hsmall, if_pos hrealloc, bind_assoc]
  refine free_triple (F := held .buffer buf _ * F) (by ac_rfl) ?_
  rw [bind_assoc]
  refine mallocWith_triple fun buffer' => ?_
  refine write_triple (mul_left_comm _ _ _) ?_
  simp only [Common.azBufferResize, if_neg hsmall, if_pos hrealloc] at hf
  exact Triple.pack buffer' (mul_assoc _ _ _).symm hf

/-- `az_buffer_fetch_bytes` on blocks does what it does on values. -/
theorem azBufferFetchBytes_triple {data : Bytes} {n : Nat} {f : Unit → Prog Held γ}
    (hfetch : Common.azBufferFetchBytes v data = .ok (n, v')) (hP : P = bufferAt buf v * F)
    (hf : Triple (bufferAt buf v' * F) (f ()) S) :
    Triple P (azBufferFetchBytes heap buf data >>= f) S := by
  unfold azBufferFetchBytes
  rw [bind_assoc]
  refine readBuffer_triple hP ?_
  rw [bind_assoc]
  refine Triple.call hfetch ?_
  exact writeBuffer_triple hP hf

end

/-! ### Nodes -/

/-- The nodes in memory. -/
def nodesOf (m : Memory) : Nodes Nat Nat := fun a => m (.node, a)

/-- The memory with other nodes. -/
def setNodes (m : Memory) (nodes : Nodes Nat Nat) : Memory
  | (.node, a) => nodes a
  | (k, a) => m (k, a)

/-- A function on the nodes. -/
def onNodes {γ : Type} (f : Nodes Nat Nat → Except Trap (γ × Nodes Nat Nat)) : Prog Held γ :=
  fun m => do
    let (r, nodes) ← f (nodesOf m)
    .ok (r, setNodes m nodes)

/-- The nodes of a list, each with its address and its object. -/
def nodesAt : Option Nat → List (Nat × Nat) → Assertion Held
  | p, [] => given (p = none) 1
  | p, (a, x) :: cells => given (p = some a) (any fun next =>
      held .node a ⟨next, x⟩ * nodesAt next cells)

/-- A null pointer is a list without nodes. -/
theorem nodesAt_none : nodesAt none [] = 1 := by
  funext m
  exact propext ⟨fun h => h.2, fun h => ⟨rfl, h⟩⟩

section
variable {γ : Type} {P F : Assertion Held} {S : γ → Assertion Held} {prog : Prog Held γ}
  {p next : Option Nat} {a x : Nat} {cells : List (Nat × Nat)}

/-- A list without cells before a program has a null pointer. -/
theorem nodesAt_nil (hP : P = nodesAt p [] * F) (h : p = none → Triple P prog S) :
    Triple P prog S := by
  refine Triple.fact (fun m hm => ?_) h
  rw [hP] at hm
  obtain ⟨m1, -, -, -, hnodes, -⟩ := hm
  exact hnodes.1

/-- A list before a program: its first node, and the list behind it. -/
theorem nodesAt_open (hP : P = nodesAt p ((a, x) :: cells) * F)
    (h : ∀ next, p = some a →
      Triple (held .node a ⟨next, x⟩ * (nodesAt next cells * F)) prog S) : Triple P prog S := by
  rw [hP]
  show Triple (given _ _ * F) prog S
  rw [given_mul]
  refine Triple.given fun hp => Triple.unpack rfl fun next => ?_
  rw [mul_assoc]
  exact h next hp

/-- A list is put together from a node and the list behind it. -/
theorem nodesAt_close (hP : P = held .node a ⟨next, x⟩ * (nodesAt next cells * F))
    (h : Triple (nodesAt (some a) ((a, x) :: cells) * F) prog S) : Triple P prog S := by
  refine h.pre fun m hm => ?_
  rw [hP, ← mul_assoc] at hm
  exact mul_mono (fun m hm => ⟨rfl, next, hm⟩) hm

end

/-- A buffer has two blocks. -/
theorem counts_bufferAt {buf : Nat} {v : AzBuffer} : (bufferAt buf v).Counts 2 :=
  Counts.any fun _ => Counts.cell.mul Counts.cell

/-- A list has one block for each cell. -/
theorem counts_nodesAt {p : Option Nat} {cells : List (Nat × Nat)} :
    (nodesAt p cells).Counts cells.length := by
  induction cells generalizing p with
  | nil => exact Counts.given fun _ => Counts.one
  | cons cell cells ih =>
    refine Counts.given fun _ => Counts.any fun next => ?_
    rw [List.length_cons, Nat.add_comm]
    exact Counts.cell.mul ih

/-- Blocks that are no nodes stay as they are when nodes are set. -/
theorem setNodes_of_ne (m : Memory) (nodes : Nodes Nat Nat) {k : Kind} (h : k ≠ .node) (a : Nat) :
    setNodes m nodes (k, a) = m (k, a) := by
  cases k <;> first | rfl | exact absurd rfl h

/-- The memory of a list is its chain of nodes, and nothing else. -/
theorem nodesAt_iff {p : Option Nat} {cells : List (Nat × Nat)} {m : Memory} :
    nodesAt p cells m ↔ Chain (nodesOf m) p cells ∧
      ∀ k a, m (k, a) ≠ none → k = .node ∧ a ∈ addresses cells := by
  induction cells generalizing p m with
  | nil =>
    constructor
    · rintro ⟨rfl, rfl⟩
      exact ⟨rfl, fun k a ha => absurd rfl ha⟩
    · rintro ⟨hp, hdom⟩
      refine ⟨hp, funext fun a => ?_⟩
      by_contra ha
      exact nomatch (hdom a.1 a.2 ha).2
  | cons cell cells ih =>
    obtain ⟨a, x⟩ := cell
    -- The memory without the first node is the list model without it.
    have hfree : nodesOf (m.erase (.node, a)) = (nodesOf m).free a := by
      funext b
      by_cases hb : b = a
      · rw [hb, Nodes.free_self]
        exact m.erase_self _
      · rw [Nodes.free_of_ne _ hb]
        exact m.erase_of_ne fun heq => hb (congrArg Prod.snd heq)
    constructor
    · rintro ⟨rfl, next, hm⟩
      obtain ⟨ha, hrest⟩ := cell_mul_iff.mp hm
      obtain ⟨hchain, hdom⟩ := ih.mp hrest
      rw [hfree] at hchain
      -- The node is not in the rest of the list, since the rest does without its block.
      have hnew : a ∉ addresses cells := fun hmem =>
        hchain.ne_none hmem (Nodes.free_self _ a)
      refine ⟨⟨rfl, next, ha, hchain.congr fun b hb => ?_⟩, fun k b hb => ?_⟩
      · have hne : b ≠ a := fun heq => hnew (heq ▸ hb)
        exact (Nodes.free_of_ne _ hne).symm
      · by_cases heq : ((k, b) : Kind × Nat) = (.node, a)
        · cases heq
          exact ⟨rfl, List.mem_cons_self⟩
        · rw [← m.erase_of_ne heq] at hb
          exact (hdom k b hb).imp_right (List.mem_cons_of_mem _)
    · rintro ⟨hchain, hdom⟩
      -- A chain goes through no node twice.
      have hnew : a ∉ addresses cells := (List.nodup_cons.mp hchain.nodup).1
      obtain ⟨next, -, hp, ha, hrest⟩ := hchain.read
      refine ⟨hp, next, cell_mul_iff.mpr ⟨ha, ih.mpr ⟨?_, fun k b hb => ?_⟩⟩⟩
      · rw [hfree]
        exact hrest.congr fun b hb => Nodes.free_of_ne _ fun heq => hnew (heq ▸ hb)
      · have hne : ((k, b) : Kind × Nat) ≠ (.node, a) := by
          intro heq
          rw [heq, m.erase_self] at hb
          exact hb rfl
        rw [m.erase_of_ne hne] at hb
        obtain ⟨rfl, hmem⟩ := hdom k b hb
        refine ⟨rfl, (List.mem_cons.mp hmem).resolve_left fun heq => hne ?_⟩
        rw [heq]

/-- Writing a node in the list model is setting its block in the memory. -/
theorem setNodes_write (m : Memory) (a : Nat) (node : Node Nat Nat) :
    setNodes m ((nodesOf m).write a node) = m.set (.node, a) node := by
  funext b
  obtain ⟨k, b⟩ := b
  by_cases hk : k = .node
  · subst hk
    by_cases hb : b = a
    · subst hb
      rw [m.set_self]
      exact Nodes.write_self _ b node
    · have hne : ((.node, b) : Kind × Nat) ≠ (.node, a) := fun heq => hb (congrArg Prod.snd heq)
      rw [m.set_of_ne _ hne]
      exact Nodes.write_of_ne _ node hb
  · have hne : ((k, b) : Kind × Nat) ≠ (.node, a) := fun heq => hk (congrArg Prod.fst heq)
    rw [m.set_of_ne _ hne]
    exact setNodes_of_ne _ _ hk b

/-- Other nodes in one part of the memory, when it has nothing but nodes. -/
theorem setNodes_union {m n : Memory} {nodes own : Nodes Nat Nat}
    (honly : ∀ k a, m (k, a) ≠ none → k = .node)
    (hnodes : ∀ a, nodes a = (own a).or (n (.node, a))) :
    setNodes (m.union n) nodes = (setNodes Mem.empty own).union n := by
  funext b
  obtain ⟨k, a⟩ := b
  by_cases hk : k = .node
  · subst hk
    exact hnodes a
  -- The first part holds nodes only.
  · have hnone : m (k, a) = none := by
      by_contra hsome
      exact hk (honly k a hsome)
    rw [setNodes_of_ne _ _ hk]
    show (m (k, a)).or (n (k, a)) = (setNodes Mem.empty own (k, a)).or (n (k, a))
    rw [hnone, setNodes_of_ne _ _ hk]
    rfl

section
variable {γ δ : Type} {P F : Assertion Held} {S : δ → Assertion Held} {p : Option Nat}
  {cells : List (Nat × Nat)}

/-- The nodes that are owned form a chain of the list model. -/
theorem nodesAt_chain {m : Memory} (hm : (nodesAt p cells * F) m) : Chain (nodesOf m) p cells := by
  obtain ⟨m1, m2, -, rfl, hlist, -⟩ := hm
  obtain ⟨hchain, -⟩ := nodesAt_iff.mp hlist
  refine hchain.congr fun a ha => ?_
  exact Option.or_of_isSome (Option.isSome_iff_ne_none.mpr (hchain.ne_none ha))

/-- The memory after a change of the nodes of one list. -/
theorem nodesAt_change {q : Option Nat} {cells' : List (Nat × Nat)} {nodes' : Nodes Nat Nat}
    {m : Memory} (hfin : m.Finite) (hm : (nodesAt p cells * F) m)
    (hchain' : Chain nodes' q cells') (hsub : ∀ a ∈ addresses cells', a ∈ addresses cells)
    (hgone : ∀ a ∈ addresses cells, a ∉ addresses cells' → nodes' a = none)
    (hsame : ∀ a ∉ addresses cells, nodes' a = nodesOf m a) :
    (nodesAt q cells' * F) (setNodes m nodes') ∧ (setNodes m nodes').Finite := by
  obtain ⟨m1, m2, hdis, rfl, hlist, hrest⟩ := hm
  obtain ⟨hchain, hdom⟩ := nodesAt_iff.mp hlist
  have hapart : ∀ a ∈ addresses cells, m2 (.node, a) = none := fun a ha =>
    (hdis (.node, a)).resolve_left (hchain.ne_none ha)
  -- The nodes of the list after it, and the nodes of the rest of the memory.
  let own : Nodes Nat Nat := fun a => if a ∈ addresses cells' then nodes' a else none
  have hnodes : ∀ a, nodes' a = (own a).or (m2 (.node, a)) := by
    intro a
    show _ = (if a ∈ addresses cells' then nodes' a else none).or _
    by_cases ha : a ∈ addresses cells
    · rw [hapart a ha, Option.or_none]
      split
      · rfl
      · rename_i ha'
        exact hgone a ha ha'
    · have hnone : m1 (.node, a) = none := by
        by_contra hsome
        exact ha (hdom .node a hsome).2
      rw [if_neg fun ha' => ha (hsub a ha'), hsame a ha]
      show (m1 (.node, a)).or (m2 (.node, a)) = _
      rw [hnone]
  have hsplit := setNodes_union (fun k a ha => (hdom k a ha).1) hnodes
  have hown : ∀ k a, setNodes Mem.empty own (k, a) ≠ none → k = .node ∧ a ∈ addresses cells' := by
    intro k a ha
    by_cases hk : k = .node
    · subst hk
      by_contra hmem
      exact ha (if_neg fun h => hmem ⟨rfl, h⟩)
    · exact absurd (setNodes_of_ne _ _ hk a) ha
  rw [hsplit]
  constructor
  · refine ⟨_, m2, fun b => ?_, rfl, nodesAt_iff.mpr ⟨?_, hown⟩, hrest⟩
    · obtain ⟨k, a⟩ := b
      by_contra h
      obtain ⟨h1, h2⟩ := not_or.mp h
      obtain ⟨rfl, hmem⟩ := hown k a h1
      exact h2 (hapart a (hsub a hmem))
    · exact hchain'.congr fun a ha => if_pos ha
  · -- No address is new.
    refine hfin.of_imp fun b hb hnone => ?_
    obtain ⟨k, a⟩ := b
    obtain ⟨h1, h2⟩ := Option.or_eq_none_iff.mp hnone
    apply hb
    refine Option.or_eq_none_iff.mpr ⟨?_, h2⟩
    by_contra hsome
    obtain ⟨rfl, hmem⟩ := hown k a hsome
    exact hchain.ne_none (hsub a hmem) h1

/-- A function that changes one list changes nothing else. -/
theorem onNodes_triple (next : γ → Option Nat) (cells' : List (Nat × Nat))
    {f : Nodes Nat Nat → Except Trap (γ × Nodes Nat Nat)} {g : γ → Prog Held δ}
    (hf : ∀ nodes, Chain nodes p cells → ∃ r nodes', f nodes = .ok (r, nodes') ∧
      Chain nodes' (next r) cells' ∧ (∀ a ∈ addresses cells', a ∈ addresses cells) ∧
      (∀ a ∈ addresses cells, a ∉ addresses cells' → nodes' a = none) ∧
      ∀ a ∉ addresses cells, nodes' a = nodes a)
    (hP : P = nodesAt p cells * F)
    (hg : ∀ r, Triple (nodesAt (next r) cells' * F) (g r) S) :
    Triple P (onNodes f >>= g) S := by
  intro G m hfin hm
  rw [hP, mul_assoc] at hm
  obtain ⟨r, nodes', hrun, hchain, hsub, hgone, hsame⟩ := hf _ (nodesAt_chain hm)
  obtain ⟨hnew, hfin'⟩ := nodesAt_change hfin hm hchain hsub hgone hsame
  rw [← mul_assoc] at hnew
  obtain ⟨r', m', hrun', hpost⟩ := hg r G _ hfin' hnew
  refine ⟨r', m', ?_, hpost⟩
  show (onNodes f m >>= fun r => g r.1 r.2) = _
  unfold onNodes
  rw [hrun]
  exact hrun'

end

/-- `az_list_add`. -/
def azListAdd (alloc : Allocator) (li : Option Nat) (object : Nat) : Prog Held (Option Nat) := do
  let a ← malloc alloc .node
  onNodes fun nodes => .ok (Linked.azListAdd nodes a li object)

/-- `az_list_delete`. -/
def azListDelete (fuel : Nat) (li : Option Nat) (object : Nat) : Prog Held (Option Nat) :=
  onNodes fun nodes => Linked.azListDelete object fuel nodes li

/-- `az_list_delete_all`. -/
def azListDeleteAll (fuel : Nat) (li : Option Nat) : Prog Held Unit :=
  onNodes fun nodes => do
    let nodes ← Linked.azListDeleteAll fuel nodes li
    .ok ((), nodes)

section
variable {alloc : Allocator} {δ : Type} {P F : Assertion Held} {S : δ → Assertion Held}
  {p : Option Nat} {cells : List (Nat × Nat)}

/-- `az_list_add` puts a node in front of a list. -/
theorem azListAdd_triple {x : Nat} {f : Option Nat → Prog Held δ} (hP : P = nodesAt p cells * F)
    (hf : ∀ a, Triple (nodesAt (some a) ((a, x) :: cells) * F) (f (some a)) S) :
    Triple P (azListAdd alloc p x >>= f) S := by
  unfold azListAdd
  rw [bind_assoc]
  refine malloc_triple fun a b => ?_
  have hlist : Triple (held .node a ⟨p, x⟩ * P) (f (some a)) S := by
    rw [hP]
    exact nodesAt_close rfl (hf a)
  -- The function is the store to the new node.
  have hstore : Triple (held .node a b * P) (write .node a ⟨p, x⟩ >>= fun _ => f (some a)) S :=
    write_triple rfl hlist
  intro G m hfin hm
  obtain ⟨r, m', hrun, hpost⟩ := hstore G m hfin hm
  refine ⟨r, m', ?_, hpost⟩
  show f (some a) (setNodes m ((nodesOf m).write a ⟨p, x⟩)) = _
  rw [setNodes_write]
  rw [mul_assoc] at hm
  change (store ((.node, a) : Kind × Nat) _ m >>= fun r => f (some a) r.2) = _ at hrun
  unfold store at hrun
  rw [(cell_mul_iff.mp hm).1] at hrun
  exact hrun

/-- `az_list_delete` takes the first node with the object out of a list and frees it. -/
theorem azListDelete_triple {fuel a x : Nat} {pre post : List (Nat × Nat)}
    {f : Option Nat → Prog Held δ} (hfirst : x ∉ objects pre) (hfuel : pre.length < fuel)
    (hP : P = nodesAt p (pre ++ (a, x) :: post) * F)
    (hf : ∀ q, Triple (nodesAt q (pre ++ post) * F) (f q) S) :
    Triple P (azListDelete fuel p x >>= f) S := by
  refine onNodes_triple id (pre ++ post) ?_ hP hf
  intro nodes hchain
  obtain ⟨q, nodes', hrun, hrest, hgone, hsame⟩ :=
    Linked.azListDelete_chain hchain hfirst hfuel
  refine ⟨q, nodes', hrun, hrest, fun b hb => ?_, fun b hb hb' => ?_, hsame⟩
  · rw [addresses, List.map_append] at hb ⊢
    exact (List.mem_append.mp hb).elim (List.mem_append_left _)
      fun hpost => List.mem_append_right _ (List.mem_cons_of_mem _ hpost)
  -- The one address that is gone is that of the deleted node.
  · rw [addresses, List.map_append, List.mem_append, not_or] at hb'
    rw [addresses, List.map_append, List.mem_append] at hb
    have hpost := hb.resolve_left hb'.1
    have hba : b = a := (List.mem_cons.mp hpost).resolve_right hb'.2
    rw [hba]
    exact hgone

/-- `az_list_delete_all` frees all nodes of a list. -/
theorem azListDeleteAll_triple {fuel : Nat} {f : Unit → Prog Held δ}
    (hfuel : cells.length < fuel) (hP : P = nodesAt p cells * F) (hf : Triple F (f ()) S) :
    Triple P (azListDeleteAll fuel p >>= f) S := by
  refine onNodes_triple (fun _ => none) [] ?_ hP fun _ => ?_
  · intro nodes hchain
    obtain ⟨nodes', hrun, hgone, hsame⟩ := Linked.azListDeleteAll_chain hchain hfuel
    refine ⟨(), nodes', ?_, rfl, ?_, fun b hb _ => hgone b hb, hsame⟩
    · rw [hrun]
      rfl
    · exact fun b hb => absurd hb List.not_mem_nil
  · rw [nodesAt_none, one_mul]
    exact hf

end

end Compostela.Aggregator.Blocks
