import Compostela.Aggregator.Blocks

/-!
# `Compostela.Aggregator.ChannelBlocks`: channels and connections in memory

The functions of `aggregator/main.c` that make, register, find and delete the channels of a
connection, on the blocks of `Aggregator.Blocks`. `Aggregator.Channels` has the same functions on
values. Walks along the nodes of a list get a budget.

`connectionAt` is a connection in memory with everything that it owns: the two blocks of its
address, the nodes of its list, and its channels with all that they own. An `Entry` is a registered
channel with its addresses.

* `scChannelNew_triple`, `scConnectionNew_triple`: what the new objects own.
* `scConnectionRegisterChannel_triple`, `scConnectionChannel_triple` and
  `scConnectionDeleteChannel_triple`: the functions do in memory what they do on values.
* `scChannelDestroy_triple`, `scConnectionDestroy_triple`: nothing is left.
-/

set_option autoImplicit false

namespace Compostela.Aggregator.Blocks

open Compostela.Chains
open Compostela.Common
open Compostela.Memory
open Compostela.Separation
open Compostela.Separation.Assertion

section
variable (alloc : Allocator) (cfg : Config) (heap : Heap)

/-- The string behind a pointer. -/
def readString : Option Nat → Prog Held (Option Bytes)
  | none => pure none
  | some s => do
      let bytes ← read .string s
      pure (some bytes)

/-- The string that `conn->remote_addr` points to. -/
def remoteAddr (conn : Nat) : Prog Held (Option Bytes) := do
  let block ← read .connection conn
  readString block.remoteAddr

/-- `sc_channel_new`. A null `remote_addr` ends the argument list of `pathcat`. -/
def scChannelNew (fname conn : Nat) : Prog Held Nat := do
  let channel ← malloc alloc .channel
  let name ← read .string fname
  let filename ← mallocWith alloc .string name
  let addr ← remoteAddr conn
  let path ← Prog.call (pathcat heap cfg.logdir
    (match addr with
      | some addr => [addr, name]
      | none => []))
  let fullpath ← mallocWith alloc .string path
  let buffer ← azBufferNew alloc heap LINE_BUFFER_SIZE
  let c ← read .channel channel
  write .channel channel { c with
    filename := filename, filenameFullpath := fullpath, buffer := buffer, connection := conn }
  pure channel

/-- `sc_channel_destroy`. -/
def scChannelDestroy (channel : Nat) : Prog Held Unit := do
  let c ← read .channel channel
  azBufferDestroy c.buffer
  free .string (some c.filenameFullpath)
  free .string (some c.filename)
  free .channel (some channel)

/-- `sc_connection_set_remote_addr`, with the name from `getnameinfo` or nothing when that fails. -/
def scConnectionSetRemoteAddr (conn : Nat) (name : Option Bytes) : Prog Held Unit := do
  let block ← read .connection conn
  match block.remoteAddr, name with
  | none, some hbuf => do
      let addr ← mallocWith alloc .string hbuf
      write .connection conn { block with remoteAddr := some addr }
  | _, _ => pure ()

/-- `sc_connection_new`. -/
def scConnectionNew (sa : Bytes) (s : Nat) (name : Option Bytes) : Prog Held Nat := do
  let conn ← malloc alloc .connection
  let sockaddr ← mallocWith alloc .sockaddr sa
  write .connection conn ⟨sockaddr, none, none, s⟩
  scConnectionSetRemoteAddr alloc conn name
  pure conn

/-- The loop of `sc_connection_destroy`. -/
def destroyLoop : Nat → Option Nat → Prog Held Unit
  | 0, _ => Prog.call (.error .hangs)
  | _ + 1, none => pure ()
  | fuel + 1, some li => do
      let node ← read .node li
      scChannelDestroy node.object
      let node ← read .node li
      destroyLoop fuel node.next

/-- `sc_connection_destroy`. -/
def scConnectionDestroy (fuel conn : Nat) : Prog Held Unit := do
  let block ← read .connection conn
  destroyLoop fuel block.channelList
  azListDeleteAll fuel block.channelList
  free .string block.remoteAddr
  free .sockaddr (some block.sockaddr)
  free .connection (some conn)

/-- The loop of `sc_connection_register_channel`. Nothing is returned for a channel that is
registered. -/
def registerLoop (channel : Nat) : Nat → Int → Option Nat → Prog Held (Option Int)
  | 0, _, _ => Prog.call (.error .hangs)
  | _ + 1, id, none => pure (some id)
  | fuel + 1, id, some li => do
      let node ← read .node li
      if channel = node.object then pure none
      else do
        let c ← read .channel node.object
        registerLoop channel fuel (if id < c.id then c.id else id) node.next

/-- `sc_connection_register_channel`. -/
def scConnectionRegisterChannel (fuel conn channel : Nat) : Prog Held Int := do
  let block ← read .connection conn
  match ← registerLoop channel fuel 0 block.channelList with
  | none => pure (-1)
  | some id => do
      let li ← azListAdd alloc block.channelList channel
      write .connection conn { block with channelList := li }
      if id = INT_MAX then Prog.call (.error .intOverflow)
      else do
        let c ← read .channel channel
        write .channel channel { c with id := id + 1 }
        pure 0

/-- The loop of `sc_connection_channel`, with `channel` the element visited before. -/
def channelLoop (id : Int) : Nat → Option Nat → Option Nat → Prog Held (Option Nat)
  | 0, _, _ => Prog.call (.error .hangs)
  | _ + 1, channel, none => pure channel
  | fuel + 1, _, some li => do
      let node ← read .node li
      let c ← read .channel node.object
      if c.id = id then pure (some node.object)
      else channelLoop id fuel (some node.object) node.next

/-- `sc_connection_channel`. -/
def scConnectionChannel (fuel conn : Nat) (id : Int) : Prog Held (Option Nat) := do
  let block ← read .connection conn
  channelLoop id fuel none block.channelList

/-- `sc_connection_delete_channel`. The deletion of a null channel runs over the end of the list. -/
def scConnectionDeleteChannel (fuel conn : Nat) (channel : Option Nat) : Prog Held Unit :=
  match channel with
  | none => Prog.call (.error .nullDeref)
  | some channel => do
      let block ← read .connection conn
      let li ← azListDelete fuel block.channelList channel
      write .connection conn { block with channelList := li }
      scChannelDestroy channel

end

/-! ### What is owned -/

/-- The addresses in an `sc_channel`. -/
structure ChannelParts where
  filename : Nat
  filenameFullpath : Nat
  buffer : Nat

/-- The `sc_channel` of a channel of the connection at `conn`. -/
def channelBlock (conn : Nat) (c : ScChannel) (parts : ChannelParts) : ChannelBlock :=
  ⟨c.id, parts.filename, parts.filenameFullpath, parts.buffer, conn, c.aggregateContext⟩

/-- What an `sc_channel` points to. -/
def partsAt (c : ScChannel) (parts : ChannelParts) : Assertion Held :=
  held .string parts.filename c.filename *
    (held .string parts.filenameFullpath c.filenameFullpath * bufferAt parts.buffer c.buffer)

/-- A channel of the connection at `conn`. -/
def channelAt (conn channel : Nat) (c : ScChannel) : Assertion Held :=
  any fun parts => held .channel channel (channelBlock conn c parts) * partsAt c parts

/-- A channel in the list of a connection: its node, its address and its value. -/
structure Entry where
  node : Nat
  addr : Nat
  channel : ScChannel

/-- The nodes of the list. -/
def cellsOf (es : List Entry) : List (Nat × Nat) := es.map fun e => (e.node, e.addr)

/-- The channels of the list. -/
def channelsOf (es : List Entry) : List ScChannel := es.map Entry.channel

/-- The channels of the list in memory. -/
def channelsAt (conn : Nat) (es : List Entry) : Assertion Held :=
  (es.map fun e => channelAt conn e.addr e.channel).prod

/-- The string of `remote_addr`. -/
def remoteAt : Option Nat → Option Bytes → Assertion Held
  | none, none => 1
  | some addr, some name => held .string addr name
  | _, _ => given False 1

/-- What an `sc_connection` points to, with these nodes in its list and these channels. -/
def connectionParts (conn : Nat) (block : ConnectionBlock) (remote : Option Bytes)
    (cells : List (Nat × Nat)) (es : List Entry) : Assertion Held :=
  any (fun sa => held .sockaddr block.sockaddr sa) * (remoteAt block.remoteAddr remote *
    (nodesAt block.channelList cells * channelsAt conn es))

/-- A connection, with these nodes in its list and these channels. -/
def connectionWith (conn socket : Nat) (remote : Option Bytes) (cells : List (Nat × Nat))
    (es : List Entry) : Assertion Held :=
  any fun block => given (block.socket = socket)
    (held .connection conn block * connectionParts conn block remote cells es)

/-- A connection and its channels. -/
def connectionAt (conn socket : Nat) (remote : Option Bytes) (es : List Entry) : Assertion Held :=
  connectionWith conn socket remote (cellsOf es) es

section
variable {γ : Type} {P F : Assertion Held} {S : γ → Assertion Held} {prog : Prog Held γ}
  {conn socket channel : Nat} {c : ScChannel} {remote : Option Bytes}
  {cells : List (Nat × Nat)} {e : Entry} {es : List Entry} {block : ConnectionBlock}

/-- A channel before a program: its own block, and the parts that the block points to. -/
theorem channelAt_open (hP : P = channelAt conn channel c * F)
    (h : ∀ parts, Triple (held .channel channel (channelBlock conn c parts) *
      (partsAt c parts * F)) prog S) : Triple P prog S := by
  refine Triple.unpack hP fun parts => ?_
  rw [mul_assoc]
  exact h parts

/-- A channel is put together from its block and its parts. -/
theorem channelAt_close (parts : ChannelParts)
    (hP : P = held .channel channel (channelBlock conn c parts) * (partsAt c parts * F))
    (h : Triple (channelAt conn channel c * F) prog S) : Triple P prog S :=
  Triple.pack parts (hP.trans (mul_assoc _ _ _).symm) h

/-- The display name of a channel in front of its other parts. -/
theorem partsAt_filename {parts : ChannelParts} : P * (partsAt c parts * F) =
    held .string parts.filename c.filename * (P *
      (held .string parts.filenameFullpath c.filenameFullpath *
        (bufferAt parts.buffer c.buffer * F))) := by
  rw [partsAt]
  ac_rfl

/-- The path of a channel in front of its other parts. -/
theorem partsAt_fullpath {parts : ChannelParts} : P * (partsAt c parts * F) =
    held .string parts.filenameFullpath c.filenameFullpath * (P *
      (held .string parts.filename c.filename * (bufferAt parts.buffer c.buffer * F))) := by
  rw [partsAt]
  ac_rfl

/-- The buffer of a channel in front of its other parts. -/
theorem partsAt_buffer {parts : ChannelParts} : P * (partsAt c parts * F) =
    bufferAt parts.buffer c.buffer * (P * (held .string parts.filename c.filename *
      (held .string parts.filenameFullpath c.filenameFullpath * F))) := by
  rw [partsAt]
  ac_rfl

/-- A connection before a program: its own block, and the parts that the block points to. -/
theorem connectionWith_open (hP : P = connectionWith conn socket remote cells es * F)
    (h : ∀ block, block.socket = socket → Triple (held .connection conn block *
      (connectionParts conn block remote cells es * F)) prog S) : Triple P prog S := by
  refine Triple.unpack hP fun block => ?_
  rw [given_mul, mul_assoc]
  exact Triple.given (h block)

/-- A connection is put together from a block with its socket and the parts. -/
theorem connectionWith_close (block : ConnectionBlock) (hsocket : block.socket = socket)
    (hP : P = held .connection conn block * (connectionParts conn block remote cells es * F))
    (h : Triple (connectionWith conn socket remote cells es * F) prog S) : Triple P prog S := by
  refine h.pre fun m hm => ?_
  rw [hP, ← mul_assoc] at hm
  exact mul_mono (fun m hm => ⟨block, hsocket, hm⟩) hm

/-- The list of a connection, apart from the rest. -/
theorem connectionParts_entries : held .connection conn block *
    (connectionParts conn block remote cells es * F) =
    nodesAt block.channelList cells * (channelsAt conn es *
      (remoteAt block.remoteAddr remote * (any (fun sa => held .sockaddr block.sockaddr sa) *
        (held .connection conn block * F)))) := by
  rw [connectionParts]
  ac_rfl

/-- A channel is at another address than a block beside it. -/
theorem channelAt_ne {channel' : Nat} {b : ChannelBlock} {m : Memory}
    (h : (channelAt conn channel c * (held .channel channel' b * F)) m) : channel' ≠ channel := by
  rw [channelAt, any_mul] at h
  obtain ⟨parts, hm⟩ := h
  have hswap : held .channel channel (channelBlock conn c parts) * partsAt c parts *
      (held .channel channel' b * F) = held .channel channel' b *
      (held .channel channel (channelBlock conn c parts) * (partsAt c parts * F)) := by
    ac_rfl
  rw [hswap] at hm
  exact fun heq => cell_ne hm (congrArg (Prod.mk Kind.channel) heq)

/-- Two channels that are owned at once have different addresses. -/
theorem channelAt_apart {channel' : Nat} {c' : ScChannel} {m : Memory}
    (h : (channelAt conn channel c * (channelAt conn channel' c' * F)) m) :
    channel' ≠ channel := by
  rw [mul_left_comm, channelAt, any_mul] at h
  obtain ⟨parts, hm⟩ := h
  rw [mul_assoc, third] at hm
  exact channelAt_ne hm

/-- The channels of a list are the first one and the others. -/
theorem channelsAt_cons :
    channelsAt conn (e :: es) = channelAt conn e.addr e.channel * channelsAt conn es := by
  rw [channelsAt, List.map_cons, List.prod_cons]
  rfl

/-- One channel of a list, apart from the others. -/
theorem channelsAt_split {front back : List Entry} :
    channelsAt conn (front ++ e :: back) =
      channelAt conn e.addr e.channel * channelsAt conn (front ++ back) :=
  prod_map_split (fun e : Entry => channelAt conn e.addr e.channel) front back e

/-- The first entry of a channel list before a program: its node, its channel, and the entries
behind them. -/
theorem entries_open {p : Option Nat}
    (hP : P = nodesAt p (cellsOf (e :: es)) * (channelsAt conn (e :: es) * F))
    (h : ∀ next, p = some e.node → Triple (held .node e.node ⟨next, e.addr⟩ *
      (channelAt conn e.addr e.channel * (nodesAt next (cellsOf es) *
        (channelsAt conn es * F)))) prog S) : Triple P prog S := by
  refine nodesAt_open hP fun next hp => ?_
  rw [channelsAt_cons, mul_assoc, mul_left_comm (nodesAt _ _)]
  exact h next hp

/-- An entry is put in front of a channel list from its node and its channel. -/
theorem entries_close {next : Option Nat}
    (hP : P = held .node e.node ⟨next, e.addr⟩ * (channelAt conn e.addr e.channel *
      (nodesAt next (cellsOf es) * (channelsAt conn es * F))))
    (h : Triple (nodesAt (some e.node) (cellsOf (e :: es)) * (channelsAt conn (e :: es) * F))
      prog S) : Triple P prog S := by
  rw [mul_left_comm (channelAt _ _ _), ← mul_assoc (channelAt _ _ _), ← channelsAt_cons] at hP
  exact nodesAt_close hP h

/-- One channel of a connection, apart from the rest. -/
theorem connectionWith_split {front back : List Entry} :
    connectionWith conn socket remote cells (front ++ e :: back) =
      channelAt conn e.addr e.channel *
        connectionWith conn socket remote cells (front ++ back) := by
  have hparts : ∀ block, connectionParts conn block remote cells (front ++ e :: back) =
      channelAt conn e.addr e.channel *
        connectionParts conn block remote cells (front ++ back) := by
    intro block
    rw [connectionParts, connectionParts, channelsAt_split]
    ac_rfl
  rw [connectionWith, connectionWith, mul_comm, any_mul]
  refine congrArg any (funext fun block => ?_)
  rw [given_mul, hparts]
  refine congrArg (given _) ?_
  ac_rfl

/-- The first channel of a connection apart from the rest of it. -/
theorem connectionAt_cons :
    connectionAt conn socket remote (e :: es) = channelAt conn e.addr e.channel *
      connectionWith conn socket remote (cellsOf (e :: es)) es := by
  show connectionWith conn socket remote _ ([] ++ e :: es) = _
  rw [connectionWith_split]
  rfl

/-- The channels of a connection are at different addresses. -/
theorem addr_ne {front back : List Entry} {m : Memory}
    (h : (connectionWith conn socket remote cells (front ++ e :: back) * F) m) :
    ∀ e' ∈ front ++ back, e'.addr ≠ e.addr := by
  intro e' he'
  obtain ⟨front', back', hsplit⟩ := List.append_of_mem he'
  rw [connectionWith_split, hsplit, connectionWith_split, mul_assoc, mul_assoc] at h
  exact channelAt_apart h

end

/-! ### Counting -/

/-- A channel has five blocks: its own, two strings, and the two of its buffer. -/
theorem counts_channelAt {conn channel : Nat} {c : ScChannel} :
    (channelAt conn channel c).Counts 5 :=
  Counts.any fun _ => Counts.cell.mul (Counts.cell.mul (Counts.cell.mul counts_bufferAt))

/-- The remote name is one block, when there is one. -/
theorem counts_remoteAt {p : Option Nat} {remote : Option Bytes} :
    (remoteAt p remote).Counts (if remote.isSome then 1 else 0) := by
  cases p with
  | none =>
    cases remote with
    | none => exact Counts.one
    | some name => exact Counts.given nofun
  | some addr =>
    cases remote with
    | none => exact Counts.given nofun
    | some name => exact Counts.cell

/-- The blocks of a connection: two and its name, and six for each channel with its node. -/
def blocksOf (conn : ScConnection) : Nat :=
  2 + (if conn.remoteAddr.isSome then 1 else 0) + 6 * conn.channelList.length

/-- A connection has as many blocks as `blocksOf` says of its value. -/
theorem counts_connectionAt {conn socket : Nat} {remote : Option Bytes} {es : List Entry} :
    (connectionAt conn socket remote es).Counts (blocksOf ⟨remote, channelsOf es⟩) := by
  refine Counts.any fun block => Counts.given fun _ => ?_
  have hchannels : (channelsAt conn es).Counts (es.map fun _ => 5).sum :=
    Counts.prod_map fun _ _ => counts_channelAt
  have hsum : blocksOf ⟨remote, channelsOf es⟩ = 1 + (1 + ((if remote.isSome then 1 else 0) +
      ((cellsOf es).length + (es.map fun _ => 5).sum))) := by
    simp [blocksOf, channelsOf, cellsOf]
    omega
  rw [hsum]
  exact Counts.cell.mul ((Counts.any fun _ => Counts.cell).mul
    (counts_remoteAt.mul (counts_nodesAt.mul hchannels)))

/-! ### Channels -/

section
variable {alloc : Allocator} {cfg : Config} {heap : Heap} {γ : Type} {P F : Assertion Held}
  {S : γ → Assertion Held} {conn socket : Nat} {remote : Option Bytes} {cells : List (Nat × Nat)}
  {es : List Entry}

/-- A program with a remote name: the pointer is null and there is no name, or it points to the
name. -/
theorem remoteAt_cases {p : Option Nat} {prog : Prog Held γ} (hP : P = remoteAt p remote * F)
    (hnone : p = none → remote = none → P = F → Triple P prog S)
    (hsome : ∀ addr name, p = some addr → remote = some name →
      P = held .string addr name * F → Triple P prog S) : Triple P prog S := by
  -- A pointer without a name, or a name without a pointer, holds of no memory.
  have hfalse : P = given False 1 * F → Triple P prog S := by
    intro heq
    rw [heq, given_mul]
    exact Triple.given nofun
  cases p with
  | none =>
    cases remote with
    | none => exact hnone rfl rfl (hP.trans (one_mul F))
    | some name => exact hfalse hP
  | some addr =>
    cases remote with
    | none => exact hfalse hP
    | some name => exact hsome addr name rfl rfl hP

/-- `readString` gives the remote name, or none for a null pointer. -/
theorem readString_triple {p : Option Nat} {f : Option Bytes → Prog Held γ}
    (hP : P = remoteAt p remote * F) (hf : Triple P (f remote) S) :
    Triple P (readString p >>= f) S := by
  refine remoteAt_cases hP ?_ ?_
  · rintro rfl rfl -
    exact hf
  · rintro addr name rfl rfl hP
    unfold readString
    rw [bind_assoc]
    exact read_triple hP hf

/-- `free` of the remote name takes its block away. A null pointer owns nothing. -/
theorem freeString_triple {p : Option Nat} {f : Unit → Prog Held γ}
    (hP : P = remoteAt p remote * F) (hf : Triple F (f ()) S) :
    Triple P (free .string p >>= f) S := by
  refine remoteAt_cases hP ?_ ?_
  · rintro rfl rfl heq
    rw [heq]
    exact hf
  · rintro addr name rfl rfl hP
    exact free_triple hP hf

/-- `remoteAddr` reads the remote name of a connection. -/
theorem remoteAddr_triple {f : Option Bytes → Prog Held γ}
    (hP : P = connectionWith conn socket remote cells es * F) (hf : Triple P (f remote) S) :
    Triple P (remoteAddr conn >>= f) S := by
  refine connectionWith_open hP fun block hsocket => ?_
  unfold remoteAddr
  rw [bind_assoc]
  refine read_triple rfl ?_
  have hstring : held .connection conn block * (connectionParts conn block remote cells es * F) =
      remoteAt block.remoteAddr remote * (held .connection conn block *
        (any (fun sa => held .sockaddr block.sockaddr sa) *
          (nodesAt block.channelList cells * channelsAt conn es) * F)) := by
    rw [connectionParts]
    ac_rfl
  refine readString_triple hstring ?_
  rw [hP] at hf
  exact connectionWith_close block hsocket rfl hf

/-- `sc_channel_new` allocates a channel with the name and the path. The program afterwards has to
work for every number and context that it is left with. -/
theorem scChannelNew_triple {fname : Nat} {name path : Bytes} {f : Nat → Prog Held γ}
    (hpath : pathcat heap cfg.logdir
      (match remote with
        | some addr => [addr, name]
        | none => []) = .ok path)
    (hP : P = held .string fname name * (connectionWith conn socket remote cells es * F))
    (hf : ∀ channel id cxt, Triple
      (channelAt conn channel ⟨id, name, path, Common.azBufferNew heap LINE_BUFFER_SIZE, cxt⟩ * P)
      (f channel) S) :
    Triple P (scChannelNew alloc cfg heap fname conn >>= f) S := by
  subst hP
  unfold scChannelNew
  rw [bind_assoc]
  -- One rule for each call of the function, in the order of the source. The block of the channel is
  -- written last, when its four pointers are known.
  refine malloc_triple fun channel b => ?_
  rw [bind_assoc]
  refine read_triple (mul_left_comm _ _ _) ?_
  rw [bind_assoc]
  refine mallocWith_triple fun filename => ?_
  rw [bind_assoc]
  refine remoteAddr_triple (fourth _ _ _ _ _) ?_
  rw [bind_assoc]
  refine Triple.call hpath ?_
  rw [bind_assoc]
  refine mallocWith_triple fun fullpath => ?_
  rw [bind_assoc]
  refine azBufferNew_triple fun buffer => ?_
  rw [bind_assoc]
  refine read_triple (fourth _ _ _ _ _) ?_
  rw [bind_assoc]
  refine write_triple (fourth _ _ _ _ _) ?_
  refine channelAt_close ⟨filename, fullpath, buffer⟩ ?_
    (hf channel b.id b.aggregateContext)
  refine congrArg (held .channel channel _ * ·) ?_
  rw [partsAt]
  ac_rfl

/-- `sc_channel_destroy` frees all blocks of a channel. -/
theorem scChannelDestroy_triple {channel : Nat} {c : ScChannel} {f : Unit → Prog Held γ}
    (hP : P = channelAt conn channel c * F) (hf : Triple F (f ()) S) :
    Triple P (scChannelDestroy channel >>= f) S := by
  refine channelAt_open hP fun parts => ?_
  unfold scChannelDestroy
  rw [bind_assoc]
  refine read_triple rfl ?_
  rw [bind_assoc]
  -- The parts of the channel are taken out one by one, in the order they are freed.
  have hparts : held .channel channel (channelBlock conn c parts) * (partsAt c parts * F) =
      bufferAt parts.buffer c.buffer * (held .string parts.filenameFullpath c.filenameFullpath *
        (held .string parts.filename c.filename *
          (held .channel channel (channelBlock conn c parts) * F))) := by
    rw [partsAt]
    ac_rfl
  refine azBufferDestroy_triple hparts ?_
  rw [bind_assoc]
  refine free_triple rfl ?_
  rw [bind_assoc]
  refine free_triple rfl ?_
  exact free_triple rfl hf

/-! ### Connections -/

/-- A connection without channels. -/
theorem connectionAt_new (block : ConnectionBlock) (sa : Bytes) {prog : Prog Held γ}
    (hsocket : block.socket = socket) (hlist : block.channelList = none)
    (hP : P = held .connection conn block *
      (held .sockaddr block.sockaddr sa * (remoteAt block.remoteAddr remote * F)))
    (h : Triple (connectionAt conn socket remote [] * F) prog S) : Triple P prog S := by
  have hparts : connectionParts conn block remote (cellsOf []) [] =
      any (fun sa => held .sockaddr block.sockaddr sa) * remoteAt block.remoteAddr remote := by
    have hempty : channelsAt conn [] = 1 := rfl
    rw [connectionParts, hlist, hempty, mul_one]
    show _ * (_ * nodesAt none []) = _
    rw [nodesAt_none, mul_one]
  refine Triple.pack sa (hP.trans (mul_left_comm _ _ _)) ?_
  refine connectionWith_close block hsocket ?_ h
  rw [hparts]
  ac_rfl

/-- `sc_connection_new` allocates a connection without channels. -/
theorem scConnectionNew_triple {sa : Bytes} {f : Nat → Prog Held γ}
    (hf : ∀ conn, Triple (connectionAt conn socket remote [] * P) (f conn) S) :
    Triple P (scConnectionNew alloc sa socket remote >>= f) S := by
  unfold scConnectionNew scConnectionSetRemoteAddr
  rw [bind_assoc]
  refine malloc_triple fun conn b => ?_
  rw [bind_assoc]
  refine mallocWith_triple fun sockaddr => ?_
  rw [bind_assoc]
  refine write_triple (mul_left_comm _ _ _) ?_
  rw [bind_assoc, bind_assoc]
  refine read_triple rfl ?_
  -- `sc_connection_set_remote_addr` allocates a string for a name, and nothing for none.
  cases remote with
  | none =>
    exact connectionAt_new ⟨sockaddr, none, none, socket⟩ sa rfl rfl
      (by rw [remoteAt, one_mul]) (hf conn)
  | some hbuf =>
    show Triple _ (mallocWith alloc .string hbuf >>= _ >>= _) S
    rw [bind_assoc]
    refine mallocWith_triple fun addr => ?_
    refine write_triple (mul_left_comm _ _ _) ?_
    refine connectionAt_new ⟨sockaddr, some addr, none, socket⟩ sa rfl rfl ?_ (hf conn)
    exact congrArg (held .connection conn _ * ·) (mul_left_comm _ _ _)

/-- The loop of `sc_connection_destroy` destroys the channels of all entries and leaves the
nodes. -/
theorem destroyLoop_triple {fuel : Nat} {p : Option Nat} {f : Unit → Prog Held γ}
    (hfuel : es.length < fuel) (hP : P = nodesAt p (cellsOf es) * (channelsAt conn es * F))
    (hf : Triple (nodesAt p (cellsOf es) * F) (f ()) S) :
    Triple P (destroyLoop fuel p >>= f) S := by
  induction es generalizing p fuel P F with
  | nil =>
    obtain ⟨fuel, rfl⟩ := Nat.exists_eq_add_one_of_ne_zero (Nat.ne_zero_of_lt hfuel)
    have hempty : channelsAt conn [] = 1 := rfl
    rw [hempty, one_mul] at hP
    refine nodesAt_nil hP fun hp => ?_
    subst hp
    rw [hP]
    exact hf
  | cons e es ih =>
    obtain ⟨fuel, rfl⟩ := Nat.exists_eq_add_one_of_ne_zero (Nat.ne_zero_of_lt hfuel)
    refine entries_open hP fun next hp => ?_
    subst hp
    unfold destroyLoop
    rw [bind_assoc]
    refine read_triple rfl ?_
    rw [bind_assoc]
    refine scChannelDestroy_triple (mul_left_comm _ _ _) ?_
    rw [bind_assoc]
    refine read_triple rfl ?_
    -- The node stays until `az_list_delete_all`: it goes to the rest of the memory.
    refine ih (F := held .node e.node ⟨next, e.addr⟩ * F) (Nat.lt_of_succ_lt_succ hfuel)
      (by ac_rfl) ?_
    exact nodesAt_close (mul_left_comm _ _ _) hf

/-- `sc_connection_destroy` frees all blocks of a connection, those of its channels too. -/
theorem scConnectionDestroy_triple {fuel : Nat} {f : Unit → Prog Held γ}
    (hfuel : es.length < fuel) (hP : P = connectionAt conn socket remote es * F)
    (hf : Triple F (f ()) S) : Triple P (scConnectionDestroy fuel conn >>= f) S := by
  refine connectionWith_open hP fun block hsocket => ?_
  unfold scConnectionDestroy
  rw [bind_assoc]
  refine read_triple rfl ?_
  rw [bind_assoc]
  refine destroyLoop_triple hfuel connectionParts_entries ?_
  rw [bind_assoc]
  -- The channels are gone, and the nodes of the list follow.
  have hcells : (cellsOf es).length < fuel := by
    rwa [cellsOf, List.length_map]
  refine azListDeleteAll_triple hcells rfl ?_
  rw [bind_assoc]
  refine freeString_triple rfl ?_
  rw [bind_assoc]
  refine Triple.unpack rfl fun sa => ?_
  refine free_triple rfl ?_
  exact free_triple rfl hf

/-- A channel that is not registered. -/
theorem registerLoop_triple {channel fuel : Nat} {b : ChannelBlock} {id : Int} {p : Option Nat}
    {f : Option Int → Prog Held γ} (hfuel : es.length < fuel)
    (hP : P = nodesAt p (cellsOf es) * (channelsAt conn es * (held .channel channel b * F)))
    (hf : Triple P
      (f (some ((channelsOf es).foldl (fun id c => if id < c.id then c.id else id) id))) S) :
    Triple P (registerLoop channel fuel id p >>= f) S := by
  induction es generalizing p fuel id P F with
  | nil =>
    obtain ⟨fuel, rfl⟩ := Nat.exists_eq_add_one_of_ne_zero (Nat.ne_zero_of_lt hfuel)
    refine nodesAt_nil hP fun hp => ?_
    subst hp
    exact hf
  | cons e es ih =>
    obtain ⟨fuel, rfl⟩ := Nat.exists_eq_add_one_of_ne_zero (Nat.ne_zero_of_lt hfuel)
    refine entries_open hP fun next hp => ?_
    subst hp
    unfold registerLoop
    rw [bind_assoc]
    refine read_triple rfl ?_
    -- The new channel is apart from this one, so it is not the same.
    refine Triple.fact (p := channel ≠ e.addr) (fun m hm => ?_) fun hne => ?_
    · have hswap : held .node e.node ⟨next, e.addr⟩ * (channelAt conn e.addr e.channel *
          (nodesAt next (cellsOf es) * (channelsAt conn es * (held .channel channel b * F)))) =
          channelAt conn e.addr e.channel * (held .channel channel b *
            (held .node e.node ⟨next, e.addr⟩ * (nodesAt next (cellsOf es) *
              (channelsAt conn es * F)))) := by
        ac_rfl
      rw [hswap] at hm
      exact channelAt_ne hm
    rw [if_neg hne, bind_assoc]
    refine channelAt_open (mul_left_comm _ _ _) fun parts => ?_
    refine read_triple rfl ?_
    refine channelAt_close parts rfl ?_
    refine ih (F := channelAt conn e.addr e.channel * (held .node e.node ⟨next, e.addr⟩ * F))
      (Nat.lt_of_succ_lt_succ hfuel) (by ac_rfl) ?_
    rw [hP] at hf
    exact entries_close (mul_left_comm _ _ _) hf

/-- The registration of a new channel. -/
theorem scConnectionRegisterChannel_triple {channel fuel : Nat} {c : ScChannel}
    {f : Int → Prog Held γ} (hfuel : es.length < fuel) (hmax : maxId (channelsOf es) ≠ INT_MAX)
    (hP : P = channelAt conn channel c * (connectionAt conn socket remote es * F))
    (hf : ∀ node, Triple (connectionAt conn socket remote
        (⟨node, channel, { c with id := maxId (channelsOf es) + 1 }⟩ :: es) * F) (f 0) S) :
    Triple P (scConnectionRegisterChannel alloc fuel conn channel >>= f) S := by
  refine channelAt_open hP fun parts => ?_
  refine connectionWith_open (third _ _ _ _) fun block hsocket => ?_
  unfold scConnectionRegisterChannel
  rw [bind_assoc]
  refine read_triple rfl ?_
  rw [bind_assoc]
  have hparts : held .connection conn block *
      (connectionParts conn block remote (cellsOf es) es *
        (held .channel channel (channelBlock conn c parts) * (partsAt c parts * F))) =
      nodesAt block.channelList (cellsOf es) * (channelsAt conn es *
        (held .channel channel (channelBlock conn c parts) * (held .connection conn block *
          (any (fun sa => held .sockaddr block.sockaddr sa) *
            (remoteAt block.remoteAddr remote * (partsAt c parts * F)))))) := by
    rw [connectionParts]
    ac_rfl
  -- The loop goes over the nodes and channels, so these come first.
  rw [hparts]
  refine registerLoop_triple hfuel rfl ?_
  show Triple _ ((azListAdd alloc block.channelList channel >>= _) >>= _) S
  rw [bind_assoc]
  refine azListAdd_triple rfl fun node => ?_
  rw [bind_assoc]
  refine write_triple (fourth _ _ _ _ _) ?_
  -- The model traps where the C code would overflow, so the number has a successor.
  have hid : (channelsOf es).foldl (fun id c => if id < c.id then c.id else id) 0 ≠ INT_MAX := hmax
  rw [if_neg hid, bind_assoc]
  refine read_triple (fourth _ _ _ _ _) ?_
  rw [bind_assoc]
  refine write_triple (fourth _ _ _ _ _) ?_
  -- What is left after the last write is the connection with one more entry.
  have hlist : Triple (channelAt conn channel { c with id := maxId (channelsOf es) + 1 } *
      (held .connection conn ⟨block.sockaddr, block.remoteAddr, some node, block.socket⟩ *
        (nodesAt (some node) ((node, channel) :: cellsOf es) * (channelsAt conn es *
          (any (fun sa => held .sockaddr block.sockaddr sa) *
            (remoteAt block.remoteAddr remote * F)))))) (pure 0 >>= f) S := by
    refine connectionWith_close ⟨block.sockaddr, block.remoteAddr, some node, block.socket⟩
      hsocket ?_ (hf node)
    rw [connectionParts, channelsAt_cons]
    show _ = _ * (_ * (_ * (nodesAt (some node) ((node, channel) :: cellsOf es) * _)) * _)
    ac_rfl
  refine channelAt_close parts ?_ hlist
  refine congrArg (held .channel channel _ * ·) ?_
  have hsame : partsAt { c with id := maxId (channelsOf es) + 1 } parts = partsAt c parts := rfl
  rw [hsame]
  ac_rfl

/-- A lookup gives one of the channels of the list. -/
theorem channelLoop_triple {fuel : Nat} {id : Int} {p : Option Nat} {prev : Option Entry}
    {f : Option Nat → Prog Held γ} (hfuel : es.length < fuel)
    (hP : P = nodesAt p (cellsOf es) * (channelsAt conn es * F))
    (hf : ∀ found : Option Entry, (∀ e ∈ found, e ∈ es ∨ some e = prev) →
      Aggregator.channelLoop id (prev.map Entry.channel) (channelsOf es) =
        found.map Entry.channel → Triple P (f (found.map Entry.addr)) S) :
    Triple P (channelLoop id fuel (prev.map Entry.addr) p >>= f) S := by
  induction es generalizing p fuel prev P F with
  | nil =>
    obtain ⟨fuel, rfl⟩ := Nat.exists_eq_add_one_of_ne_zero (Nat.ne_zero_of_lt hfuel)
    refine nodesAt_nil hP fun hp => ?_
    subst hp
    exact hf prev (fun e he => Or.inr he.symm) rfl
  | cons e es ih =>
    obtain ⟨fuel, rfl⟩ := Nat.exists_eq_add_one_of_ne_zero (Nat.ne_zero_of_lt hfuel)
    refine entries_open hP fun next hp => ?_
    subst hp
    unfold channelLoop
    rw [bind_assoc]
    refine read_triple rfl ?_
    rw [bind_assoc]
    refine channelAt_open (mul_left_comm _ _ _) fun parts => ?_
    refine read_triple rfl ?_
    refine channelAt_close parts rfl ?_
    rw [hP] at hf
    show Triple _ ((if e.channel.id = id then pure (some e.addr)
      else channelLoop id fuel (some e.addr) next) >>= f) S
    -- The loop stops at the channel with the number, and remembers each other one on the way.
    by_cases hid : e.channel.id = id
    · rw [if_pos hid]
      refine entries_close (mul_left_comm _ _ _) (hf (some e) (fun e' he' => ?_) ?_)
      · cases he'
        exact Or.inl List.mem_cons_self
      · exact if_pos hid
    · rw [if_neg hid]
      show Triple _ (channelLoop id fuel ((some e).map Entry.addr) next >>= f) S
      refine ih (F := channelAt conn e.addr e.channel * (held .node e.node ⟨next, e.addr⟩ * F))
        (Nat.lt_of_succ_lt_succ hfuel) (by ac_rfl) ?_
      intro found hmem hfound
      refine entries_close (mul_left_comm _ _ _) (hf found (fun e' he' => ?_) ?_)
      · rcases hmem e' he' with hin | heq
        · exact Or.inl (List.mem_cons_of_mem _ hin)
        · cases heq
          exact Or.inl List.mem_cons_self
      · rw [← hfound]
        exact if_neg hid

/-- `sc_connection_channel` finds the address of the channel that the value-level lookup finds. -/
theorem scConnectionChannel_triple {fuel : Nat} {id : Int} {f : Option Nat → Prog Held γ}
    (hfuel : es.length < fuel) (hP : P = connectionAt conn socket remote es * F)
    (hf : ∀ found : Option Entry, (∀ e ∈ found, e ∈ es) →
      Aggregator.scConnectionChannel ⟨remote, channelsOf es⟩ id = found.map Entry.channel →
        Triple P (f (found.map Entry.addr)) S) :
    Triple P (scConnectionChannel fuel conn id >>= f) S := by
  refine connectionWith_open hP fun block hsocket => ?_
  unfold scConnectionChannel
  rw [bind_assoc]
  refine read_triple rfl ?_
  rw [hP] at hf
  show Triple _ (channelLoop id fuel ((none : Option Entry).map Entry.addr) block.channelList >>= f)
    S
  refine channelLoop_triple hfuel connectionParts_entries ?_
  -- The loop gives a channel of the list or a null pointer.
  intro found hmem hfound
  refine connectionWith_close block hsocket rfl (hf found (fun e he => ?_) hfound)
  exact (hmem e he).resolve_right nofun

/-- The deletion of a channel of the list. -/
theorem scConnectionDeleteChannel_triple {fuel : Nat} {e : Entry} {front back : List Entry}
    {f : Unit → Prog Held γ} (hfuel : front.length < fuel)
    (hP : P = connectionAt conn socket remote (front ++ e :: back) * F)
    (hf : Triple (connectionAt conn socket remote (front ++ back) * F) (f ()) S) :
    Triple P (scConnectionDeleteChannel fuel conn (some e.addr) >>= f) S := by
  -- No other channel has the address, or its block would be owned twice.
  refine Triple.fact (p := ∀ e' ∈ front ++ back, e'.addr ≠ e.addr) (fun m hm => ?_) fun hne => ?_
  · rw [hP] at hm
    exact addr_ne hm
  have hsplit : P = connectionWith conn socket remote (cellsOf (front ++ e :: back))
      (front ++ back) * (channelAt conn e.addr e.channel * F) := by
    rw [hP, connectionAt, connectionWith_split]
    ac_rfl
  refine connectionWith_open hsplit fun block hsocket => ?_
  show Triple _ ((read .connection conn >>= _) >>= _) S
  rw [bind_assoc]
  refine read_triple rfl ?_
  rw [bind_assoc]
  have hcells : cellsOf (front ++ e :: back) =
      cellsOf front ++ (e.node, e.addr) :: cellsOf back := by
    simp [cellsOf]
  have hparts : held .connection conn block * (connectionParts conn block remote
      (cellsOf (front ++ e :: back)) (front ++ back) * (channelAt conn e.addr e.channel * F)) =
      nodesAt block.channelList (cellsOf front ++ (e.node, e.addr) :: cellsOf back) *
        (held .connection conn block * (any (fun sa => held .sockaddr block.sockaddr sa) *
          (remoteAt block.remoteAddr remote * (channelsAt conn (front ++ back) *
            (channelAt conn e.addr e.channel * F))))) := by
    rw [connectionParts, hcells]
    ac_rfl
  -- `az_list_delete` compares addresses and stops at the first that fits, which is the one of `e`.
  have hfirst : e.addr ∉ objects (cellsOf front) := by
    intro hmem
    obtain ⟨cell, hcell, heq⟩ := List.mem_map.mp hmem
    obtain ⟨e', he', rfl⟩ := List.mem_map.mp hcell
    exact hne e' (List.mem_append_left _ he') heq
  have hlength : (cellsOf front).length < fuel := by
    rwa [cellsOf, List.length_map]
  refine azListDelete_triple hfirst hlength hparts fun li => ?_
  rw [bind_assoc]
  refine write_triple (mul_left_comm _ _ _) ?_
  have hdestroy : Triple (connectionAt conn socket remote (front ++ back) *
      (channelAt conn e.addr e.channel * F)) (scChannelDestroy e.addr >>= f) S :=
    scChannelDestroy_triple (mul_left_comm _ _ _) hf
  have hrest : cellsOf (front ++ back) = cellsOf front ++ cellsOf back := List.map_append
  refine connectionWith_close ⟨block.sockaddr, block.remoteAddr, li, block.socket⟩ hsocket ?_
    hdestroy
  rw [connectionParts, hrest]
  ac_rfl

end

end Compostela.Aggregator.Blocks
