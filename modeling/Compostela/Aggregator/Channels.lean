import Compostela.Common.AzBuffer
import Compostela.Common.AzList
import Compostela.Common.Supports

/-!
# `Compostela.Aggregator.Channels`: the channels of a connection

`sc_channel` and `sc_connection` of `aggregator/main.c`, and the functions that register,
find and delete a channel. A channel is told apart from the others of its connection by
its `id`, which stands for its address: `ScConnection.WellFormed` says that the ids are
distinct, and every function here keeps it.

`sc_connection_channel` keeps the last channel it visited when no id matches.
`scConnectionChannel_eq` states this: a lookup is the first match, or else the last channel
of the list.
-/

set_option autoImplicit false

namespace Compostela.Aggregator

open Compostela.Common
open Compostela.Memory

/-- `INT_MAX`. -/
def INT_MAX : Int := 2 ^ 31 - 1

/-- `LINE_BUFFER_SIZE`. -/
def LINE_BUFFER_SIZE : Nat := 1024

/-- `sc_aggregate_context`, with the fields that the handlers read. -/
structure ScAggregateContext where
  path : Bytes
  fTimestamp : Bool
  fSeparate : Bool
  fMerge : Bool
  deriving DecidableEq, Repr

/-- What the aggregator reads from its configuration and its libraries. `fnmatch` is true
when the pattern matches the name. `strftime n t` is the text that `strftime` writes for
`"%FT%T%z"` in the local time of `t` into `n` bytes, or nothing when it does not fit. -/
structure Config where
  logdir : Bytes
  contexts : List ScAggregateContext
  fnmatch : Bytes → Bytes → Bool
  strftime : Nat → BitVec 64 → Option Bytes
  strftime_fits : ∀ n t s, strftime n t = some s → s.length < n
  md5 : Md5

/-- `sc_channel`. -/
structure ScChannel where
  id : Int
  filename : Bytes
  filenameFullpath : Bytes
  buffer : AzBuffer
  aggregateContext : Option ScAggregateContext

/-- `sc_connection`. `remoteAddr` is null when the name lookup failed. -/
structure ScConnection where
  remoteAddr : Option Bytes
  channelList : List ScChannel

/-- `__find_aggregate_context`. -/
def findAggregateContext (cfg : Config) (fname : Bytes) : Option ScAggregateContext :=
  cfg.contexts.find? fun cxt => cfg.fnmatch cxt.path fname

/-- `sc_channel_new`, and the search for the channel's aggregate context that
`handler_init` makes right after it. A null `remote_addr` ends the argument list of
`pathcat`. The id is set by the registration. -/
def scChannelNew (cfg : Config) (heap : Heap) (conn : ScConnection) (fname : Bytes) :
    Except Trap ScChannel := do
  let fullpath ← pathcat heap cfg.logdir
    (match conn.remoteAddr with
      | some addr => [addr, fname]
      | none => [])
  .ok
    { id := 0
      filename := fname
      filenameFullpath := fullpath
      buffer := azBufferNew heap LINE_BUFFER_SIZE
      aggregateContext := findAggregateContext cfg fullpath }

/-- The loop of `sc_connection_register_channel`: the largest id, or zero. -/
def maxId (li : List ScChannel) : Int :=
  li.foldl (fun id c => if id < c.id then c.id else id) 0

/-- `sc_connection_register_channel` for a channel that was just allocated, so the search
for the same address finds nothing. The result is the connection and the channel with its
id. -/
def scConnectionRegisterChannel (conn : ScConnection) (channel : ScChannel) :
    Except Trap (ScConnection × ScChannel) :=
  let id := maxId conn.channelList
  if id = INT_MAX then .error .intOverflow
  else
    let channel := { channel with id := id + 1 }
    .ok ({ conn with channelList := azListAdd conn.channelList channel }, channel)

/-- The loop of `sc_connection_channel`, with `channel` the element visited before. -/
def channelLoop (id : Int) : Option ScChannel → List ScChannel → Option ScChannel
  | channel, [] => channel
  | _, c :: rest => if c.id = id then some c else channelLoop id (some c) rest

/-- `sc_connection_channel`. -/
def scConnectionChannel (conn : ScConnection) (id : Int) : Option ScChannel :=
  channelLoop id none conn.channelList

/-- `sc_connection_delete_channel`. A null channel is dereferenced. -/
def scConnectionDeleteChannel (conn : ScConnection) (channel : Option ScChannel) :
    Except Trap ScConnection :=
  match channel with
  | none => .error .nullDeref
  | some channel => do
      let li ← azListDelete (fun c => c.id = channel.id) conn.channelList
      .ok { conn with channelList := li }

/-- The connection after a write through the pointer to one of its channels. -/
def ScConnection.update (conn : ScConnection) (channel : ScChannel) : ScConnection :=
  { conn with channelList :=
      conn.channelList.map fun c => if c.id = channel.id then channel else c }

namespace ScConnection

/-- A channel with this number is registered. -/
def Registered (conn : ScConnection) (id : Int) : Prop := ∃ c ∈ conn.channelList, c.id = id

instance (conn : ScConnection) (id : Int) : Decidable (conn.Registered id) :=
  inferInstanceAs (Decidable (∃ c ∈ conn.channelList, c.id = id))

/-- A number is registered when a channel of the list has it. -/
theorem registered_iff (conn : ScConnection) (id : Int) :
    conn.Registered id ↔ id ∈ conn.channelList.map ScChannel.id := List.mem_map.symm

/-- The invariant of a channel list: the ids are distinct and are positive `int`s, and the
buffers are valid. -/
structure WellFormed (conn : ScConnection) : Prop where
  nodup : (conn.channelList.map ScChannel.id).Nodup
  pos : ∀ c ∈ conn.channelList, 0 < c.id
  le_max : ∀ c ∈ conn.channelList, c.id ≤ INT_MAX
  valid : ∀ c ∈ conn.channelList, c.buffer.Valid

/-- A connection without channels is well formed. -/
theorem wellFormed_nil (addr : Option Bytes) : (⟨addr, []⟩ : ScConnection).WellFormed where
  nodup := List.nodup_nil
  pos := by simp
  le_max := by simp
  valid := by simp

end ScConnection

/-! ### Registration -/

/-- The loop of `sc_connection_register_channel` finds a number that is not below any of the list,
and takes it from the list or from the start. -/
theorem maxId_foldl (li : List ScChannel) (m : Int) :
    m ≤ li.foldl (fun id c => if id < c.id then c.id else id) m ∧
    (∀ c ∈ li, c.id ≤ li.foldl (fun id c => if id < c.id then c.id else id) m) ∧
    (li.foldl (fun id c => if id < c.id then c.id else id) m = m ∨
      ∃ c ∈ li, c.id = li.foldl (fun id c => if id < c.id then c.id else id) m) := by
  induction li generalizing m with
  | nil => simp
  | cons x rest ih =>
    simp only [List.foldl_cons]
    -- The accumulator after the first channel: its id, or the one from before.
    have hstep : (if m < x.id then x.id else m) = m ∧ x.id ≤ m ∨
        (if m < x.id then x.id else m) = x.id ∧ m < x.id := by
      split <;> simp <;> omega
    obtain ⟨hle, hall, hmax⟩ := ih (if m < x.id then x.id else m)
    rcases hstep with ⟨heq, hx⟩ | ⟨heq, hx⟩ <;> rw [heq] at hle hall hmax ⊢
    · refine ⟨hle, fun c hc => ?_, hmax.imp id fun ⟨c, hc, hid⟩ => ⟨c, by simp [hc], hid⟩⟩
      rcases List.mem_cons.mp hc with rfl | hc
      · omega
      · exact hall c hc
    · refine ⟨by omega, fun c hc => ?_, Or.inr ?_⟩
      · rcases List.mem_cons.mp hc with rfl | hc
        · exact hle
        · exact hall c hc
      · rcases hmax with hmax | ⟨c, hc, hid⟩
        · exact ⟨x, by simp, hmax.symm⟩
        · exact ⟨c, by simp [hc], hid⟩

/-- No id is larger than the largest. -/
theorem le_maxId {li : List ScChannel} {c : ScChannel} (h : c ∈ li) : c.id ≤ maxId li :=
  (maxId_foldl li 0).2.1 c h

/-- The largest number in use is never negative: the loop starts at zero. -/
theorem maxId_nonneg (li : List ScChannel) : 0 ≤ maxId li := (maxId_foldl li 0).1

/-- The largest id is zero or the id of a channel. -/
theorem maxId_cases (li : List ScChannel) : maxId li = 0 ∨ ∃ c ∈ li, c.id = maxId li :=
  (maxId_foldl li 0).2.2

/-- The largest id depends on the ids only. -/
theorem maxId_le_of_ids {li li' : List ScChannel}
    (h : ∀ id ∈ li'.map ScChannel.id, id ∈ li.map ScChannel.id) : maxId li' ≤ maxId li := by
  rcases maxId_cases li' with hzero | ⟨c, hc, hid⟩
  · rw [hzero]
    exact maxId_nonneg li
  · obtain ⟨d, hd, heq⟩ := List.mem_map.mp (h c.id (List.mem_map_of_mem hc))
    rw [← hid, ← heq]
    exact le_maxId hd

/-- What a registration does: the channel goes to the front of the list, with an id that is
one more than the largest so far. -/
theorem scConnectionRegisterChannel_eq_ok {conn conn' : ScConnection}
    {channel channel' : ScChannel} :
    scConnectionRegisterChannel conn channel = .ok (conn', channel') ↔
      maxId conn.channelList ≠ INT_MAX ∧
      channel' = { channel with id := maxId conn.channelList + 1 } ∧
      conn' = { conn with channelList := channel' :: conn.channelList } := by
  simp only [scConnectionRegisterChannel]
  split
  · simp_all
  · rename_i h
    simp only [azListAdd, Except.ok.injEq, Prod.mk.injEq, ne_eq, h, not_false_eq_true, true_and]
    constructor
    · rintro ⟨rfl, rfl⟩
      exact ⟨rfl, rfl⟩
    · rintro ⟨rfl, rfl⟩
      exact ⟨rfl, rfl⟩

/-- A new id is not in use. -/
theorem maxId_succ_not_registered (conn : ScConnection) :
    ¬ conn.Registered (maxId conn.channelList + 1) := by
  rintro ⟨c, hc, hid⟩
  have := le_maxId hc
  omega

/-- A registration keeps a connection well formed, since the new number is above the others. -/
theorem ScConnection.WellFormed.register {conn conn' : ScConnection}
    {channel channel' : ScChannel} (h : conn.WellFormed) (hbuf : channel.buffer.Valid)
    (hreg : scConnectionRegisterChannel conn channel = .ok (conn', channel')) :
    conn'.WellFormed := by
  obtain ⟨hmax, rfl, rfl⟩ := scConnectionRegisterChannel_eq_ok.mp hreg
  have hnonneg := maxId_nonneg conn.channelList
  have hle : maxId conn.channelList ≤ INT_MAX := by
    rcases maxId_cases conn.channelList with h0 | ⟨c, hc, hid⟩
    · rw [h0]
      decide
    · rw [← hid]
      exact h.le_max c hc
  -- The number is new, positive, below `INT_MAX`, and the buffer is the new channel's.
  refine ⟨?_, ?_, ?_, ?_⟩
  · simp only [List.map_cons, List.nodup_cons]
    refine ⟨fun hmem => ?_, h.nodup⟩
    obtain ⟨c, hc, hid⟩ := List.mem_map.mp hmem
    exact maxId_succ_not_registered conn ⟨c, hc, hid⟩
  all_goals
    intro c hc
    rcases List.mem_cons.mp hc with rfl | hc
  · simp only
    omega
  · exact h.pos c hc
  · simp only
    omega
  · exact h.le_max c hc
  · exact hbuf
  · exact h.valid c hc

/-! ### Lookup -/

/-- The loop of `sc_connection_channel` returns the channel with the number, and the last one of the
list when there is none. -/
theorem channelLoop_eq (id : Int) (li : List ScChannel) (channel : Option ScChannel) :
    channelLoop id channel li =
      (li.find? fun c => c.id = id).or (li.getLast?.or channel) := by
  induction li generalizing channel with
  | nil => simp [channelLoop]
  | cons c rest ih =>
    by_cases hc : c.id = id
    · simp [channelLoop, hc]
    · rw [channelLoop, if_neg hc, ih, List.find?_cons_of_neg (by simpa using hc)]
      cases rest with
      | nil => simp
      | cons d rest => simp [List.getLast?_cons]

/-- A lookup gives the first channel with the number, or the last channel of the list when
there is none. -/
theorem scConnectionChannel_eq (conn : ScConnection) (id : Int) :
    scConnectionChannel conn id =
      (conn.channelList.find? fun c => c.id = id).or conn.channelList.getLast? := by
  rw [scConnectionChannel, channelLoop_eq, Option.or_none]

/-- A registered number finds its channel. -/
theorem scConnectionChannel_of_mem {conn : ScConnection} (h : conn.WellFormed)
    {c : ScChannel} (hc : c ∈ conn.channelList) : scConnectionChannel conn c.id = some c := by
  have hfind : (conn.channelList.find? fun d => d.id = c.id) = some c := by
    rw [List.find?_eq_some_iff_append]
    obtain ⟨before, after, hsplit⟩ := List.append_of_mem hc
    refine ⟨by simp, before, after, hsplit, fun d hd => ?_⟩
    have hnodup := h.nodup
    rw [hsplit, List.map_append, List.map_cons] at hnodup
    have hne : d.id ≠ c.id := by
      intro heq
      exact (List.nodup_append.mp hnodup).2.2 d.id (List.mem_map_of_mem hd) c.id (by simp) heq
    simpa using hne
  rw [scConnectionChannel_eq, hfind, Option.some_or]

/-- A number that is not registered finds the last channel of the list, whatever it is. -/
theorem scConnectionChannel_of_not_registered {conn : ScConnection} {id : Int}
    (h : ¬ conn.Registered id) : scConnectionChannel conn id = conn.channelList.getLast? := by
  have hfind : (conn.channelList.find? fun c => c.id = id) = none := by
    rw [List.find?_eq_none]
    intro c hc
    simpa using fun heq => h ⟨c, hc, heq⟩
  rw [scConnectionChannel_eq, hfind, Option.none_or]

/-- What a lookup returns is in the list. -/
theorem mem_of_scConnectionChannel {conn : ScConnection} {id : Int} {c : ScChannel}
    (h : scConnectionChannel conn id = some c) : c ∈ conn.channelList := by
  by_cases hreg : conn.Registered id
  · rw [scConnectionChannel_eq] at h
    obtain ⟨d, hd, hid⟩ := hreg
    cases hfind : conn.channelList.find? fun c => c.id = id with
    | none =>
      rw [List.find?_eq_none] at hfind
      exact absurd hid (by simpa using hfind d hd)
    | some e =>
      rw [hfind, Option.some_or, Option.some.injEq] at h
      exact h ▸ List.mem_of_find?_eq_some hfind
  · rw [scConnectionChannel_of_not_registered hreg] at h
    exact List.mem_of_getLast? h

/-! ### Deletion and update -/

/-- The deletion of a channel of the list takes out that channel and no other. -/
theorem scConnectionDeleteChannel_of_mem {conn : ScConnection} (h : conn.WellFormed)
    {c : ScChannel} (hc : c ∈ conn.channelList) :
    ∃ li, scConnectionDeleteChannel conn (some c) = .ok { conn with channelList := li } ∧
      li.Sublist conn.channelList ∧ (∀ d, d ∈ li ↔ d ∈ conn.channelList ∧ d ≠ c) := by
  obtain ⟨before, after, hsplit⟩ := List.append_of_mem hc
  have hnodup := h.nodup
  rw [hsplit, List.map_append, List.map_cons] at hnodup
  obtain ⟨-, hafter, hdisj⟩ := List.nodup_append.mp hnodup
  have hbefore : ∀ d ∈ before, d.id ≠ c.id := fun d hd =>
    hdisj d.id (List.mem_map_of_mem hd) c.id (by simp)
  -- Numbers are distinct, so the first channel with this number is `c` itself.
  have herase : conn.channelList.eraseP (fun d => d.id = c.id) = before ++ after := by
    rw [hsplit, List.eraseP_append_right _ (by simpa using hbefore),
      List.eraseP_cons_of_pos (by simp)]
  refine ⟨before ++ after, ?_, ?_, ?_⟩
  · simp only [scConnectionDeleteChannel]
    rw [azListDelete_eq_ok.mpr ⟨⟨c, hc, by simp⟩, herase.symm⟩]
    rfl
  · rw [hsplit]
    exact List.Sublist.append_left (List.sublist_cons_self c after) before
  · intro d
    rw [hsplit]
    have hcbefore : c ∉ before := fun hmem => hbefore c hmem rfl
    have hcafter : c ∉ after := fun hmem =>
      (List.nodup_cons.mp hafter).1 (List.mem_map_of_mem hmem)
    simp only [List.mem_append, List.mem_cons]
    constructor
    · rintro (hd | hd)
      · exact ⟨Or.inl hd, fun heq => hcbefore (heq ▸ hd)⟩
      · exact ⟨Or.inr (Or.inr hd), fun heq => hcafter (heq ▸ hd)⟩
    · rintro ⟨hd | hd | hd, hne⟩
      · exact Or.inl hd
      · exact absurd hd hne
      · exact Or.inr hd

/-- Fewer channels are as well formed. -/
theorem ScConnection.WellFormed.sublist {conn : ScConnection} (h : conn.WellFormed)
    {li : List ScChannel} (hli : li.Sublist conn.channelList) :
    ({ conn with channelList := li } : ScConnection).WellFormed where
  nodup := h.nodup.sublist (hli.map _)
  pos c hc := h.pos c (hli.subset hc)
  le_max c hc := h.le_max c (hli.subset hc)
  valid c hc := h.valid c (hli.subset hc)

/-- A new value of a channel leaves the remote name alone. -/
@[simp] theorem ScConnection.update_remoteAddr (conn : ScConnection) (channel : ScChannel) :
    (conn.update channel).remoteAddr = conn.remoteAddr := rfl

/-- A write to a channel keeps the ids and their order. -/
theorem ScConnection.map_id_update (conn : ScConnection) (channel : ScChannel) :
    (conn.update channel).channelList.map ScChannel.id = conn.channelList.map ScChannel.id := by
  simp only [ScConnection.update, List.map_map]
  apply List.map_congr_left
  intro c _
  simp only [Function.comp]
  split
  · rename_i h
    exact h.symm
  · rfl

/-- A new value of a channel keeps the connection well formed, when it keeps the number. -/
theorem ScConnection.WellFormed.update {conn : ScConnection} (h : conn.WellFormed)
    {c channel : ScChannel} (hc : c ∈ conn.channelList) (hid : channel.id = c.id)
    (hbuf : channel.buffer.Valid) : (conn.update channel).WellFormed := by
  -- Every channel of the new list is the one put in or was there before.
  have hmem : ∀ d ∈ (conn.update channel).channelList,
      d = channel ∨ d ∈ conn.channelList := by
    intro d hd
    obtain ⟨e, he, rfl⟩ := List.mem_map.mp hd
    split
    · exact Or.inl rfl
    · exact Or.inr he
  refine ⟨by rw [ScConnection.map_id_update]; exact h.nodup, ?_, ?_, ?_⟩
  all_goals
    intro d hd
    rcases hmem d hd with rfl | hd
  · rw [hid]
    exact h.pos c hc
  · exact h.pos d hd
  · rw [hid]
    exact h.le_max c hc
  · exact h.le_max d hd
  · exact hbuf
  · exact h.valid d hd

end Compostela.Aggregator
