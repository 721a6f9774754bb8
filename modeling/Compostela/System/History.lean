import Compostela.System.MainLoop
import Compostela.System.Wire

/-!
# `Compostela.System.History`: the channels of a connection and their contexts

The history of a link says which context sent which frame, and how the aggregator answered.
`MaySend` is the right of a context to a channel: since the last RELE for the channel on this
connection an INIT response has assigned it to the context. `NoStaleData` says that every DATA
frame was sent with this right, and `OneName` that only the newest context of a file sent DATA
frames in a part of the history.

Each of them has its lemmas for a history that grows by one entry.
-/

set_option autoImplicit false

namespace Compostela.System

open Compostela.Common
open Compostela.Memory
open Compostela.Runs
open Compostela.Aggregator
open Compostela.Follower
open Link

/-! ### Frames of the history -/

/-- The request is INIT, and the response assigns the channel to its sender. -/
def Exchange.Assigns (x : Exchange) (channel : BitVec 16) : Prop :=
  codeOf x.request = SCM_MSG_INIT ∧ codeOf x.response = SCM_RESP_OK ∧
    channelOf x.response = channel

/-- The request releases the channel. -/
def Exchange.Releases (x : Exchange) (channel : BitVec 16) : Prop :=
  codeOf x.request = SCM_MSG_RELE ∧ channelOf x.request = channel

instance (x : Exchange) (channel : BitVec 16) : Decidable (x.Releases channel) :=
  inferInstanceAs (Decidable (_ ∧ _))

/-! ### The right to a channel -/

/-- At the end of this history, the context with this serial number may send on the channel:
after every release of the channel on the same connection it was assigned to the context. -/
def MaySend (log : List Item) (serial : Nat) (channel : BitVec 16) : Prop :=
  ∀ before x after, log = before ++ Item.exchange x :: after → x.Releases channel →
    Item.connected ∉ after →
    ∃ y, Item.exchange y ∈ after ∧ y.sender.serial = serial ∧ y.Assigns channel

/-- Every DATA frame of the history was sent by a context that may send on its channel. -/
def NoStaleData (log : List Item) : Prop :=
  ∀ before x after, log = before ++ Item.exchange x :: after →
    codeOf x.request = SCM_MSG_DATA →
    MaySend before x.sender.serial (channelOf x.request)

section
variable {log : List Item} {serial : Nat} {channel : BitVec 16} {x : Exchange}

/-- A frame that does not release the channel leaves the right to it. -/
theorem MaySend.concat (h : MaySend log serial channel) (hx : ¬ x.Releases channel) :
    MaySend (log ++ [Item.exchange x]) serial channel := by
  intro before z after hlog hrelease hconnected
  rcases concat_eq_append_cons hlog with ⟨-, hz, -⟩ | ⟨after', hafter, hlog'⟩
  · cases hz
    exact absurd hrelease hx
  · rw [hafter] at hconnected ⊢
    have hbefore : Item.connected ∉ after' := fun hmem =>
      hconnected (List.mem_append_left _ hmem)
    obtain ⟨y, hy, hserial, hassigns⟩ := h before z after' hlog' hrelease hbefore
    exact ⟨y, List.mem_append_left _ hy, hserial, hassigns⟩

/-- An INIT response gives the right. -/
theorem maySend_of_assigns (hserial : x.sender.serial = serial) (hx : x.Assigns channel) :
    MaySend (log ++ [Item.exchange x]) serial channel := by
  intro before z after hlog hrelease hconnected
  rcases concat_eq_append_cons hlog with ⟨-, hz, -⟩ | ⟨after', hafter, -⟩
  · -- A frame is not INIT and RELE at once.
    cases hz
    have hinit := hx.1
    rw [hrelease.1] at hinit
    exact absurd hinit (by decide)
  · rw [hafter]
    exact ⟨x, List.mem_append_right _ (List.mem_singleton_self _), hserial, hx⟩

/-- Nothing was sent yet, so nothing stale was. -/
theorem noStaleData_nil : NoStaleData [] := by
  intro before x after h
  simp at h

/-- A new connection sends nothing. -/
theorem NoStaleData.connected (h : NoStaleData log) :
    NoStaleData (log ++ [Item.connected]) := by
  intro before x after hlog hdata
  rcases concat_eq_append_cons hlog with ⟨-, hx, -⟩ | ⟨after', -, hlog'⟩
  · cases hx
  · exact h before x after' hlog' hdata

/-- One more frame, and a DATA frame only with the right to its channel. -/
theorem NoStaleData.concat (h : NoStaleData log)
    (hx : codeOf x.request = SCM_MSG_DATA →
      MaySend log x.sender.serial (channelOf x.request)) :
    NoStaleData (log ++ [Item.exchange x]) := by
  intro before z after hlog hdata
  rcases concat_eq_append_cons hlog with ⟨-, hz, hbefore⟩ | ⟨after', -, hlog'⟩
  · cases hz
    rw [hbefore]
    exact hx hdata
  · exact h before z after' hlog' hdata

end

/-! ### The newest context of a file -/

/-- The context is listed, and no newer one follows the same file. -/
def Current (senders : List Sender) (k : Sender) : Prop :=
  k ∈ senders ∧ ∀ d ∈ senders, d.filename = k.filename → d.serial ≤ k.serial

instance (senders : List Sender) (k : Sender) : Decidable (Current senders k) :=
  inferInstanceAs (Decidable (_ ∧ _))

/-- From the first history to the second, only the newest context of each file sent DATA
frames. -/
def OneName (senders : List Sender) (log log' : List Item) : Prop :=
  ∃ new, log' = log ++ new ∧
    ∀ x, Item.exchange x ∈ new → codeOf x.request = SCM_MSG_DATA → Current senders x.sender

section
variable {senders : List Sender} {log log' log'' : List Item} {x : Exchange}

/-- Without a new frame no rule about names is broken. -/
theorem OneName.refl (senders : List Sender) (log : List Item) : OneName senders log log :=
  ⟨[], by simp, by simp⟩

/-- Two parts of a history in which only the newest contexts send DATA make one. -/
theorem OneName.trans (h : OneName senders log log') (h' : OneName senders log' log'') :
    OneName senders log log'' := by
  obtain ⟨new, rfl, hnew⟩ := h
  obtain ⟨new', rfl, hnew'⟩ := h'
  refine ⟨new ++ new', by rw [List.append_assoc], ?_⟩
  intro x hx hdata
  rcases List.mem_append.mp hx with hx | hx
  · exact hnew x hx hdata
  · exact hnew' x hx hdata

/-- A frame keeps to the rule when it is no DATA, or its sender is the newest context of the
file. -/
theorem OneName.concat (hx : codeOf x.request = SCM_MSG_DATA → Current senders x.sender) :
    OneName senders log (log ++ [Item.exchange x]) := by
  refine ⟨[Item.exchange x], rfl, ?_⟩
  intro y hy hdata
  rw [List.mem_singleton] at hy
  cases hy
  exact hx hdata

/-- A new connection keeps to the rule. -/
theorem OneName.connected : OneName senders log (log ++ [Item.connected]) :=
  ⟨[Item.connected], rfl, by simp⟩

end

/-! ### The lines that were read -/

/-- The request is DATA with this text. -/
def Exchange.Carries (x : Exchange) (line : Bytes) : Prop :=
  codeOf x.request = SCM_MSG_DATA ∧ x.request.drop (headerSize + cb0) = line

/-- The frame is in the second history and not in the first, which it continues. -/
def Adds (log log' : List Item) (x : Exchange) : Prop :=
  ∃ new, log' = log ++ new ∧ Item.exchange x ∈ new

/-- What a run of a context took from its buffer and its file was sent under its name. A file
that was opened in the run is read from the position that the aggregator gave. -/
def Delivers (k : Sender) (inp : RunInput) (cxt cxt' : ScFollowContext) (log log' : List Item) :
    Prop :=
  0 < cxt.fd ∨ cxt.fd = -1 ∧ 0 ≤ cxt'.fd →
  let start := if 0 < cxt.fd then cxt.offset else cxt'.position.toNat
  ∃ got line, got <+: inp.file.drop start ∧ cxt'.offset = start + got.length ∧
    cxt.buffer.unread ++ got = line ++ cxt'.buffer.unread ∧
    (line = [] ∨ ∃ x, Adds log log' x ∧ x.sender = k ∧ x.Carries line)

/-- The DATA frame of a line carries the line. -/
theorem carries_of_isFrame {f : Frame} {channel : BitVec 16} {complete : Bool}
    {time : BitVec 64} {line : Bytes} {x : Exchange} (hx : x.request = f.bytes)
    (h : IsFrame f SCM_MSG_DATA channel (Req.data channel complete time line).content) :
    x.Carries line := by
  obtain ⟨hcode, -, hcontent⟩ := h
  constructor
  · rw [hx, codeOf_bytes, hcode]
  · rw [hx]
    exact drop_bytes_of_data hcontent

/-- A read from where the context stands, whose line was sent. After the read nothing moves. -/
theorem delivers_of_took {k : Sender} {inp : RunInput} {cxt cxt1 cxt2 cxt' : ScFollowContext}
    {got line : Bytes} {log log' : List Item} (htook : Took inp cxt1 cxt2 got line)
    (hbuffer1 : cxt1.buffer = cxt.buffer)
    (hoffset1 : cxt1.offset = if 0 < cxt.fd then cxt.offset else cxt1.position.toNat)
    (hbuffer : cxt'.buffer = cxt2.buffer) (hoffset : cxt'.offset = cxt2.offset)
    (hposition : cxt'.position = cxt2.position)
    (hsent : line = [] ∨ ∃ x, Adds log log' x ∧ x.sender = k ∧ x.Carries line) :
    Delivers k inp cxt cxt' log log' := by
  intro _
  have hposition2 : cxt2.position = cxt1.position := by rw [htook.rest]
  have hoffset2 : cxt2.offset = cxt1.offset + got.length := by rw [htook.rest]
  have hfetched := htook.fetched
  rw [hoffset1, ← hposition2, ← hposition] at hfetched
  have hbytes := htook.bytes
  rw [hbuffer1, ← hbuffer] at hbytes
  refine ⟨got, line, hfetched, ?_, hbytes, hsent⟩
  rw [hoffset, hoffset2, hoffset1, hposition, hposition2]

/-- The history before and after can be longer. -/
theorem Delivers.mono {k : Sender} {inp : RunInput} {cxt cxt' : ScFollowContext}
    {log log1 log2 log' : List Item} (h : Delivers k inp cxt cxt' log1 log2)
    (hbefore : ∃ new, log1 = log ++ new) (hafter : ∃ new, log' = log2 ++ new) :
    Delivers k inp cxt cxt' log log' := by
  intro hopen
  obtain ⟨got, line, hgot, hoffset, hbytes, hsent⟩ := h hopen
  refine ⟨got, line, hgot, hoffset, hbytes, hsent.imp id ?_⟩
  rintro ⟨x, ⟨new, hnew, hx⟩, hsender, hcarries⟩
  obtain ⟨new1, rfl⟩ := hbefore
  obtain ⟨new2, rfl⟩ := hafter
  refine ⟨x, ⟨new1 ++ new ++ new2, ?_, ?_⟩, hsender, hcarries⟩
  · rw [hnew]
    simp only [List.append_assoc]
  · exact List.mem_append_left _ (List.mem_append_right _ hx)

end Compostela.System
