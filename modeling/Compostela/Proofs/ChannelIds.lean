import Compostela.Aggregator.Session
import Compostela.Follower.Run

/-!
# `Compostela.Proofs.ChannelIds`: channel numbers on the wire

The aggregator numbers channels with an `int` and sends the number in a field of 16 bits.
The follower stores the signed value of the field and sends it back in its DATA and RELE
requests, where `do_receive` treats 0 as no channel.

`NumbersSurvive` is what this should give: distinct positive ids, and a number that finds
its own channel again. `numbersSurvive_of_wellFormed` is the argument for one state with ids
below `2 ^ 15`, `small_run` keeps the ids below that bound, and `numbersSurvive_run` puts
them together for every run that registers a channel only while no id has reached 32767.
`number_32768_is_lost` is the run past that bound.
-/

set_option autoImplicit false

namespace Compostela.Proofs.ChannelIds

open Compostela.Common
open Compostela.Memory
open Compostela.Runs
open Compostela.Aggregator
open Compostela.Follower

/-- The channel numbers of the requests that a context sends. -/
def sentNumbers (cxt : ScFollowContext) : List (BitVec 16) :=
  [(dataHeader 0 cxt).messageBuffer.channel, (releMessage cxt).channel]

/-- The ids of the live channels are distinct and positive. A follower that takes the INIT
response of a live channel sends a number that is not zero and finds that channel. -/
structure NumbersSurvive (s : Session) : Prop where
  nodup : (s.conn.channelList.map ScChannel.id).Nodup
  pos : ∀ c ∈ s.conn.channelList, 0 < c.id
  resolves : ∀ c ∈ s.conn.channelList, ∀ (cfg : Config) (chunks : List Nat) (fs : Fs)
    (attr : BitVec 32) (md5 : Md5) (inp : RunInput) (resp : ScLogMessage)
    (cxt cxt' : ScFollowContext), resp.frame = initFrame cfg chunks fs c attr →
    takeInitResponse md5 inp cxt resp = .ok (0, cxt') →
    ∀ number ∈ sentNumbers cxt', number ≠ 0 ∧ scConnectionChannel s.conn number.toInt = some c

/-- What a context sends after it took an INIT response: the 16 bits of the id, sign
extended and cut again. -/
theorem sentNumbers_of_response {cfg : Config} {chunks : List Nat} {fs : Fs} {c : ScChannel}
    {attr : BitVec 32} {md5 : Md5} {inp : RunInput} {resp : ScLogMessage}
    {cxt cxt' : ScFollowContext} (hresp : resp.frame = initFrame cfg chunks fs c attr)
    (htake : takeInitResponse md5 inp cxt resp = .ok (0, cxt')) {number : BitVec 16}
    (hnumber : number ∈ sentNumbers cxt') : number = .ofInt 16 c.id := by
  have hchannel : resp.channel = .ofInt 16 c.id := congrArg Frame.channel hresp
  have hstored : cxt'.channel = resp.channel.toInt := by
    rw [(takeInitResponse_eq_ok.mp htake).2.2.2, lseek_channel]
  have hsent : number = .ofInt 16 cxt'.channel := by
    simp only [sentNumbers, List.mem_cons, List.not_mem_nil, or_false] at hnumber
    rcases hnumber with rfl | rfl <;> rfl
  rw [hsent, hstored, hchannel, BitVec.ofInt_toInt]

/-- With ids below `2 ^ 15` every number survives. -/
theorem numbersSurvive_of_wellFormed {s : Session} (hwf : s.conn.WellFormed)
    (hsmall : ∀ c ∈ s.conn.channelList, c.id < 2 ^ 15) : NumbersSurvive s where
  nodup := hwf.nodup
  pos := hwf.pos
  resolves := by
    intro c hc cfg chunks fs attr md5 inp resp cxt cxt' hresp htake number hnumber
    have hpos := hwf.pos c hc
    have hvalue : number.toInt = c.id := by
      rw [sentNumbers_of_response hresp htake hnumber]
      exact toInt_ofInt_of_lt (by omega) (hsmall c hc)
    refine ⟨?_, ?_⟩
    · intro hzero
      rw [hzero] at hvalue
      simp at hvalue
      omega
    · rw [hvalue]
      exact scConnectionChannel_of_mem hwf hc

/-- The condition on a step: an INIT request finds no id at or above 32767. -/
def RoomForOne (s : Session) (r : Request) : Prop :=
  handlerFor r.msg.code r.msg.channel = some .init → ∀ c ∈ s.conn.channelList, c.id < 32767

/-- No handler but `handler_init` makes a new id. -/
theorem id_of_handle {cfg : Config} {heap : Heap} {chunks : List Nat} {msg : ScLogMessage}
    {conn : ScConnection} {fs : Fs} {r : Handled} (hwf : conn.WellFormed)
    (hinit : handlerFor msg.code msg.channel ≠ some .init)
    (h : handle cfg heap chunks msg conn fs = .ok r) {d : ScChannel}
    (hd : d ∈ r.conn.channelList) : ∃ c ∈ conn.channelList, c.id = d.id := by
  simp only [handle] at h
  cases hhandler : handlerFor msg.code msg.channel with
  | none =>
    rw [hhandler] at h
    cases h
    exact ⟨d, hd, rfl⟩
  | some handler =>
    rw [hhandler] at h
    cases handler with
    | init => exact absurd hhandler hinit
    | dummy =>
      obtain ⟨sent, -, heq⟩ := bind_eq_ok.mp h
      cases heq
      exact ⟨d, hd, rfl⟩
    | seek =>
      rw [(handlerSeek_conn h).2.1] at hd
      exact ⟨d, hd, rfl⟩
    -- `az_list_update` keeps the ids of the channels in their order.
    | data =>
      obtain ⟨c, buffer', -, hconn, -⟩ := handlerData_conn h
      have hmem : d.id ∈ r.conn.channelList.map ScChannel.id := List.mem_map_of_mem hd
      rw [hconn, ScConnection.map_id_update] at hmem
      exact List.mem_map.mp hmem
    | rele =>
      obtain ⟨li, hconn, hsub⟩ := handlerRele_sublist hwf h
      rw [hconn] at hd
      exact ⟨d, hsub.subset hd, rfl⟩

/-- The invariant of a run that always has room: well formed, with ids below `2 ^ 15`. -/
structure SmallIds (s : Session) : Prop where
  wf : s.conn.WellFormed
  small : ∀ c ∈ s.conn.channelList, c.id < 2 ^ 15

/-- One request with room keeps the ids small. A registration adds the largest id plus one. -/
theorem SmallIds.step {cfg : Config} {s s' : Session} {r : Request} (h : SmallIds s)
    (hroom : RoomForOne s r) (hstep : s.step cfg r = .ok s') : SmallIds s' := by
  obtain ⟨handled, hhandle, rfl⟩ := Session.step_eq_ok.mp hstep
  refine ⟨h.wf.handle hhandle, ?_⟩
  intro d hd
  by_cases hinit : handlerFor r.msg.code r.msg.channel = some .init
  · simp only [handle, hinit] at hhandle
    obtain ⟨name, channel, channel', -, hreg, -⟩ := handlerInit_conn hhandle
    obtain ⟨-, rfl, hconn⟩ := scConnectionRegisterChannel_eq_ok.mp hreg
    -- The largest id is one of the list, or 0 of an empty one.
    have hmax : maxId s.conn.channelList < 32767 := by
      rcases maxId_cases s.conn.channelList with hzero | ⟨c, hc, hid⟩
      · omega
      · rw [← hid]
        exact hroom hinit c hc
    rw [hconn] at hd
    rcases List.mem_cons.mp hd with rfl | hd
    · show maxId s.conn.channelList + 1 < 2 ^ 15
      omega
    · exact h.small d hd
  · obtain ⟨c, hc, hid⟩ := id_of_handle h.wf hinit hhandle hd
    rw [← hid]
    exact h.small c hc

/-- In every run that registers a channel only while no id has reached 32767, the ids are
distinct and positive and every number survives. -/
theorem numbersSurvive_run {cfg : Config} {addr : Option Bytes} {fs : Fs}
    {requests : List Request} {s : Session}
    (hroom : Along (Session.step cfg) RoomForOne (Session.start addr fs) requests)
    (hrun : requests.foldlM (Session.step cfg) (Session.start addr fs) = .ok s) :
    NumbersSurvive s := by
  have hstart : SmallIds (Session.start addr fs) :=
    ⟨ScConnection.wellFormed_nil addr, by intro c hc; cases hc⟩
  have hend : SmallIds s :=
    hroom.invariant (fun s r s' h hc hstep => SmallIds.step h hc hstep) hstart hrun
  exact numbersSurvive_of_wellFormed hend.wf hend.small

/-- A run with one registration. -/
theorem numbersSurvive_oneChannel : NumbersSurvive (oneChannel []) := by
  refine numbersSurvive_run ?_ (Session.small_run [] Fs.empty 1 (by decide))
  refine ⟨?_, fun _ _ => trivial⟩
  intro _ c hc
  cases hc

/-! ### Past the bound -/

/-- The oldest of `n` registered channels has id 1 and is the last of the list. -/
theorem getLast?_registered (channel : ScChannel) (n : Nat) :
    (registered channel (n + 1)).getLast? = some { channel with id := 1 } := by
  induction n with
  | zero => rfl
  | succ n ih =>
    rw [registered, List.getLast?_cons_of_ne_nil (by simp [registered])]
    exact ih

/-- The `n`th channel of a run that registers more than 32767 gets a number that is zero or
negative on the wire, and this finds the oldest channel. -/
theorem not_numbersSurvive_registered {addr : Option Bytes} {fs : Fs} (channel : ScChannel)
    {n : Nat} (hlow : 32767 < n) (hhigh : n ≤ 65536) :
    ¬ NumbersSurvive ⟨⟨addr, registered channel n⟩, fs⟩ := by
  intro h
  obtain ⟨m, rfl⟩ : ∃ m, n = m + 1 := ⟨n - 1, by omega⟩
  -- The response that the last channel got, without a digest, and a follower that takes it.
  let content := initContent (smallConfig []) [] fs channel.filenameFullpath 0
  let resp := ScLogMessage.ofContent SCM_RESP_OK (.ofInt 16 (m + 1 : Nat)) content
  let inp : RunInput := ⟨⟨0, 0⟩, .again, 0, [], none, [], fun _ => zeroHeap⟩
  let cxt := scFollowContextNew zeroHeap none [] false BUFSIZE
  have hlen : content.length = 8 := by simp [content, initContent, initDigest]
  have hcheck : checkDigest zeroMd5 inp (positionOf resp) resp = .ok () := by
    have hshort : ¬ 8 < toSize resp.contentLength.toInt := by
      show ¬ 8 < toSize (BitVec.ofNat 32 content.length).toInt
      rw [hlen]
      decide
    simp only [checkDigest, hshort, if_false]
  have htake : takeInitResponse zeroMd5 inp cxt resp = .ok (0, lseek (positionOf resp)
      { cxt with channel := resp.channel.toInt, position := positionOf resp }) :=
    takeInitResponse_eq_ok.mpr ⟨rfl, Nat.le_of_eq hlen.symm, hcheck, rfl⟩
  have hframe : resp.frame = initFrame (smallConfig []) [] fs
      { channel with id := (m : Int) + 1 } 0 :=
    ScLogMessage.frame_ofContent _ _ _ (by rw [hlen]; decide)
  obtain ⟨-, hfound⟩ := h.resolves { channel with id := (m : Int) + 1 } (List.mem_cons_self ..)
    (smallConfig []) [] fs 0 zeroMd5 inp resp cxt _ hframe htake _ (List.mem_cons_self ..)
  -- The number that comes back is not positive, so no channel has it.
  have hnumber := sentNumbers_of_response hframe htake (List.mem_cons_self ..)
  rw [hnumber] at hfound
  have hneg : (BitVec.ofInt 16 ((m : Int) + 1)).toInt ≤ 0 := by
    rw [BitVec.toInt_ofInt, Int.bmod_def]
    split <;> omega
  have hnone : ¬ (⟨addr, registered channel (m + 1)⟩ : ScConnection).Registered
      (BitVec.ofInt 16 ((m : Int) + 1)).toInt := by
    rintro ⟨c, hc, hid⟩
    have := mem_registered hc
    omega
  rw [scConnectionChannel_of_not_registered hnone] at hfound
  simp only [getLast?_registered, Option.some.injEq] at hfound
  have hid := congrArg ScChannel.id hfound
  simp only at hid
  omega

/-- The run that registers 32768 channels ends in a state where a number does not survive. -/
theorem number_32768_is_lost :
    (List.replicate 32768 smallInit).foldlM (Session.step (smallConfig []))
        (Session.start (some [97]) Fs.empty) =
      .ok ⟨⟨some [97], registered (smallChannel []) 32768⟩, Fs.empty⟩ ∧
    ¬ NumbersSurvive ⟨⟨some [97], registered (smallChannel []) 32768⟩, Fs.empty⟩ :=
  ⟨Session.small_run [] Fs.empty 32768 (by decide),
    not_numbersSurvive_registered (smallChannel []) (by decide) (by decide)⟩

end Compostela.Proofs.ChannelIds
