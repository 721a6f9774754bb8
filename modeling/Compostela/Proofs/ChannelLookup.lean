import Compostela.Aggregator.Session

/-!
# `Compostela.Proofs.ChannelLookup`: requests for a channel that is not there

`sc_connection_channel` should find the channel with a number, or nothing, and a DATA, SEEK
or RELE request on a number that is not registered should change nothing (`LookupLaw`). The
loop keeps the last channel it visited when no number matches, and the three handlers use
what the lookup returned without a test.

`lookupLaw_iff` says exactly for which numbers the law holds in a reachable session: the
registered ones, and, while no channel is registered, the numbers that no request on a
channel can carry. `lookup_of_stale` shows a lookup that returns another channel.
-/

set_option autoImplicit false

namespace Compostela.Proofs.ChannelLookup

open Compostela.Common
open Compostela.Memory
open Compostela.Aggregator

/-- The requests that work on a registered channel. -/
def OnChannel (r : Request) : Prop :=
  r.msg.code = SCM_MSG_DATA ∨ r.msg.code = SCM_MSG_SEEK ∨ r.msg.code = SCM_MSG_RELE

/-- What the lookup and the dispatch owe to a channel number: the lookup returns the
registered channel or nothing, and a request on a number that is not registered neither
dereferences a missing channel nor changes a channel or a file. -/
structure LookupLaw (cfg : Config) (s : Session) (id : Int) : Prop where
  lookup : scConnectionChannel s.conn id = s.conn.channelList.find? fun c => c.id = id
  frame : ¬ s.conn.Registered id → ∀ r : Request, OnChannel r → r.msg.channel.toInt = id →
    s.step cfg r ≠ .error .nullDeref ∧
      ∀ s', s.step cfg r = .ok s' → s'.conn = s.conn ∧ s'.fs.file = s.fs.file

/-- Nothing is found by a number that is not registered. -/
theorem find_of_not_registered {conn : ScConnection} {id : Int} (h : ¬ conn.Registered id) :
    (conn.channelList.find? fun c => c.id = id) = none := by
  rw [List.find?_eq_none]
  intro c hc
  simpa using fun heq => h ⟨c, hc, heq⟩

/-- A request with channel 0 that is no INIT is answered by `handler_dummy`. -/
theorem step_of_channel_zero (cfg : Config) (s : Session) {r : Request} (hcode : OnChannel r)
    (hzero : r.msg.channel = 0) : s.step cfg r = .ok s := by
  have hhandler : handlerFor r.msg.code r.msg.channel = some .dummy := by
    rw [handlerFor, if_pos hzero, if_neg]
    rcases hcode with h | h | h <;> rw [h] <;> decide
  have hsend : scConnectionSend (.ofContent SCM_RESP_NG 0 []) =
      .ok (Frame.ofContent SCM_RESP_NG 0 [] (by decide)).bytes :=
    scConnectionSend_ofContent _ _ _ _
  simp only [Session.step, handle, hhandler, handlerDummy, hsend, ok_bind]
  rfl

/-- A DATA request on a channel of a connection without channels dereferences null. -/
theorem step_data_of_empty (cfg : Config) {s : Session} (hnil : s.conn.channelList = [])
    {r : Request} (hcode : r.msg.code = SCM_MSG_DATA) (hchannel : r.msg.channel ≠ 0) :
    s.step cfg r = .error .nullDeref := by
  have hhandler : handlerFor r.msg.code r.msg.channel = some .data := by
    rw [handlerFor, if_neg hchannel, hcode]
    decide
  have hlookup : scConnectionChannel s.conn r.msg.channel.toInt = none := by
    rw [scConnectionChannel, hnil]
    rfl
  simp only [Session.step, handle, hhandler, hlookup, handlerData]
  rfl

section
variable {cfg : Config} {addr : Option Bytes} {fs : Fs} {requests : List Request} {s : Session}

/-- The law holds for a number exactly when it is registered, or no channel is registered
and no request on a channel carries the number. -/
theorem lookupLaw_iff
    (hrun : requests.foldlM (Session.step cfg) (Session.start addr fs) = .ok s) (id : Int) :
    LookupLaw cfg s id ↔
      s.conn.Registered id ∨
        s.conn.channelList = [] ∧ (id = 0 ∨ ¬ ∃ channel : BitVec 16, channel.toInt = id) := by
  have hwf := Session.wellFormed_run hrun
  constructor
  · intro hlaw
    by_cases hreg : s.conn.Registered id
    · exact Or.inl hreg
    -- The lookup returns the last channel of the list, and the law wants none.
    have hlast := hlaw.lookup
    rw [scConnectionChannel_of_not_registered hreg, find_of_not_registered hreg,
      List.getLast?_eq_none_iff] at hlast
    refine Or.inr ⟨hlast, ?_⟩
    by_contra hcarried
    obtain ⟨hne, hcarried⟩ := not_or.mp hcarried
    obtain ⟨channel, hchannel⟩ := not_not.mp hcarried
    have hzero : channel ≠ 0 := by
      rintro rfl
      exact hne hchannel.symm
    exact (hlaw.frame hreg ⟨zeroHeap, [], .received SCM_MSG_DATA channel []⟩ (Or.inl rfl)
      hchannel).1 (step_data_of_empty cfg hlast rfl hzero)
  · rintro (hreg | ⟨hnil, hid⟩)
    · refine ⟨?_, fun h => absurd hreg h⟩
      cases hfind : s.conn.channelList.find? fun c => c.id = id with
      | none =>
        obtain ⟨c, hc, hcid⟩ := hreg
        exact absurd hcid (by simpa using List.find?_eq_none.mp hfind c hc)
      | some c =>
        have hcid : c.id = id := by simpa using List.find?_some hfind
        rw [← hcid]
        exact scConnectionChannel_of_mem hwf (List.mem_of_find?_eq_some hfind)
    · refine ⟨by rw [scConnectionChannel, hnil]; rfl, fun _ r hcode hchannel => ?_⟩
      rcases hid with rfl | hnone
      · have hzero : r.msg.channel = 0 := BitVec.eq_of_toInt_eq (by simpa using hchannel)
        rw [step_of_channel_zero cfg s hcode hzero]
        refine ⟨by simp, ?_⟩
        rintro s' ⟨⟩
        exact ⟨rfl, rfl⟩
      · exact absurd ⟨_, hchannel⟩ hnone

end

/-- The law in the session after one INIT request, for the number that was given out. -/
theorem lookupLaw_oneChannel_iff :
    LookupLaw (smallConfig []) (oneChannel []) 1 ↔
      (oneChannel []).conn.Registered 1 ∨ (oneChannel []).conn.channelList = [] ∧
        ((1 : Int) = 0 ∨ ¬ ∃ channel : BitVec 16, channel.toInt = 1) :=
  lookupLaw_iff (Session.small_run [] Fs.empty 1 (by decide)) 1

/-- The session after one INIT request is reached, and there the number 2, which was never
given out, finds channel 1. On the connection before it the number 1 ends in a null
dereference. -/
theorem lookup_of_stale :
    (List.replicate 1 smallInit).foldlM (Session.step (smallConfig []))
      (Session.start (some [97]) Fs.empty) = .ok (oneChannel []) ∧
    ¬ LookupLaw (smallConfig []) (oneChannel []) 2 ∧
    ¬ LookupLaw (smallConfig []) (Session.start (some [97]) Fs.empty) 1 := by
  refine ⟨Session.small_run [] Fs.empty 1 (by decide), fun h => ?_, fun h => ?_⟩
  · have hlookup := h.lookup
    simp [oneChannel, registered, scConnectionChannel, channelLoop] at hlookup
  · have hnone : ¬ (Session.start (some [97]) Fs.empty).conn.Registered 1 := by
      rintro ⟨c, hc, -⟩
      cases hc
    exact (h.frame hnone ⟨zeroHeap, [], .received SCM_MSG_DATA 1 []⟩ (Or.inl rfl) (by decide)).1
      (step_data_of_empty _ rfl rfl (by decide))

end Compostela.Proofs.ChannelLookup
