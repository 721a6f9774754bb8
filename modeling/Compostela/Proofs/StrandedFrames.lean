import Compostela.Aggregator.RunMain

/-!
# `Compostela.Proofs.StrandedFrames`: frames that no event announces

An edge-triggered socket gives one event for everything that has arrived since the last one, and
`do_receive` reads one frame for each event. So a second frame that is there when `do_receive`
returns waits until something else arrives.

`NothingStranded` is the law, and `Attended` the condition on a wake-up. `nothingStranded_run`
is the result for every run. `Attended` is exact for a wake-up that ends, by
`nothingStranded_wake_iff`.
-/

set_option autoImplicit false

namespace Compostela.Proofs.StrandedFrames

open Compostela.Common
open Compostela.Memory
open Compostela.Segments
open Compostela.Runs
open Compostela.Aggregator

/-- Where no event is pending, no complete frame is in the receive queue. -/
def NothingStranded (s : RunMain) : Prop :=
  ∀ i, (s.watched i).pending = true ∨ ¬ HoldsFrame (s.watched i).queue

/-- Two complete frames are at the front of a byte string. -/
def HoldsTwoFrames (bs : Bytes) : Prop :=
  ∃ f g tail, bs = Frame.bytes f ++ (Frame.bytes g ++ tail)

/-- A wake-up during which nothing arrives finds at most one complete frame. -/
def Attended (s : RunMain) : LoopEvent → Prop
  | .accept .. => True
  | .arrive .. => True
  | .wake socket _ during =>
      bytesOf during = [] → ¬ HoldsTwoFrames (s.watched socket).queue

/-- No byte is no frame. -/
theorem not_holdsFrame_nil : ¬ HoldsFrame [] := by
  rintro ⟨hhead, -⟩
  exact absurd hhead (by decide)

section
variable {cfg : Config} {s s' : RunMain}

/-- A wake-up that has an event and a frame keeps the law exactly when it is attended. -/
theorem nothingStranded_wake_iff {socket : Nat} {call : Call} {during : List Arrival}
    {conn : ScConnection} (h : NothingStranded s)
    (hconn : (s.watched socket).conn = some conn)
    (hpending : (s.watched socket).pending = true)
    (hframe : HoldsFrame ((s.watched socket).queue ++ bytesOf during))
    (hstep : s.step cfg (.wake socket call during) = .ok s') :
    NothingStranded s' ↔ Attended s (.wake socket call during) := by
  obtain ⟨f, tail, hqueue⟩ := (holdsFrame_iff _).mp hframe
  obtain ⟨hrest, hevent, hothers⟩ := RunMain.wake_queue hconn hpending hqueue hstep
  constructor
  · intro h' hnothing htwo
    obtain ⟨f', g, tail', htwo⟩ := htwo
    -- The frame that was read is the first of the two, so the second is what is left.
    rw [hnothing, List.append_nil] at hqueue
    obtain ⟨hrest', -, -⟩ := RunMain.wake_queue hconn hpending
      (by rw [hnothing, List.append_nil]; exact htwo) hstep
    rcases h' socket with hpending' | hnone
    · rw [hevent, hnothing] at hpending'
      exact absurd hpending' (by decide)
    · rw [hrest'] at hnone
      exact hnone ((holdsFrame_iff _).mpr ⟨g, tail', rfl⟩)
  · intro hattended i
    by_cases hi : i = socket
    · subst hi
      by_cases hnothing : bytesOf during = []
      · right
        rw [hrest]
        intro hsecond
        obtain ⟨g, tail', rfl⟩ := (holdsFrame_iff _).mp hsecond
        rw [hnothing, List.append_nil] at hqueue
        exact hattended hnothing ⟨f, g, tail', hqueue⟩
      · left
        rw [hevent]
        exact decide_eq_true hnothing
    · rw [hothers i hi]
      exact h i

/-- One event of the loop under the condition. -/
theorem NothingStranded.step {e : LoopEvent} (h : NothingStranded s) (hattended : Attended s e)
    (hstep : s.step cfg e = .ok s') : NothingStranded s' := by
  cases e with
  | accept socket addr early =>
    cases hstep
    intro i
    by_cases hi : i = socket
    · subst hi
      rw [RunMain.watched_set_self]
      -- The socket is registered with what has arrived before, and `epoll_wait` reports that once.
      by_cases hearly : early = []
      · exact Or.inr (by rw [hearly]; exact not_holdsFrame_nil)
      · exact Or.inl (decide_eq_true hearly)
    · rw [RunMain.watched_set_of_ne s hi]
      exact h i
  | arrive socket segment =>
    cases hstep
    intro i
    by_cases hi : i = socket
    · subst hi
      rw [RunMain.watched_set_self]
      show (_ || decide (segment ≠ [])) = true ∨ ¬ HoldsFrame (_ ++ segment)
      by_cases hsegment : segment = []
      · rw [hsegment, List.append_nil]
        rcases h i with hpending | hnone
        · exact Or.inl (by rw [hpending]; rfl)
        · exact Or.inr hnone
      · exact Or.inl (by rw [decide_eq_true hsegment, Bool.or_true])
    · rw [RunMain.watched_set_of_ne s hi]
      exact h i
  | wake socket call during =>
    cases hconn : (s.watched socket).conn with
    | none =>
      simp only [RunMain.step, hconn] at hstep
      cases hstep
      exact h
    | some conn =>
      -- The call reads one frame, if there is an event and a whole frame to read.
      by_cases hguard : (s.watched socket).pending = true ∧
          HoldsFrame ((s.watched socket).queue ++ bytesOf during)
      · exact (nothingStranded_wake_iff h hconn hguard.1 hguard.2 hstep).mpr hattended
      · -- There is no event, or the call is still waiting for the rest of its frame.
        simp only [RunMain.step, hconn] at hstep
        rw [if_neg hguard] at hstep
        cases hstep
        exact h

/-- In every run whose wake-ups are attended, nothing is stranded in any state reached. -/
theorem nothingStranded_run {events : List LoopEvent} (hstart : NothingStranded s)
    (hall : Along (RunMain.step cfg) Attended s events)
    (hrun : events.foldlM (RunMain.step cfg) s = .ok s') : NothingStranded s' :=
  hall.invariant (fun _ _ _ h hattended hstep => h.step hattended hstep) hstart hrun

end

/-- A connection with two registered channels, and nothing in its receive queue. -/
def twoChannels : RunMain where
  watched _ := ⟨some ⟨some [97], registered (smallChannel []) 2⟩, [], false⟩
  fs := Fs.empty

/-- The release of a channel. -/
def releOf (channel : BitVec 16) : Bytes := (Frame.empty SCM_MSG_RELE channel).bytes

/-- Two requests, each with a wake-up of its own. -/
def inTurn : List LoopEvent :=
  [.arrive 0 (releOf 1), .wake 0 ⟨zeroHeap, []⟩ [], .arrive 0 (releOf 2), .wake 0 ⟨zeroHeap, []⟩ []]

/-- Two requests before one wake-up. -/
def atOnce : List LoopEvent :=
  [.arrive 0 (releOf 1), .arrive 0 (releOf 2), .wake 0 ⟨zeroHeap, []⟩ []]

/-- Nothing is stranded before anything has arrived. -/
theorem nothingStranded_twoChannels : NothingStranded twoChannels :=
  fun _ => Or.inr not_holdsFrame_nil

/-- One release is too short for two frames. -/
theorem not_holdsTwoFrames_releOf (channel : BitVec 16) : ¬ HoldsTwoFrames (releOf channel) := by
  rintro ⟨f, g, tail, h⟩
  have hlen := congrArg List.length h
  simp only [List.length_append, Frame.length_bytes, releOf, headerSize] at hlen
  have hempty : (Frame.empty SCM_MSG_RELE channel).content.length = 0 := rfl
  omega

/-- With a wake-up for each request, every wake-up is attended. -/
theorem attended_inTurn : Along (RunMain.step (smallConfig [])) Attended twoChannels inTurn := by
  refine ⟨trivial, fun s1 h1 => ⟨?_, fun s2 h2 => ⟨trivial, fun s3 h3 => ⟨?_, fun _ _ => trivial⟩⟩⟩⟩
  · cases h1
    intro _
    exact not_holdsTwoFrames_releOf 1
  · cases h1
    -- The first wake-up leaves nothing in the queue.
    obtain ⟨hempty, -, -⟩ := RunMain.wake_queue (s := twoChannels.set 0 _) rfl rfl
      (List.append_nil (Frame.bytes (Frame.empty SCM_MSG_RELE 1) ++ [])) h2
    cases h3
    intro _
    show ¬ HoldsTwoFrames ((s2.watched 0).queue ++ releOf 2)
    rw [hempty]
    exact not_holdsTwoFrames_releOf 2

/-- The run of `inTurn` ends, and both requests have been read. -/
theorem nothingStranded_inTurn :
    ∃ s', inTurn.foldlM (RunMain.step (smallConfig [])) twoChannels = .ok s' ∧
      (s'.watched 0).queue = [] ∧ NothingStranded s' := by
  have hqueue : (inTurn.foldlM (RunMain.step (smallConfig [])) twoChannels).map
      (fun s => (s.watched 0).queue) = .ok [] := rfl
  cases hrun : inTurn.foldlM (RunMain.step (smallConfig [])) twoChannels with
  | error t =>
    rw [hrun] at hqueue
    cases hqueue
  | ok s' =>
    rw [hrun] at hqueue
    exact ⟨s', rfl, Except.ok.inj hqueue,
      nothingStranded_run nothingStranded_twoChannels attended_inTurn hrun⟩

/-- Of two requests that arrive before one wake-up, the second stays in the queue with no event
for it. -/
theorem stranded_atOnce :
    ∃ s', atOnce.foldlM (RunMain.step (smallConfig [])) twoChannels = .ok s' ∧
      (s'.watched 0).pending = false ∧ HoldsFrame (s'.watched 0).queue ∧
      NothingStranded twoChannels ∧ ¬ NothingStranded s' := by
  have hwatched : (atOnce.foldlM (RunMain.step (smallConfig [])) twoChannels).map
      (fun s => ((s.watched 0).pending, (s.watched 0).queue)) = .ok (false, releOf 2) :=
    rfl
  cases hrun : atOnce.foldlM (RunMain.step (smallConfig [])) twoChannels with
  | error t =>
    rw [hrun] at hwatched
    cases hwatched
  | ok s' =>
    rw [hrun] at hwatched
    have heq := Prod.mk.inj (Except.ok.inj hwatched)
    -- The second frame is in the queue, and no event is pending for it.
    have hholds : HoldsFrame (s'.watched 0).queue := by
      rw [heq.2]
      decide
    refine ⟨s', rfl, heq.1, hholds, nothingStranded_twoChannels, ?_⟩
    intro h
    rcases h 0 with hpending | hnone
    · rw [heq.1] at hpending
      cases hpending
    · exact hnone hholds

end Compostela.Proofs.StrandedFrames
