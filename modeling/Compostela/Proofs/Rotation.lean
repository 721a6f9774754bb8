import Compostela.System.Exchange
import Compostela.System.History
import Mathlib.Data.List.Forall2

/-!
# `Compostela.Proofs.Rotation`: what a rotation of display names leaves behind

When a display name rotates, `do_rotate` releases the channel of the old context and puts a new
one in front of it. The old context stays in the list with its open file and its channel
number, so it goes on reading the file, and sends what it reads on a channel that it does not
have any more.

`rotation_safe` is what holds in the runs where no superseded context gets anything to read:
every DATA frame is sent with the right to its channel, and only by the newest context of its
file. `rotation_sends_stale_data` is a run in which the old context finds one more line.

`Live` is the invariant of a connection that works. The contexts that hold a channel are the
newest of their files and have opened them. Their channels are registered, are theirs to send
on, and are different.
-/

set_option autoImplicit false

namespace Compostela.Proofs.Rotation

open Compostela.Common
open Compostela.Memory
open Compostela.Runs
open Compostela.Segments
open Compostela.Aggregator
open Compostela.Follower
open Compostela.System
open Link

/-! ### The condition -/

/-- The offset of a file that is opened and registered under a name: the size of the separate file
of this name, which the response to INIT says. -/
def resumeOffset (cfg : Config) (l : Link) (name : Bytes) : Except Trap Nat := do
  let c ← scChannelNew cfg zeroHeap l.conn name
  .ok (BitVec.ofNat 64 (l.fs.size c.filenameFullpath)).toInt.toNat

/-- The context gets nothing to read: its file cannot be opened, or a read finds nothing. In a file
that is opened now the read is at the offset where the context resumes. -/
def Silent (cfg : Config) (l : Link) (inp : RunInput) (cxt : ScFollowContext) : Prop :=
  if 0 < cxt.fd then ReadsNothing inp cxt
  else cxt.fd ≠ -1 ∨ inp.opened.fd < 0 ∨
    match resumeOffset cfg l cxt.displayName with
    | .ok n => ReadsNothing inp { cxt with offset := n }
    | .error _ => True

instance (cfg : Config) (l : Link) (inp : RunInput) (cxt : ScFollowContext) :
    Decidable (Silent cfg l inp cxt) :=
  have : Decidable (match resumeOffset cfg l cxt.displayName with
      | .ok n => ReadsNothing inp { cxt with offset := n }
      | .error _ => True) := by
    cases resumeOffset cfg l cxt.displayName with
    | ok n => exact inferInstanceAs (Decidable (ReadsNothing _ _))
    | error t => exact isTrue trivial
  inferInstanceAs (Decidable (if 0 < cxt.fd then _ else _ ∨ _ ∨ _))

/-- On a connection that works, a context that is not the newest of its file gets nothing to read
in its turn. -/
def TurnSilent (cfg : Config) (senders : List Sender) (inputs : Nat → RunInput)
    (conn : ScAggregatorConnection Link) (c : Listed) : Prop :=
  conn.opened = true → conn.net.alive = true →
    Current senders (senderOf c) ∨ Silent cfg conn.net (inputs c.serial) c.cxt

instance (cfg : Config) (senders : List Sender) (inputs : Nat → RunInput)
    (conn : ScAggregatorConnection Link) (c : Listed) :
    Decidable (TurnSilent cfg senders inputs conn c) :=
  inferInstanceAs (Decidable (_ → _ → _ ∨ _))

/-- The turn of one context in a pass, for the connection. -/
def turn (cfg : Config) (md5 : Md5) (inputs : Nat → RunInput)
    (conn : ScAggregatorConnection Link) (c : Listed) :
    Except Trap (ScAggregatorConnection Link) := do
  let (_, _, conn) ← runFollowContext (listedNet cfg c) md5 (inputs c.serial) c.cxt conn
  .ok conn

/-- In a pass only the newest contexts of their files get anything to read, each in the turn that
it has, and there are few enough contexts for the `int16_t` channel numbers. -/
def Silenced (cfg : Config) (md5 : Md5) (s : MainLoop) : MainLoop.Event → Prop
  | .pass inputs fates _ => s.contexts.length < 2 ^ 15 ∧
      Along (turn cfg md5 inputs) (TurnSilent cfg (s.contexts.map senderOf) inputs)
        (withFates fates s.conn) s.contexts
  | _ => True

instance (cfg : Config) (md5 : Md5) (s : MainLoop) : ∀ e, Decidable (Silenced cfg md5 s e)
  | .pass _ _ _ => inferInstanceAs (Decidable (_ ∧ _))
  | .tick _ _ _ => isTrue trivial
  | .drop _ => isTrue trivial

/-- The follower gets the memory that it asks for. -/
def Served : MainLoop.Event → Prop
  | .tick _ heap _ => ∀ k n, (heap k).malloc n = true
  | .pass inputs _ _ => ∀ k i n, ((inputs k).heap i).malloc n = true
  | .drop _ => True

/-- There was a new connection between the two histories. -/
def Reconnects (log log' : List Item) : Prop :=
  ∃ new, log' = log ++ new ∧ Item.connected ∈ new

/-- What the follower sent in one step. Only the newest context of each file sent DATA. In a
pass that did not lose the connection, every context sent what it read. -/
structure SentOnce (s : MainLoop) (e : MainLoop.Event) (s' : MainLoop) : Prop where
  named : OneName (s.contexts.map senderOf) s.conn.net.log s'.conn.net.log
  sent : ∀ inputs fates reconnected, e = .pass inputs fates reconnected →
    Down s'.conn ∨ Reconnects s.conn.net.log s'.conn.net.log ∨
    List.Forall₂ (fun c c' => c'.serial = c.serial ∧
      Delivers (senderOf c) (inputs c.serial) c.cxt c'.cxt s.conn.net.log s'.conn.net.log)
        s.contexts s'.contexts

/-! ### The invariant -/

/-- The context holds a channel: it is the newest of its file, and has opened it. -/
structure Holds (contexts : List Listed) (c : Listed) : Prop where
  mem : c ∈ contexts
  current : Current (contexts.map senderOf) (senderOf c)
  opened : 0 ≤ c.cxt.fd

/-- The contexts that have opened their files. -/
def openCount (contexts : List Listed) : Nat := contexts.countP fun c => 0 ≤ c.cxt.fd

/-- The invariant of a connection that works. -/
structure Live (contexts : List Listed) (conn : ScAggregatorConnection Link) : Prop where
  up : Up conn
  wellFormed : conn.net.conn.WellFormed
  few : maxId conn.net.conn.channelList ≤ openCount contexts
  small : maxId conn.net.conn.channelList < 2 ^ 15
  nothing : ∀ c ∈ contexts, c.cxt.messageBuffer.code = SCM_MSG_NONE
  registered : ∀ c, Holds contexts c → conn.net.conn.Registered c.cxt.channel
  maySend : ∀ c, Holds contexts c → MaySend conn.net.log c.serial (.ofInt 16 c.cxt.channel)
  distinct : ∀ c d, Holds contexts c → Holds contexts d → c.cxt.channel = d.cxt.channel →
    senderOf c = senderOf d

/-- The invariant of the main loop. The newest contexts come first. -/
structure Sound (contexts : List Listed) (conn : ScAggregatorConnection Link) : Prop where
  order : (contexts.map senderOf).Pairwise fun a b => b.serial < a.serial
  bound : ∀ k ∈ contexts.map senderOf, k.serial < contexts.length
  ready : ∀ c ∈ contexts, Ready c.cxt
  clean : NoStaleData conn.net.log
  live : Down conn ∨ Live contexts conn

section
variable {contexts : List Listed} {conn conn' : ScAggregatorConnection Link} {c : Listed}

/-- The channel number of a context that holds a channel keeps its value in an `int16_t`. -/
theorem Live.number (h : Live contexts conn) (hc : Holds contexts c) :
    0 < c.cxt.channel ∧ c.cxt.channel < 2 ^ 15 := by
  -- The number is the id of a channel on the list, and the largest id fits.
  obtain ⟨d, hd, hid⟩ := h.registered c hc
  have hpos := h.wellFormed.pos d hd
  have hle := le_maxId hd
  have hsmall := h.small
  omega

/-- The number of a channel that a context holds is not zero on the wire. -/
theorem Live.number_ne_zero (h : Live contexts conn) (hc : Holds contexts c) :
    BitVec.ofInt 16 c.cxt.channel ≠ 0 := by
  obtain ⟨hpos, hsmall⟩ := h.number hc
  intro hzero
  have hvalue := toInt_ofInt_of_lt (by omega) hsmall
  rw [hzero] at hvalue
  have hz : (0 : BitVec 16).toInt = 0 := by decide
  omega

/-- Two contexts whose numbers are the same on the wire are one. -/
theorem Live.sender_eq (h : Live contexts conn) {d : Listed} (hc : Holds contexts c)
    (hd : Holds contexts d)
    (heq : BitVec.ofInt 16 c.cxt.channel = BitVec.ofInt 16 d.cxt.channel) :
    senderOf c = senderOf d := by
  obtain ⟨hcpos, hcsmall⟩ := h.number hc
  obtain ⟨hdpos, hdsmall⟩ := h.number hd
  have hvalue := congrArg BitVec.toInt heq
  rw [toInt_ofInt_of_lt (by omega) hcsmall, toInt_ofInt_of_lt (by omega) hdsmall] at hvalue
  exact h.distinct c d hc hd hvalue

/-- The fates of the frames to come have no part in the invariant of a connection. -/
theorem Live.withFates (h : Live contexts conn) (fates : List Fate) :
    Live contexts (withFates fates conn) :=
  ⟨⟨h.up.opened, h.up.alive, h.up.unread⟩, h.wellFormed, h.few, h.small, h.nothing,
    h.registered, h.maySend, h.distinct⟩

/-- The fates of the frames to come have no part in the invariant. -/
theorem Sound.withFates (h : Sound contexts conn) (fates : List Fate) :
    Sound contexts (withFates fates conn) :=
  ⟨h.order, h.bound, h.ready, h.clean, h.live.imp (·.withFates fates) (·.withFates fates)⟩

end

/-! ### A change of one context -/

section
variable {before after : List Listed} {c c' : Listed}
  {conn conn' : ScAggregatorConnection Link}

/-- A context after its turn is the same sender. -/
theorem map_senderOf_replace (before after : List Listed) (hsender : senderOf c' = senderOf c) :
    (before ++ c' :: after).map senderOf = (before ++ c :: after).map senderOf := by
  simp only [List.map_append, List.map_cons, hsender]

/-- What holds a channel after the change: the context that changed, or what held it before. -/
theorem Holds.replace {x : Listed} (hsender : senderOf c' = senderOf c)
    (h : Holds (before ++ c' :: after) x) :
    x = c' ∧ Current ((before ++ c :: after).map senderOf) (senderOf c) ∧ 0 ≤ c'.cxt.fd ∨
      Holds (before ++ c :: after) x := by
  have hcurrent := h.current
  rw [map_senderOf_replace before after hsender] at hcurrent
  -- It stands before the change, is the change, or stands behind it.
  rcases List.mem_append.mp h.mem with hmem | hmem
  · exact Or.inr ⟨List.mem_append_left _ hmem, hcurrent, h.opened⟩
  · rcases List.mem_cons.mp hmem with rfl | hmem
    · rw [hsender] at hcurrent
      exact Or.inl ⟨rfl, hcurrent, h.opened⟩
    · exact Or.inr ⟨List.mem_append_right _ (List.mem_cons_of_mem _ hmem), hcurrent, h.opened⟩

/-- One context of the list counted apart from the others. -/
theorem openCount_replace :
    openCount (before ++ c :: after) = openCount before + openCount after +
      (if 0 ≤ c.cxt.fd then 1 else 0) := by
  simp only [openCount, List.countP_append, List.countP_cons, decide_eq_true_eq]
  omega

/-- The invariant after a change of one context and of the connection. -/
theorem Live.replace (h : Live (before ++ c :: after) conn) (hsender : senderOf c' = senderOf c)
    (hup : Up conn') (hwf : conn'.net.conn.WellFormed)
    (hfew : maxId conn'.net.conn.channelList ≤ openCount (before ++ c' :: after))
    (hsmall : maxId conn'.net.conn.channelList < 2 ^ 15)
    (hnothing : c'.cxt.messageBuffer.code = SCM_MSG_NONE)
    (hothers : ∀ x, Holds (before ++ c :: after) x → conn'.net.conn.Registered x.cxt.channel ∧
      MaySend conn'.net.log x.serial (.ofInt 16 x.cxt.channel))
    (hself : Current ((before ++ c :: after).map senderOf) (senderOf c) → 0 ≤ c'.cxt.fd →
      conn'.net.conn.Registered c'.cxt.channel ∧
      MaySend conn'.net.log c.serial (.ofInt 16 c'.cxt.channel) ∧
      ∀ x, Holds (before ++ c :: after) x → x.cxt.channel = c'.cxt.channel →
        senderOf x = senderOf c) :
    Live (before ++ c' :: after) conn' := by
  have hserial : c'.serial = c.serial := congrArg Sender.serial hsender
  constructor
  · exact hup
  · exact hwf
  · exact hfew
  · exact hsmall
  · intro x hx
    rcases List.mem_append.mp hx with hx | hx
    · exact h.nothing x (List.mem_append_left _ hx)
    · rcases List.mem_cons.mp hx with rfl | hx
      · exact hnothing
      · exact h.nothing x (List.mem_append_right _ (List.mem_cons_of_mem _ hx))
  · intro x hx
    rcases hx.replace hsender with ⟨rfl, hcurrent, hfd⟩ | hold
    · exact (hself hcurrent hfd).1
    · exact (hothers x hold).1
  · intro x hx
    rcases hx.replace hsender with ⟨rfl, hcurrent, hfd⟩ | hold
    · rw [hserial]
      exact (hself hcurrent hfd).2.1
    · exact (hothers x hold).2
  · intro x y hx hy heq
    -- Two contexts that changed neither are distinct as before. The changed one is distinct from
    -- each by `hself`.
    rcases hx.replace hsender with ⟨rfl, hcurrent, hfd⟩ | hxold
    · rcases hy.replace hsender with ⟨rfl, -, -⟩ | hyold
      · rfl
      · rw [hsender]
        exact ((hself hcurrent hfd).2.2 y hyold heq.symm).symm
    · rcases hy.replace hsender with ⟨rfl, hcurrent, hfd⟩ | hyold
      · rw [hsender]
        exact (hself hcurrent hfd).2.2 x hxold heq
      · exact h.distinct x y hxold hyold heq

/-- A change that leaves the descriptor open or closed, and the channel and the ids as they
are. -/
theorem Live.keep (h : Live (before ++ c :: after) conn) (hsender : senderOf c' = senderOf c)
    (hup : Up conn') (hwf : conn'.net.conn.WellFormed)
    (hids : conn'.net.conn.channelList.map ScChannel.id =
      conn.net.conn.channelList.map ScChannel.id)
    (hmay : ∀ k channel, MaySend conn.net.log k channel → MaySend conn'.net.log k channel)
    (hnothing : c'.cxt.messageBuffer.code = SCM_MSG_NONE)
    (hfd : 0 ≤ c'.cxt.fd ↔ 0 ≤ c.cxt.fd)
    (hchannel : 0 ≤ c'.cxt.fd → c'.cxt.channel = c.cxt.channel) :
    Live (before ++ c' :: after) conn' := by
  have hmax : maxId conn'.net.conn.channelList ≤ maxId conn.net.conn.channelList :=
    maxId_le_of_ids (by rw [hids]; exact fun _ hid => hid)
  have hregistered : ∀ id, conn.net.conn.Registered id → conn'.net.conn.Registered id := by
    intro id hid
    rw [ScConnection.registered_iff] at hid ⊢
    rw [hids]
    exact hid
  have hfew := h.few
  -- The ids are the same, so whoever was registered still is.
  refine h.replace hsender hup hwf ?_ ?_ hnothing ?_ ?_
  · rw [openCount_replace] at hfew ⊢
    simp only [hfd]
    omega
  · exact Int.lt_of_le_of_lt hmax h.small
  · intro x hx
    exact ⟨hregistered _ (h.registered x hx), hmay _ _ (h.maySend x hx)⟩
  · intro hcurrent hopen
    have hc : Holds (before ++ c :: after) c :=
      ⟨List.mem_append_right _ (List.mem_cons_self ..), hcurrent, hfd.mp hopen⟩
    rw [hchannel hopen]
    exact ⟨hregistered _ (h.registered c hc), hmay _ _ (h.maySend c hc),
      fun x hx heq => h.distinct x c hx hc heq⟩

end

/-! ### The parts of a run -/

/-- Only a RELE request releases a channel. -/
theorem not_releases_of_code {x : Exchange} {channel : BitVec 16}
    (h : codeOf x.request ≠ SCM_MSG_RELE) : ¬ x.Releases channel := fun hx => h hx.1

section
variable {before after : List Listed} {c : Listed} {conn conn' : ScAggregatorConnection Link}
  {cfg : Config} {md5 : Md5} {inp : RunInput} {cxt' : ScFollowContext}

/-- What a part of a run leaves: nobody sent without the right, and nobody but the newest
contexts sent DATA. -/
def Kept (senders : List Sender) (conn conn' : ScAggregatorConnection Link) : Prop :=
  NoStaleData conn'.net.log ∧ OneName senders conn.net.log conn'.net.log

/-- A frame that is not DATA. -/
theorem kept_of_exchange {senders : List Sender} {x : Exchange} (hclean : NoStaleData conn.net.log)
    (hlog : conn'.net.log = conn.net.log ++ [Item.exchange x])
    (hcode : codeOf x.request ≠ SCM_MSG_DATA) : Kept senders conn conn' := by
  unfold Kept
  rw [hlog]
  exact ⟨hclean.concat fun hdata => absurd hdata hcode, .concat fun hdata => absurd hdata hcode⟩

/-- A frame that is lost and is no DATA keeps the history clean. -/
theorem kept_of_lost {senders : List Sender} {sender : Sender} {f : Frame}
    (hclean : NoStaleData conn.net.log) (hcode : f.code ≠ SCM_MSG_DATA)
    (h : Lost sender f.bytes conn.net conn'.net) : Kept senders conn conn' := by
  -- The frame is in the history when the aggregator handled it before the loss.
  rcases h.log with hlog | hlog
  · unfold Kept
    rw [hlog]
    exact ⟨hclean, .refl _ _⟩
  · exact kept_of_exchange hclean hlog (by rw [codeOf_bytes]; exact hcode)

/-- What nobody hears keeps the history clean. -/
theorem kept_of_unheard {senders : List Sender} (hclean : NoStaleData conn.net.log)
    (h : Unheard conn.net conn'.net) : Kept senders conn conn' := by
  unfold Kept
  rw [h.log]
  exact ⟨hclean, .refl _ _⟩

/-- Two steps that keep the history clean keep it clean together. -/
theorem Kept.trans {senders : List Sender} {conn'' : ScAggregatorConnection Link}
    (h : Kept senders conn conn') (h' : Kept senders conn' conn'') :
    Kept senders conn conn'' := ⟨h'.1, h.2.trans h'.2⟩

/-- A registration keeps the history clean. -/
theorem kept_of_registers {senders : List Sender} {sender : Sender} {cxt : ScFollowContext}
    {channel : ScChannel} {answer : Frame} (hclean : NoStaleData conn.net.log)
    (h : Registers cfg sender cxt conn.net conn'.net channel answer) :
    Kept senders conn conn' := by
  have hcode : codeOf (initMessage cxt).frame.bytes ≠ SCM_MSG_DATA := by
    rw [codeOf_bytes]
    show SCM_MSG_INIT ≠ SCM_MSG_DATA
    decide
  exact kept_of_exchange hclean h.log hcode

/-- The offset of a file that was just opened, after its registration. -/
theorem resumeOffset_of_registers {sender : Sender} {cxt : ScFollowContext} {channel : ScChannel}
    {answer : Frame} (h : Registers cfg sender cxt conn.net conn'.net channel answer)
    (hzero : cxt.offset = 0) :
    resumeOffset cfg conn.net cxt.displayName =
      .ok (resumed cxt channel conn.net.fs).offset := by
  obtain ⟨heap, new, hnew, rfl⟩ := h.channel
  obtain ⟨other, hother, hpath⟩ := scChannelNew_zeroHeap hnew
  -- The path is the one of the channel, whatever the memory held.
  rw [resumeOffset, hother, ok_bind, resumed_offset hzero, hpath, resumed_position]

/-- The registration of a context that was not open. -/
theorem Live.register {cxt : ScFollowContext} {channel : ScChannel} {answer : Frame}
    (h : Live (before ++ c :: after) conn) (hlen : (before ++ c :: after).length < 2 ^ 15)
    (hclosed : c.cxt.fd < 0) (hopen : 0 ≤ cxt.fd)
    (hnothing : cxt.messageBuffer.code = SCM_MSG_NONE)
    (hsender : senderOf { c with cxt := resumed cxt channel conn.net.fs } = senderOf c)
    (hup : Up conn')
    (hreg : Registers cfg (senderOf c) cxt conn.net conn'.net channel answer) :
    Live (before ++ { c with cxt := resumed cxt channel conn.net.fs } :: after) conn' := by
  obtain ⟨heap, new, -, hid⟩ := hreg.channel
  have hlist : conn'.net.conn.channelList = channel :: conn.net.conn.channelList := by
    rw [hreg.conn]
  have hrequest : codeOf (initMessage cxt).frame.bytes = SCM_MSG_INIT := codeOf_bytes _
  -- The new id is one more than the largest.
  have hidval : channel.id = maxId conn.net.conn.channelList + 1 := by rw [hid]
  have hnonneg := maxId_nonneg conn.net.conn.channelList
  have hmax : maxId conn'.net.conn.channelList = channel.id := by
    rw [hlist]
    have hhead : channel.id ≤ maxId (channel :: conn.net.conn.channelList) :=
      le_maxId (List.mem_cons_self ..)
    rcases maxId_cases (channel :: conn.net.conn.channelList) with hzero | ⟨d, hd, hdid⟩
    · omega
    · rcases List.mem_cons.mp hd with rfl | hd
      · omega
      · have hle := le_maxId hd
        omega
  -- One more context is open, and there are few of them.
  have hfew := h.few
  have hcount : openCount (before ++ { c with cxt := resumed cxt channel conn.net.fs } :: after)
      = openCount (before ++ c :: after) + 1 := by
    have hnew : 0 ≤ (resumed cxt channel conn.net.fs).fd := by
      rw [resumed_fd]
      exact hopen
    have hold : ¬ 0 ≤ c.cxt.fd := by omega
    rw [openCount_replace, openCount_replace]
    simp only [if_pos hnew, if_neg hold]
  have hcountle : openCount (before ++ { c with cxt := resumed cxt channel conn.net.fs } :: after)
      ≤ (before ++ c :: after).length := by
    unfold openCount
    refine Nat.le_trans List.countP_le_length ?_
    simp
  have hchannel : (resumed cxt channel conn.net.fs).channel = channel.id := by
    rw [resumed_channel]
    exact toInt_ofInt_of_lt (by omega) (by omega)
  have hroom : maxId conn.net.conn.channelList ≠ INT_MAX := by
    have hsmall := h.small
    unfold INT_MAX
    omega
  refine h.replace hsender hup (hreg.wellFormed h.wellFormed hroom) ?_ ?_ ?_ ?_ ?_
  · rw [hmax, hcount]
    omega
  · rw [hmax]
    omega
  · simp only [resumed_messageBuffer]
    exact hnothing
  · -- The channels before it stay, and an INIT request releases none.
    intro x hx
    obtain ⟨d, hd, hdid⟩ := h.registered x hx
    refine ⟨⟨d, by rw [hlist]; exact List.mem_cons_of_mem _ hd, hdid⟩, ?_⟩
    rw [hreg.log]
    refine (h.maySend x hx).concat (not_releases_of_code ?_)
    rw [hrequest]
    decide
  · intro _ _
    -- The new number is larger than every other, so no other context has it.
    simp only [hchannel]
    refine ⟨⟨channel, by rw [hlist]; exact List.mem_cons_self .., rfl⟩, ?_, ?_⟩
    · obtain ⟨chunks, attr, hanswer⟩ := hreg.answer_eq
      rw [hreg.log]
      refine maySend_of_assigns rfl ⟨hrequest, ?_, ?_⟩
      · rw [codeOf_bytes, hanswer]
        rfl
      · rw [channelOf_bytes, hanswer]
        rfl
    · intro x hx heq
      obtain ⟨d, hd, hdid⟩ := h.registered x hx
      have hle := le_maxId hd
      omega

/-- `_init_file` for a context that was not open. -/
theorem Live.initFile {cxt : ScFollowContext} {heap : Heap} {ret : Int}
    (h : Live (before ++ c :: after) conn)
    (hinit : initFile (listedNet cfg c) md5 inp heap cxt conn = .ok (ret, cxt', conn'))
    (hlen : (before ++ c :: after).length < 2 ^ 15) (hclean : NoStaleData conn.net.log)
    (hclosed : c.cxt.fd < 0) (hopen : 0 ≤ cxt.fd)
    (hnothing : cxt.messageBuffer.code = SCM_MSG_NONE)
    (hsender : senderOf { c with cxt := cxt } = senderOf c) (hname : IsName cxt.displayName)
    (hmem : ∀ n, heap.malloc n = true) :
    Kept ((before ++ c :: after).map senderOf) conn conn' ∧
      (Down conn' ∨ Live (before ++ { c with cxt := cxt' } :: after) conn' ∧
        cxt'.fd = cxt.fd ∧ cxt'.buffer = cxt.buffer ∧
        (cxt.offset = 0 → cxt'.offset = cxt'.position.toNat ∧
          resumeOffset cfg conn.net cxt.displayName = .ok cxt'.offset)) := by
  -- The request is lost, the answer is lost, or the context is resumed.
  rcases h.up.initFile hname hmem hinit with
    ⟨hdown, -, hlost | ⟨channel, answer, hreg⟩⟩ | ⟨hup, channel, answer, hreg, rfl⟩
  · have hcode : (initMessage cxt).frame.code ≠ SCM_MSG_DATA := by
      show SCM_MSG_INIT ≠ SCM_MSG_DATA
      decide
    exact ⟨kept_of_lost hclean hcode hlost, Or.inl hdown⟩
  · exact ⟨kept_of_registers hclean hreg, Or.inl hdown⟩
  · refine ⟨kept_of_registers hclean hreg, Or.inr ⟨?_, resumed_fd .., resumed_buffer ..,
      fun hzero => ⟨resumed_offset hzero, resumeOffset_of_registers hreg hzero⟩⟩⟩
    refine h.register hlen hclosed hopen hnothing ?_ hup hreg
    simp only [senderOf, resumed_filename, resumed_displayName]
    exact hsender

/-- The first part of a run. -/
theorem Live.ensureOpen {ret : Option Int} (h : Live (before ++ c :: after) conn)
    (hlen : (before ++ c :: after).length < 2 ^ 15) (hready : Ready c.cxt)
    (hclean : NoStaleData conn.net.log) (hmem : ∀ n, (inp.heap 0).malloc n = true)
    (hopen : ensureOpen (listedNet cfg c) md5 inp c.cxt conn = .ok (ret, cxt', conn')) :
    Kept ((before ++ c :: after).map senderOf) conn conn' ∧ ret ≠ some ERR_MUST_RECONNECT ∧
      (Down conn' ∨ Live (before ++ { c with cxt := cxt' } :: after) conn' ∧
        (ret ≠ none → ¬ (0 < c.cxt.fd ∨ c.cxt.fd = -1 ∧ 0 ≤ cxt'.fd)) ∧
        (ret = none → 0 ≤ cxt'.fd ∧ (Silent cfg conn.net inp c.cxt → ReadsNothing inp cxt') ∧
          cxt'.buffer = c.cxt.buffer ∧
          cxt'.offset = if 0 < c.cxt.fd then c.cxt.offset else cxt'.position.toNat)) := by
  have hnothing : c.cxt.messageBuffer.code = SCM_MSG_NONE :=
    h.nothing c (List.mem_append_right _ (List.mem_cons_self ..))
  have hsame : Kept ((before ++ c :: after).map senderOf) conn conn :=
    kept_of_unheard hclean (.refl _)
  rcases ensureOpen_cases hopen with ⟨hfd, rfl, rfl, rfl⟩ | ⟨hfd, hclosed, rfl, rfl, rfl⟩ |
    ⟨hclosed, hfail, rfl, rfl, rfl⟩ | ⟨hclosed, hfile, rfl, ret1, hinit⟩
  · refine ⟨hsame, nofun, Or.inr ⟨h, fun hne => absurd rfl hne, fun _ =>
      ⟨by omega, ?_, rfl, by rw [if_pos hfd]⟩⟩⟩
    intro hsilent
    unfold Silent at hsilent
    rw [if_pos hfd] at hsilent
    exact hsilent
  · -- A descriptor that is not -1 counts as open.
    exact ⟨hsame, by decide, Or.inr ⟨h, fun _ => by omega, nofun⟩⟩
  · -- The file cannot be opened.
    refine ⟨hsame, by decide, Or.inr ⟨?_, fun _ => ?_, nofun⟩⟩
    · refine h.keep rfl h.up h.wellFormed rfl (fun _ _ hk => hk) hnothing ?_ ?_
      · show 0 ≤ inp.opened.fd ↔ 0 ≤ c.cxt.fd
        omega
      · show 0 ≤ inp.opened.fd → _
        omega
    · show ¬ (0 < c.cxt.fd ∨ c.cxt.fd = -1 ∧ 0 ≤ inp.opened.fd)
      omega
  · obtain ⟨hkept, hcase⟩ := h.initFile hinit hlen hclean (by omega) hfile hnothing rfl
      hready.isName hmem
    refine ⟨hkept, nofun, hcase.imp id ?_⟩
    rintro ⟨hlive, hfd1, hbuffer, hoffset⟩
    refine ⟨hlive, fun hne => absurd rfl hne, fun _ => ⟨by rw [hfd1]; exact hfile, ?_, hbuffer, ?_⟩⟩
    · intro hsilent
      -- The read is at the offset that the response says.
      unfold Silent at hsilent
      rw [if_neg (by omega), (hoffset rfl).2] at hsilent
      rcases hsilent with hne | hneg | ⟨hempty, hread⟩
      · exact absurd hclosed hne
      · omega
      · exact ⟨by rw [hbuffer]; exact hempty, hread⟩
    · rw [if_neg (by omega)]
      exact (hoffset rfl).1

/-- The exchange of a line by a context that holds its channel. -/
theorem Live.exchangeData {cxt : ScFollowContext} {ret : Int} {complete : Bool} {line : Bytes}
    {msg : ScLogMessage} (h : Live (before ++ c :: after) conn)
    (hexchange : exchangeData (listedNet cfg c) inp (dataHeader line.length cxt) conn
      = .ok (ret, cxt', conn'))
    (hclean : NoStaleData conn.net.log)
    (hcurrent : Current ((before ++ c :: after).map senderOf) (senderOf c))
    (hopen : 0 ≤ c.cxt.fd) (hsender : senderOf { c with cxt := cxt } = senderOf c)
    (hfd : cxt.fd = c.cxt.fd) (hchannel : cxt.channel = c.cxt.channel)
    (hroom : msg.content.size = BUFSIZE)
    (hstore : storeLine inp complete line msg = .ok cxt.messageBuffer)
    (hmem : ∀ n, (inp.heap 2).malloc n = true) :
    Kept ((before ++ c :: after).map senderOf) conn conn' ∧
      (Down conn' ∨ ret ≠ ERR_MUST_RECONNECT ∧
        Live (before ++ { c with cxt := cxt' } :: after) conn' ∧
        ∃ x, Adds conn.net.log conn'.net.log x ∧ x.sender = senderOf c ∧ x.Carries line) := by
  have hholds : Holds (before ++ c :: after) c :=
    ⟨List.mem_append_right _ (List.mem_cons_self ..), hcurrent, hopen⟩
  have hnumber : BitVec.ofInt 16 cxt.channel ≠ 0 := by
    rw [hchannel]
    exact h.number_ne_zero hholds
  -- The request carries the channel number of the context.
  have hsend := sendable_dataHeader rfl hroom hstore
  have hcode : codeOf (dataHeader line.length cxt).messageBuffer.frame.bytes = SCM_MSG_DATA :=
    codeOf_bytes _
  have hmay : MaySend conn.net.log (senderOf c).serial
      (channelOf (dataHeader line.length cxt).messageBuffer.frame.bytes) := by
    rw [channelOf_bytes]
    show MaySend conn.net.log c.serial (.ofInt 16 cxt.channel)
    rw [hchannel]
    exact h.maySend c hholds
  -- A DATA frame in the history is sent with the right to its channel, by the newest context.
  have hkept : ∀ l : Link, ∀ response : Bytes,
      l.log = conn.net.log ++ [Item.exchange ⟨senderOf c,
        (dataHeader line.length cxt).messageBuffer.frame.bytes, response⟩] →
      NoStaleData l.log ∧
        OneName ((before ++ c :: after).map senderOf) conn.net.log l.log := by
    intro l response hlog
    rw [hlog]
    exact ⟨hclean.concat fun _ => hmay, .concat fun _ => hcurrent⟩
  rcases h.up.exchangeData hroom hstore hnumber hmem hexchange with
    ⟨-, hdown, hlost | ⟨r, hr⟩⟩ | ⟨hret, hup, hnothing, r, hr⟩
  · refine ⟨?_, Or.inl hdown⟩
    rcases hlost.log with hlog | hlog
    · unfold Kept
      rw [hlog]
      exact ⟨hclean, .refl _ _⟩
    · exact hkept _ _ hlog
  · exact ⟨hkept _ _ hr.log, Or.inl hdown⟩
  · refine ⟨hkept _ _ hr.log, Or.inr ⟨by rw [hret]; decide, ?_, ?_⟩⟩
    swap
    · exact ⟨_, ⟨_, hr.log, List.mem_singleton_self _⟩, rfl, carries_of_isFrame rfl hsend.frame⟩
    obtain ⟨msg', hcxt, -⟩ := exchangeData_cxt hexchange
    have hids := ids_of_data hsend.frame hnumber hr
    refine h.keep ?_ hup (hr.wellFormed h.wellFormed) hids ?_ hnothing ?_ ?_
    · rw [hcxt]
      exact hsender
    · intro k channel hk
      rw [hr.log]
      refine hk.concat (not_releases_of_code ?_)
      rw [hcode]
      decide
    · rw [hcxt]
      show 0 ≤ cxt.fd ↔ 0 ≤ c.cxt.fd
      rw [hfd]
    · intro _
      rw [hcxt]
      exact hchannel

/-- One run of a context, on a connection that works. -/
theorem Live.run {ret : Int} (h : Live (before ++ c :: after) conn)
    (hrun : runFollowContext (listedNet cfg c) md5 inp c.cxt conn = .ok (ret, cxt', conn'))
    (hlen : (before ++ c :: after).length < 2 ^ 15) (hready : Ready c.cxt)
    (hclean : NoStaleData conn.net.log) (hmem : ∀ k n, (inp.heap k).malloc n = true)
    (hsilent : Current ((before ++ c :: after).map senderOf) (senderOf c) ∨
      Silent cfg conn.net inp c.cxt) :
    Kept ((before ++ c :: after).map senderOf) conn conn' ∧
      (Down conn' ∨ ret ≠ ERR_MUST_RECONNECT ∧
        Live (before ++ { c with cxt := cxt' } :: after) conn' ∧
        Delivers (senderOf c) inp c.cxt cxt' conn.net.log conn'.net.log) := by
  have hnothing : c.cxt.messageBuffer.code = SCM_MSG_NONE :=
    h.nothing c (List.mem_append_right _ (List.mem_cons_self ..))
  obtain ⟨ret1, cxt1, conn1, hopen, hrest⟩ :=
    runFollowContext_of_nothing h.up.opened hnothing hrun
  obtain ⟨hkept1, hne1, hcase1⟩ := h.ensureOpen hlen hready hclean (hmem 0) hopen
  have hcont1 := ensureOpen_continues hready.valid hopen
  rcases hrest with ⟨rfl, rfl, rfl⟩ | ⟨rfl, ret2, cb, cxt2, hfill, hrest⟩
  · -- The file could not be opened.
    refine ⟨hkept1, hcase1.imp id fun hlive => ⟨?_, hlive.1, ?_⟩⟩
    · intro heq
      exact hne1 (by rw [heq])
    · intro hopened
      exact absurd hopened (hlive.2.1 nofun)
  rcases hcase1 with hdown1 | ⟨hlive1, -, hopened⟩
  · -- The registration failed, and the rest of the run reaches nobody.
    rcases hrest with ⟨-, rfl, rfl⟩ | ⟨-, cxt3, conn3, hchan, hex⟩
    · exact ⟨hkept1, Or.inl hdown1⟩
    · obtain ⟨-, hdown3, hsame3⟩ := hdown1.ensureChannel hchan
      obtain ⟨-, hdown', hsame'⟩ := hdown3.exchangeData hex
      exact ⟨hkept1.trans (kept_of_unheard hkept1.1 (hsame3.trans hsame')), Or.inl hdown'⟩
  -- The context with its open file, and after the read.
  obtain ⟨hfd1, hreads, hbuffer1, hoffset1⟩ := hopened rfl
  have hsender1 : senderOf { c with cxt := cxt1 } = senderOf c := by
    simp only [senderOf, hcont1.filename, hcont1.displayName]
  have hsenders := map_senderOf_replace before after hsender1
  obtain ⟨got, line, complete, htook, hended, hline⟩ := fillMessage_took hcont1.valid hfill
  have hfd2 : cxt2.fd = cxt1.fd := by rw [htook.rest]
  have hchannel2 : cxt2.channel = cxt1.channel := by rw [htook.rest]
  have hsender2 : senderOf { c with cxt := cxt2 } = senderOf { c with cxt := cxt1 } := by
    have hcont2 := fillMessage_continues hcont1.valid hfill
    simp only [senderOf, hcont2.filename, hcont2.displayName]
  rcases hrest with ⟨rfl, rfl, rfl⟩ | ⟨rfl, cxt3, conn3, hchan, hex⟩
  · -- The read gave no line, and the context keeps its channel.
    obtain ⟨hnil, hmsg, hne⟩ := hended nofun
    refine ⟨hkept1, Or.inr ⟨fun heq => hne (by rw [heq]), ?_,
      delivers_of_took htook hbuffer1 hoffset1 rfl rfl rfl (Or.inl hnil)⟩⟩
    refine hlive1.keep hsender2 hlive1.up hlive1.wellFormed rfl (fun _ _ hk => hk) ?_ ?_ ?_
    · have hcode1 := hlive1.nothing _ (List.mem_append_right _ (List.mem_cons_self ..))
      simp only [hmsg]
      exact hcode1
    · simp only [hfd2]
    · intro _
      exact hchannel2
  · obtain ⟨rfl, hstore, -⟩ := hline rfl
    -- A superseded context has nothing to read, so this is the newest of its file.
    have hcurrent : Current ((before ++ c :: after).map senderOf) (senderOf c) := by
      rcases hsilent with hcurrent | hsilent
      · exact hcurrent
      · exact absurd rfl (fillMessage_of_nothing hcont1.valid (hreads hsilent) hfill)
    have hcurrent1 : Current ((before ++ { c with cxt := cxt1 } :: after).map senderOf)
        (senderOf { c with cxt := cxt1 }) := by
      rw [hsenders, hsender1]
      exact hcurrent
    have hholds : Holds (before ++ { c with cxt := cxt1 } :: after) { c with cxt := cxt1 } :=
      ⟨List.mem_append_right _ (List.mem_cons_self ..), hcurrent1, hfd1⟩
    -- A context that holds a channel needs no second registration.
    have hpos : 0 < cxt1.channel := (hlive1.number hholds).1
    obtain ⟨rfl, rfl⟩ := ensureChannel_of_ne (by rw [hchannel2]; omega) hchan
    have hnet : listedNet cfg { c with cxt := cxt1 } = listedNet cfg c := by
      unfold listedNet
      rw [hsender1]
    rw [← hnet] at hex
    have hroom := hcont1.room.trans hready.room
    obtain ⟨hkept', hcase⟩ := hlive1.exchangeData hex hkept1.1 hcurrent1 hfd1 hsender2
      hfd2 hchannel2 hroom hstore (hmem 2)
    rw [hsenders] at hkept'
    refine ⟨hkept1.trans hkept', hcase.imp id ?_⟩
    rintro ⟨hne, hlive', x, ⟨new, hlog, hx⟩, hxsender, hcarries⟩
    obtain ⟨m, hcxt', -⟩ := exchangeData_cxt hex
    obtain ⟨-, new1, hlog1, -⟩ := hkept1
    refine ⟨hne, hlive', delivers_of_took htook hbuffer1 hoffset1 (by rw [hcxt']; rfl)
      (by rw [hcxt']; rfl) (by rw [hcxt']; rfl) (Or.inr ⟨x, ⟨new1 ++ new, ?_, ?_⟩, ?_, hcarries⟩)⟩
    · rw [hlog, hlog1, List.append_assoc]
    · exact List.mem_append_right _ hx
    · rw [hxsender, hsender1]

/-- One run of a context. -/
theorem Sound.run {ret : Int} (h : Sound (before ++ c :: after) conn)
    (hrun : runFollowContext (listedNet cfg c) md5 inp c.cxt conn = .ok (ret, cxt', conn'))
    (hlen : (before ++ c :: after).length < 2 ^ 15) (hmem : ∀ k n, (inp.heap k).malloc n = true)
    (hsilent : conn.opened = true → conn.net.alive = true →
      Current ((before ++ c :: after).map senderOf) (senderOf c) ∨ Silent cfg conn.net inp c.cxt) :
    Sound (before ++ { c with cxt := cxt' } :: after) conn' ∧
      senderOf { c with cxt := cxt' } = senderOf c ∧
      OneName ((before ++ c :: after).map senderOf) conn.net.log conn'.net.log ∧
      (ret = ERR_MUST_RECONNECT → Down conn') ∧ (Down conn → Down conn') ∧
      (Down conn' ∨ Delivers (senderOf c) inp c.cxt cxt' conn.net.log conn'.net.log) := by
  have hready : Ready c.cxt :=
    h.ready c (List.mem_append_right _ (List.mem_cons_self ..))
  have hcont := runFollowContext_continues hready.valid hrun
  have hsender : senderOf { c with cxt := cxt' } = senderOf c := by
    simp only [senderOf, hcont.filename, hcont.displayName]
  have hsenders := map_senderOf_replace before after hsender
  have hready' : ∀ x ∈ before ++ { c with cxt := cxt' } :: after, Ready x.cxt := by
    intro x hx
    rcases List.mem_append.mp hx with hx | hx
    · exact h.ready x (List.mem_append_left _ hx)
    · rcases List.mem_cons.mp hx with rfl | hx
      · exact hready.continues hcont
      · exact h.ready x (List.mem_append_right _ (List.mem_cons_of_mem _ hx))
  -- The connection is down before the run, or it works and can go down in it.
  have hkept : Kept ((before ++ c :: after).map senderOf) conn conn' ∧
      (Down conn' ∨ ret ≠ ERR_MUST_RECONNECT ∧
        Live (before ++ { c with cxt := cxt' } :: after) conn' ∧
        Delivers (senderOf c) inp c.cxt cxt' conn.net.log conn'.net.log) := by
    rcases h.live with hdown | hlive
    · obtain ⟨hdown', hsame⟩ := hdown.run hrun
      exact ⟨kept_of_unheard h.clean hsame, Or.inl hdown'⟩
    · exact hlive.run hrun hlen hready h.clean hmem (hsilent hlive.up.opened hlive.up.alive)
  obtain ⟨⟨hclean, hnamed⟩, hcase⟩ := hkept
  refine ⟨⟨?_, ?_, hready', hclean, hcase.imp id fun hlive => hlive.2.1⟩, hsender, hnamed, ?_,
    ?_, hcase.imp id fun hlive => hlive.2.2⟩
  · rw [hsenders]
    exact h.order
  · rw [hsenders]
    intro k hk
    have hbound := h.bound k hk
    simp only [List.length_append, List.length_cons] at hbound ⊢
    exact hbound
  · intro hmust
    rcases hcase with hdown | ⟨hne, -⟩
    · exact hdown
    · exact absurd hmust hne
  · intro hdown
    exact (hdown.run hrun).1

end

/-! ### A pass -/

section
variable {cfg : Config} {md5 : Md5} {addr : Option Bytes} {inputs : Nat → RunInput}
  {contexts contexts' : List Listed} {conn conn' : ScAggregatorConnection Link}

/-- The loop over the contexts, by induction on those that are left. -/
theorem Sound.passLoop (before : List Listed) {todo todo' : List Listed} {rc : Bool}
    {senders : List Sender}
    (h : Sound (before ++ todo) conn)
    (hrun : passLoop (listedNet cfg) md5 inputs todo conn = .ok (rc, todo', conn'))
    (hlen : (before ++ todo).length < 2 ^ 15)
    (hmem : ∀ k i n, ((inputs k).heap i).malloc n = true)
    (hsenders : (before ++ todo).map senderOf = senders)
    (hsilent : Along (turn cfg md5 inputs) (TurnSilent cfg senders inputs) conn todo) :
    Sound (before ++ todo') conn' ∧ (before ++ todo').map senderOf = senders ∧
      OneName senders conn.net.log conn'.net.log ∧ (rc = true → Down conn') ∧
      (Down conn → Down conn') ∧
      (Down conn' ∨ List.Forall₂ (fun c c' => c'.serial = c.serial ∧
        Delivers (senderOf c) (inputs c.serial) c.cxt c'.cxt conn.net.log conn'.net.log)
          todo todo') := by
  induction todo generalizing before conn rc todo' with
  | nil =>
    cases hrun
    exact ⟨h, hsenders, .refl _ _, nofun, id, Or.inr .nil⟩
  | cons c rest ih =>
    unfold Follower.passLoop at hrun
    obtain ⟨⟨ret, cxt, conn1⟩, hone, hrun⟩ := bind_eq_ok.mp hrun
    simp only at hrun
    split at hrun
    · cases hrun
    obtain ⟨⟨rc', rest', conn2⟩, hrest, hrun⟩ := bind_eq_ok.mp hrun
    cases hrun
    obtain ⟨hsound, hsender, hnamed, hmust, hdown, hdelivers⟩ := h.run hone hlen (hmem c.serial)
      (by rw [hsenders]; exact hsilent.1)
    rw [hsenders] at hnamed
    -- The context that ran joins those that are done.
    have hmove : ∀ x xs, before ++ x :: xs = (before ++ [x]) ++ xs := fun x xs => by simp
    rw [hmove] at hsound
    obtain ⟨hsound', hsenders', hnamed', hmust', hdown', hall⟩ :=
      ih _ hsound hrest (by simpa using hlen)
      (by rw [← hmove, map_senderOf_replace before rest hsender, hsenders])
      (hsilent.2 conn1 (bind_eq_ok.mpr ⟨_, hone, rfl⟩))
    rw [hmove]
    refine ⟨hsound', hsenders', hnamed.trans hnamed', ?_, fun hd => hdown' (hdown hd), ?_⟩
    · intro hrc
      rcases Bool.or_eq_true_iff.mp hrc with hrc | hret
      · exact hmust' hrc
      · exact hdown' (hmust (of_decide_eq_true hret))
    · -- What this context sent is in the history after the whole loop too.
      rcases hdelivers with hdown1 | hdelivers
      · exact Or.inl (hdown' hdown1)
      · obtain ⟨new, hnew, -⟩ := hnamed
        obtain ⟨new', hnew', -⟩ := hnamed'
        refine hall.imp id fun hall => .cons ⟨rfl, hdelivers.mono ⟨[], by simp⟩ ⟨new', hnew'⟩⟩ ?_
        exact hall.imp fun d d' hd => ⟨hd.1, hd.2.mono ⟨new, hnew⟩ ⟨[], by simp⟩⟩

/-- The reset of every context, and the reconnection. -/
theorem Sound.reconnect (h : Sound contexts conn) (addr : Option Bytes) (hdown : Down conn)
    (reconnected : Bool) :
    Sound (resetContexts contexts) (scAggregatorConnectionOpen
        (if reconnected then some (Link.reconnect addr) else none) conn).2 ∧
      OneName (contexts.map senderOf) conn.net.log (scAggregatorConnectionOpen
        (if reconnected then some (Link.reconnect addr) else none) conn).2.net.log := by
  have hsenders : (resetContexts contexts).map senderOf = contexts.map senderOf := by
    unfold resetContexts
    rw [List.map_map]
    rfl
  -- The reset closes the file and drops the message. The names and the numbers stay.
  have hreset : ∀ c ∈ resetContexts contexts, Ready c.cxt ∧ c.cxt.fd = -1 ∧
      c.cxt.messageBuffer.code = SCM_MSG_NONE := by
    intro c hc
    obtain ⟨d, hd, rfl⟩ := List.mem_map.mp hc
    have hready := h.ready d hd
    exact ⟨⟨hready.isName, hready.room, hready.valid.reset⟩, rfl, rfl⟩
  have hbound : ∀ k ∈ (resetContexts contexts).map senderOf,
      k.serial < (resetContexts contexts).length := by
    rw [hsenders, resetContexts, List.length_map]
    exact h.bound
  cases reconnected with
  | false =>
    exact ⟨⟨by rw [hsenders]; exact h.order, hbound, fun c hc => (hreset c hc).1, h.clean,
      Or.inl hdown⟩, .refl _ _⟩
  | true =>
    -- No context holds a channel on the new connection.
    have hclosed : ∀ c, ¬ Holds (resetContexts contexts) c := by
      intro c hc
      have hfd := (hreset c hc.mem).2.1
      have hopen := hc.opened
      omega
    refine ⟨⟨by rw [hsenders]; exact h.order, hbound, fun c hc => (hreset c hc).1,
      h.clean.connected, Or.inr ?_⟩, .connected⟩
    exact ⟨⟨rfl, rfl, rfl⟩, ScConnection.wellFormed_nil addr, Int.natCast_nonneg _,
      by show maxId [] < 2 ^ 15; decide, fun c hc => (hreset c hc).2.2,
      fun c hc => absurd hc (hclosed c), fun c hc => absurd hc (hclosed c),
      fun c d hc => absurd hc (hclosed c)⟩

/-- A pass of the main loop. -/
theorem Sound.mainPass {reconnected : Bool} (h : Sound contexts conn)
    (hrun : mainPass (listedNet cfg) md5 inputs
      (if reconnected then some (Link.reconnect addr) else none) contexts conn
        = .ok (contexts', conn'))
    (hlen : contexts.length < 2 ^ 15) (hmem : ∀ k i n, ((inputs k).heap i).malloc n = true)
    (hsilent : Along (turn cfg md5 inputs) (TurnSilent cfg (contexts.map senderOf) inputs) conn
      contexts) :
    Sound contexts' conn' ∧ OneName (contexts.map senderOf) conn.net.log conn'.net.log ∧
      (Down conn' ∨ Reconnects conn.net.log conn'.net.log ∨
        List.Forall₂ (fun c c' => c'.serial = c.serial ∧
          Delivers (senderOf c) (inputs c.serial) c.cxt c'.cxt conn.net.log conn'.net.log)
            contexts contexts') := by
  unfold Follower.mainPass at hrun
  obtain ⟨⟨rc, contexts1, conn1⟩, hloop, hrun⟩ := bind_eq_ok.mp hrun
  obtain ⟨hsound, hsenders, hnamed, hmust, -, hall⟩ :=
    Sound.passLoop [] h hloop hlen hmem rfl hsilent
  rw [List.nil_append] at hsound hsenders
  simp only at hrun
  split at hrun
  · rename_i hrc
    cases hrun
    obtain ⟨hsound', hnamed'⟩ := hsound.reconnect addr (hmust hrc) reconnected
    rw [hsenders] at hnamed'
    refine ⟨hsound', hnamed.trans hnamed', ?_⟩
    -- The connection is down, or it is a new one.
    cases reconnected with
    | false => exact Or.inl (hmust hrc)
    | true =>
      obtain ⟨new, hnew, -⟩ := hnamed
      refine Or.inr (Or.inl ⟨new ++ [Item.connected], ?_, ?_⟩)
      · show conn1.net.log ++ [Item.connected] = _
        rw [hnew, List.append_assoc]
      · exact List.mem_append_right _ (List.mem_singleton_self _)
  · cases hrun
    exact ⟨hsound, hnamed, hall.imp id Or.inr⟩

/-! ### A tick -/

/-- A new context in front of the others. Those that follow another file keep their
channels. -/
theorem Live.add {new : Listed} (h : Live contexts conn)
    (hbound : ∀ k ∈ contexts.map senderOf, k.serial < contexts.length)
    (hserial : new.serial = contexts.length) (hclosed : new.cxt.fd < 0)
    (hnothing : new.cxt.messageBuffer.code = SCM_MSG_NONE) (hup : Up conn')
    (hwf : conn'.net.conn.WellFormed)
    (hids : ∀ id ∈ conn'.net.conn.channelList.map ScChannel.id,
      id ∈ conn.net.conn.channelList.map ScChannel.id)
    (hothers : ∀ x, Holds contexts x → x.cxt.filename ≠ new.cxt.filename →
      conn'.net.conn.Registered x.cxt.channel ∧
      MaySend conn'.net.log x.serial (.ofInt 16 x.cxt.channel)) :
    Live (new :: contexts) conn' := by
  have hmax := maxId_le_of_ids hids
  have hfew := h.few
  have hsmall := h.small
  -- What holds a channel now held it before, and follows another file.
  have hold : ∀ x, Holds (new :: contexts) x →
      Holds contexts x ∧ x.cxt.filename ≠ new.cxt.filename := by
    intro x hx
    rcases List.mem_cons.mp hx.mem with rfl | hmem
    · have hopen := hx.opened
      omega
    · have hxs : senderOf x ∈ contexts.map senderOf := List.mem_map_of_mem hmem
      obtain ⟨-, hnewest⟩ := hx.current
      refine ⟨⟨hmem, ⟨hxs, fun d hd hfile => hnewest d (List.mem_cons_of_mem _ hd) hfile⟩,
        hx.opened⟩, ?_⟩
      intro hfile
      have hle := hnewest (senderOf new) (List.mem_cons_self ..) hfile.symm
      have hlt := hbound _ hxs
      simp only [senderOf] at hle hlt
      omega
  have hcount : openCount contexts ≤ openCount (new :: contexts) :=
    (List.sublist_cons_self _ _).countP_le
  constructor
  · exact hup
  · exact hwf
  · omega
  · omega
  · intro x hx
    rcases List.mem_cons.mp hx with rfl | hx
    · exact hnothing
    · exact h.nothing x hx
  · intro x hx
    obtain ⟨hx, hfile⟩ := hold x hx
    exact (hothers x hx hfile).1
  · intro x hx
    obtain ⟨hx, hfile⟩ := hold x hx
    exact (hothers x hx hfile).2
  · intro x y hx hy
    exact h.distinct x y (hold x hx).1 (hold y hy).1

/-- The first context of the list with a file name is the newest of its file. -/
theorem current_of_find {fn : Bytes} {c : Listed}
    (horder : (contexts.map senderOf).Pairwise fun a b => b.serial < a.serial)
    (h : (contexts.find? fun c => c.cxt.filename = some fn) = some c) :
    c ∈ contexts ∧ c.cxt.filename = some fn ∧ Current (contexts.map senderOf) (senderOf c) := by
  obtain ⟨hfile, before, after, rfl, hbefore⟩ := List.find?_eq_some_iff_append.mp h
  have hfile' : c.cxt.filename = some fn := by simpa using hfile
  have hmem : c ∈ before ++ c :: after := List.mem_append_right _ (List.mem_cons_self ..)
  refine ⟨hmem, hfile', List.mem_map_of_mem hmem, ?_⟩
  intro d hd hsame
  obtain ⟨x, hx, rfl⟩ := List.mem_map.mp hd
  have hxfile : x.cxt.filename = some fn := hsame.trans hfile'
  rcases List.mem_append.mp hx with hx | hx
  · -- The contexts before the first one follow other files.
    have hne := hbefore x hx
    simp [hxfile] at hne
  · rcases List.mem_cons.mp hx with rfl | hx
    · exact Nat.le_refl _
    · rw [List.map_append, List.map_cons, List.pairwise_append, List.pairwise_cons] at horder
      exact Nat.le_of_lt (horder.2.1.1 _ (List.mem_map_of_mem hx))

/-- `sc_follow_context_close` of a context whose file is followed by a new one. -/
theorem Live.close {c : Listed} {heap : Heap} {ret : Int} (h : Live contexts conn)
    (hclose : scFollowContextClose (listedNet cfg c) heap c.cxt conn = .ok (ret, conn'))
    (hmem : c ∈ contexts) (hcurrent : Current (contexts.map senderOf) (senderOf c))
    (hclean : NoStaleData conn.net.log) (hserved : ∀ n, heap.malloc n = true)
    (senders : List Sender) :
    Kept senders conn conn' ∧
      (Down conn' ∨ Up conn' ∧ conn'.net.conn.WellFormed ∧
        (∀ id ∈ conn'.net.conn.channelList.map ScChannel.id,
          id ∈ conn.net.conn.channelList.map ScChannel.id) ∧
        ∀ x, Holds contexts x → x.cxt.filename ≠ c.cxt.filename →
          conn'.net.conn.Registered x.cxt.channel ∧
          MaySend conn'.net.log x.serial (.ofInt 16 x.cxt.channel)) := by
  have hcode : (releMessage c.cxt).frame.code ≠ SCM_MSG_DATA := by
    show SCM_MSG_RELE ≠ SCM_MSG_DATA
    decide
  have hkept : ∀ {r : Handled}, Handles cfg (senderOf c) (releMessage c.cxt).frame conn.net
      conn'.net r → Kept senders conn conn' := by
    intro r hr
    exact kept_of_exchange hclean hr.log (by rw [codeOf_bytes]; exact hcode)
  by_cases hfd : c.cxt.fd < 0
  · -- A context without an open file has no channel.
    rcases scFollowContextClose_cases hclose with ⟨hdown, -⟩ | ⟨-, -, -, rfl⟩ | ⟨-, hopen, -⟩
    · exact absurd h.up.opened (by rw [hdown]; decide)
    · exact ⟨kept_of_unheard hclean (.refl _), Or.inr ⟨h.up, h.wellFormed, fun _ hid => hid,
        fun x hx _ => ⟨h.registered x hx, h.maySend x hx⟩⟩⟩
    · omega
  · have hholds : Holds contexts c := ⟨hmem, hcurrent, by omega⟩
    have hnumber := h.number_ne_zero hholds
    obtain ⟨hpos, hsmall⟩ := h.number hholds
    rcases h.up.close (by omega) hnumber hserved hclose with
      ⟨hdown, hlost | ⟨r, hr⟩⟩ | ⟨hup, r, hr⟩
    · exact ⟨kept_of_lost hclean hcode hlost, Or.inl hdown⟩
    · exact ⟨hkept hr, Or.inl hdown⟩
    · refine ⟨hkept hr, Or.inr ⟨hup, hr.wellFormed h.wellFormed, ?_⟩⟩
      -- The channel that is deleted is the one of the context.
      obtain ⟨d, hd, hid⟩ := h.registered c hholds
      obtain ⟨hdelete, -⟩ := deleted_of_rele hnumber hr
      rw [toInt_ofInt_of_lt (by omega) hsmall, ← hid,
        scConnectionChannel_of_mem h.wellFormed hd] at hdelete
      obtain ⟨li, hli, hsub, hmem'⟩ := scConnectionDeleteChannel_of_mem h.wellFormed hd
      rw [hli] at hdelete
      have hlist : conn'.net.conn.channelList = li := by
        rw [← Except.ok.inj hdelete]
      rw [hlist]
      refine ⟨fun id hin => (hsub.map _).subset hin, ?_⟩
      intro x hx hfile
      have hne : BitVec.ofInt 16 c.cxt.channel ≠ BitVec.ofInt 16 x.cxt.channel := fun heq =>
        hfile (congrArg Sender.filename (h.sender_eq hholds hx heq)).symm
      obtain ⟨e, he, heid⟩ := h.registered x hx
      refine ⟨⟨e, ?_, heid⟩, ?_⟩
      · rw [hlist]
        refine (hmem' e).mpr ⟨he, ?_⟩
        intro hed
        rw [hed, hid] at heid
        exact hne (by rw [heid])
      · rw [hr.log]
        refine (h.maySend x hx).concat ?_
        intro hrelease
        have hchannel := hrelease.2
        rw [channelOf_bytes] at hchannel
        exact hne hchannel

/-- One entry of the patterns. -/
theorem Sound.rotateEntry {clock : Clock} {heap : Heap} {pe : ScConfigPatternEntry}
    (h : Sound contexts conn)
    (hrun : rotateEntry (listedNet cfg) clock heap pe contexts conn = .ok (contexts', conn'))
    (hserved : ∀ n, heap.malloc n = true) (senders : List Sender) :
    Sound contexts' conn' ∧ OneName senders conn.net.log conn'.net.log := by
  obtain ⟨fn, dn, hnames, hcase⟩ := rotateEntry_cases hrun
  obtain ⟨hnul, hshort⟩ := entryNames_eq_ok hnames
  -- The new context, and what it needs of the connection.
  let new : Listed :=
    ⟨contexts.length, scFollowContextNew heap (some fn) dn pe.appendTimestamp BUFSIZE⟩
  have hnew : ∀ {conn1 : ScAggregatorConnection Link}, NoStaleData conn1.net.log →
      (Down conn1 ∨ Live (new :: contexts) conn1) → Sound (new :: contexts) conn1 := by
    intro conn1 hclean hlive
    refine ⟨List.pairwise_cons.mpr ⟨h.bound, h.order⟩, ?_, ?_, hclean, hlive⟩
    · intro k hk
      rcases List.mem_cons.mp hk with rfl | hk
      · show contexts.length < (new :: contexts).length
        simp
      · have hlt := h.bound k hk
        simp only [List.length_cons]
        omega
    · intro c hc
      rcases List.mem_cons.mp hc with rfl | hc
      · exact ready_new heap (some fn) pe.appendTimestamp ⟨hnul, hshort⟩
      · exact h.ready c hc
  rcases hcase with ⟨c, -, -, rfl, rfl⟩ | ⟨rfl, ⟨-, rfl⟩ | ⟨c, ret, hfind, -, hclose⟩⟩
  · -- The file is followed under this name already.
    exact ⟨h, .refl _ _⟩
  · -- Nobody follows the file yet.
    refine ⟨hnew h.clean (h.live.imp id fun hlive => ?_), .refl _ _⟩
    exact hlive.add h.bound rfl (Int.negSucc_lt_zero 0) rfl hlive.up hlive.wellFormed
      (fun _ hid => hid) fun x hx _ => ⟨hlive.registered x hx, hlive.maySend x hx⟩
  · -- It is followed under another name, and the context of that name is closed.
    obtain ⟨hmem, hfile, hcurrent⟩ := current_of_find h.order hfind
    rcases h.live with hdown | hlive
    · obtain ⟨hdown', hsame⟩ := hdown.close hclose
      have hkept : Kept senders conn conn' := kept_of_unheard h.clean hsame
      exact ⟨hnew hkept.1 (Or.inl hdown'), hkept.2⟩
    · obtain ⟨⟨hclean, hnamed⟩, hcase⟩ :=
        hlive.close hclose hmem hcurrent h.clean hserved senders
      refine ⟨hnew hclean (hcase.imp id ?_), hnamed⟩
      rintro ⟨hup, hwf, hids, hothers⟩
      refine hlive.add h.bound rfl (Int.negSucc_lt_zero 0) rfl hup hwf hids ?_
      intro x hx hne
      refine hothers x hx ?_
      rw [hfile]
      exact hne

/-- `do_rotate`, by induction on the patterns. -/
theorem Sound.doRotate {clock : Clock} {heap : Nat → Heap} {patterns : List ScConfigPatternEntry}
    (h : Sound contexts conn)
    (hrun : doRotate (listedNet cfg) clock heap patterns contexts conn = .ok (contexts', conn'))
    (hserved : ∀ k n, (heap k).malloc n = true) (senders : List Sender) :
    Sound contexts' conn' ∧ OneName senders conn.net.log conn'.net.log := by
  induction patterns generalizing contexts conn with
  | nil =>
    cases hrun
    exact ⟨h, .refl _ _⟩
  | cons pe rest ih =>
    unfold Follower.doRotate at hrun
    obtain ⟨⟨contexts1, conn1⟩, hentry, hrun⟩ := bind_eq_ok.mp hrun
    obtain ⟨hsound, hnamed⟩ := h.rotateEntry hentry (hserved _) senders
    obtain ⟨hsound', hnamed'⟩ := ih hsound hrun
    exact ⟨hsound', hnamed.trans hnamed'⟩

end

/-! ### Every run -/

section
variable {cfg : Config} {md5 : Md5} {addr : Option Bytes} {patterns : List ScConfigPatternEntry}

/-- One event under the condition. -/
theorem Sound.step {s s' : MainLoop} {e : MainLoop.Event} (h : Sound s.contexts s.conn)
    (hserved : Served e) (hsilenced : Silenced cfg md5 s e)
    (hstep : s.step cfg md5 addr patterns e = .ok s') :
    Sound s'.contexts s'.conn ∧ SentOnce s e s' := by
  cases e with
  | tick clock heap fates =>
    obtain ⟨⟨contexts, conn⟩, hrun, hstep⟩ := bind_eq_ok.mp hstep
    cases hstep
    obtain ⟨hsound, hnamed⟩ := (h.withFates fates).doRotate hrun hserved _
    exact ⟨hsound, hnamed, nofun⟩
  | pass inputs fates reconnected =>
    obtain ⟨⟨contexts, conn⟩, hrun, hstep⟩ := bind_eq_ok.mp hstep
    cases hstep
    obtain ⟨hsound, hnamed, hall⟩ :=
      (h.withFates fates).mainPass hrun hsilenced.1 hserved hsilenced.2
    refine ⟨hsound, hnamed, ?_⟩
    intro inputs' fates' reconnected' heq
    cases heq
    exact hall
  | drop ending =>
    cases hstep
    -- The next call finds the connection dead.
    exact ⟨⟨h.order, h.bound, h.ready, h.clean, Or.inl fun _ => dead_cut _ _⟩, .refl _ _, nofun⟩

/-- Before the first event there is no context, so no rule is broken. -/
theorem sound_start (fs : Fs) (addr : Option Bytes) (opened : Bool) :
    Sound (MainLoop.start fs addr opened).contexts (MainLoop.start fs addr opened).conn := by
  refine ⟨List.Pairwise.nil, by simp [MainLoop.start], by simp [MainLoop.start],
    noStaleData_nil, ?_⟩
  cases opened with
  | false => exact Or.inl nofun
  | true =>
    have hnone : ∀ c, ¬ Holds (MainLoop.start fs addr true).contexts c := fun c hc =>
      absurd hc.mem (by simp [MainLoop.start])
    exact Or.inr ⟨⟨rfl, rfl, rfl⟩, ScConnection.wellFormed_nil addr, Int.natCast_nonneg _,
      by show maxId [] < 2 ^ 15; decide,
      by simp [MainLoop.start], fun c hc => absurd hc (hnone c), fun c hc => absurd hc (hnone c),
      fun c d hc => absurd hc (hnone c)⟩

end

/-! ### Small runs -/

/-- One pattern: the file `f`, under a display name that rotates. -/
def smallPatterns : List ScConfigPatternEntry := [⟨[102], some [PERCENT], true, false⟩]

/-- The clock writes one letter. -/
def smallClock (letter : UInt8) (h : letter ≠ 0) : Clock where
  strftime := fun _ => some [letter]
  strftime_fits := by
    intro fmt s hs
    cases hs
    exact ⟨by simpa using h.symm, by simp [PATH_MAX]⟩

/-- Frames that are answered. -/
def answered (n : Nat) : List Fate := List.replicate n ⟨.answered, ⟨zeroHeap, []⟩, .eof⟩

/-- A tick. -/
def smallTick (letter : UInt8) (h : letter ≠ 0) : MainLoop.Event :=
  .tick (smallClock letter h) (fun _ => zeroHeap) (answered 1)

/-- A pass that finds the followed file with this content. -/
def smallPass (file : Bytes) : MainLoop.Event :=
  .pass (fun _ => ⟨⟨3, 0x8000⟩, .chunk 100, 0, file, none, [], fun _ => zeroHeap⟩)
    (answered 3) true

/-- The display name is `x`, and after one pass it is `y`. -/
def smallStart : List MainLoop.Event :=
  [smallTick 120 (by decide), smallPass [97, LF], smallTick 121 (by decide)]

/-- The steps of the small runs. -/
def smallStep : MainLoop → MainLoop.Event → Except Trap MainLoop :=
  MainLoop.step (smallConfig []) zeroMd5 (some [97]) smallPatterns

/-- The two contexts of the file. -/
def oldSender : Sender := ⟨0, some [102], [120]⟩
def newSender : Sender := ⟨1, some [102], [121]⟩

/-- A frame with an answer, as the history has it. -/
def smallItem (k : Sender) (req : Req) (resp : Resp) : Item :=
  .exchange ⟨k,
    ScLogMessage.netHeader req.code req.channel (.ofNat 32 req.content.length) ++ req.content,
    ScLogMessage.netHeader resp.message.code resp.message.channel
      (.ofNat 32 resp.content.length) ++ resp.content⟩

/-- The history up to the rotation. -/
def smallBefore : List Item :=
  [smallItem oldSender (.init ATTR_TOP [120]) (.init 1 0 []),
    smallItem oldSender (.data 1 true 0 [97, LF]) (.ok 1),
    smallItem oldSender (.rele 1) (.ok 1)]

/-- The history of the pass after it. The new context is given the number of the old one. -/
def smallAfter : List Item :=
  [smallItem newSender (.init ATTR_TOP [121]) (.init 1 0 []),
    smallItem newSender (.data 1 true 0 [97, LF]) (.ok 1),
    smallItem oldSender (.data 1 true 0 [98, LF]) (.ok 1)]

/-- The connection is lost after the rotation. The first pass finds that out, and in the second one
both contexts open the file again. -/
def smallRun : List MainLoop.Event :=
  smallStart ++ [.drop .eof, smallPass [97, LF], smallPass [97, LF]]

/-- The old context resumes behind the line that it has sent before. -/
def smallResumed : Item :=
  smallItem oldSender (.init ATTR_TOP [120]) (.init 2 2 (List.replicate 16 0))

end Compostela.Proofs.Rotation
