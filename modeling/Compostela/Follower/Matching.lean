import Compostela.Follower.Client
import Compostela.Follower.Rotate
import Compostela.Lib.Matching

/-!
# `Compostela.Follower.Matching`: the follower over two networks

The follower reaches a network through `sendall` and `recvall` only. When the calls on one
network are matched by those on another, every function of the follower is: it returns the
same values and leaves the same contexts, and the networks are related as before.

`Simulates` is the condition on the calls. `P` says which messages are sent, and `Permits`
that it holds of those that a context with a certain display name builds. A message that is
pending from an earlier run is not covered.
-/

set_option autoImplicit false

namespace Compostela.Follower

open Compostela.Common
open Compostela.Memory
open Compostela.Matching

section
variable {σ ρ : Type}

/-- Two connections in the same state, over related networks. -/
structure Alike (R : σ → ρ → Prop) (conn : ScAggregatorConnection σ)
    (conn' : ScAggregatorConnection ρ) : Prop where
  opened : conn.opened = conn'.opened
  net : R conn.net conn'.net

/-- The calls on `net` are matched by those on `net'`. -/
structure Simulates (net : Net σ) (net' : Net ρ) (P : ScLogMessage → Prop) (R : σ → ρ → Prop) :
    Prop where
  whole : ∀ {msg : ScLogMessage}, P msg →
    0 ≤ msg.contentLength.toInt ∧ msg.contentLength.toInt ≤ msg.content.size
  sendall : ∀ {s : σ} {t : ρ} {msg : ScLogMessage}, R s t → P msg →
    Matched (fun a b => a.1 = b.1 ∧ R a.2 b.2) (net.sendall s msg.frame.bytes)
      (net'.sendall t msg.frame.bytes)
  recvall : ∀ {s : σ} {t : ρ} {size : Nat}, R s t →
    Matched (fun a b => a.1 = b.1 ∧ a.2.1 = b.2.1 ∧ R a.2.2 b.2.2) (net.recvall s size)
      (net'.recvall t size)

/-- The messages of a context with the display name are sent. -/
structure Permits (P : ScLogMessage → Prop) (name : Bytes) : Prop where
  init : ∀ cxt : ScFollowContext, cxt.displayName = name → P (initMessage cxt)
  data : ∀ {inp : RunInput} {complete : Bool} {line : Bytes} {msg : ScLogMessage}
    {cxt : ScFollowContext}, msg.content.size = BUFSIZE →
    storeLine inp complete line msg = .ok cxt.messageBuffer →
    P (dataHeader line.length cxt).messageBuffer
  rele : ∀ cxt : ScFollowContext, P (releMessage cxt)

/-- A context whose messages are sent. -/
structure Sends (P : ScLogMessage → Prop) (cxt : ScFollowContext) : Prop where
  permits : Permits P cxt.displayName
  room : cxt.messageBuffer.content.size = BUFSIZE
  valid : cxt.buffer.Valid

/-- A context that goes on sends the same messages. -/
theorem Sends.continues {P : ScLogMessage → Prop} {cxt cxt' : ScFollowContext} (h : Sends P cxt)
    (h' : Continues cxt cxt') : Sends P cxt' :=
  ⟨by rw [h'.displayName]; exact h.permits, h'.room.trans h.room, h'.valid⟩

variable {net : Net σ} {net' : Net ρ} {P : ScLogMessage → Prop} {R : σ → ρ → Prop}
  (hsim : Simulates net net' P R) {md5 : Md5} {inp : RunInput} {heap : Heap}
  {cxt : ScFollowContext} {conn : ScAggregatorConnection σ} {conn' : ScAggregatorConnection ρ}
include hsim

/-! ### Messages -/

/-- `sc_aggregator_connection_send_message` on connections that are alike. -/
theorem Simulates.sendMessage (h : Alike R conn conn') {msg : ScLogMessage} (hmsg : P msg) :
    Matched (fun a b => a.1 = b.1 ∧ Alike R a.2.1 b.2.1 ∧ a.2.2 = b.2.2)
      (scAggregatorConnectionSendMessage net conn msg)
      (scAggregatorConnectionSendMessage net' conn' msg) := by
  obtain ⟨hlen, hfit⟩ := hsim.whole hmsg
  have hopened := h.opened
  cases hopen : conn.opened with
  | false =>
    rw [hopen] at hopened
    unfold scAggregatorConnectionSendMessage connSendall
    simp only [hopen, ← hopened, Bool.false_eq_true, if_false, ok_bind]
    exact .ok ⟨rfl, ⟨rfl, h.net⟩, rfl⟩
  | true =>
    rw [hopen] at hopened
    rw [scAggregatorConnectionSendMessage_of_frame hopen hlen hfit,
      scAggregatorConnectionSendMessage_of_frame hopened.symm hlen hfit]
    intro r hr
    -- What this network does with the frame, the other one can do too, and the relation goes on.
    cases hcall : net.sendall conn.net msg.frame.bytes with
    | error t =>
      rw [hcall] at hr
      cases hr
    | ok a =>
      obtain ⟨b, hb, hret, hR⟩ := hsim.sendall h.net hmsg a hcall
      rw [hcall] at hr
      rw [hb]
      simp only [Except.map, Except.ok.injEq] at hr ⊢
      refine ⟨_, rfl, ?_⟩
      rw [← hr, ← hret]
      split
      · exact ⟨rfl, ⟨rfl, hR⟩, rfl⟩
      · exact ⟨rfl, ⟨rfl, hR⟩, rfl⟩

/-- `recvall` on connections that are alike. -/
theorem Simulates.connRecvall (h : Alike R conn conn') (size : Nat) :
    Matched (fun a b => a.1 = b.1 ∧ a.2.1 = b.2.1 ∧ Alike R a.2.2 b.2.2)
      (connRecvall net conn size) (connRecvall net' conn' size) := by
  unfold Follower.connRecvall
  rw [← h.opened]
  refine .ite (fun _ => ?_) fun _ => .ok ⟨rfl, rfl, h⟩
  refine (hsim.recvall h.net).bind ?_
  rintro ⟨n, bytes, s⟩ ⟨n', bytes', t⟩ ⟨hn, hbytes, hR⟩
  exact .ok ⟨hn, hbytes, rfl, hR⟩

/-- The content of a response on connections that are alike. -/
theorem Simulates.receiveContent (h : Alike R conn conn') (m : ScLogMessage) :
    Matched (fun a b => a.1 = b.1 ∧ a.2.1 = b.2.1 ∧ Alike R a.2.2 b.2.2)
      (receiveContent net conn m) (receiveContent net' conn' m) := by
  unfold Follower.receiveContent
  refine .ite (fun _ => ?_) fun _ => .ok ⟨rfl, rfl, h⟩
  refine (hsim.connRecvall h _).bind ?_
  rintro ⟨n, bytes, conn1⟩ ⟨n', bytes', conn1'⟩ ⟨hn, hbytes, h1⟩
  simp only at hn hbytes h1 ⊢
  rw [← hn, ← hbytes]
  refine .bind_same fun content _ => ?_
  exact .ite (fun _ => .ok ⟨rfl, rfl, h1⟩) fun _ => .ok ⟨rfl, rfl, h1⟩

/-- `sc_aggregator_connection_receive_message` on connections that are alike. -/
theorem Simulates.receiveMessage (h : Alike R conn conn') :
    Matched (fun a b => a.1 = b.1 ∧ a.2.1 = b.2.1 ∧ Alike R a.2.2 b.2.2)
      (scAggregatorConnectionReceiveMessage net heap conn)
      (scAggregatorConnectionReceiveMessage net' heap conn') := by
  unfold scAggregatorConnectionReceiveMessage
  refine (hsim.connRecvall h _).bind ?_
  rintro ⟨n, bytes, conn1⟩ ⟨n', bytes', conn1'⟩ ⟨hn, hbytes, h1⟩
  simp only at hn hbytes h1 ⊢
  rw [← hn, ← hbytes]
  refine .ite (fun _ => .ok ⟨rfl, rfl, rfl, h1.net⟩) fun _ => ?_
  refine .ite (fun _ => .ok ⟨rfl, rfl, h1⟩) fun _ => ?_
  refine .bind_same fun m _ => ?_
  cases m with
  | none => exact .ok ⟨rfl, rfl, h1⟩
  | some m => exact hsim.receiveContent h1 _

/-! ### A run -/

/-- `_init_file` on connections that are alike. -/
theorem Simulates.initFile (h : Alike R conn conn') (hinit : P (initMessage cxt)) :
    Matched (fun a b => a.1 = b.1 ∧ a.2.1 = b.2.1 ∧ Alike R a.2.2 b.2.2)
      (initFile net md5 inp heap cxt conn) (initFile net' md5 inp heap cxt conn') := by
  unfold Follower.initFile
  refine .ite (fun _ => .ok ⟨rfl, rfl, h⟩) fun _ => ?_
  refine (hsim.sendMessage h hinit).bind ?_
  rintro ⟨ret, conn1, msg⟩ ⟨ret', conn1', msg'⟩ ⟨hret, h1, -⟩
  simp only at hret h1 ⊢
  rw [← hret]
  refine .ite (fun _ => .ok ⟨rfl, rfl, h1⟩) fun _ => ?_
  unfold receiveInitResponse
  refine (hsim.receiveMessage h1).bind ?_
  -- Both sides read the same response, so they take the same branch.
  rintro ⟨got, resp, conn2⟩ ⟨got', resp', conn2'⟩ ⟨hgot, hresp, h2⟩
  simp only at hgot hresp h2
  subst hgot hresp
  split
  · rename_i heq
    cases heq
    exact .bind_same fun r _ => .ok ⟨rfl, rfl, h2⟩
  · rename_i hother heq
    cases heq
    split
    · rename_i hfirst
      cases hfirst
      exact (hother _ rfl rfl).elim
    · rename_i hsame
      cases hsame
      exact .ok ⟨rfl, rfl, h2⟩

/-- The file is opened and registered on connections that are alike. -/
theorem Simulates.ensureOpen (h : Alike R conn conn') (hpermits : Permits P cxt.displayName) :
    Matched (fun a b => a.1 = b.1 ∧ a.2.1 = b.2.1 ∧ Alike R a.2.2 b.2.2)
      (ensureOpen net md5 inp cxt conn) (ensureOpen net' md5 inp cxt conn') := by
  unfold Follower.ensureOpen
  refine .ite (fun _ => ?_) fun _ => .ok ⟨rfl, rfl, h⟩
  have hname : (scFollowContextOpenFile inp.opened cxt).2.displayName = cxt.displayName := by
    unfold scFollowContextOpenFile
    split
    · rfl
    · split <;> rfl
  refine .ite (fun _ => .ok ⟨rfl, rfl, h⟩) fun _ => ?_
  refine (hsim.initFile h (hpermits.init _ hname)).bind ?_
  rintro ⟨ret, cxt1, conn1⟩ ⟨ret', cxt1', conn1'⟩ ⟨-, hcxt, h1⟩
  simp only at hcxt h1
  subst hcxt
  exact .ok ⟨rfl, rfl, h1⟩

/-- The channel is asked for again on connections that are alike. -/
theorem Simulates.ensureChannel (h : Alike R conn conn') (hpermits : Permits P cxt.displayName) :
    Matched (fun a b => a.1 = b.1 ∧ Alike R a.2 b.2)
      (ensureChannel net md5 inp cxt conn) (ensureChannel net' md5 inp cxt conn') := by
  unfold Follower.ensureChannel
  refine .ite (fun _ => ?_) fun _ => .ok ⟨rfl, h⟩
  refine (hsim.initFile h (hpermits.init _ rfl)).bind ?_
  rintro ⟨ret, cxt1, conn1⟩ ⟨ret', cxt1', conn1'⟩ ⟨-, hcxt, h1⟩
  exact .ok ⟨hcxt, h1⟩

/-- The message that is prepared is sent. -/
theorem Simulates.prepareData (h : Alike R conn conn') (hcxt : Sends P cxt) :
    Matched (fun a b => a.1 = b.1 ∧ a.2.1 = b.2.1 ∧ Alike R a.2.2 b.2.2 ∧
        (a.1 = none → P a.2.1.messageBuffer))
      (prepareData net md5 inp cxt conn) (prepareData net' md5 inp cxt conn') := by
  unfold Follower.prepareData
  refine (hsim.ensureOpen h hcxt.permits).bind_of ?_
  rintro ⟨ret, cxt1, conn1⟩ ⟨ret', cxt1', conn1'⟩ hopen ⟨hret, hcxt1, h1⟩
  simp only at hret hcxt1 h1
  subst hret hcxt1
  have hsends1 := hcxt.continues (ensureOpen_continues hcxt.valid hopen)
  cases ret with
  | some ret => exact .ok ⟨rfl, rfl, h1, nofun⟩
  | none =>
    refine .bind_same fun r hfill => ?_
    obtain ⟨ret2, cb, cxt2⟩ := r
    cases ret2 with
    | some ret2 => exact .ok ⟨rfl, rfl, h1, nofun⟩
    | none =>
      -- The line in the message buffer is the one that is sent.
      obtain ⟨got, line, complete, -, -, hline⟩ := fillMessage_took hsends1.valid hfill
      obtain ⟨rfl, hstore, -⟩ := hline rfl
      have hsends2 := hsends1.continues (fillMessage_continues hsends1.valid hfill)
      refine (hsim.ensureChannel h1 hsends2.permits).bind_of ?_
      rintro ⟨cxt3, conn3⟩ ⟨cxt3', conn3'⟩ hchan ⟨hcxt3, h3⟩
      simp only at hcxt3 h3
      subst hcxt3
      have hstore3 : storeLine inp complete line cxt1.messageBuffer = .ok cxt3.messageBuffer := by
        rw [ensureChannel_messageBuffer hchan]
        exact hstore
      exact .ok ⟨rfl, rfl, h3, fun _ => hcxt.permits.data hsends1.room hstore3⟩

/-- The DATA exchange on connections that are alike. -/
theorem Simulates.exchangeData (h : Alike R conn conn') (hmsg : P cxt.messageBuffer) :
    Matched (fun a b => a.1 = b.1 ∧ a.2.1 = b.2.1 ∧ Alike R a.2.2 b.2.2)
      (exchangeData net inp cxt conn) (exchangeData net' inp cxt conn') := by
  -- The request and its response first; the code of the response decides the rest.
  have hproc : Matched (fun a b => a.1 = b.1 ∧ a.2.1 = b.2.1 ∧ a.2.2.1 = b.2.2.1 ∧
        Alike R a.2.2.2 b.2.2.2)
      (scFollowContextProcData net (inp.heap 2) cxt conn)
      (scFollowContextProcData net' (inp.heap 2) cxt conn') := by
    unfold scFollowContextProcData
    refine (hsim.sendMessage h hmsg).bind ?_
    rintro ⟨ret, conn1, msg⟩ ⟨ret', conn1', msg'⟩ ⟨hret, h1, hsent⟩
    simp only at hret h1 hsent ⊢
    subst hret hsent
    refine .ite (fun _ => .ok ⟨rfl, rfl, rfl, h1⟩) fun _ => ?_
    refine (hsim.receiveMessage h1).bind ?_
    rintro ⟨got, resp, conn2⟩ ⟨got', resp', conn2'⟩ ⟨hgot, hresp, h2⟩
    exact .ok ⟨hgot, hresp, rfl, h2⟩
  unfold Follower.exchangeData
  refine hproc.bind ?_
  rintro ⟨ret, resp, cxt1, conn1⟩ ⟨ret', resp', cxt1', conn1'⟩ ⟨hret, hresp, hcxt1, h1⟩
  simp only at hret hresp hcxt1 h1
  subst hret hresp hcxt1
  split
  · rename_i heq
    cases heq
    exact .ite (fun _ => .ok ⟨rfl, rfl, h1⟩) fun _ => .ok ⟨rfl, rfl, h1⟩
  · rename_i hother heq
    cases heq
    split
    · rename_i hfirst
      cases hfirst
      exact (hother _ rfl rfl).elim
    · rename_i hsame
      cases hsame
      exact .ok ⟨rfl, rfl, h1⟩

/-- A run of a context that has nothing pending. -/
theorem Simulates.run (h : Alike R conn conn') (hcxt : Sends P cxt)
    (hnothing : cxt.messageBuffer.code = SCM_MSG_NONE) :
    Matched (fun a b => a.1 = b.1 ∧ a.2.1 = b.2.1 ∧ Alike R a.2.2 b.2.2)
      (runFollowContext net md5 inp cxt conn) (runFollowContext net' md5 inp cxt conn') := by
  unfold runFollowContext
  rw [← h.opened, if_pos hnothing, if_pos hnothing]
  refine .ite (fun _ => .ok ⟨rfl, rfl, h⟩) fun _ => ?_
  refine (hsim.prepareData h hcxt).bind ?_
  rintro ⟨ret, cxt1, conn1⟩ ⟨ret', cxt1', conn1'⟩ ⟨hret, hcxt1, h1, hmsg⟩
  simp only at hret hcxt1 h1 hmsg
  subst hret hcxt1
  cases ret with
  | some ret => exact .ok ⟨rfl, rfl, h1⟩
  | none => exact hsim.exchangeData h1 (hmsg rfl)

/-- `sc_follow_context_close` on connections that are alike. -/
theorem Simulates.close (h : Alike R conn conn') (hpermits : Permits P cxt.displayName) :
    Matched (fun a b => a.1 = b.1 ∧ Alike R a.2 b.2)
      (scFollowContextClose net heap cxt conn) (scFollowContextClose net' heap cxt conn') := by
  unfold scFollowContextClose
  rw [← h.opened]
  refine .ite (fun _ => .ok ⟨rfl, h⟩) fun _ => ?_
  refine .ite (fun _ => .ok ⟨rfl, h⟩) fun _ => ?_
  refine (hsim.sendMessage h (hpermits.rele cxt)).bind ?_
  rintro ⟨ret, conn1, msg⟩ ⟨ret', conn1', msg'⟩ ⟨hret, h1, -⟩
  simp only at hret h1 ⊢
  rw [← hret]
  refine .ite (fun _ => .ok ⟨rfl, h1⟩) fun _ => ?_
  refine (hsim.receiveMessage h1).bind ?_
  rintro ⟨got, resp, conn2⟩ ⟨got', resp', conn2'⟩ ⟨hgot, -, h2⟩
  simp only at hgot h2 ⊢
  rw [← hgot]
  exact .ok ⟨rfl, h2⟩

end

/-! ### The main loop -/

section
variable {σ ρ : Type} {net : Listed → Net σ} {net' : Listed → Net ρ} {P : ScLogMessage → Prop}
  {R : σ → ρ → Prop} (hsim : ∀ c, Simulates (net c) (net' c) P R) {md5 : Md5}
  {contexts : List Listed} {conn : ScAggregatorConnection σ} {conn' : ScAggregatorConnection ρ}
include hsim

/-- The loop over the contexts, when none of them has anything pending. -/
theorem passLoop_matched {inputs : Nat → RunInput} (h : Alike R conn conn')
    (hcontexts : ∀ c ∈ contexts, Sends P c.cxt ∧ c.cxt.messageBuffer.code = SCM_MSG_NONE) :
    Matched (fun a b => a.1 = b.1 ∧ a.2.1 = b.2.1 ∧ Alike R a.2.2 b.2.2)
      (passLoop net md5 inputs contexts conn) (passLoop net' md5 inputs contexts conn') := by
  induction contexts generalizing conn conn' with
  | nil => exact .ok ⟨rfl, rfl, h⟩
  | cons c rest ih =>
    obtain ⟨hcxt, hnothing⟩ := hcontexts c (List.mem_cons_self ..)
    refine ((hsim c).run h hcxt hnothing).bind ?_
    rintro ⟨ret, cxt1, conn1⟩ ⟨ret', cxt1', conn1'⟩ ⟨hret, hcxt1, h1⟩
    simp only at hret hcxt1 h1 ⊢
    subst hret hcxt1
    refine .ite (fun _ => .error) fun _ => ?_
    refine (ih h1 fun d hd => hcontexts d (List.mem_cons_of_mem c hd)).bind ?_
    rintro ⟨rc, contexts2, conn2⟩ ⟨rc', contexts2', conn2'⟩ ⟨hrc, hcontexts2, h2⟩
    simp only at hrc hcontexts2 h2 ⊢
    subst hrc hcontexts2
    exact .ok ⟨rfl, rfl, h2⟩

/-- A pass. The connections that are opened after it have to be related as well. -/
theorem mainPass_matched {inputs : Nat → RunInput} {connected : Option (σ → σ)}
    {connected' : Option (ρ → ρ)} (h : Alike R conn conn')
    (hcontexts : ∀ c ∈ contexts, Sends P c.cxt ∧ c.cxt.messageBuffer.code = SCM_MSG_NONE)
    (hopens : ∀ {c : ScAggregatorConnection σ} {c' : ScAggregatorConnection ρ}, Alike R c c' →
      Alike R (scAggregatorConnectionOpen connected c).2
        (scAggregatorConnectionOpen connected' c').2) :
    Matched (fun a b => a.1 = b.1 ∧ Alike R a.2 b.2)
      (mainPass net md5 inputs connected contexts conn)
      (mainPass net' md5 inputs connected' contexts conn') := by
  unfold mainPass
  refine (passLoop_matched hsim h hcontexts).bind ?_
  rintro ⟨rc, contexts1, conn1⟩ ⟨rc', contexts1', conn1'⟩ ⟨hrc, hcontexts1, h1⟩
  simp only at hrc hcontexts1 h1 ⊢
  subst hrc hcontexts1
  exact .ite (fun _ => .ok ⟨rfl, hopens h1⟩) fun _ => .ok ⟨rfl, h1⟩

/-- One entry of a rotation on connections that are alike. -/
theorem rotateEntry_matched {clock : Clock} {heap : Heap} {pe : ScConfigPatternEntry}
    (h : Alike R conn conn') (hcontexts : ∀ c ∈ contexts, Permits P c.cxt.displayName) :
    Matched (fun a b => a.1 = b.1 ∧ Alike R a.2 b.2)
      (rotateEntry net clock heap pe contexts conn)
      (rotateEntry net' clock heap pe contexts conn') := by
  unfold rotateEntry
  refine .bind_same fun names _ => ?_
  obtain ⟨fn, dn⟩ := names
  simp only
  cases hfind : contexts.find? fun c => c.cxt.filename = some fn with
  | none => exact .ok ⟨rfl, h⟩
  | some c =>
    refine .ite (fun _ => .ok ⟨rfl, h⟩) fun _ => ?_
    refine ((hsim c).close h (hcontexts c (List.mem_of_find?_eq_some hfind))).bind ?_
    rintro ⟨ret, conn1⟩ ⟨ret', conn1'⟩ ⟨-, h1⟩
    exact .ok ⟨rfl, h1⟩

/-- A call of `do_rotate`, when messages with the names of the entries are sent. -/
theorem doRotate_matched {clock : Clock} {heap : Nat → Heap} {patterns : List ScConfigPatternEntry}
    (hnames : ∀ pe ∈ patterns, ∀ fn dn, entryNames clock pe = .ok (fn, dn) → Permits P dn)
    (h : Alike R conn conn') (hcontexts : ∀ c ∈ contexts, Permits P c.cxt.displayName) :
    Matched (fun a b => a.1 = b.1 ∧ Alike R a.2 b.2)
      (doRotate net clock heap patterns contexts conn)
      (doRotate net' clock heap patterns contexts conn') := by
  induction patterns generalizing contexts conn conn' with
  | nil => exact .ok ⟨rfl, h⟩
  | cons pe rest ih =>
    refine (rotateEntry_matched hsim h hcontexts).bind_of ?_
    rintro ⟨contexts1, conn1⟩ ⟨contexts1', conn1'⟩ hentry ⟨hcontexts1, h1⟩
    simp only at hcontexts1 h1 ⊢
    subst hcontexts1
    refine ih (fun pe' hpe' => hnames pe' (List.mem_cons_of_mem pe hpe')) h1 fun c hc => ?_
    obtain ⟨fn, dn, hname, ⟨d, -, -, rfl⟩ | ⟨-, new, rfl, -, hdn, -⟩⟩ := rotateEntry_eq_ok hentry
    · exact hcontexts c hc
    · rcases List.mem_cons.mp hc with rfl | hc
      · rw [hdn]
        exact hnames pe (List.mem_cons_self ..) fn dn hname
      · exact hcontexts c hc

end

end Compostela.Follower
