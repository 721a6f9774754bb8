import Compostela.Follower.Progress
import Compostela.System.Shared

/-!
# `Compostela.System.Answered`: when every frame is answered, and when none is

`Answering n` is a link whose next `n` frames are answered. On a connection that works an
exchange then ends with a connection that still works, and `n` is one less:
`Up.initFile_answered` and `Up.exchangeData_answered`.

`Shares.quiet` is the other extreme: a run after which the connection is down although the
main loop is not told to reconnect. Such a run had no line to send. It opened the file or had
it open, and `Quiet` says what became of the context.
-/

set_option autoImplicit false

namespace Compostela.System

open Compostela.Common
open Compostela.Memory
open Compostela.Aggregator
open Compostela.Follower
open Link
open Shares (Attached InStep)

/-- The next `n` frames are answered, and so is every frame that has a fate. -/
structure Link.Answering (n : Nat) (l : Link) : Prop where
  all : ∀ f ∈ l.fates, f.delivery = .answered
  enough : n ≤ l.fates.length

/-- A link that answers so many frames answers fewer. -/
theorem Link.Answering.mono {n k : Nat} {l : Link} (h : l.Answering n) (hle : k ≤ n) :
    l.Answering k := ⟨h.all, hle.trans h.enough⟩

/-- A connection that works is not down. -/
theorem Up.not_down {conn : ScAggregatorConnection Link} (h : Up conn) : ¬ Down conn := by
  intro hdown
  have hdead := (hdown h.opened).alive
  simp [h.alive] at hdead

section
variable {cfg : Config} {sender : Sender} {md5 : Md5} {inp : RunInput} {heap : Heap}
  {cxt cxt' : ScFollowContext} {conn conn' : ScAggregatorConnection Link} {l l' : Link} {n : Nat}
  {ret : Int}

/-! ### Every frame is answered -/

/-- A frame on a link that answers is sent, and one answer less is left. -/
theorem Link.Answering.sendall {f : Frame} (h : l.Answering (n + 1)) (halive : l.alive = true)
    (hfit : f.content.length ≤ BUFSIZE)
    (hsend : Link.sendall cfg sender l f.bytes = .ok (ret, l')) :
    0 < ret ∧ l'.alive = true ∧ l'.Answering n := by
  obtain ⟨fate, rest, hfates⟩ := List.exists_cons_of_length_pos
    (Nat.lt_of_lt_of_le (Nat.succ_pos n) h.enough)
  have hfate : l.fate = fate := by rw [Link.fate, hfates, List.headD_cons]
  have hanswered : fate.delivery = .answered := h.all fate (by simp [hfates])
  have hlength : (0 : Int) < f.bytes.length := by
    rw [Frame.length_bytes]
    unfold headerSize
    omega
  unfold Link.sendall at hsend
  simp only [hfate, hanswered, hfates, List.tail_cons, halive, reduceCtorEq, if_false] at hsend
  obtain ⟨l1, hserve, hsend⟩ := bind_eq_ok.mp hsend
  -- Every fate that is left is an answer, and this one is used up.
  obtain ⟨msg, r, -, -, -, rfl⟩ := serve_eq_ok hfit hserve
  cases hsend
  refine ⟨hlength, rfl, fun f hf => h.all f ?_, ?_⟩
  · rw [hfates]
    exact List.mem_cons_of_mem fate hf
  · have henough := h.enough
    rw [hfates, List.length_cons] at henough
    exact Nat.le_of_succ_le_succ henough

/-- A send on a connection that works, when the frame is answered. -/
theorem Up.sendMessage_answered {msg msg' : ScLogMessage} (h : Up conn)
    (hans : conn.net.Answering (n + 1)) (hlen : 0 ≤ msg.contentLength.toInt)
    (hsize : msg.contentLength.toInt ≤ msg.content.size)
    (hfit : msg.contentLength.toInt ≤ BUFSIZE)
    (hsend : scAggregatorConnectionSendMessage (Link.net cfg sender) conn msg
      = .ok (ret, conn', msg')) :
    conn'.net.Answering n ∧ ret = 0 ∧ conn'.opened = true ∧ conn'.net.alive = true ∧
      ∃ r, Handles cfg sender msg.frame conn.net conn'.net r ∧ conn'.net.unread = r.sent := by
  have hframe : msg.frame.content.length ≤ BUFSIZE := by
    show (msg.content.bytes 0 msg.contentLength.toInt.toNat).length ≤ BUFSIZE
    rw [Block.length_bytes]
    omega
  have hcall := hsend
  rw [scAggregatorConnectionSendMessage_of_frame h.opened hlen hsize] at hcall
  cases hsendall : (Link.net cfg sender).sendall conn.net msg.frame.bytes with
  | error t =>
    rw [hsendall] at hcall
    cases hcall
  | ok out =>
  obtain ⟨k, l⟩ := out
  obtain ⟨hpos, halive, hans'⟩ := hans.sendall h.alive hframe hsendall
  rw [hsendall] at hcall
  simp only [Except.map, if_neg (Int.not_le.mpr hpos), Except.ok.injEq, Prod.mk.injEq] at hcall
  obtain ⟨rfl, rfl, -⟩ := hcall
  refine ⟨hans', rfl, rfl, halive, ?_⟩
  -- The link is alive after the send, so the response is there to be read.
  have hnot : ¬ Down ⟨true, l⟩ := fun hdown => by
    have hdead := (hdown rfl).alive
    simp [halive] at hdead
  rcases h.sendMessage hlen hsize hfit hsend with ⟨hdown, -⟩ | ⟨r, hr, hdown | ⟨-, -, -, hunread⟩⟩
  · exact absurd hdown hnot
  · exact absurd hdown hnot
  · exact ⟨r, hr, hunread⟩

/-- A response that is there is received, and the next frames are answered as before. -/
theorem answering_of_receive {answer : Frame} {got : Int} {resp : Option ScLogMessage}
    (hmem : ∀ n, heap.malloc n = true) (hopen : conn.opened = true)
    (halive : conn.net.alive = true) (hunread : conn.net.unread = answer.bytes)
    (hlen : 0 ≤ answer.contentLength.toInt) (hans : conn.net.Answering n)
    (hrecv : scAggregatorConnectionReceiveMessage (Link.net cfg sender) heap conn
      = .ok (got, resp, conn')) :
    got = 0 ∧ resp.isSome ∧ Up conn' ∧ conn'.net.Answering n := by
  obtain ⟨m, conn1, hrecv1, -, hup, -⟩ :=
    receiveMessage_of_sent cfg sender hmem hopen halive hunread hlen
  -- A `recv` takes bytes off the link and no fate.
  have hkeep : ∀ s size ret bytes s', Link.Answering n s →
      (Link.net cfg sender).recvall s size = .ok (ret, bytes, s') → Link.Answering n s' := by
    intro s size ret bytes s' h h1
    change Link.recvall s size = _ at h1
    unfold Link.recvall at h1
    split at h1
    · cases h1
      exact ⟨h.all, h.enough⟩
    · cases h1
      exact ⟨h.all, h.enough⟩
  have hans' := receiveMessage_keeps hkeep hans hrecv
  rw [hrecv1] at hrecv
  cases hrecv
  exact ⟨rfl, rfl, hup, hans'⟩

/-- `_init_file` on a connection that works, when its frame is answered. -/
theorem Up.initFile_answered (hup : Up conn) (hans : conn.net.Answering (n + 1))
    (hname : IsName cxt.displayName) (hmem : ∀ n, heap.malloc n = true)
    (h : Follower.initFile (Link.net cfg sender) md5 inp heap cxt conn = .ok (ret, cxt', conn')) :
    Up conn' ∧ conn'.net.Answering n := by
  have hsend := hname.init_built.sendable
  have hlen := hsend.length_eq
  have hle := hsend.length_le
  have hfits := hsend.fits
  obtain ⟨sent, conn1, msg, hsent, hcases⟩ := hname.initFile_cases hmem h
  obtain ⟨hans1, hsent0, hopen, halive, r, hr, hunread⟩ :=
    hup.sendMessage_answered hans (by omega) (by omega) (by omega) hsent
  rcases hcases with ⟨hne, -⟩ | ⟨-, hinit⟩
  · exact absurd hsent0 hne
  · obtain ⟨c, answer, hreg, hanswer⟩ := registers_of_handles hname hr
    obtain ⟨chunks, attr, hframe⟩ := hreg.answer_eq
    -- The answer to an INIT is short enough for its length to be positive.
    have hnonneg : 0 ≤ answer.contentLength.toInt := by
      rw [hframe]
      show 0 ≤ (BitVec.ofNat 32 _).toInt
      rw [toInt_ofNat_of_lt (length_initContent_lt ..)]
      exact Int.natCast_nonneg _
    obtain ⟨got, resp, hrecv, -⟩ := receiveInitResponse_cases hinit
    exact (answering_of_receive hmem hopen halive (hunread.trans hanswer) hnonneg hans1 hrecv).2.2

/-- The exchange of a line on a channel, on a connection that works, when its frame is
answered. -/
theorem Up.exchangeData_answered {complete : Bool} {line : Bytes} {msg : ScLogMessage}
    (hup : Up conn) (hans : conn.net.Answering (n + 1)) (hroom : msg.content.size = BUFSIZE)
    (hstore : storeLine inp complete line msg = .ok cxt.messageBuffer)
    (hchannel : BitVec.ofInt 16 cxt.channel ≠ 0) (hmem : ∀ n, (inp.heap 2).malloc n = true)
    (h : Follower.exchangeData (Link.net cfg sender) inp (dataHeader line.length cxt) conn
      = .ok (ret, cxt', conn')) :
    Up conn' ∧ conn'.net.Answering n := by
  have hbuilt : Built (dataHeader line.length cxt).messageBuffer
      (.data (.ofInt 16 cxt.channel) complete inp.time line) :=
    .data inp complete line msg cxt.messageBuffer cxt hroom hstore
  have hsend := hbuilt.sendable
  have hlen := hsend.length_eq
  have hle := hsend.length_le
  have hfits := hsend.fits
  obtain ⟨sent, conn1, msg1, hsent, hcases⟩ := exchangeData_cases h
  obtain ⟨hans1, hsent0, hopen, halive, r, hr, hunread⟩ :=
    hup.sendMessage_answered hans (by omega) (by omega) (by omega) hsent
  -- The line is recorded and answered, since its channel is a number.
  have hanswer := sent_of_data hsend.frame hfits hchannel hr
  rcases hcases with ⟨hne, -⟩ | ⟨-, got, resp, hrecv, -⟩
  · exact absurd hsent0 hne
  · exact (answering_of_receive hmem hopen halive (hunread.trans hanswer) okFrame_length hans1
      hrecv).2.2

/-! ### Nothing is sent -/

/-- The context after its file was opened, or as it was when the file is open. -/
inductive Opens (inp : RunInput) (cxt : ScFollowContext) : ScFollowContext → Prop
  | already (h : 0 < cxt.fd) : Opens inp cxt cxt
  | now (h : cxt.fd = -1) (hopened : 0 < inp.opened.fd) : Opens inp cxt
      { cxt with fd := inp.opened.fd, mode := inp.opened.mode, offset := 0 }

/-- A run that sends no line: the file could not be opened, or there was no line to read. -/
def Quiet (inp : RunInput) (cxt cxt' : ScFollowContext) (ret : Int) : Prop :=
  cxt' = cxt ∧ inp.opened.fd = -1 ∨
    ∃ cxt1 cb, Opens inp cxt cxt1 ∧ fillMessage inp cxt1 = .ok (some ret, cb, cxt')

/-- The first part of a run after which the connection is down. -/
theorem opens_of_down {ret1 : Option Int} (hcxt : Readable cxt)
    (hopened : IsDescriptor inp.opened.fd) (hphase : Up conn ∨ Down conn)
    (hname : IsName cxt.displayName) (hmem : ∀ n, (inp.heap 0).malloc n = true)
    (h : Follower.ensureOpen (Link.net cfg sender) md5 inp cxt conn = .ok (ret1, cxt', conn'))
    (hdown : Down conn') :
    (ret1 = some 1 ∧ cxt' = cxt ∧ inp.opened.fd = -1) ∨ ret1 = none ∧ Opens inp cxt cxt' := by
  rcases ensureOpen_cases h with ⟨hfd, rfl, rfl, -⟩ | ⟨hle, hne, -⟩ |
    ⟨hclosed, hfail, rfl, rfl, -⟩ | ⟨hclosed, hopen, rfl, ret2, hinit⟩
  · exact Or.inr ⟨rfl, .already hfd⟩
  · rcases hcxt.fd with hclosed | hpos
    · exact absurd hclosed hne
    · omega
  · have hminus : inp.opened.fd = -1 := by
      rcases hopened with hminus | hpos
      · exact hminus
      · omega
    refine Or.inl ⟨rfl, ?_, hminus⟩
    rw [hminus, ← hclosed]
  · have hpos : 0 < inp.opened.fd := by
      rcases hopened with hminus | hpos
      · omega
      · exact hpos
    -- A registration that was not answered leaves the context alone.
    have hsame : ∀ cxt1 : ScFollowContext, IsName cxt1.displayName →
        Follower.initFile (Link.net cfg sender) md5 inp (inp.heap 0) cxt1 conn
          = .ok (ret2, cxt', conn') → cxt' = cxt1 := by
      intro cxt1 hname1 hinit1
      rcases hphase with hup | hdown0
      · rcases hup.initFile hname1 hmem hinit1 with ⟨-, hsame, -⟩ | ⟨hup', -⟩
        · exact hsame
        · exact absurd hdown hup'.not_down
      · exact (hdown0.initFile hinit1).1
    rw [hsame { cxt with fd := inp.opened.fd, mode := inp.opened.mode, offset := 0 } hname hinit]
    exact Or.inr ⟨rfl, .now hclosed hpos⟩

/-- A run after which the connection is down, although the main loop is not told to
reconnect. -/
theorem Shares.quiet {name file : Bytes} {Kept Apart : Link → Prop}
    {Synced : ScFollowContext → Link → Bytes → Prop}
    (hshares : Shares cfg name file Kept Apart Synced) (hfile : inp.file = file)
    (hphase : Up conn ∧ Kept conn.net ∧ InStep Apart Synced cxt conn.net ∨ Down conn)
    (hidle : Idle name cxt) (hcxt : Readable cxt) (hopened : IsDescriptor inp.opened.fd)
    (hnothing : cxt.messageBuffer.code = SCM_MSG_NONE)
    (hmem : ∀ k n, (inp.heap k).malloc n = true)
    (h : runFollowContext (Link.net cfg sender) md5 inp cxt conn = .ok (ret, cxt', conn'))
    (hret : ret ≠ ERR_MUST_RECONNECT) (hdown : Down conn') :
    Quiet inp cxt cxt' ret ∧ (cxt.fd ≠ -1 → conn' = conn) := by
  have hname : IsName cxt.displayName := by
    rw [hidle.name_eq]
    exact hshares.isName
  have hopen : conn.opened = true := by
    rcases runFollowContext_cases h with ⟨-, hmust, -⟩ | ⟨hopen, -⟩ | ⟨hopen, -⟩
    · exact absurd hmust hret
    · exact hopen
    · exact hopen
  obtain ⟨ret1, cxt1, conn1, hensure, hrest⟩ := runFollowContext_of_nothing hopen hnothing h
  -- A context with an open file makes no registration.
  have hsame : cxt.fd ≠ -1 → conn1 = conn := by
    intro hfd
    rcases ensureOpen_cases hensure with ⟨-, -, -, hsame⟩ | ⟨-, -, -, -, hsame⟩ |
      ⟨hclosed, -⟩ | ⟨hclosed, -⟩
    · exact hsame
    · exact hsame
    · exact absurd hclosed hfd
    · exact absurd hclosed hfd
  have hopens : Down conn1 → (ret1 = some 1 ∧ cxt1 = cxt ∧ inp.opened.fd = -1) ∨
      ret1 = none ∧ Opens inp cxt cxt1 :=
    opens_of_down hcxt hopened (hphase.imp And.left id) hname (hmem 0) hensure
  rcases hrest with ⟨hend, rfl, rfl⟩ | ⟨hnone, ret2, cb, cxt2, hfill, hrest⟩
  · rcases hopens hdown with ⟨-, hcxt1, hminus⟩ | ⟨hnone, -⟩
    · exact ⟨Or.inl ⟨hcxt1, hminus⟩, hsame⟩
    · rw [hnone] at hend
      cases hend
  rcases hrest with ⟨hend, rfl, rfl⟩ | ⟨hline, cxt3, conn3, hchan, hex⟩
  · rcases hopens hdown with ⟨hsome, -⟩ | ⟨-, hopens⟩
    · rw [hnone] at hsome
      cases hsome
    · rw [hend] at hfill
      exact ⟨Or.inr ⟨cxt1, cb, hopens, hfill⟩, hsame⟩
  · -- With a line in hand the run ends with an answer, or the main loop is told to reconnect.
    exfalso
    rcases hphase with ⟨hup, hkept, hstep⟩ | hdown0
    · obtain ⟨hkept1, hcase⟩ := hshares.ensureOpen hkept hup hidle hstep (hmem 0) hensure
      rcases hcase with ⟨-, hatt⟩ | ⟨hsome, -⟩
      · have hidle1 := hidle.continues (ensureOpen_continues hidle.valid hensure)
        obtain ⟨got, line, complete, htook, -, hgot⟩ := fillMessage_took hidle1.valid hfill
        obtain ⟨rfl, hstore, hpiece⟩ := hgot hline
        have hatt2 : Attached Synced cxt2 conn1 line :=
          hatt.imp id fun hsync => ⟨hsync.1, hshares.took hfile hsync.2 htook⟩
        have hup' := (hshares.sendLine hkept1 hatt2 hidle1.room hstore hpiece (hmem 2) hchan
          hex).2.2.2 hret
        exact hup'.not_down hdown
      · rw [hnone] at hsome
        cases hsome
    · have hdown1 := (hdown0.ensureOpen hensure).1
      have hdown3 := (hdown1.ensureChannel hchan).2.1
      exact hret (hdown3.exchangeData hex).1

end

end Compostela.System
