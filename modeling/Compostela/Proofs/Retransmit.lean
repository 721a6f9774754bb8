import Compostela.Follower.Client

/-!
# `Compostela.Proofs.Retransmit`: the second transmission of a message

`sc_aggregator_connection_send_message` converts the header in place. After an answer other
than `SCM_RESP_OK` the message stays in the buffer in network order, and the next run converts
it a second time and takes the length to send from the converted field. A length between 12
and 8192 read in the wrong byte order is negative or at least 65536, so this send reads past
the message.

`Ready` is the invariant: a pending message has been converted once. `Ready.step` is its step
lemma, and `retransmission_faithful_iff` says that the requests of a run are faithful exactly
when no run begins with a message pending on an open connection.
-/

set_option autoImplicit false

namespace Compostela.Proofs.Retransmit

open Compostela.Common
open Compostela.Memory
open Compostela.Runs
open Compostela.ByteOrder
open Compostela.Segments
open Compostela.Follower

/-! ### The property -/

/-- A request that is a DATA frame of the context's channel with at most 8192 content bytes. -/
def WellFormed (t : Transmission) : Prop :=
  ∃ f : Frame, t.request = .ok f.bytes ∧ f.code = SCM_MSG_DATA ∧
    f.channel = .ofInt 16 t.channel ∧ f.contentLength.toInt = f.content.length ∧
    f.content.length ≤ BUFSIZE

/-- Every request is well formed, and every resend has the bytes of the first transmission
of its message, which is the last request before it that is no resend. -/
structure Faithful (log : List Transmission) : Prop where
  wellFormed : ∀ t ∈ log, WellFormed t
  repeats : ∀ before first between again after,
    log = before ++ first :: (between ++ again :: after) → first.resend = false →
    (∀ t ∈ between, t.resend = true) → again.resend = true → again.request = first.request

/-- No message is pending when a run begins on an open connection. -/
def NothingPending {σ : Type} (c : Client σ) (e : Event σ) : Prop :=
  ∀ inp, e = .run inp → c.conn.opened = true → c.cxt.messageBuffer.code = SCM_MSG_NONE

/-! ### The converted length -/

/-- The number with the bytes of a two-byte number at the wrong end of four. -/
theorem byteSwap_of_lt {n : Nat} (h : n < 65536) :
    byteSwap 4 n = 65536 * (n / 256 + 256 * (n % 256)) := by
  have hmid : n / 256 % 256 = n / 256 := by omega
  have htop : n / 256 / 256 = 0 := by omega
  simp [byteSwap, leBytes, ofBe, ofLe, htop, UInt8.toNat_ofNat']
  omega

/-- A length in network order, read as if it were in host order, is negative or larger than
any message. -/
theorem toSize_htonl_of_le {n : Nat} (h0 : 0 < n) (h : n ≤ BUFSIZE) :
    headerSize + BUFSIZE < toSize ((htonl (.ofNat 32 n)).toInt + headerSize) := by
  unfold BUFSIZE at *
  have hnat : (htonl (.ofNat 32 n)).toNat = 65536 * (n / 256 + 256 * (n % 256)) := by
    rw [htonl, toNat_bswap (by norm_num), BitVec.toNat_ofNat,
      Nat.mod_eq_of_lt (by omega), byteSwap_of_lt (by omega)]
  rw [BitVec.toInt_eq_toNat_cond, hnat]
  unfold toSize headerSize
  split <;> omega

/-! ### The invariant -/

/-- The message block has room for 8192 bytes, and a pending message has been converted
once. -/
structure Ready (cxt : ScFollowContext) : Prop where
  room : cxt.messageBuffer.content.size = BUFSIZE
  pending : cxt.messageBuffer.code ≠ SCM_MSG_NONE → ∃ n, 0 < n ∧ n ≤ BUFSIZE ∧
    cxt.messageBuffer.contentLength = htonl (.ofNat 32 n)

/-- A new context. -/
theorem ready_new (heap : Heap) (fname : Option Bytes) (dispname : Bytes) (ftimestamp : Bool) :
    Ready (scFollowContextNew heap fname dispname ftimestamp BUFSIZE) where
  room := rfl
  pending h := absurd rfl h

/-- The second send of a pending message reads past the message. -/
theorem Ready.requestBytes_of_pending {cxt : ScFollowContext} (h : Ready cxt)
    (hpending : cxt.messageBuffer.code ≠ SCM_MSG_NONE) :
    requestBytes cxt.messageBuffer = .error .oobRead := by
  obtain ⟨n, h0, hn, hlen⟩ := h.pending hpending
  have hlong := toSize_htonl_of_le h0 hn
  have hroom := h.room
  unfold requestBytes ScLogMessage.load
  rw [hlen, if_neg (by omega), Block.load, if_neg (by
    simp only [ScLogMessage.content_toNetwork]
    omega)]
  rfl

/-- The first send of a message that a run prepared is a DATA frame. -/
theorem wellFormed_of_holdsData {cb : Nat} {cxt : ScFollowContext} (h : HoldsData cb cxt)
    (hroom : cxt.messageBuffer.content.size = BUFSIZE) (resend : Bool) :
    WellFormed ⟨cxt.channel, resend, requestBytes cxt.messageBuffer⟩ := by
  have hfit := h.fits
  have hlength : cxt.messageBuffer.contentLength.toInt = ((cb0 + cb : Nat) : Int) := by
    rw [h.contentLength, toInt_ofNat_of_lt (by unfold BUFSIZE at *; omega)]
  refine ⟨cxt.messageBuffer.frame, load_toNetwork_of_frame (by omega) (by omega), h.code,
    h.channel, ?_, ?_⟩
  · simp only [ScLogMessage.frame, hlength, Block.length_bytes, Int.toNat_natCast]
  · simp only [ScLogMessage.frame, hlength, Block.length_bytes, Int.toNat_natCast]
    omega

section
variable {σ : Type} {net : Net σ} {md5 : Md5}

/-- An exchange of a prepared message. -/
theorem Ready.exchangeData {cb : Nat} {inp : RunInput} {cxt cxt' : ScFollowContext}
    {conn conn' : ScAggregatorConnection σ} {ret : Int} (hdata : HoldsData cb cxt)
    (hroom : cxt.messageBuffer.content.size = BUFSIZE)
    (h : exchangeData net inp cxt conn = .ok (ret, cxt', conn')) : Ready cxt' := by
  obtain ⟨hmsg, -⟩ := exchangeData_eq_ok h
  have hfit := hdata.fits
  -- The message is still pending after a failure, or its buffer is marked as free.
  rcases hmsg with hmsg | hmsg
  · constructor
    · rw [hmsg]
      exact hroom
    · intro _
      refine ⟨cb0 + cb, ?_, by omega, ?_⟩
      · unfold cb0
        omega
      · rw [hmsg, ← hdata.contentLength]
        rfl
  · constructor
    · rw [hmsg]
      exact hroom
    · intro hne
      rw [hmsg] at hne
      exact absurd rfl hne

/-- A run that returns keeps the invariant. With a message pending it returns only when the
connection is closed. -/
theorem Ready.run {inp : RunInput} {cxt cxt' : ScFollowContext}
    {conn conn' : ScAggregatorConnection σ} {ret : Int} (hready : Ready cxt)
    (h : runFollowContext net md5 inp cxt conn = .ok (ret, cxt', conn')) : Ready cxt' := by
  rcases runFollowContext_cases h with
    ⟨-, -, rfl, -⟩ | ⟨-, -, hprep | ⟨cxt1, conn1, hprep, hex⟩⟩ | ⟨hopen, hpending, hex⟩
  · exact hready
  · have hkeep := (prepareData_messageBuffer hprep).2.1 nofun
    exact ⟨by rw [hkeep]; exact hready.room, by rw [hkeep]; exact hready.pending⟩
  · -- A new message is prepared.
    obtain ⟨hsize, -, hdata⟩ := prepareData_messageBuffer hprep
    obtain ⟨cb, hcb⟩ := hdata rfl
    exact Ready.exchangeData hcb (hsize.trans hready.room) hex
  · -- The pending message cannot be read as long as its length says.
    obtain ⟨bs, hbs⟩ := (exchangeData_eq_ok hex).2 hopen
    rw [hready.requestBytes_of_pending hpending] at hbs
    cases hbs

/-- Every call keeps the invariant. -/
theorem Ready.step {c c' : Client σ} {e : Event σ} (hready : Ready c.cxt)
    (h : c.step net md5 e = .ok c') : Ready c'.cxt := by
  cases e with
  | run inp =>
    obtain ⟨⟨ret, cxt, conn⟩, hrun, h⟩ := bind_eq_ok.mp h
    cases h
    exact hready.run hrun
  | reset =>
    cases h
    exact ⟨hready.room, fun hne => absurd rfl hne⟩
  | connect connected =>
    cases h
    exact hready

/-- The request of a run that begins with no message pending. -/
theorem transmission_of_nothingPending {c : Client σ} {inp : RunInput} {t : Transmission}
    (hready : Ready c.cxt) (hnone : NothingPending c (.run inp))
    (h : c.transmission net md5 inp = some t) : t.resend = false ∧ WellFormed t := by
  unfold Client.transmission at h
  split at h
  · cases h
  · rename_i hopen
    rw [if_pos (hnone inp rfl (by simpa using hopen))] at h
    split at h
    · rename_i cxt1 conn1 hprep
      obtain ⟨hsize, -, hdata⟩ := prepareData_messageBuffer hprep
      obtain ⟨cb, hcb⟩ := hdata rfl
      unfold dataRequest at h
      split at h
      · cases h
        exact ⟨rfl, wellFormed_of_holdsData hcb (hsize.trans hready.room) false⟩
      · cases h
    · cases h

/-- The request of a run that begins with a message pending on an open connection. -/
theorem transmission_of_pending {c : Client σ} (inp : RunInput) (hready : Ready c.cxt)
    (hopen : c.conn.opened = true) (hpending : c.cxt.messageBuffer.code ≠ SCM_MSG_NONE) :
    c.transmission net md5 inp = some ⟨c.cxt.channel, true, .error .oobRead⟩ := by
  unfold Client.transmission dataRequest
  rw [if_neg (by simp [hopen]), if_neg hpending, if_pos hopen,
    hready.requestBytes_of_pending hpending]

/-- A request that traps is no frame. -/
theorem not_wellFormed_of_error (channel : Int) (resend : Bool) (t : Trap) :
    ¬ WellFormed ⟨channel, resend, .error t⟩ := by
  rintro ⟨f, h, -⟩
  cases h

/-- Under the condition every request of a run is a first transmission and well formed. -/
theorem transmissions_of_along {c : Client σ} {es : List (Event σ)} (hready : Ready c.cxt)
    (hall : Along (Client.step net md5) NothingPending c es) :
    ∀ t ∈ transmissions net md5 c es, t.resend = false ∧ WellFormed t := by
  induction es generalizing c with
  | nil => exact nofun
  | cons e es ih =>
    intro t ht
    obtain ⟨hone, hrest⟩ := hall
    rw [transmissions, List.mem_append] at ht
    rcases ht with ht | ht
    · cases e with
      | run inp =>
        exact transmission_of_nothingPending hready hone
          (by simpa [Client.requests] using ht)
      | reset => cases ht
      | connect connected => cases ht
    · cases hstep : c.step net md5 e with
      | error trap =>
        rw [hstep] at ht
        cases ht
      | ok c' =>
        rw [hstep] at ht
        exact ih (hready.step hstep) (hrest c' hstep) t ht

/-- When every request of a run is well formed, the run meets the condition. -/
theorem along_of_wellFormed {c : Client σ} {es : List (Event σ)} (hready : Ready c.cxt)
    (hall : ∀ t ∈ transmissions net md5 c es, WellFormed t) :
    Along (Client.step net md5) NothingPending c es := by
  induction es generalizing c with
  | nil => trivial
  | cons e es ih =>
    simp only [transmissions, List.mem_append] at hall
    constructor
    · intro inp he hopen
      by_contra hpending
      subst he
      refine not_wellFormed_of_error c.cxt.channel true .oobRead (hall _ (Or.inl ?_))
      simp [Client.requests, transmission_of_pending inp hready hopen hpending]
    · intro c' hstep
      refine ih (hready.step hstep) fun t ht => hall t (Or.inr ?_)
      rw [hstep]
      exact ht

/-- The DATA requests of a run of a new context are faithful if and only if no run begins
with a message pending on an open connection: then every request is well formed, and there
is no resend. -/
theorem retransmission_faithful_iff (heap : Heap) (fname : Option Bytes) (dispname : Bytes)
    (ftimestamp : Bool) (conn : ScAggregatorConnection σ) (es : List (Event σ)) :
    Faithful (transmissions net md5
        ⟨scFollowContextNew heap fname dispname ftimestamp BUFSIZE, conn⟩ es) ↔
      Along (Client.step net md5) NothingPending
        ⟨scFollowContextNew heap fname dispname ftimestamp BUFSIZE, conn⟩ es := by
  have hready := ready_new heap fname dispname ftimestamp
  constructor
  · intro h
    exact along_of_wellFormed hready h.wellFormed
  · intro h
    have hall := transmissions_of_along hready h
    constructor
    · intro t ht
      exact (hall t ht).2
    · intro before first between again after hlog _ _ hagain
      have hfirst := (hall again (by rw [hlog]; simp)).1
      rw [hfirst] at hagain
      cases hagain

end

/-! ### A second transmission -/

/-- The answers of an aggregator to INIT and to a DATA request: channel 1 from position 0
on, and then `SCM_RESP_NG`. -/
def answers : Bytes :=
  ScLogMessage.netHeader SCM_RESP_OK 1 8 ++ netImage 8 (0 : BitVec 64) ++
    ScLogMessage.netHeader SCM_RESP_NG 1 0

/-- A new context on an open connection that accepts every send. -/
def answered : Client Streams where
  cxt := scFollowContextNew zeroHeap (some [102]) [110] false BUFSIZE
  conn := ⟨true, ⟨List.replicate 3 (.upTo 8200), ⟨arrivalsOf answers, .eof⟩, []⟩⟩

/-- A run that finds the line `a` in the file. -/
def lineInput : RunInput := ⟨⟨3, 0x8000⟩, .chunk 1, 0, [97, LF], none, [], fun _ => zeroHeap⟩

/-- The line is sent and answered with `SCM_RESP_NG`. The next run hands `sendall` more bytes
than the message has. -/
theorem resend_reads_past_message :
    (transmissions Streams.net zeroMd5 answered [.run lineInput, .run lineInput]).map
        (fun t => (t.channel, t.resend, t.request)) =
      [(1, false, .ok (ScLogMessage.netHeader SCM_MSG_DATA 1 14 ++ netImage 4 ATTR_TOP ++
          netImage 8 (0 : BitVec 64) ++ [97, LF])), (1, true, .error .oobRead)] ∧
    ¬ Faithful (transmissions Streams.net zeroMd5 answered [.run lineInput, .run lineInput]) := by
  have hlog : transmissions Streams.net zeroMd5 answered [.run lineInput, .run lineInput] =
      [⟨1, false, .ok (ScLogMessage.netHeader SCM_MSG_DATA 1 14 ++ netImage 4 ATTR_TOP ++
          netImage 8 (0 : BitVec 64) ++ [97, LF])⟩, ⟨1, true, .error .oobRead⟩] :=
    rfl
  constructor
  · rw [hlog]
    rfl
  · intro h
    refine not_wellFormed_of_error 1 true .oobRead (h.wellFormed _ ?_)
    rw [hlog]
    exact List.mem_cons_of_mem _ (List.mem_cons_self ..)

end Compostela.Proofs.Retransmit
