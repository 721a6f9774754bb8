import Compostela.Follower.Keeps
import Compostela.Follower.Lines
import Compostela.Lib.Runs

/-!
# `Compostela.Follower.Client`: a follow context over many runs

The main loop calls `_run_follow_context` again and again. After `ERR_MUST_RECONNECT` it
resets the context and opens the connection. `Client.step` is one of these three calls, and
the order of the calls is free here.

`Client.transmission` is the DATA request that a call hands to `sendall`, and
`transmissions` lists those of a run. `sent_of_run` connects it with the byte stream: the
call sends INIT requests and then this transmission.
-/

set_option autoImplicit false

namespace Compostela.Follower

open Compostela.Common
open Compostela.Memory
open Compostela.Segments

/-! ### What a run changes in its context -/

section
variable {σ : Type} {net : Net σ} {md5 : Md5} {inp : RunInput} {heap : Heap}
  {cxt cxt' : ScFollowContext} {conn conn' : ScAggregatorConnection σ}

/-- `_init_file` changes the channel number, the position and the file offset, and these
only when it took a response. -/
theorem initFile_cxt {ret : Int}
    (h : initFile net md5 inp heap cxt conn = .ok (ret, cxt', conn')) :
    cxt' = cxt ∨ ∃ ch pos, cxt' = lseek pos { cxt with channel := ch, position := pos } := by
  rcases initFile_cases h with
    ⟨-, -, hsame, -⟩ | ⟨sent, conn1, msg, -, ⟨-, -, hsame, -⟩ | ⟨-, hrecv⟩⟩
  · exact Or.inl hsame
  · exact Or.inl hsame
  · obtain ⟨got, resp, -, ⟨-, -, hsame⟩ | ⟨m, -, -, htake⟩⟩ := receiveInitResponse_cases hrecv
    · exact Or.inl hsame
    · -- A response arrived.
      unfold takeInitResponse at htake
      split at htake
      · cases htake
        exact Or.inl rfl
      · obtain ⟨bs, -, htake⟩ := bind_eq_ok.mp htake
        obtain ⟨u, -, htake⟩ := bind_eq_ok.mp htake
        simp only [Except.ok.injEq, Prod.mk.injEq] at htake
        exact Or.inr ⟨_, _, htake.2.symm⟩

/-- `lseek` keeps the descriptor. -/
@[simp] theorem lseek_fd (pos : Int) (cxt : ScFollowContext) :
    (lseek pos cxt).fd = cxt.fd := by
  unfold lseek
  split <;> rfl

/-- `lseek` moves the offset of the file, not the position that the context notes. -/
@[simp] theorem lseek_position (pos : Int) (cxt : ScFollowContext) :
    (lseek pos cxt).position = cxt.position := by
  unfold lseek
  split <;> rfl

/-- `lseek` keeps the name of the file. -/
@[simp] theorem lseek_filename (pos : Int) (cxt : ScFollowContext) :
    (lseek pos cxt).filename = cxt.filename := by
  unfold lseek
  split <;> rfl

/-- `lseek` keeps the display name. -/
@[simp] theorem lseek_displayName (pos : Int) (cxt : ScFollowContext) :
    (lseek pos cxt).displayName = cxt.displayName := by
  unfold lseek
  split <;> rfl

/-- `lseek` does not touch the read buffer, which may hold bytes from the old offset. -/
@[simp] theorem lseek_buffer (pos : Int) (cxt : ScFollowContext) :
    (lseek pos cxt).buffer = cxt.buffer := by
  unfold lseek
  split <;> rfl

/-- `lseek` keeps the pending message. -/
@[simp] theorem lseek_messageBuffer (pos : Int) (cxt : ScFollowContext) :
    (lseek pos cxt).messageBuffer = cxt.messageBuffer := by
  unfold lseek
  split <;> rfl

/-- `_init_file` builds a message of its own and leaves the context's one alone. -/
theorem initFile_messageBuffer {ret : Int}
    (h : initFile net md5 inp heap cxt conn = .ok (ret, cxt', conn')) :
    cxt'.messageBuffer = cxt.messageBuffer := by
  rcases initFile_cxt h with hsame | ⟨ch, pos, hnew⟩
  · rw [hsame]
  · rw [hnew, lseek_messageBuffer]

/-- Opening a file leaves the context's message alone. -/
theorem ensureOpen_messageBuffer {ret : Option Int}
    (h : ensureOpen net md5 inp cxt conn = .ok (ret, cxt', conn')) :
    cxt'.messageBuffer = cxt.messageBuffer := by
  rcases ensureOpen_cases h with
    ⟨-, -, rfl, -⟩ | ⟨-, -, -, rfl, -⟩ | ⟨-, -, -, rfl, -⟩ | ⟨-, -, -, ret1, hinit⟩
  · rfl
  · rfl
  · rfl
  · have h1 := initFile_messageBuffer hinit
    exact h1

/-- Asking for a channel leaves the context's message alone. -/
theorem ensureChannel_messageBuffer
    (h : ensureChannel net md5 inp cxt conn = .ok (cxt', conn')) :
    cxt'.messageBuffer = cxt.messageBuffer := by
  rcases ensureChannel_cases h with ⟨-, rfl, -⟩ | ⟨-, ret, hinit⟩
  · rfl
  · exact initFile_messageBuffer hinit

/-- The message buffer after a line was stored: the header and the size of the block are as
before, and the line fits the block. -/
theorem storeLine_eq_ok {complete : Bool} {line : Bytes} {msg msg' : ScLogMessage}
    (h : storeLine inp complete line msg = .ok msg') :
    cb0 + line.length ≤ msg.content.size ∧ msg'.content.size = msg.content.size ∧
      msg'.code = msg.code := by
  unfold storeLine at h
  simp only at h
  obtain ⟨c1, h1, h⟩ := bind_eq_ok.mp h
  obtain ⟨c2, h2, h⟩ := bind_eq_ok.mp h
  cases h
  have hfit := Block.store_eq_ok.mp h1
  have hhead := Block.store_eq_ok.mp h2
  refine ⟨?_, ?_, rfl⟩
  · refine Nat.le_trans (Nat.add_le_add_left ?_ _) hfit.1
    split
    · simp
    · exact Nat.le_refl _
  · rw [hhead.2, hfit.2]
    rfl

/-- The line read of a run. Without a line the message buffer is as it was. -/
theorem fillMessage_messageBuffer {ret : Option Int} {cb : Nat}
    (h : fillMessage inp cxt = .ok (ret, cb, cxt')) :
    (ret ≠ none → cxt'.messageBuffer = cxt.messageBuffer) ∧
    (ret = none → cb0 + cb ≤ cxt.messageBuffer.content.size ∧
      cxt'.messageBuffer.content.size = cxt.messageBuffer.content.size) := by
  unfold fillMessage at h
  obtain ⟨⟨ret1, line, cxt1⟩, hread, h⟩ := bind_eq_ok.mp h
  have hsame := scFollowContextReadLine_messageBuffer hread
  simp only at h
  split at h
  · cases h
    exact ⟨fun _ => hsame, nofun⟩
  · split at h
    · cases h
      exact ⟨fun _ => hsame, nofun⟩
    · obtain ⟨msg, hstore, h⟩ := bind_eq_ok.mp h
      cases h
      rw [hsame] at hstore
      obtain ⟨hfit, hsize, -⟩ := storeLine_eq_ok hstore
      exact ⟨fun hne => absurd rfl hne, fun _ => ⟨hfit, hsize⟩⟩

/-- A message buffer that holds a DATA request with `cb` bytes of text, in host order. -/
structure HoldsData (cb : Nat) (cxt : ScFollowContext) : Prop where
  code : cxt.messageBuffer.code = SCM_MSG_DATA
  channel : cxt.messageBuffer.channel = .ofInt 16 cxt.channel
  contentLength : cxt.messageBuffer.contentLength = .ofNat 32 (cb0 + cb)
  fits : cb0 + cb ≤ cxt.messageBuffer.content.size

/-- The preparation of a request. It ends with a DATA request in the buffer, or with a
return code and an unchanged buffer. -/
theorem prepareData_messageBuffer {ret : Option Int}
    (h : prepareData net md5 inp cxt conn = .ok (ret, cxt', conn')) :
    cxt'.messageBuffer.content.size = cxt.messageBuffer.content.size ∧
    (ret ≠ none → cxt'.messageBuffer = cxt.messageBuffer) ∧
    (ret = none → ∃ cb, HoldsData cb cxt') := by
  rcases prepareData_cases h with ⟨r, rfl, hopen⟩ | ⟨cxt1, conn1, hopen, hcase⟩
  · have h1 := ensureOpen_messageBuffer hopen
    exact ⟨by rw [h1], fun _ => h1, nofun⟩
  · have h1 := ensureOpen_messageBuffer hopen
    rcases hcase with ⟨r, cb, rfl, hfill, -⟩ | ⟨cb, cxt2, cxt3, rfl, hfill, hchan, rfl⟩
    · have hsame := (fillMessage_messageBuffer hfill).1 nofun
      exact ⟨by rw [hsame, h1], fun _ => hsame.trans h1, nofun⟩
    · have h3 := ensureChannel_messageBuffer hchan
      obtain ⟨hfit, hsize⟩ := (fillMessage_messageBuffer hfill).2 rfl
      have hsize3 : cxt3.messageBuffer.content.size = cxt.messageBuffer.content.size := by
        rw [h3, hsize, h1]
      refine ⟨hsize3, fun hne => absurd rfl hne, fun _ => ⟨cb, rfl, rfl, rfl, ?_⟩⟩
      show cb0 + cb ≤ cxt3.messageBuffer.content.size
      rw [hsize3, ← h1]
      exact hfit

/-- The send of a message hands `requestBytes` to the socket. -/
def requestBytes (msg : ScLogMessage) : Except Trap Bytes :=
  msg.toNetwork.load (toSize (msg.contentLength.toInt + headerSize))

/-- A send leaves the message in network order, whatever its result. With an open socket its
request bytes were there to be read. -/
theorem scAggregatorConnectionSendMessage_eq_ok {msg msg' : ScLogMessage} {ret : Int}
    (h : scAggregatorConnectionSendMessage net conn msg = .ok (ret, conn', msg')) :
    msg' = msg.toNetwork ∧ (conn.opened = true → ∃ bs, requestBytes msg = .ok bs) := by
  unfold scAggregatorConnectionSendMessage at h
  simp only at h
  obtain ⟨⟨ret1, conn1⟩, hsend, h⟩ := bind_eq_ok.mp h
  constructor
  · simp only at h
    split at h
    · cases h
      rfl
    · cases h
      rfl
  · intro hopen
    unfold connSendall at hsend
    rw [if_pos hopen] at hsend
    obtain ⟨bs, hload, -⟩ := bind_eq_ok.mp hsend
    exact ⟨bs, hload⟩

/-- An exchange leaves the message in network order. It stays pending unless the answer was
`SCM_RESP_OK`. -/
theorem exchangeData_eq_ok {ret : Int}
    (h : exchangeData net inp cxt conn = .ok (ret, cxt', conn')) :
    (cxt'.messageBuffer = cxt.messageBuffer.toNetwork ∨
      cxt'.messageBuffer = { cxt.messageBuffer.toNetwork with code := SCM_MSG_NONE }) ∧
    (conn.opened = true → ∃ bs, requestBytes cxt.messageBuffer = .ok bs) := by
  obtain ⟨sent, conn1, msg, hsend, hcase⟩ := exchangeData_cases h
  obtain ⟨hnet, hload⟩ := scAggregatorConnectionSendMessage_eq_ok hsend
  refine ⟨?_, hload⟩
  rcases hcase with ⟨-, -, rfl, -⟩ |
    ⟨-, got, resp, -, ⟨-, -, rfl⟩ | ⟨m, -, -, -, rfl⟩⟩
  · exact Or.inl hnet
  · exact Or.inl hnet
  · rw [← hnet]
    simp only
    split
    · exact Or.inr rfl
    · exact Or.inl rfl

/-- An exchange changes nothing in the context but the header of its message. -/
theorem exchangeData_cxt {ret : Int}
    (h : exchangeData net inp cxt conn = .ok (ret, cxt', conn')) :
    ∃ msg, cxt' = { cxt with messageBuffer := msg } ∧
      msg.content = cxt.messageBuffer.content := by
  have hcontent : cxt'.messageBuffer.content = cxt.messageBuffer.content := by
    rcases (exchangeData_eq_ok h).1 with hmsg | hmsg
    · rw [hmsg, ScLogMessage.content_toNetwork]
    · simp only [hmsg, ScLogMessage.content_toNetwork]
  refine ⟨cxt'.messageBuffer, ?_, hcontent⟩
  obtain ⟨sent, conn1, msg, -, hcase⟩ := exchangeData_cases h
  rcases hcase with ⟨-, -, rfl, -⟩ | ⟨-, got, resp, -, ⟨-, -, rfl⟩ | ⟨m, -, -, -, rfl⟩⟩
  · rfl
  · rfl
  · rfl

/-- What every call keeps in a context: its names, the size of its message, and a valid
buffer. -/
structure Continues (cxt cxt' : ScFollowContext) : Prop where
  filename : cxt'.filename = cxt.filename
  displayName : cxt'.displayName = cxt.displayName
  room : cxt'.messageBuffer.content.size = cxt.messageBuffer.content.size
  valid : cxt'.buffer.Valid

/-- A context continues itself. -/
theorem Continues.refl (hv : cxt.buffer.Valid) : Continues cxt cxt := ⟨rfl, rfl, rfl, hv⟩

/-- A context that continues one which continues another continues that one. -/
theorem Continues.trans {cxt'' : ScFollowContext} (h : Continues cxt cxt')
    (h' : Continues cxt' cxt'') : Continues cxt cxt'' :=
  ⟨h'.filename.trans h.filename, h'.displayName.trans h.displayName, h'.room.trans h.room,
    h'.valid⟩

/-- `_init_file` keeps the names of a context and a valid buffer. -/
theorem initFile_continues {ret : Int} (hv : cxt.buffer.Valid)
    (h : initFile net md5 inp heap cxt conn = .ok (ret, cxt', conn')) : Continues cxt cxt' := by
  rcases initFile_cxt h with hsame | ⟨ch, pos, hnew⟩
  · rw [hsame]
    exact .refl hv
  · rw [hnew]
    unfold lseek
    split <;> exact ⟨rfl, rfl, rfl, hv⟩

/-- Opening the file keeps the names of a context and a valid buffer. -/
theorem ensureOpen_continues {ret : Option Int} (hv : cxt.buffer.Valid)
    (h : ensureOpen net md5 inp cxt conn = .ok (ret, cxt', conn')) : Continues cxt cxt' := by
  rcases ensureOpen_cases h with
    ⟨-, -, rfl, -⟩ | ⟨-, -, -, rfl, -⟩ | ⟨-, -, -, rfl, -⟩ | ⟨-, -, -, ret1, hinit⟩
  · exact .refl hv
  · exact .refl hv
  · exact ⟨rfl, rfl, rfl, hv⟩
  · have h1 := initFile_continues (by exact hv) hinit
    exact ⟨h1.filename, h1.displayName, h1.room, h1.valid⟩

/-- Reading a line keeps the names of a context and a valid buffer. -/
theorem fillMessage_continues {ret : Option Int} {cb : Nat} (hv : cxt.buffer.Valid)
    (h : fillMessage inp cxt = .ok (ret, cb, cxt')) : Continues cxt cxt' := by
  have hmsg := fillMessage_messageBuffer h
  obtain ⟨got, line, complete, htook, -, -⟩ := fillMessage_took hv h
  refine ⟨by rw [htook.rest], by rw [htook.rest], ?_, htook.valid⟩
  cases ret with
  | none => exact (hmsg.2 rfl).2
  | some r => rw [hmsg.1 nofun]

/-- Asking for a channel keeps the names of a context and a valid buffer. -/
theorem ensureChannel_continues (hv : cxt.buffer.Valid)
    (h : ensureChannel net md5 inp cxt conn = .ok (cxt', conn')) : Continues cxt cxt' := by
  rcases ensureChannel_cases h with ⟨-, rfl, -⟩ | ⟨-, ret, hinit⟩
  · exact .refl hv
  · exact initFile_continues hv hinit

/-- Sending a line keeps the names of a context and a valid buffer. -/
theorem exchangeData_continues {ret : Int} (hv : cxt.buffer.Valid)
    (h : exchangeData net inp cxt conn = .ok (ret, cxt', conn')) : Continues cxt cxt' := by
  obtain ⟨msg, hcxt, hcontent⟩ := exchangeData_cxt h
  rw [hcxt]
  refine ⟨rfl, rfl, ?_, hv⟩
  show msg.content.size = cxt.messageBuffer.content.size
  rw [hcontent]

/-- The part of a run before the DATA exchange keeps the names of a context and a valid buffer. -/
theorem prepareData_continues {ret : Option Int} (hv : cxt.buffer.Valid)
    (h : prepareData net md5 inp cxt conn = .ok (ret, cxt', conn')) : Continues cxt cxt' := by
  rcases prepareData_cases h with ⟨r, -, hopen⟩ | ⟨cxt1, conn1, hopen, hcase⟩
  · exact ensureOpen_continues hv hopen
  · have h1 := ensureOpen_continues hv hopen
    rcases hcase with ⟨r, cb, -, hfill, -⟩ | ⟨cb, cxt2, cxt3, -, hfill, hchan, rfl⟩
    · exact h1.trans (fillMessage_continues h1.valid hfill)
    · have h2 := h1.trans (fillMessage_continues h1.valid hfill)
      have h3 := h2.trans (ensureChannel_continues h2.valid hchan)
      -- The header of the message is set, and nothing else.
      exact ⟨h3.filename, h3.displayName, h3.room, h3.valid⟩

/-- A run keeps what every call keeps. -/
theorem runFollowContext_continues {ret : Int} (hv : cxt.buffer.Valid)
    (h : runFollowContext net md5 inp cxt conn = .ok (ret, cxt', conn')) :
    Continues cxt cxt' := by
  rcases runFollowContext_cases h with
    ⟨-, -, rfl, -⟩ | ⟨-, -, hprep | ⟨cxt1, conn1, hprep, hex⟩⟩ | ⟨-, -, hex⟩
  · exact .refl hv
  · exact prepareData_continues hv hprep
  · have h1 := prepareData_continues hv hprep
    exact h1.trans (exchangeData_continues h1.valid hex)
  · exact exchangeData_continues hv hex

end

/-! ### The calls of the main loop -/

/-- A follow context with its connection. -/
structure Client (σ : Type) where
  cxt : ScFollowContext
  conn : ScAggregatorConnection σ

/-- One call of the main loop on a context. -/
inductive Event (σ : Type)
  | run (inp : RunInput)
  | reset
  | connect (connected : Option (σ → σ))

/-- One DATA request: the context's channel at the time, whether a message was pending when
the call began, and the bytes that `sendall` gets. -/
structure Transmission where
  channel : Int
  resend : Bool
  request : Except Trap Bytes
  deriving DecidableEq

section
variable {σ : Type} (net : Net σ) (md5 : Md5)

/-- The state after a call. -/
def Client.step (c : Client σ) : Event σ → Except Trap (Client σ)
  | .run inp => do
      let (_, cxt, conn) ← runFollowContext net md5 inp c.cxt c.conn
      .ok ⟨cxt, conn⟩
  | .reset => .ok { c with cxt := scFollowContextReset c.cxt }
  | .connect connected => .ok { c with conn := (scAggregatorConnectionOpen connected c.conn).2 }

/-- The DATA request of a context whose message buffer is ready to be sent. A closed socket
takes nothing. -/
def dataRequest (resend : Bool) (cxt : ScFollowContext) (conn : ScAggregatorConnection σ) :
    Option Transmission :=
  if conn.opened then some ⟨cxt.channel, resend, requestBytes cxt.messageBuffer⟩ else none

/-- The DATA request of one run. -/
def Client.transmission (c : Client σ) (inp : RunInput) : Option Transmission :=
  if c.conn.opened = false then none
  else if c.cxt.messageBuffer.code = SCM_MSG_NONE then
    match prepareData net md5 inp c.cxt c.conn with
    | .ok (none, cxt, conn) => dataRequest false cxt conn
    | _ => none
  else dataRequest true c.cxt c.conn

/-- The DATA requests of a call. -/
def Client.requests (c : Client σ) : Event σ → List Transmission
  | .run inp => (c.transmission net md5 inp).toList
  | _ => []

/-- The DATA requests of the calls, oldest first, up to the first call that traps. -/
def transmissions : Client σ → List (Event σ) → List Transmission
  | _, [] => []
  | c, e :: es =>
      c.requests net md5 e ++
        match c.step net md5 e with
        | .ok c' => transmissions c' es
        | .error _ => []

end

/-! ### The requests on the wire -/

section
variable {md5 : Md5} {inp : RunInput} {heap : Heap} {cxt cxt' : ScFollowContext}
  {conn conn' : ScAggregatorConnection Streams}

/-- The `sendall` calls of a send: one, with the request bytes, when the socket is open. -/
theorem sent_of_sendMessage {msg msg' : ScLogMessage} {ret : Int}
    (h : scAggregatorConnectionSendMessage Streams.net conn msg = .ok (ret, conn', msg')) :
    ∃ calls, conn'.net.sent = conn.net.sent ++ calls ∧
      calls.map (fun s => .ok s.data) = if conn.opened then [requestBytes msg] else [] := by
  unfold scAggregatorConnectionSendMessage connSendall at h
  cases hopen : conn.opened with
  | false =>
    simp only [hopen, Bool.false_eq_true, if_false, ok_bind] at h
    cases h
    exact ⟨[], by simp, rfl⟩
  | true =>
    simp only [hopen, if_true, Streams.net] at h
    obtain ⟨⟨ret1, conn1⟩, hsend, h⟩ := bind_eq_ok.mp h
    obtain ⟨bs, hload, hsend⟩ := bind_eq_ok.mp hsend
    cases hsend
    -- One call of `sendall` on a descriptor that is open, whatever becomes of it.
    refine ⟨[⟨bs, (Common.sendall bs conn.net.script).2.1⟩], ?_, ?_⟩
    · simp only at h
      split at h
      · cases h
        rfl
      · cases h
        rfl
    · have hreq : requestBytes msg = .ok bs := hload
      simp [hreq]

/-- A receive sends nothing. -/
theorem sent_of_receiveMessage {ret : Int} {resp : Option ScLogMessage}
    (h : scAggregatorConnectionReceiveMessage Streams.net heap conn = .ok (ret, resp, conn')) :
    conn'.net.sent = conn.net.sent := by
  have hkeep : ∀ (s : Streams) (size : Nat) (ret : Int) (bytes : Bytes) (s' : Streams),
      s.sent = conn.net.sent → Streams.net.recvall s size = .ok (ret, bytes, s') →
      s'.sent = conn.net.sent := by
    intro s size ret bytes s' hs hrecv
    cases hrecv
    exact hs
  exact receiveMessage_keeps hkeep rfl h

/-- A `sendall` call of an INIT request. -/
def IsInit (call : Sent) : Prop := ∃ cxt, requestBytes (initMessage cxt) = .ok call.data

/-- What `_init_file` sends is INIT requests. -/
theorem sent_of_initFile {ret : Int}
    (h : initFile Streams.net md5 inp heap cxt conn = .ok (ret, cxt', conn')) :
    ∃ inits, conn'.net.sent = conn.net.sent ++ inits ∧ ∀ call ∈ inits, IsInit call := by
  rcases initFile_cases h with ⟨-, -, -, rfl⟩ | ⟨sent, conn1, msg, hsend, hcase⟩
  · exact ⟨[], by simp, nofun⟩
  · obtain ⟨calls, hcalls, hdata⟩ := sent_of_sendMessage hsend
    have hinit : ∀ call ∈ calls, IsInit call := by
      intro call hcall
      refine ⟨cxt, ?_⟩
      have hmem := List.mem_map_of_mem (f := fun s : Sent => (.ok s.data : Except Trap Bytes)) hcall
      rw [hdata] at hmem
      split at hmem
      · exact (List.mem_singleton.mp hmem).symm
      · cases hmem
    refine ⟨calls, ?_, hinit⟩
    rw [← hcalls]
    rcases hcase with ⟨-, -, -, rfl⟩ | ⟨-, hrecv⟩
    · rfl
    · obtain ⟨got, resp, hrecv, -⟩ := receiveInitResponse_cases hrecv
      exact sent_of_receiveMessage hrecv

/-- The preparation of a request sends nothing but INIT requests. -/
theorem sent_of_prepareData {ret : Option Int}
    (h : prepareData Streams.net md5 inp cxt conn = .ok (ret, cxt', conn')) :
    ∃ inits, conn'.net.sent = conn.net.sent ++ inits ∧ ∀ call ∈ inits, IsInit call := by
  -- Opening the file sends an INIT, or nothing.
  have hopens : ∀ {ret1 cxt1 conn1}, ensureOpen Streams.net md5 inp cxt conn
      = .ok (ret1, cxt1, conn1) →
      ∃ inits, conn1.net.sent = conn.net.sent ++ inits ∧ ∀ call ∈ inits, IsInit call := by
    intro ret1 cxt1 conn1 h
    rcases ensureOpen_cases h with
      ⟨-, -, -, rfl⟩ | ⟨-, -, -, -, rfl⟩ | ⟨-, -, -, -, rfl⟩ | ⟨-, -, -, ret2, hinit⟩
    · exact ⟨[], by simp, nofun⟩
    · exact ⟨[], by simp, nofun⟩
    · exact ⟨[], by simp, nofun⟩
    · exact sent_of_initFile hinit
  rcases prepareData_cases h with ⟨r, -, hopen⟩ | ⟨cxt1, conn1, hopen, hcase⟩
  · exact hopens hopen
  · obtain ⟨inits, hsent, hinits⟩ := hopens hopen
    rcases hcase with ⟨r, cb, -, -, rfl⟩ | ⟨cb, cxt2, cxt3, -, -, hchan, -⟩
    · exact ⟨inits, hsent, hinits⟩
    · rcases ensureChannel_cases hchan with ⟨-, -, rfl⟩ | ⟨-, ret1, hinit⟩
      · exact ⟨inits, hsent, hinits⟩
      -- A second INIT asks for the channel that is missing.
      · obtain ⟨more, hmore, hmores⟩ := sent_of_initFile hinit
        refine ⟨inits ++ more, by rw [hmore, hsent, List.append_assoc], ?_⟩
        intro call hcall
        rcases List.mem_append.mp hcall with hcall | hcall
        · exact hinits call hcall
        · exact hmores call hcall

/-- What the DATA exchange sends is the DATA request of the context, if it gets to that. -/
theorem sent_of_exchangeData {ret : Int}
    (h : exchangeData Streams.net inp cxt conn = .ok (ret, cxt', conn')) (resend : Bool) :
    ∃ calls, conn'.net.sent = conn.net.sent ++ calls ∧
      calls.map (fun s => .ok s.data) =
        (dataRequest resend cxt conn).toList.map Transmission.request := by
  obtain ⟨sent, conn1, msg, hsend, hcase⟩ := exchangeData_cases h
  obtain ⟨calls, hcalls, hdata⟩ := sent_of_sendMessage hsend
  refine ⟨calls, ?_, ?_⟩
  · rw [← hcalls]
    rcases hcase with ⟨-, -, -, rfl⟩ | ⟨-, got, resp, hrecv, -⟩
    · rfl
    · exact sent_of_receiveMessage hrecv
  · rw [hdata, dataRequest]
    split <;> rfl

/-- The `sendall` calls of a run over a byte stream: INIT requests, and then the run's
transmission. -/
theorem sent_of_run {c : Client Streams} {ret : Int}
    (h : runFollowContext Streams.net md5 inp c.cxt c.conn = .ok (ret, cxt', conn')) :
    ∃ inits data, conn'.net.sent = c.conn.net.sent ++ inits ++ data ∧
      (∀ call ∈ inits, IsInit call) ∧
      data.map (fun s => .ok s.data) =
        (c.transmission Streams.net md5 inp).toList.map Transmission.request := by
  unfold runFollowContext at h
  unfold Client.transmission
  split at h
  · rename_i hopen
    cases h
    exact ⟨[], [], by simp, nofun, by rw [if_pos hopen]; rfl⟩
  · rename_i hopen
    rw [if_neg hopen]
    split at h
    · rename_i hnone
      rw [if_pos hnone]
      obtain ⟨⟨ret1, cxt1, conn1⟩, hprep, h⟩ := bind_eq_ok.mp h
      obtain ⟨inits, hsent, hinits⟩ := sent_of_prepareData hprep
      rw [hprep]
      cases ret1 with
      | some r =>
        cases h
        exact ⟨inits, [], by rw [hsent, List.append_nil], hinits, rfl⟩
      | none =>
        -- The message is new, so no byte of its header was swapped before.
        obtain ⟨calls, hcalls, hdata⟩ := sent_of_exchangeData h false
        exact ⟨inits, calls, by rw [hcalls, hsent], hinits, hdata⟩
    · rename_i hpending
      rw [if_neg hpending]
      -- The message is pending, and its header is swapped once more.
      obtain ⟨calls, hcalls, hdata⟩ := sent_of_exchangeData h true
      exact ⟨[], calls, by rw [hcalls, List.append_nil], nofun, hdata⟩

end

end Compostela.Follower
