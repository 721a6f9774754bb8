import Compostela.Follower.Calls

/-!
# `Compostela.Follower.Keeps`: what the calls of a socket keep, a run keeps

The follower reaches the network through `sendall` and `recvall` only. A property of the
network that both calls keep is therefore kept by every function of the follower, whatever
the function does with the results.

`receiveMessage_keeps` needs this of `recvall` alone. `Keeps` is the property of a `Net`, and
`Keeps.run` the result for `_run_follow_context`.
-/

set_option autoImplicit false

namespace Compostela.Follower

open Compostela.Common
open Compostela.Memory

section
variable {σ : Type} {net : Net σ} {P : σ → Prop} {md5 : Md5} {inp : RunInput} {heap : Heap}
  {cxt cxt' : ScFollowContext} {conn conn' : ScAggregatorConnection σ}

/-! ### Receiving -/

/-- A receive that returns has called `recvall` for the header. -/
theorem recvall_of_receiveMessage {ret : Int} {resp : Option ScLogMessage}
    (hopen : conn.opened = true)
    (hrecv : scAggregatorConnectionReceiveMessage net heap conn = .ok (ret, resp, conn')) :
    ∃ n bytes s, net.recvall conn.net headerSize = .ok (n, bytes, s) := by
  unfold scAggregatorConnectionReceiveMessage connRecvall at hrecv
  simp only [hopen, if_true] at hrecv
  obtain ⟨r, hr, -⟩ := bind_eq_ok.mp hrecv
  obtain ⟨⟨n, bytes, s⟩, hhead, -⟩ := bind_eq_ok.mp hr
  exact ⟨n, bytes, s, hhead⟩

section
variable (hkeep : ∀ s size ret bytes s', P s → net.recvall s size = .ok (ret, bytes, s') → P s')
include hkeep

/-- `recvall` on a connection keeps what `recvall` of the network keeps. -/
theorem connRecvall_keeps {size : Nat} {ret : Int} {bytes : Bytes} (h : P conn.net)
    (hrecv : connRecvall net conn size = .ok (ret, bytes, conn')) : P conn'.net := by
  unfold connRecvall at hrecv
  split at hrecv
  · obtain ⟨⟨ret1, bytes1, s⟩, h1, hrecv⟩ := bind_eq_ok.mp hrecv
    cases hrecv
    exact hkeep _ _ _ _ _ h h1
  · cases hrecv
    exact h

/-- The content of a response is received by `recvall` alone. -/
theorem receiveContent_keeps {m : ScLogMessage} {ret : Int} {resp : Option ScLogMessage}
    (h : P conn.net) (hrecv : receiveContent net conn m = .ok (ret, resp, conn')) :
    P conn'.net := by
  unfold receiveContent at hrecv
  split at hrecv
  · obtain ⟨⟨n, bytes, conn1⟩, hbody, hrecv⟩ := bind_eq_ok.mp hrecv
    have h1 := connRecvall_keeps hkeep h hbody
    obtain ⟨content, -, hrecv⟩ := bind_eq_ok.mp hrecv
    split at hrecv
    · cases hrecv
      exact h1
    · cases hrecv
      exact h1
  · cases hrecv
    exact h

/-- What holds after the call that reads the header. -/
theorem receiveMessage_keeps_of_header {n ret : Int} {bytes : Bytes} {s : σ}
    {resp : Option ScLogMessage} (hopen : conn.opened = true)
    (hhead : net.recvall conn.net headerSize = .ok (n, bytes, s)) (h : P s)
    (hrecv : scAggregatorConnectionReceiveMessage net heap conn = .ok (ret, resp, conn')) :
    P conn'.net := by
  unfold scAggregatorConnectionReceiveMessage connRecvall at hrecv
  simp only [hopen, if_true, hhead, ok_bind] at hrecv
  split at hrecv
  · cases hrecv
    exact h
  · split at hrecv
    · cases hrecv
      exact h
    · obtain ⟨m, -, hrecv⟩ := bind_eq_ok.mp hrecv
      cases m with
      | none =>
        cases hrecv
        exact h
      | some m => exact receiveContent_keeps hkeep h hrecv

/-- A receive makes `recvall` calls only. -/
theorem receiveMessage_keeps {ret : Int} {resp : Option ScLogMessage} (h : P conn.net)
    (hrecv : scAggregatorConnectionReceiveMessage net heap conn = .ok (ret, resp, conn')) :
    P conn'.net := by
  cases hopen : conn.opened with
  | false =>
    unfold scAggregatorConnectionReceiveMessage connRecvall at hrecv
    simp only [hopen, Bool.false_eq_true, if_false, ok_bind] at hrecv
    cases hrecv
    exact h
  | true =>
    obtain ⟨n, bytes, s, hhead⟩ := recvall_of_receiveMessage hopen hrecv
    exact receiveMessage_keeps_of_header hkeep hopen hhead (hkeep _ _ _ _ _ h hhead) hrecv

end

/-! ### A run -/

/-- Both calls of the socket keep the property. -/
structure Keeps (net : Net σ) (P : σ → Prop) : Prop where
  sendall : ∀ s data ret s', P s → net.sendall s data = .ok (ret, s') → P s'
  recvall : ∀ s size ret bytes s', P s → net.recvall s size = .ok (ret, bytes, s') → P s'

section
variable (hnet : Keeps net P)
include hnet

/-- A send keeps what the calls of the network keep. -/
theorem Keeps.sendMessage {msg msg' : ScLogMessage} {ret : Int} (h : P conn.net)
    (hsend : scAggregatorConnectionSendMessage net conn msg = .ok (ret, conn', msg')) :
    P conn'.net := by
  unfold scAggregatorConnectionSendMessage at hsend
  obtain ⟨⟨n, conn1⟩, hcall, hsend⟩ := bind_eq_ok.mp hsend
  -- The `sendall` call, on a socket that is open.
  have h1 : P conn1.net := by
    unfold connSendall at hcall
    split at hcall
    · obtain ⟨data, -, hcall⟩ := bind_eq_ok.mp hcall
      obtain ⟨⟨n1, s⟩, hs, hcall⟩ := bind_eq_ok.mp hcall
      cases hcall
      exact hnet.sendall _ _ _ _ h hs
    · cases hcall
      exact h
  simp only at hsend
  split at hsend
  · cases hsend
    exact h1
  · cases hsend
    exact h1

/-- A receive keeps what the calls of the network keep. -/
theorem Keeps.receiveMessage {ret : Int} {resp : Option ScLogMessage} (h : P conn.net)
    (hrecv : scAggregatorConnectionReceiveMessage net heap conn = .ok (ret, resp, conn')) :
    P conn'.net := receiveMessage_keeps hnet.recvall h hrecv

/-- Receiving the response to INIT keeps what the calls of the network keep. -/
theorem Keeps.receiveInitResponse {ret : Int} (h : P conn.net)
    (hrecv : receiveInitResponse net md5 inp heap cxt conn = .ok (ret, cxt', conn')) :
    P conn'.net := by
  obtain ⟨got, resp, h1, -⟩ := receiveInitResponse_cases hrecv
  exact hnet.receiveMessage h h1

/-- `_init_file` keeps what the calls of the network keep. -/
theorem Keeps.initFile {ret : Int} (h : P conn.net)
    (hinit : initFile net md5 inp heap cxt conn = .ok (ret, cxt', conn')) : P conn'.net := by
  rcases initFile_cases hinit with ⟨-, -, -, rfl⟩ | ⟨sent, conn1, msg, hsend, hcase⟩
  · exact h
  · have h1 := hnet.sendMessage h hsend
    rcases hcase with ⟨-, -, -, rfl⟩ | ⟨-, hrecv⟩
    · exact h1
    · exact hnet.receiveInitResponse h1 hrecv

/-- Opening the file keeps what the calls of the network keep. -/
theorem Keeps.ensureOpen {ret : Option Int} (h : P conn.net)
    (hopen : ensureOpen net md5 inp cxt conn = .ok (ret, cxt', conn')) : P conn'.net := by
  rcases ensureOpen_cases hopen with
    ⟨-, -, -, rfl⟩ | ⟨-, -, -, -, rfl⟩ | ⟨-, -, -, -, rfl⟩ | ⟨-, -, -, ret1, hinit⟩
  · exact h
  · exact h
  · exact h
  · exact hnet.initFile h hinit

/-- Asking for a channel keeps what the calls of the network keep. -/
theorem Keeps.ensureChannel (h : P conn.net)
    (hchan : ensureChannel net md5 inp cxt conn = .ok (cxt', conn')) : P conn'.net := by
  rcases ensureChannel_cases hchan with ⟨-, -, rfl⟩ | ⟨-, ret, hinit⟩
  · exact h
  · exact hnet.initFile h hinit

/-- The part of a run before the DATA exchange keeps what the calls of the network keep. -/
theorem Keeps.prepareData {ret : Option Int} (h : P conn.net)
    (hprep : prepareData net md5 inp cxt conn = .ok (ret, cxt', conn')) : P conn'.net := by
  rcases prepareData_cases hprep with ⟨r, -, hopen⟩ | ⟨cxt1, conn1, hopen, hcase⟩
  · exact hnet.ensureOpen h hopen
  · have h1 := hnet.ensureOpen h hopen
    rcases hcase with ⟨r, cb, -, -, rfl⟩ | ⟨cb, cxt2, cxt3, -, -, hchannel, -⟩
    · exact h1
    · exact hnet.ensureChannel h1 hchannel

/-- The DATA exchange keeps what the calls of the network keep. -/
theorem Keeps.exchangeData {ret : Int} (h : P conn.net)
    (hex : exchangeData net inp cxt conn = .ok (ret, cxt', conn')) : P conn'.net := by
  obtain ⟨sent, conn1, msg, hsend, hcase⟩ := exchangeData_cases hex
  have h1 := hnet.sendMessage h hsend
  rcases hcase with ⟨-, -, -, rfl⟩ | ⟨-, got, resp, hrecv, -⟩
  · exact h1
  · exact hnet.receiveMessage h1 hrecv

/-- A run of a context. -/
theorem Keeps.run {ret : Int} (h : P conn.net)
    (hrun : runFollowContext net md5 inp cxt conn = .ok (ret, cxt', conn')) : P conn'.net := by
  rcases runFollowContext_cases hrun with
    ⟨-, -, -, rfl⟩ | ⟨-, -, hprep | ⟨cxt1, conn1, hprep, hex⟩⟩ | ⟨-, -, hex⟩
  · exact h
  · exact hnet.prepareData h hprep
  · exact hnet.exchangeData (hnet.prepareData h hprep) hex
  · exact hnet.exchangeData h hex

end

end

end Compostela.Follower
