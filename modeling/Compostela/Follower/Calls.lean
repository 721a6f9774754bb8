import Compostela.Follower.Run

/-!
# What a call of a run did

One lemma for each function of a run with the aggregator. A call that returned has made certain
calls of the connection, and its result is one of a few. `initFile_cases`, `exchangeData_cases`
and `scFollowContextClose_cases` name the request that was sent and the response that was
received. `ensureOpen_cases`, `ensureChannel_cases`, `prepareData_cases` and
`runFollowContext_cases` name the steps between them. The proofs about runs use these cases, and
not the text of the functions.
-/

set_option autoImplicit false

namespace Compostela.Follower

open Compostela.Common
open Compostela.Memory

section
variable {σ : Type} {net : Net σ} {md5 : Md5} {inp : RunInput} {heap : Heap}
  {cxt cxt' : ScFollowContext} {conn conn' : ScAggregatorConnection σ}

/-- The response to an INIT request: there is none, or `_init_file` takes it. -/
theorem receiveInitResponse_cases {ret : Int}
    (h : receiveInitResponse net md5 inp heap cxt conn = .ok (ret, cxt', conn')) :
    ∃ got resp,
      scAggregatorConnectionReceiveMessage net heap conn = .ok (got, resp, conn') ∧
      ((got ≠ 0 ∨ resp = none) ∧ ret = -3 ∧ cxt' = cxt ∨
        ∃ m, got = 0 ∧ resp = some m ∧ takeInitResponse md5 inp cxt m = .ok (ret, cxt')) := by
  unfold receiveInitResponse at h
  obtain ⟨⟨got, resp, conn1⟩, hrecv, h⟩ := bind_eq_ok.mp h
  split at h
  · rename_i m conn2 heq
    cases heq
    obtain ⟨⟨ret1, cxt1⟩, htake, h⟩ := bind_eq_ok.mp h
    cases h
    exact ⟨0, some m, hrecv, Or.inr ⟨m, rfl, rfl, htake⟩⟩
  · rename_i hnone heq
    cases heq
    cases h
    -- The match falls through for an error code as well as for no message.
    refine ⟨got, resp, hrecv, Or.inl ⟨?_, rfl, rfl⟩⟩
    by_cases hzero : got = 0
    · right
      cases resp with
      | none => rfl
      | some m => exact (hnone m hzero rfl).elim
    · exact Or.inl hzero

/-- `_init_file`: the allocation failed, the INIT request was not sent, or there is the
response. -/
theorem initFile_cases {ret : Int}
    (h : initFile net md5 inp heap cxt conn = .ok (ret, cxt', conn')) :
    ¬ (headerSize + (cxt.displayName.length + 4) ≤ PTRDIFF_MAX ∧
        heap.malloc (headerSize + (cxt.displayName.length + 4)) = true) ∧
      ret = -1 ∧ cxt' = cxt ∧ conn' = conn ∨
    ∃ sent conn1 msg,
      scAggregatorConnectionSendMessage net conn (initMessage cxt) = .ok (sent, conn1, msg) ∧
      (sent ≠ 0 ∧ ret = -1 ∧ cxt' = cxt ∧ conn' = conn1 ∨
        sent = 0 ∧ receiveInitResponse net md5 inp heap cxt conn1 = .ok (ret, cxt', conn')) := by
  unfold initFile at h
  simp only at h
  -- A display name that is too long fails before anything is sent.
  split at h
  · rename_i hfail
    cases h
    exact Or.inl ⟨hfail, rfl, rfl, rfl⟩
  · obtain ⟨⟨sent, conn1, msg⟩, hsend, h⟩ := bind_eq_ok.mp h
    refine Or.inr ⟨sent, conn1, msg, hsend, ?_⟩
    simp only at h
    split at h
    · rename_i hne
      cases h
      exact Or.inl ⟨hne, rfl, rfl, rfl⟩
    · rename_i hzero
      exact Or.inr ⟨not_not.mp hzero, h⟩

/-- The file was open, a descriptor that is not -1 counts as open and ends the run, the file could
not be opened, or it was opened and the context registered. -/
theorem ensureOpen_cases {ret : Option Int}
    (h : ensureOpen net md5 inp cxt conn = .ok (ret, cxt', conn')) :
    0 < cxt.fd ∧ ret = none ∧ cxt' = cxt ∧ conn' = conn ∨
    cxt.fd ≤ 0 ∧ cxt.fd ≠ -1 ∧ ret = some 1 ∧ cxt' = cxt ∧ conn' = conn ∨
    cxt.fd = -1 ∧ inp.opened.fd < 0 ∧ ret = some 1 ∧ cxt' = { cxt with fd := inp.opened.fd } ∧
      conn' = conn ∨
    cxt.fd = -1 ∧ 0 ≤ inp.opened.fd ∧ ret = none ∧ ∃ ret1,
      initFile net md5 inp (inp.heap 0)
        { cxt with fd := inp.opened.fd, mode := inp.opened.mode, offset := 0 } conn =
          .ok (ret1, cxt', conn') := by
  unfold ensureOpen scFollowContextOpenFile at h
  by_cases hfd : cxt.fd ≤ 0
  · right
    rw [if_pos hfd] at h
    -- A descriptor of 0 or below -1 is neither open nor closed for the code, and it gives up.
    by_cases hclosed : cxt.fd = -1
    · right
      rw [if_neg (not_not.mpr hclosed)] at h
      by_cases hfail : inp.opened.fd < 0
      · rw [if_pos hfail] at h
        cases h
        exact Or.inl ⟨hclosed, hfail, rfl, rfl, rfl⟩
      · rw [if_neg hfail] at h
        obtain ⟨⟨ret1, cxt1, conn1⟩, hinit, h⟩ := bind_eq_ok.mp h
        cases h
        exact Or.inr ⟨hclosed, Int.not_lt.mp hfail, rfl, ret1, hinit⟩
    · rw [if_pos hclosed] at h
      cases h
      exact Or.inl ⟨hfd, hclosed, rfl, rfl, rfl⟩
  · rw [if_neg hfd] at h
    cases h
    exact Or.inl ⟨Int.not_le.mp hfd, rfl, rfl, rfl⟩

/-- A context with a channel number is not registered again. -/
theorem ensureChannel_of_ne (hchannel : cxt.channel ≠ 0)
    (h : ensureChannel net md5 inp cxt conn = .ok (cxt', conn')) : cxt' = cxt ∧ conn' = conn := by
  unfold ensureChannel at h
  rw [if_neg hchannel] at h
  cases h
  exact ⟨rfl, rfl⟩

/-- A context with a channel keeps it, and one without asks for it by `_init_file`. -/
theorem ensureChannel_cases (h : ensureChannel net md5 inp cxt conn = .ok (cxt', conn')) :
    cxt.channel ≠ 0 ∧ cxt' = cxt ∧ conn' = conn ∨
    cxt.channel = 0 ∧
      ∃ ret, initFile net md5 inp (inp.heap 1) cxt conn = .ok (ret, cxt', conn') := by
  by_cases hchannel : cxt.channel = 0
  · unfold ensureChannel at h
    rw [if_pos hchannel] at h
    obtain ⟨⟨ret, cxt1, conn1⟩, hinit, h⟩ := bind_eq_ok.mp h
    cases h
    exact Or.inr ⟨hchannel, ret, hinit⟩
  · exact Or.inl ⟨hchannel, ensureChannel_of_ne hchannel h⟩

/-- The part of a run in front of the exchange: it ends without an open file, it ends without a
line, or there is a line for a DATA request. -/
theorem prepareData_cases {ret : Option Int}
    (h : prepareData net md5 inp cxt conn = .ok (ret, cxt', conn')) :
    (∃ r, ret = some r ∧ ensureOpen net md5 inp cxt conn = .ok (some r, cxt', conn')) ∨
    ∃ cxt1 conn1, ensureOpen net md5 inp cxt conn = .ok (none, cxt1, conn1) ∧
      ((∃ r cb, ret = some r ∧ fillMessage inp cxt1 = .ok (some r, cb, cxt') ∧ conn' = conn1) ∨
        ∃ cb cxt2 cxt3, ret = none ∧ fillMessage inp cxt1 = .ok (none, cb, cxt2) ∧
          ensureChannel net md5 inp cxt2 conn1 = .ok (cxt3, conn') ∧
          cxt' = dataHeader cb cxt3) := by
  unfold prepareData at h
  obtain ⟨⟨ret1, cxt1, conn1⟩, hopen, h⟩ := bind_eq_ok.mp h
  -- A result of the first step ends the function at once.
  cases ret1 with
  | some r =>
    cases h
    exact Or.inl ⟨r, rfl, hopen⟩
  | none =>
    refine Or.inr ⟨cxt1, conn1, hopen, ?_⟩
    obtain ⟨⟨ret2, cb, cxt2⟩, hfill, h⟩ := bind_eq_ok.mp h
    cases ret2 with
    | some r =>
      cases h
      exact Or.inl ⟨r, cb, rfl, hfill, rfl⟩
    | none =>
      obtain ⟨⟨cxt3, conn3⟩, hchannel, h⟩ := bind_eq_ok.mp h
      cases h
      exact Or.inr ⟨cb, cxt2, cxt3, rfl, hfill, hchannel, rfl⟩

/-- The exchange of a run: the request was not sent, there is no response to it, or there is one.
The request is done when the response is OK. -/
theorem exchangeData_cases {ret : Int}
    (h : exchangeData net inp cxt conn = .ok (ret, cxt', conn')) :
    ∃ sent conn1 msg,
      scAggregatorConnectionSendMessage net conn cxt.messageBuffer = .ok (sent, conn1, msg) ∧
      (sent ≠ 0 ∧ ret = ERR_MUST_RECONNECT ∧ cxt' = { cxt with messageBuffer := msg } ∧
          conn' = conn1 ∨
        sent = 0 ∧ ∃ got resp,
          scAggregatorConnectionReceiveMessage net (inp.heap 2) conn1 = .ok (got, resp, conn') ∧
          ((got ≠ 0 ∨ resp = none) ∧ ret = ERR_MUST_RECONNECT ∧
              cxt' = { cxt with messageBuffer := msg } ∨
            ∃ m, got = 0 ∧ resp = some m ∧ ret = 0 ∧
              cxt' = { cxt with messageBuffer :=
                if m.code = SCM_RESP_OK then { msg with code := SCM_MSG_NONE } else msg })) := by
  unfold exchangeData at h
  obtain ⟨⟨got, resp, cxt1, conn1⟩, hproc, h⟩ := bind_eq_ok.mp h
  unfold scFollowContextProcData at hproc
  obtain ⟨⟨sent, conn2, msg⟩, hsend, hproc⟩ := bind_eq_ok.mp hproc
  refine ⟨sent, conn2, msg, hsend, ?_⟩
  simp only at hproc
  -- The request is sent before the response is read, and a failed send skips the rest.
  split at hproc
  · rename_i hne
    cases hproc
    refine Or.inl ⟨hne, ?_⟩
    split at h
    · rename_i heq
      cases heq
    · rename_i heq
      cases heq
      cases h
      exact ⟨rfl, rfl, rfl⟩
  · rename_i hzero
    obtain ⟨⟨got1, resp1, conn3⟩, hrecv, hproc⟩ := bind_eq_ok.mp hproc
    cases hproc
    refine Or.inr ⟨not_not.mp hzero, ?_⟩
    split at h
    · rename_i m cxt2 conn4 heq
      cases heq
      -- Only a response of `SCM_RESP_OK` takes the message out of its buffer.
      split at h
      · rename_i hcode
        cases h
        exact ⟨0, some m, hrecv, Or.inr ⟨m, rfl, rfl, rfl, by rw [if_pos hcode]⟩⟩
      · rename_i hcode
        cases h
        exact ⟨0, some m, hrecv, Or.inr ⟨m, rfl, rfl, rfl, by rw [if_neg hcode]⟩⟩
    · rename_i hnone heq
      cases heq
      cases h
      refine ⟨got1, resp1, hrecv, Or.inl ⟨?_, rfl, rfl⟩⟩
      by_cases hgot : got1 = 0
      · right
        cases resp1 with
        | none => rfl
        | some m => exact (hnone m hgot rfl).elim
      · exact Or.inl hgot

/-- A run: there is no connection, a context without a pending message prepares one and sends it
unless the preparation ended the run, or a pending message is sent again. -/
theorem runFollowContext_cases {ret : Int}
    (h : runFollowContext net md5 inp cxt conn = .ok (ret, cxt', conn')) :
    conn.opened = false ∧ ret = ERR_MUST_RECONNECT ∧ cxt' = cxt ∧ conn' = conn ∨
    conn.opened = true ∧ cxt.messageBuffer.code = SCM_MSG_NONE ∧
      (prepareData net md5 inp cxt conn = .ok (some ret, cxt', conn') ∨
        ∃ cxt1 conn1, prepareData net md5 inp cxt conn = .ok (none, cxt1, conn1) ∧
          exchangeData net inp cxt1 conn1 = .ok (ret, cxt', conn')) ∨
    conn.opened = true ∧ cxt.messageBuffer.code ≠ SCM_MSG_NONE ∧
      exchangeData net inp cxt conn = .ok (ret, cxt', conn') := by
  unfold runFollowContext at h
  split at h
  · rename_i hclosed
    cases h
    exact Or.inl ⟨hclosed, rfl, rfl, rfl⟩
  · rename_i hopen
    rw [Bool.not_eq_false] at hopen
    right
    split at h
    · rename_i hnone
      obtain ⟨⟨ret1, cxt1, conn1⟩, hprep, h⟩ := bind_eq_ok.mp h
      -- Without a pending message the next one is read from the file first.
      refine Or.inl ⟨hopen, hnone, ?_⟩
      cases ret1 with
      | some r =>
        cases h
        exact Or.inl hprep
      | none => exact Or.inr ⟨cxt1, conn1, hprep, h⟩
    · rename_i hpending
      exact Or.inr ⟨hopen, hpending, h⟩

/-- A run with nothing pending, over an open socket: it ends after its first part, after the read,
or after the exchange. -/
theorem runFollowContext_of_nothing {ret : Int} (hopened : conn.opened = true)
    (hnothing : cxt.messageBuffer.code = SCM_MSG_NONE)
    (h : runFollowContext net md5 inp cxt conn = .ok (ret, cxt', conn')) :
    ∃ ret1 cxt1 conn1, ensureOpen net md5 inp cxt conn = .ok (ret1, cxt1, conn1) ∧
      (ret1 = some ret ∧ cxt' = cxt1 ∧ conn' = conn1 ∨
        ret1 = none ∧ ∃ ret2 cb cxt2, fillMessage inp cxt1 = .ok (ret2, cb, cxt2) ∧
          (ret2 = some ret ∧ cxt' = cxt2 ∧ conn' = conn1 ∨
            ret2 = none ∧ ∃ cxt3 conn3,
              ensureChannel net md5 inp cxt2 conn1 = .ok (cxt3, conn3) ∧
              exchangeData net inp (dataHeader cb cxt3) conn3 = .ok (ret, cxt', conn'))) := by
  rcases runFollowContext_cases h with ⟨hclosed, -⟩ | ⟨-, -, hprep⟩ | ⟨-, hpending, -⟩
  · exact absurd hopened (by rw [hclosed]; decide)
  · rcases hprep with hprep | ⟨cxt0, conn0, hprep, hex⟩
    -- The preparation ends the pass, without a file or without a line.
    · rcases prepareData_cases hprep with ⟨r, hr, hopen⟩ | ⟨cxt1, conn1, hopen, hcase⟩
      · exact ⟨some r, cxt', conn', hopen, Or.inl ⟨hr.symm, rfl, rfl⟩⟩
      · refine ⟨none, cxt1, conn1, hopen, Or.inr ⟨rfl, ?_⟩⟩
        rcases hcase with ⟨r, cb, hr, hfill, rfl⟩ | ⟨cb, cxt2, cxt3, hnone, -⟩
        · exact ⟨some r, cb, cxt', hfill, Or.inl ⟨hr.symm, rfl, rfl⟩⟩
        · cases hnone
    · rcases prepareData_cases hprep with ⟨r, hr, -⟩ | ⟨cxt1, conn1, hopen, hcase⟩
      · cases hr
      · refine ⟨none, cxt1, conn1, hopen, Or.inr ⟨rfl, ?_⟩⟩
        rcases hcase with ⟨r, cb, hr, -⟩ | ⟨cb, cxt2, cxt3, -, hfill, hchannel, rfl⟩
        · cases hr
        · exact ⟨none, cb, cxt2, hfill, Or.inr ⟨rfl, cxt3, conn0, hchannel, hex⟩⟩
  · exact absurd hnothing hpending

/-- `sc_follow_context_close`: there is no connection or no file, the RELE request was not sent,
or its response was received. -/
theorem scFollowContextClose_cases {ret : Int}
    (h : scFollowContextClose net heap cxt conn = .ok (ret, conn')) :
    conn.opened = false ∧ ret = ERR_MUST_RECONNECT ∧ conn' = conn ∨
    conn.opened = true ∧ cxt.fd < 0 ∧ ret = -1 ∧ conn' = conn ∨
    conn.opened = true ∧ 0 ≤ cxt.fd ∧ ∃ sent conn1 msg,
      scAggregatorConnectionSendMessage net conn (releMessage cxt) = .ok (sent, conn1, msg) ∧
      (sent ≠ 0 ∧ ret = ERR_MUST_RECONNECT ∧ conn' = conn1 ∨
        sent = 0 ∧ ∃ got resp,
          scAggregatorConnectionReceiveMessage net heap conn1 = .ok (got, resp, conn') ∧
          ret = if got ≠ 0 then ERR_MUST_RECONNECT else 0) := by
  unfold scFollowContextClose at h
  split at h
  · rename_i hclosed
    cases h
    exact Or.inl ⟨hclosed, rfl, rfl⟩
  · rename_i hopen
    rw [Bool.not_eq_false] at hopen
    right
    split at h
    · rename_i hfd
      cases h
      exact Or.inl ⟨hopen, hfd, rfl, rfl⟩
    · rename_i hfd
      obtain ⟨⟨sent, conn1, msg⟩, hsend, h⟩ := bind_eq_ok.mp h
      refine Or.inr ⟨hopen, Int.not_lt.mp hfd, sent, conn1, msg, hsend, ?_⟩
      simp only at h
      split at h
      -- RELE is answered only when it was sent.
      · rename_i hne
        cases h
        exact Or.inl ⟨hne, rfl, rfl⟩
      · rename_i hzero
        obtain ⟨⟨got, resp, conn2⟩, hrecv, h⟩ := bind_eq_ok.mp h
        cases h
        exact Or.inr ⟨not_not.mp hzero, got, resp, hrecv, rfl⟩

end

end Compostela.Follower
