import Compostela.Follower.Run

/-!
# `Compostela.Follower.Lines`: what a run reads from the followed file

A run takes the next line, or as much of it as fits the message, from the read buffer. It
fetches from the file only when the buffer is empty. `Took` says this of the bytes: what was
buffered and what was fetched is the line and what is buffered now.

* `scFollowContextReadLine_took`: one line read.
* `fillMessage_took`: the line read of a run, with the line in the message buffer.
-/

set_option autoImplicit false

namespace Compostela.Follower

open Compostela.Common
open Compostela.Common.AzBuffer
open Compostela.Memory

/-- `cxt'` is `cxt` after a read of `line`. `got` was fetched from the file. The message
buffer is left open. -/
structure Took (inp : RunInput) (cxt cxt' : ScFollowContext) (got line : Bytes) : Prop where
  fetched : got <+: inp.file.drop cxt.offset
  bytes : cxt.buffer.unread ++ got = line ++ cxt'.buffer.unread
  valid : cxt'.buffer.Valid
  rest : cxt' = { cxt with
    buffer := cxt'.buffer
    offset := cxt.offset + got.length
    messageBuffer := cxt'.messageBuffer }

/-- A line, or a piece of one: a complete line has its newline at the end, and a piece of a
line has none. -/
def IsPiece (complete : Bool) (line : Bytes) : Prop :=
  if complete then ∃ init, line = init ++ [LF] ∧ LF ∉ init else LF ∉ line

/-- A complete piece ends in a newline. -/
theorem IsPiece.ends {complete : Bool} {line : Bytes} (h : IsPiece complete line)
    (hcomplete : complete = true) : ∃ init, line = init ++ [LF] := by
  rw [IsPiece, if_pos hcomplete] at h
  obtain ⟨init, hinit, -⟩ := h
  exact ⟨init, hinit⟩

/-- Nothing is unread exactly when the count is zero. -/
theorem unreadBytes_eq_zero_iff {buf : AzBuffer} (h : buf.Valid) :
    azBufferUnreadBytes buf = 0 ↔ buf.unread = [] := by
  have hlen := length_unread buf
  have hcur := h.cursor_le
  rw [← List.length_eq_zero_iff, hlen]
  unfold azBufferUnreadBytes
  omega

/-- A line read from a buffer that is not empty: the line is complete when the result is 1. -/
theorem azBufferReadLine_took {buf buf' : AzBuffer} (h : buf.Valid) (hne : buf.unread ≠ [])
    {dsize : Nat} (hd : 0 < dsize) {ret : Int} {line : Bytes}
    (hread : azBufferReadLine buf dsize = .ok (ret, line, buf')) :
    buf.unread = line ++ buf'.unread ∧ buf'.Valid ∧
      (ret = 1 ∧ IsPiece true line ∨ ret = 0 ∧ IsPiece false line) := by
  rcases azBufferReadLine_cases h hd with ⟨hnil, -⟩ | ⟨l, b, hbytes, hv, -, -, -, hcase⟩
  · exact absurd hnil hne
  · rcases hcase with ⟨hok, hline⟩ | ⟨hok, hpiece⟩
    · rw [hok] at hread
      cases hread
      exact ⟨hbytes, hv, Or.inl ⟨rfl, hline⟩⟩
    · rw [hok] at hread
      cases hread
      exact ⟨hbytes, hv, Or.inr ⟨rfl, hpiece⟩⟩

section
variable {inp : RunInput} {cxt cxt' : ScFollowContext}

/-- A line read leaves the message buffer alone. -/
theorem scFollowContextReadLine_messageBuffer {dsize : Nat} {ret : Int} {line : Bytes}
    (h : scFollowContextReadLine inp cxt dsize = .ok (ret, line, cxt')) :
    cxt'.messageBuffer = cxt.messageBuffer := by
  unfold scFollowContextReadLine at h
  split at h
  · simp only at h
    obtain ⟨⟨n, buffer⟩, -, h⟩ := bind_eq_ok.mp h
    simp only at h
    split at h
    · cases h
      rfl
    · obtain ⟨⟨ret1, line1, buffer1⟩, -, h⟩ := bind_eq_ok.mp h
      cases h
      rfl
  · obtain ⟨⟨ret1, line1, buffer1⟩, -, h⟩ := bind_eq_ok.mp h
    cases h
    rfl

/-- A line read of a context. Without a line the result is zero or -1. -/
theorem scFollowContextReadLine_took (hv : cxt.buffer.Valid) {dsize : Nat} (hd : 0 < dsize)
    {ret : Int} {line : Bytes}
    (h : scFollowContextReadLine inp cxt dsize = .ok (ret, line, cxt')) :
    (∃ got, Took inp cxt cxt' got line) ∧
      (ret = 1 ∧ IsPiece true line ∨ ret = 0 ∧ IsPiece false line ∨ ret = -1 ∧ line = []) := by
  unfold scFollowContextReadLine at h
  by_cases hempty : azBufferUnreadBytes cxt.buffer = 0
  · -- The buffer is empty: a fetch first.
    rw [if_pos hempty] at h
    have hnil : cxt.buffer.unread = [] := (unreadBytes_eq_zero_iff hv).mp hempty
    -- The fetch takes what fits in the whole buffer, which was emptied first.
    have hreset := hv.reset
    have hunused : toSize (azBufferUnusedBytes (azBufferReset cxt.buffer))
        = (azBufferReset cxt.buffer).size := by
      rw [hreset.toSize_unused]
      rfl
    obtain ⟨buf1, hfetch, hv1, hunread1, hused1⟩ :=
      azBufferFetchFile_ok hreset rfl inp.read (inp.file.drop cxt.offset)
    obtain ⟨hgot, -⟩ :=
      inp.read.bytes_prefix (inp.file.drop cxt.offset) (azBufferReset cxt.buffer).size
    rw [unread_azBufferReset, List.nil_append] at hunread1
    simp only [hunused, hfetch, ok_bind] at h
    rw [hused1] at h
    split at h
    · -- Nothing was fetched.
      rename_i hle
      cases h
      have hnone : inp.read.bytes (inp.file.drop cxt.offset) (azBufferReset cxt.buffer).size
          = [] := by
        cases hr : inp.read with
        | chunk k =>
          rw [hr] at hle
          simp only [ReadResult.code] at hle
          exact List.eq_nil_of_length_eq_zero (by omega)
        | again => rfl
        | error => rfl
      refine ⟨⟨_, hgot, ?_, hv1, rfl⟩, ?_⟩
      · rw [hnil, List.nil_append, List.nil_append, hunread1]
      · cases hr : inp.read with
        | chunk k =>
          rw [hr] at hnone
          simp only [ReadResult.code, hnone]
          exact Or.inr (Or.inl ⟨rfl, List.not_mem_nil⟩)
        | again => exact Or.inr (Or.inr ⟨rfl, rfl⟩)
        | error => exact Or.inr (Or.inr ⟨rfl, rfl⟩)
    · -- A line from what was fetched.
      rename_i hpos
      have hne : buf1.unread ≠ [] := by
        intro hnone
        rw [hunread1] at hnone
        refine hpos ?_
        cases hr : inp.read with
        | chunk k =>
          rw [hr] at hnone
          simp only [ReadResult.code, hnone]
          exact Int.le_refl 0
        | again => exact Int.negSucc_le_zero 0
        | error => exact Int.negSucc_le_zero 0
      obtain ⟨⟨ret1, line1, buf2⟩, hread, h⟩ := bind_eq_ok.mp h
      cases h
      obtain ⟨hbytes, hv2, hcase⟩ := azBufferReadLine_took hv1 hne hd hread
      refine ⟨⟨_, hgot, ?_, hv2, rfl⟩, hcase.imp id Or.inl⟩
      rw [hnil, List.nil_append, ← hunread1]
      exact hbytes
  -- There are bytes left of an earlier fetch, and the file is not asked.
  · rw [if_neg hempty] at h
    have hne : cxt.buffer.unread ≠ [] := fun hnil =>
      hempty ((unreadBytes_eq_zero_iff hv).mpr hnil)
    obtain ⟨⟨ret1, line1, buf1⟩, hread, h⟩ := bind_eq_ok.mp h
    cases h
    obtain ⟨hbytes, hv1, hcase⟩ := azBufferReadLine_took hv hne hd hread
    refine ⟨⟨[], List.nil_prefix, ?_, hv1, rfl⟩, hcase.imp id Or.inl⟩
    rw [List.append_nil]
    exact hbytes

/-- The line read of a run. A run that ends here took nothing. Otherwise the line is in the
message buffer, and its mark says whether it has a newline. -/
theorem fillMessage_took (hv : cxt.buffer.Valid) {ret : Option Int} {cb : Nat}
    (h : fillMessage inp cxt = .ok (ret, cb, cxt')) :
    ∃ got line complete, Took inp cxt cxt' got line ∧
      (ret ≠ none → line = [] ∧ cxt'.messageBuffer = cxt.messageBuffer ∧
        ret ≠ some ERR_MUST_RECONNECT) ∧
      (ret = none → cb = line.length ∧
        storeLine inp complete line cxt.messageBuffer = .ok cxt'.messageBuffer ∧
        IsPiece complete line) := by
  unfold fillMessage at h
  obtain ⟨⟨ret1, line, cxt1⟩, hread, h⟩ := bind_eq_ok.mp h
  obtain ⟨⟨got, htook⟩, hcase⟩ := scFollowContextReadLine_took hv (by decide) hread
  have hmsg := scFollowContextReadLine_messageBuffer hread
  simp only at h
  split at h
  -- No line, and no error either: the file has nothing more to give now.
  · rename_i hnone
    cases h
    have hline : line = [] := List.eq_nil_of_length_eq_zero hnone.2
    exact ⟨got, line, false, htook, fun _ => ⟨hline, hmsg, by decide⟩, nofun⟩
  · split at h
    -- `EAGAIN` is taken for no data, any other error for a failure.
    · rename_i hfail
      cases h
      have hline : line = [] := by
        rcases hcase with ⟨hone, -⟩ | ⟨hzero, -⟩ | ⟨-, hline⟩
        · omega
        · omega
        · exact hline
      refine ⟨got, line, false, htook, fun _ => ⟨hline, hmsg, ?_⟩, nofun⟩
      split <;> decide
    · rename_i hfail
      obtain ⟨msg, hstore, h⟩ := bind_eq_ok.mp h
      cases h
      refine ⟨got, line, decide (ret1 ≠ 0), ⟨htook.fetched, htook.bytes, htook.valid, ?_⟩,
        fun hne => absurd rfl hne, fun _ => ⟨rfl, ?_, ?_⟩⟩
      · have hrest := htook.rest
        rw [hrest]
      · rw [← hmsg]
        exact hstore
      · rcases hcase with ⟨hone, hpiece⟩ | ⟨hzero, hpiece⟩ | ⟨hminus, -⟩
        · rw [hone]
          exact hpiece
        · rw [hzero]
          exact hpiece
        · exact absurd hminus hfail

/-- A line read of a context does not leave the memory of its buffer. -/
theorem exists_scFollowContextReadLine (inp : RunInput) (hv : cxt.buffer.Valid) {dsize : Nat}
    (hd : 0 < dsize) :
    ∃ ret line cxt', scFollowContextReadLine inp cxt dsize = .ok (ret, line, cxt') ∧
      line.length ≤ dsize := by
  -- A line read of a valid buffer.
  have hread : ∀ buf : AzBuffer, buf.Valid → ∃ ret line buf',
      azBufferReadLine buf dsize = .ok (ret, line, buf') ∧ line.length ≤ dsize := by
    intro buf hbuf
    rcases azBufferReadLine_cases hbuf hd with ⟨-, heq⟩ | ⟨line, buf', -, -, -, -, hle, hcase⟩
    · exact ⟨_, _, _, heq, Nat.zero_le _⟩
    · rcases hcase with ⟨heq, -⟩ | ⟨heq, -⟩
      · exact ⟨_, _, _, heq, hle⟩
      · exact ⟨_, _, _, heq, hle⟩
  unfold scFollowContextReadLine
  by_cases hempty : azBufferUnreadBytes cxt.buffer = 0
  · rw [if_pos hempty]
    obtain ⟨buf1, hfetch, hv1, -, -⟩ := azBufferFetchFile_eq hv.reset inp.read
      (inp.file.drop cxt.offset) (toSize (azBufferUnusedBytes (azBufferReset cxt.buffer)))
    simp only [hfetch, ok_bind]
    split
    · exact ⟨_, _, _, rfl, Nat.zero_le _⟩
    · obtain ⟨ret, line, buf2, heq, hle⟩ := hread buf1 hv1
      rw [heq, ok_bind]
      exact ⟨_, _, _, rfl, hle⟩
  · rw [if_neg hempty]
    obtain ⟨ret, line, buf1, heq, hle⟩ := hread cxt.buffer hv
    rw [heq, ok_bind]
    exact ⟨_, _, _, rfl, hle⟩

/-- A line of at most 8180 bytes goes into the message buffer. -/
theorem exists_storeLine (inp : RunInput) (complete : Bool) {line : Bytes} {msg : ScLogMessage}
    (hroom : msg.content.size = BUFSIZE) (hle : line.length ≤ BUFSIZE - cb0) :
    ∃ msg', storeLine inp complete line msg = .ok msg' := by
  have htext : cb0 + (if line.length < BUFSIZE - cb0 then line ++ [0] else line).length
      ≤ msg.content.size := by
    rw [hroom]
    unfold BUFSIZE cb0 at *
    split
    · rw [List.length_append, List.length_singleton]
      omega
    · omega
  have hhead : 0 + (dataHead complete inp.time).length ≤ msg.content.size := by
    rw [hroom]
    simp [dataHead, BUFSIZE]
  unfold storeLine
  simp only [Block.store_of_le htext, ok_bind]
  rw [Block.store_of_le (by rw [Block.size_put]; exact hhead)]
  exact ⟨_, rfl⟩

/-- The line read of a run does not leave the memory of the read buffer, nor of the message. -/
theorem exists_fillMessage (inp : RunInput) (hv : cxt.buffer.Valid)
    (hroom : cxt.messageBuffer.content.size = BUFSIZE) :
    ∃ ret cb cxt', fillMessage inp cxt = .ok (ret, cb, cxt') := by
  obtain ⟨ret, line, cxt1, hread, hle⟩ :=
    exists_scFollowContextReadLine inp hv (by decide : 0 < BUFSIZE - cb0)
  have hroom1 : cxt1.messageBuffer.content.size = BUFSIZE := by
    rw [scFollowContextReadLine_messageBuffer hread]
    exact hroom
  unfold fillMessage
  rw [hread]
  simp only [ok_bind]
  split
  · exact ⟨_, _, _, rfl⟩
  · split
    · exact ⟨_, _, _, rfl⟩
    · obtain ⟨msg, hstore⟩ := exists_storeLine inp (decide (ret ≠ 0)) hroom1 hle
      rw [hstore]
      exact ⟨_, _, _, rfl⟩

/-- A line that a run takes is not empty. -/
theorem fillMessage_pos (hv : cxt.buffer.Valid) {cb : Nat}
    (h : fillMessage inp cxt = .ok (none, cb, cxt')) : 0 < cb := by
  unfold fillMessage at h
  obtain ⟨⟨ret1, line, cxt1⟩, hread, h⟩ := bind_eq_ok.mp h
  obtain ⟨-, hcase⟩ := scFollowContextReadLine_took hv (by decide) hread
  simp only at h
  split at h
  · cases h
  · rename_i hsome
    split at h
    · cases h
    · rename_i hfail
      obtain ⟨msg, -, h⟩ := bind_eq_ok.mp h
      cases h
      rcases hcase with ⟨-, hpiece⟩ | ⟨hzero, -⟩ | ⟨hminus, -⟩
      · obtain ⟨init, hline⟩ := hpiece.ends rfl
        rw [hline]
        simp
      · exact Nat.pos_of_ne_zero fun hlen => hsome ⟨hzero, hlen⟩
      · exact absurd hminus hfail

/-- A run that takes no line has found its buffer empty. -/
theorem unread_of_fillMessage_some (hv : cxt.buffer.Valid) {ret : Int} {cb : Nat}
    (h : fillMessage inp cxt = .ok (some ret, cb, cxt')) : cxt.buffer.unread = [] := by
  by_contra hne
  have hcount : azBufferUnreadBytes cxt.buffer ≠ 0 := fun hzero =>
    hne ((unreadBytes_eq_zero_iff hv).mp hzero)
  unfold fillMessage at h
  obtain ⟨⟨ret1, line, cxt1⟩, hread, h⟩ := bind_eq_ok.mp h
  unfold scFollowContextReadLine at hread
  rw [if_neg hcount] at hread
  obtain ⟨⟨ret2, line2, buf⟩, hline, hread⟩ := bind_eq_ok.mp hread
  cases hread
  -- A buffer that is not empty gives a line or a piece of one.
  rcases azBufferReadLine_cases hv (by decide : 0 < BUFSIZE - cb0) with
    ⟨hnil, -⟩ | ⟨l, b, -, -, -, hl, -, hcase⟩
  · exact hne hnil
  · have hpos := List.length_pos_of_ne_nil hl
    rcases hcase with ⟨heq, -⟩ | ⟨heq, -⟩
    · rw [heq] at hline
      cases hline
      simp only at h
      rw [if_neg (by omega), if_neg (by decide)] at h
      obtain ⟨msg, -, h⟩ := bind_eq_ok.mp h
      cases h
    · rw [heq] at hline
      cases hline
      simp only at h
      rw [if_neg (by omega), if_neg (by decide)] at h
      obtain ⟨msg, -, h⟩ := bind_eq_ok.mp h
      cases h

/-- A read finds nothing, neither in its buffer nor in the file. -/
def ReadsNothing (inp : RunInput) (cxt : ScFollowContext) : Prop :=
  cxt.buffer.unread = [] ∧
    (inp.read = .again ∨ inp.read = .error ∨ inp.file.length ≤ cxt.offset)

instance (inp : RunInput) (cxt : ScFollowContext) : Decidable (ReadsNothing inp cxt) :=
  inferInstanceAs (Decidable (_ ∧ _))

/-- A read that finds nothing gives no line. -/
theorem fillMessage_of_nothing {ret : Option Int} {cb : Nat}
    (hv : cxt.buffer.Valid) (hnothing : ReadsNothing inp cxt)
    (h : fillMessage inp cxt = .ok (ret, cb, cxt')) : ret ≠ none := by
  obtain ⟨hempty, hread⟩ := hnothing
  unfold fillMessage at h
  obtain ⟨⟨ret1, line, cxt1⟩, hline, h⟩ := bind_eq_ok.mp h
  unfold scFollowContextReadLine at hline
  rw [if_pos ((unreadBytes_eq_zero_iff hv).mpr hempty)] at hline
  obtain ⟨⟨n, buf⟩, hfetch, hline⟩ := bind_eq_ok.mp hline
  -- The call of `read` returns 0 or -1.
  have hcode : n = 0 ∨ n = -1 := by
    obtain ⟨content, -, hfetch⟩ := bind_eq_ok.mp hfetch
    cases hfetch
    rcases hread with hagain | herror | hend
    · right
      rw [hagain]
      rfl
    · right
      rw [herror]
      rfl
    · have hrest : inp.file.drop cxt.offset = [] := List.drop_eq_nil_of_le hend
      rw [hrest]
      cases inp.read with
      | chunk k =>
        left
        simp [ReadResult.code, ReadResult.bytes]
      | again => exact Or.inr rfl
      | error => exact Or.inr rfl
  simp only at hline
  rw [if_pos (by omega)] at hline
  cases hline
  simp only at h
  rcases hcode with rfl | rfl
  · rw [if_pos ⟨rfl, rfl⟩] at h
    cases h
    exact Option.some_ne_none _
  · rw [if_neg (by decide), if_pos rfl] at h
    cases h
    exact Option.some_ne_none _

/-- A line read of an empty buffer fails when `read` does. -/
theorem scFollowContextReadLine_failed_iff (hv : cxt.buffer.Valid)
    (hempty : cxt.buffer.unread = []) {dsize : Nat} (hd : 0 < dsize) {ret : Int} {line : Bytes}
    (h : scFollowContextReadLine inp cxt dsize = .ok (ret, line, cxt')) :
    ret = -1 ↔ inp.read = .again ∨ inp.read = .error := by
  unfold scFollowContextReadLine at h
  rw [if_pos ((unreadBytes_eq_zero_iff hv).mpr hempty)] at h
  obtain ⟨⟨n, buf⟩, hfetch, h⟩ := bind_eq_ok.mp h
  obtain ⟨buf', hfetch', hv', hunread, -⟩ := azBufferFetchFile_eq hv.reset inp.read
    (inp.file.drop cxt.offset) (toSize (azBufferUnusedBytes (azBufferReset cxt.buffer)))
  rw [hfetch'] at hfetch
  cases hfetch
  cases hread : inp.read with
  | chunk k =>
    rw [hread] at h hunread
    refine ⟨fun hret => ?_, fun hnot => hnot.elim nofun nofun⟩
    simp only at h
    split at h
    · rename_i hle
      cases h
      simp only [ReadResult.code] at hret
      omega
    · rename_i hpos
      obtain ⟨⟨ret1, line1, buf2⟩, hline, h⟩ := bind_eq_ok.mp h
      cases h
      -- Something was fetched.
      have hne : buf.unread ≠ [] := by
        intro hnil
        rw [unread_azBufferReset, List.nil_append] at hunread
        rw [hunread] at hnil
        refine hpos ?_
        simp only [ReadResult.code, hnil]
        exact Int.le_refl 0
      obtain ⟨-, -, hcase⟩ := azBufferReadLine_took hv' hne hd hline
      rcases hcase with ⟨hone, -⟩ | ⟨hzero, -⟩
      · omega
      · omega
  | again =>
    rw [hread] at h
    cases h
    exact ⟨fun _ => Or.inl rfl, fun _ => rfl⟩
  | error =>
    rw [hread] at h
    cases h
    exact ⟨fun _ => Or.inr rfl, fun _ => rfl⟩

/-- A run fails with -1 when its buffer is empty and `read` fails with another error than
`EAGAIN`. -/
theorem fillMessage_failed_iff (hv : cxt.buffer.Valid) {ret : Option Int} {cb : Nat}
    (h : fillMessage inp cxt = .ok (ret, cb, cxt')) :
    ret = some (-1) ↔ cxt.buffer.unread = [] ∧ inp.read = .error := by
  have hwhole := h
  unfold fillMessage at h
  obtain ⟨⟨ret1, line, cxt1⟩, hread, h⟩ := bind_eq_ok.mp h
  simp only at h
  constructor
  · intro hret
    rw [hret] at hwhole h
    -- Bytes in the buffer give a line without asking the file.
    have hempty := unread_of_fillMessage_some hv hwhole
    refine ⟨hempty, ?_⟩
    split at h
    · cases h
    · split at h
      · rename_i hminus
        have hcase := (scFollowContextReadLine_failed_iff hv hempty (by decide) hread).mp hminus
        rcases hcase with hagain | herror
        · rw [if_pos hagain] at h
          cases h
        · exact herror
      · obtain ⟨msg, -, h⟩ := bind_eq_ok.mp h
        cases h
  · rintro ⟨hempty, herror⟩
    have hminus : ret1 = -1 :=
      (scFollowContextReadLine_failed_iff hv hempty (by decide) hread).mpr (Or.inr herror)
    rw [if_neg (by omega), if_pos hminus, if_neg (by rw [herror]; decide)] at h
    cases h
    rfl

end

end Compostela.Follower
