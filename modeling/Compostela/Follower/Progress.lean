import Compostela.Follower.Client

/-!
# `Compostela.Follower.Progress`: a run that sends nothing has nothing to send

The read buffer of a context has room for every `read`, and its descriptor is -1 or a positive
number. `Readable` says this, and every run keeps it. Under it a run without a line has found
the end of the file: `fillMessage_ended` is the case of a `read` that does not fail.

`open` returns 0 only in a process without a standard input, so descriptors of this kind are
left out. A context with the descriptor 0 opens its file in every run and never reads it.
-/

set_option autoImplicit false

namespace Compostela.Follower

open Compostela.Common
open Compostela.Common.AzBuffer
open Compostela.Memory

/-- A descriptor of a context, or what `open` returns. -/
def IsDescriptor (fd : Int) : Prop := fd = -1 ∨ 0 < fd

instance (fd : Int) : Decidable (IsDescriptor fd) := inferInstanceAs (Decidable (_ ∨ _))

/-- A context that can read its file once it is open. -/
structure Readable (cxt : ScFollowContext) : Prop where
  fd : IsDescriptor cxt.fd
  room : 0 < cxt.buffer.size

/-- A new context can read once its file is open. -/
theorem readable_new (heap : Heap) (fname : Option Bytes) (name : Bytes) (ftimestamp : Bool) :
    Readable (scFollowContextNew heap fname name ftimestamp BUFSIZE) where
  fd := Or.inl rfl
  room := by
    show 0 < BUFSIZE
    decide

/-- A reset closes the file and keeps the room of the buffer. -/
theorem Readable.reset {cxt : ScFollowContext} (h : Readable cxt) :
    Readable (scFollowContextReset cxt) where
  fd := Or.inl rfl
  room := h.room

section
variable {σ : Type} {net : Net σ} {md5 : Md5} {inp : RunInput} {heap : Heap}
  {cxt cxt' : ScFollowContext} {conn conn' : ScAggregatorConnection σ}

/-! ### The size of the read buffer -/

/-- Reading a line does not change the size of a buffer. -/
theorem azBufferReadLine_size {buf buf' : AzBuffer} (hv : buf.Valid) {dsize : Nat}
    (hd : 0 < dsize) {ret : Int} {line : Bytes}
    (h : azBufferReadLine buf dsize = .ok (ret, line, buf')) : buf'.size = buf.size := by
  rcases azBufferReadLine_cases hv hd with
    ⟨-, heq⟩ | ⟨l, b, -, -, hsize, -, -, ⟨heq, -⟩ | ⟨heq, -⟩⟩
  · rw [heq] at h
    cases h
    rfl
  · rw [heq] at h
    cases h
    exact hsize
  · rw [heq] at h
    cases h
    exact hsize

/-- Reading from the file does not change the size of a buffer. -/
theorem azBufferFetchFile_size {buf buf' : AzBuffer} {r : ReadResult} {rest : Bytes} {size : Nat}
    {n : Int} (h : azBufferFetchFile buf r rest size = .ok (n, buf')) : buf'.size = buf.size := by
  unfold azBufferFetchFile at h
  obtain ⟨content, -, h⟩ := bind_eq_ok.mp h
  cases h
  rfl

/-- `_sc_follow_context_read_line` does not change the size of the read buffer. -/
theorem scFollowContextReadLine_size (hv : cxt.buffer.Valid) {dsize : Nat} (hd : 0 < dsize)
    {ret : Int} {line : Bytes} (h : scFollowContextReadLine inp cxt dsize = .ok (ret, line, cxt')) :
    cxt'.buffer.size = cxt.buffer.size := by
  unfold scFollowContextReadLine at h
  split at h
  · simp only at h
    obtain ⟨⟨n, buffer⟩, hfetch, h⟩ := bind_eq_ok.mp h
    have hsize : buffer.size = (azBufferReset cxt.buffer).size := azBufferFetchFile_size hfetch
    simp only at h
    split at h
    · cases h
      exact hsize
    · obtain ⟨⟨ret1, line1, buffer1⟩, hline, h⟩ := bind_eq_ok.mp h
      cases h
      -- The buffer of the line read is the one that was filled.
      obtain ⟨buf', hfetch', hvalid', -⟩ := azBufferFetchFile_eq hv.reset inp.read
        (inp.file.drop cxt.offset) (toSize (azBufferUnusedBytes (azBufferReset cxt.buffer)))
      rw [hfetch'] at hfetch
      cases hfetch
      exact (azBufferReadLine_size hvalid' hd hline).trans hsize
  · obtain ⟨⟨ret1, line1, buffer1⟩, hline, h⟩ := bind_eq_ok.mp h
    cases h
    exact azBufferReadLine_size hv hd hline

/-- Filling the message does not change the size of the read buffer. -/
theorem fillMessage_size (hv : cxt.buffer.Valid) {ret : Option Int} {cb : Nat}
    (h : fillMessage inp cxt = .ok (ret, cb, cxt')) : cxt'.buffer.size = cxt.buffer.size := by
  unfold fillMessage at h
  obtain ⟨⟨ret1, line, cxt1⟩, hread, h⟩ := bind_eq_ok.mp h
  have hsize := scFollowContextReadLine_size hv (by decide) hread
  simp only at h
  split at h
  · cases h
    exact hsize
  · split at h
    · cases h
      exact hsize
    · obtain ⟨msg, -, h⟩ := bind_eq_ok.mp h
      cases h
      exact hsize

/-! ### Every run keeps a context readable -/

/-- `_init_file` leaves a context that can read. -/
theorem Readable.initFile {ret : Int} (hcxt : Readable cxt)
    (h : initFile net md5 inp heap cxt conn = .ok (ret, cxt', conn')) : Readable cxt' := by
  rcases initFile_cxt h with rfl | ⟨ch, pos, rfl⟩
  · exact hcxt
  · constructor
    · rw [lseek_fd]
      exact hcxt.fd
    · rw [lseek_buffer]
      exact hcxt.room

/-- Opening the file leaves a context that can read, when `open` gives a proper descriptor. -/
theorem Readable.ensureOpen {ret : Option Int} (hcxt : Readable cxt)
    (hopened : IsDescriptor inp.opened.fd)
    (h : ensureOpen net md5 inp cxt conn = .ok (ret, cxt', conn')) : Readable cxt' := by
  rcases ensureOpen_cases h with
    ⟨-, -, rfl, -⟩ | ⟨-, -, -, rfl, -⟩ | ⟨-, -, -, rfl, -⟩ | ⟨-, -, -, ret1, hinit⟩
  · exact hcxt
  · exact hcxt
  · exact ⟨hopened, hcxt.room⟩
  · have h1 : Readable
        { cxt with fd := inp.opened.fd, mode := inp.opened.mode, offset := 0 } :=
      ⟨hopened, hcxt.room⟩
    exact h1.initFile hinit

/-- Filling the message leaves a context that can read. -/
theorem Readable.fillMessage {ret : Option Int} {cb : Nat} (hcxt : Readable cxt)
    (hv : cxt.buffer.Valid) (h : fillMessage inp cxt = .ok (ret, cb, cxt')) : Readable cxt' := by
  obtain ⟨got, line, complete, htook, -, -⟩ := fillMessage_took hv h
  constructor
  · rw [htook.rest]
    exact hcxt.fd
  · rw [fillMessage_size hv h]
    exact hcxt.room

/-- Sending a line leaves a context that can read, also when the connection breaks. -/
theorem Readable.exchangeData {ret : Int} (hcxt : Readable cxt)
    (h : exchangeData net inp cxt conn = .ok (ret, cxt', conn')) : Readable cxt' := by
  obtain ⟨msg, hsame, -⟩ := exchangeData_cxt h
  rw [hsame]
  exact ⟨hcxt.fd, hcxt.room⟩

/-- The part of a run before the DATA exchange leaves a context that can read. -/
theorem Readable.prepareData {ret : Option Int} (hcxt : Readable cxt) (hv : cxt.buffer.Valid)
    (hopened : IsDescriptor inp.opened.fd)
    (h : prepareData net md5 inp cxt conn = .ok (ret, cxt', conn')) : Readable cxt' := by
  rcases prepareData_cases h with ⟨r, -, hopen⟩ | ⟨cxt1, conn1, hopen, hcase⟩
  · exact hcxt.ensureOpen hopened hopen
  · have h1 := hcxt.ensureOpen hopened hopen
    have hv1 := (ensureOpen_continues hv hopen).valid
    rcases hcase with ⟨r, cb, -, hfill, -⟩ | ⟨cb, cxt2, cxt3, -, hfill, hchan, rfl⟩
    · exact h1.fillMessage hv1 hfill
    · have h2 := h1.fillMessage hv1 hfill
      rcases ensureChannel_cases hchan with ⟨-, rfl, -⟩ | ⟨-, ret1, hinit⟩
      · exact ⟨h2.fd, h2.room⟩
      · have h3 := h2.initFile hinit
        exact ⟨h3.fd, h3.room⟩

/-- A run leaves a context that can read. -/
theorem Readable.run {ret : Int} (hcxt : Readable cxt) (hv : cxt.buffer.Valid)
    (hopened : IsDescriptor inp.opened.fd)
    (h : runFollowContext net md5 inp cxt conn = .ok (ret, cxt', conn')) : Readable cxt' := by
  rcases runFollowContext_cases h with
    ⟨-, -, rfl, -⟩ | ⟨-, -, hprep | ⟨cxt1, conn1, hprep, hex⟩⟩ | ⟨-, -, hex⟩
  · exact hcxt
  · exact hcxt.prepareData hv hopened hprep
  · exact (hcxt.prepareData hv hopened hprep).exchangeData hex
  · exact hcxt.exchangeData hex

/-! ### A run without a line -/

/-- A line read of an empty buffer that gives nothing took nothing from the file. When `read`
does not fail, the file ends at the offset. -/
theorem scFollowContextReadLine_ended (hv : cxt.buffer.Valid) (hroom : 0 < cxt.buffer.size)
    (hempty : cxt.buffer.unread = []) {dsize : Nat} (hd : 0 < dsize) {ret : Int} {line : Bytes}
    (h : scFollowContextReadLine inp cxt dsize = .ok (ret, line, cxt'))
    (hnone : ret = -1 ∨ ret = 0 ∧ line = []) :
    cxt'.buffer.unread = [] ∧ cxt'.offset = cxt.offset ∧
      ∀ k, inp.read = .chunk k → inp.file.length ≤ cxt.offset := by
  have hreset := hv.reset
  have hunused : toSize (azBufferUnusedBytes (azBufferReset cxt.buffer)) = cxt.buffer.size := by
    rw [hreset.toSize_unused]
    rfl
  have hsize : (azBufferReset cxt.buffer).size = cxt.buffer.size := rfl
  obtain ⟨buf, hfetch, hvalid, hunread, hused⟩ :=
    azBufferFetchFile_ok hreset rfl inp.read (inp.file.drop cxt.offset)
  rw [unread_azBufferReset, List.nil_append] at hunread
  rw [hsize] at hfetch hunread hused
  unfold scFollowContextReadLine at h
  rw [if_pos ((unreadBytes_eq_zero_iff hv).mpr hempty)] at h
  simp only [hunused, hfetch, ok_bind] at h
  split at h
  · rename_i hle
    cases h
    -- Nothing arrived, whatever the result of `read` was.
    have hbytes : inp.read.bytes (inp.file.drop cxt.offset) cxt.buffer.size = [] := by
      cases hread : inp.read with
      | chunk k =>
        rw [hread] at hle
        simp only [ReadResult.code] at hle
        exact List.eq_nil_of_length_eq_zero (by omega)
      | again => rfl
      | error => rfl
    refine ⟨?_, ?_, ?_⟩
    · show buf.unread = []
      rw [hunread, hbytes]
    · show cxt.offset + buf.used = cxt.offset
      simp [hused, hbytes]
    · intro k hread
      have hlen := congrArg List.length hbytes
      simp only [hread, ReadResult.bytes, List.length_take, List.length_drop,
        List.length_nil] at hlen
      omega
  · -- Something arrived, and a line read of it gives something.
    rename_i hpos
    obtain ⟨⟨ret1, line1, buf1⟩, hline, h⟩ := bind_eq_ok.mp h
    cases h
    rcases azBufferReadLine_cases hvalid hd with
      ⟨hnil, -⟩ | ⟨l, b, -, -, -, hne, -, ⟨heq, -⟩ | ⟨heq, -⟩⟩
    · exfalso
      apply hpos
      rw [hunread] at hnil
      cases hread : inp.read with
      | chunk k =>
        rw [hread] at hnil
        simp [ReadResult.code, hnil]
      | again => simp [ReadResult.code]
      | error => simp [ReadResult.code]
    · rw [heq] at hline
      cases hline
      simp at hnone
    · rw [heq] at hline
      cases hline
      simp [hne] at hnone

/-- A run that takes no line changes neither the buffer nor the offset of its context. When
`read` does not fail, the file ends at the offset. -/
theorem fillMessage_ended (hv : cxt.buffer.Valid) (hroom : 0 < cxt.buffer.size) {ret : Int}
    {cb : Nat} (h : fillMessage inp cxt = .ok (some ret, cb, cxt')) :
    cxt.buffer.unread = [] ∧ cxt'.buffer.unread = [] ∧ cxt'.offset = cxt.offset ∧
      ∀ k, inp.read = .chunk k → inp.file.length ≤ cxt.offset := by
  have hempty := unread_of_fillMessage_some hv h
  refine ⟨hempty, ?_⟩
  unfold fillMessage at h
  obtain ⟨⟨ret1, line, cxt1⟩, hread, h⟩ := bind_eq_ok.mp h
  simp only at h
  split at h
  · rename_i hnone
    cases h
    exact scFollowContextReadLine_ended hv hroom hempty (by decide) hread
      (Or.inr ⟨hnone.1, List.eq_nil_of_length_eq_zero hnone.2⟩)
  · split at h
    · rename_i hminus
      cases h
      exact scFollowContextReadLine_ended hv hroom hempty (by decide) hread (Or.inl hminus)
    · obtain ⟨msg, -, h⟩ := bind_eq_ok.mp h
      cases h

end

end Compostela.Follower
