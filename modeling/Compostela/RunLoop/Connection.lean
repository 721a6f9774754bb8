import Compostela.Common.PushBack
import Compostela.Common.Supports
import Compostela.Lib.Lines

/-!
# `Compostela.RunLoop.Connection`: the connections of the run loop

`__run_loop_wait` of `common/runloop.c` calls the receive function of a connection when there is
something to read, and closes the connection when the result is negative. The receive function is
`__do_receive` of `common/runloop_test.c`. Connections share nothing, so the model is about one.

`__do_receive` looks for lines in the buffer and fetches more when it finds none. What it has then
copied out is not in the buffer any more. It is put back only when there is nothing to read.
The buffer is never reset, and a fetch into a full buffer asks `read` for no bytes.

* `receiveLoop_lines`: the complete lines in the buffer are passed on.
* `receiveLoop_last`, `receiveLoop_again`, `receiveLoop_data`: what happens behind them.
-/

set_option autoImplicit false

namespace Compostela.RunLoop

open Compostela.Common
open Compostela.Lines
open Compostela.Memory
open Compostela.Segments

/-- The size of a connection's buffer, of `buf` in `__do_receive`, and of a fetch. -/
def BUFFER_SIZE : Nat := 1024

/-- `struct __connection`, with the reading side of its socket, the lines that were passed to
`__do_receive_1`, and whether it is open. -/
structure Connection where
  buffer : AzBuffer
  incoming : Incoming
  lines : List Bytes
  isOpen : Bool

/-- `__connection_new`, for a socket that was accepted. -/
def Connection.new (heap : Heap) (incoming : Incoming) : Connection :=
  ⟨azBufferNew heap BUFFER_SIZE, incoming, [], true⟩

/-- `read` of at most `n` bytes from a socket that does not block: its value, whether `errno` is
`EAGAIN`, the bytes, and what is still to arrive. A `read` of no bytes returns zero. -/
def readSocket (s : Incoming) (n : Nat) : Int × Bool × Bytes × Incoming :=
  if n = 0 then (0, false, [], s)
  else
    match s.arrivals with
    | [] => (if s.ending = .eof then 0 else -1, false, [], s)
    | .again :: as => (-1, true, [], { s with arrivals := as })
    | .data b bs :: as =>
        (((b :: bs).take n).length, false, (b :: bs).take n,
          { s with arrivals := arrivalsOf ((b :: bs).drop n) ++ as })

/-- `az_buffer_fetch_file` from a socket. -/
def azBufferFetchSocket (buf : AzBuffer) (s : Incoming) (size : Nat) :
    Except Trap (Int × Bool × AzBuffer × Incoming) := do
  let unused := min (toSize (azBufferUnusedBytes buf)) size
  let (n, again, bs, s) := readSocket s unused
  let buffer ← buf.buffer.store buf.used bs
  .ok (n, again, { buf with buffer := buffer, used := buf.used + bs.length }, s)

/-- The terminator behind the line, and `__do_receive_1`, which gets it as a string. -/
def doReceive1 (line : Bytes) (conn : Connection) : Except Trap Connection :=
  if BUFFER_SIZE ≤ line.length then .error .oobWrite
  else .ok { conn with lines := conn.lines ++ [cstr line] }

/-- The two loops of `__do_receive`, from the inner one on. The outer one goes on behind a line as
long as `n` is positive. -/
def receiveLoop (heap : Heap) : Nat → Int → Connection → Except Trap (Int × Connection)
  | 0, _, _ => .error .hangs
  | fuel + 1, n, conn => do
      let (ret, line, buffer) ← azBufferReadLine conn.buffer BUFFER_SIZE
      let conn := { conn with buffer := buffer }
      if ret = 1 then do
        -- The inner loop has ended, and the outer one asks for the `n` of the last fetch.
        let conn ← doReceive1 line conn
        if 0 < n then receiveLoop heap fuel n conn else .ok (-1, conn)
      else do
        let (n, again, buffer, incoming) ←
          azBufferFetchSocket conn.buffer conn.incoming BUFFER_SIZE
        let conn := { conn with buffer := buffer, incoming := incoming }
        if n = -1 then
          if again then do
            -- What was read is only in `buf` now, and goes back for the next call.
            let (_, buffer) ← azBufferPushBack .checked heap conn.buffer line
            .ok (0, { conn with buffer := buffer })
          else do
            let conn ← doReceive1 line conn
            .ok (-1, conn)
        else if n = 0 then do
          -- The end of the stream, or no room for a byte.
          let conn ← doReceive1 line conn
          .ok (-1, conn)
        -- The next line read writes over `buf`.
        else receiveLoop heap fuel n conn

/-- The turns that the loops can take: each takes a line out of the buffer, or an arrival. -/
def Connection.turns (conn : Connection) : Nat :=
  conn.buffer.unread.length + conn.incoming.bytes.length + conn.incoming.arrivals.length + 1

/-- `__do_receive`. -/
def doReceive (heap : Heap) (conn : Connection) : Except Trap (Int × Connection) :=
  receiveLoop heap conn.turns 1 conn

/-- What `__run_loop_wait` does with a connection that there is an event for. -/
def runLoopWait (heap : Heap) (conn : Connection) : Except Trap Connection := do
  let (ret, conn) ← doReceive heap conn
  if ret < 0 then .ok { conn with isOpen := false } else .ok conn

/-- The calls of `__run_loop_wait` for a connection, until it is closed. -/
def serveConnection (heap : Heap) : Nat → Connection → Except Trap Connection
  | 0, _ => .error .hangs
  | fuel + 1, conn => do
      let conn ← runLoopWait heap conn
      if conn.isOpen then serveConnection heap fuel conn else .ok conn

/-- The life of an accepted connection. Each call of the receive function takes an arrival that is
`EAGAIN`, or is the last one. -/
def serve (heap : Heap) (incoming : Incoming) : Except Trap Connection :=
  serveConnection heap (incoming.arrivals.length + 1) (Connection.new heap incoming)

/-! ### The buffer -/

/-- The connection is open, has fetched `t` bytes so far and not passed on the bytes `w`. -/
structure Connection.Holds (conn : Connection) (t : Nat) (w : Bytes) : Prop where
  isOpen : conn.isOpen = true
  valid : conn.buffer.Valid
  size : conn.buffer.size = BUFFER_SIZE
  used : conn.buffer.used = t
  unread : conn.buffer.unread = w

/-- A new connection has fetched nothing. -/
theorem holds_new (heap : Heap) (incoming : Incoming) :
    (Connection.new heap incoming).Holds 0 [] where
  isOpen := rfl
  valid := AzBuffer.valid_azBufferNew heap (by decide)
  size := rfl
  used := rfl
  unread := rfl

/-- A connection never holds more than its buffer has room for. -/
theorem Connection.Holds.le {conn : Connection} {t : Nat} {w : Bytes} (h : conn.Holds t w) :
    t ≤ BUFFER_SIZE ∧ w.length ≤ t := by
  have hused := h.valid.used_le
  have hlen := AzBuffer.length_unread conn.buffer
  rw [h.size, h.used] at hused
  rw [h.unread, h.used] at hlen
  exact ⟨hused, by omega⟩

/-- A line that is in front of the unread bytes. -/
theorem firstLine_of_isLine {line rest : Bytes} {n : Nat} (h : IsLine LF line)
    (hle : line.length ≤ n) : firstLine (line ++ rest) n = some line := by
  obtain ⟨init, rfl, hinit⟩ := h
  have hwhile : (init ++ [LF] ++ rest).takeWhile (· ≠ LF) = init := by
    rw [List.append_assoc]
    exact takeWhile_ne_LF rest hinit
  rw [List.length_append, List.length_singleton] at hle
  rw [firstLine, hwhile, if_pos ⟨by simp, by omega⟩]

section
variable {conn : Connection} {t : Nat} {w : Bytes}

/-- A line read takes a line. -/
theorem readLine_line {line rest : Bytes} (h : conn.Holds t (line ++ rest))
    (hline : IsLine LF line) :
    ∃ buffer, azBufferReadLine conn.buffer BUFFER_SIZE = .ok (1, line, buffer) ∧
      { conn with buffer := buffer }.Holds t rest := by
  obtain ⟨hmax, hlen⟩ := h.le
  rw [List.length_append] at hlen
  have hne : conn.buffer.unread ≠ [] := by
    obtain ⟨init, rfl, -⟩ := hline
    rw [h.unread]
    simp
  obtain ⟨buffer, hread, hvalid, hrest, hsize, hused⟩ :=
    AzBuffer.azBufferReadLine_eq h.valid hne BUFFER_SIZE
  have hresult : lineResult conn.buffer.unread BUFFER_SIZE = (1, line) := by
    rw [lineResult, h.unread, firstLine_of_isLine hline (by omega)]
  rw [hresult] at hread hrest
  refine ⟨buffer, hread, h.isOpen, hvalid, hsize.trans h.size, hused.trans h.used, ?_⟩
  rw [hrest, h.unread, List.drop_left]

/-- Without a line it takes everything. -/
theorem readLine_part (h : conn.Holds t w) (hLF : LF ∉ w) :
    ∃ ret buffer, ret ≠ 1 ∧ azBufferReadLine conn.buffer BUFFER_SIZE = .ok (ret, w, buffer) ∧
      { conn with buffer := buffer }.Holds t [] := by
  obtain ⟨hmax, hlen⟩ := h.le
  by_cases hempty : w = []
  · refine ⟨-1, conn.buffer, by decide, ?_, h.isOpen, h.valid, h.size, h.used, ?_⟩
    · rw [azBufferReadLine]
      simp only [h.valid.toSize_unread, h.unread, hempty, List.length_nil, if_true]
    · rw [h.unread, hempty]
  · obtain ⟨buffer, hread, hvalid, hrest, hsize, hused⟩ :=
      AzBuffer.azBufferReadLine_eq h.valid (by rwa [h.unread]) BUFFER_SIZE
    have htake : w.take BUFFER_SIZE = w := List.take_of_length_le (by omega)
    have hresult : lineResult conn.buffer.unread BUFFER_SIZE = (0, w) := by
      rw [lineResult, h.unread, firstLine_eq_none_iff.mpr (by rwa [htake]), htake]
    rw [hresult] at hread hrest
    refine ⟨0, buffer, by decide, hread, h.isOpen, hvalid, hsize.trans h.size,
      hused.trans h.used, ?_⟩
    rw [hrest, h.unread, List.drop_length]

/-- A fetch, with everything that was there read before. -/
theorem fetchSocket_eq (h : conn.Holds t []) (s : Incoming) :
    ∃ buffer, azBufferFetchSocket conn.buffer s BUFFER_SIZE =
        .ok ((readSocket s (BUFFER_SIZE - t)).1, (readSocket s (BUFFER_SIZE - t)).2.1, buffer,
          (readSocket s (BUFFER_SIZE - t)).2.2.2) ∧
      { conn with buffer := buffer }.Holds
        (t + (readSocket s (BUFFER_SIZE - t)).2.2.1.length)
        (readSocket s (BUFFER_SIZE - t)).2.2.1 := by
  obtain ⟨hmax, -⟩ := h.le
  have hunused : min (toSize (azBufferUnusedBytes conn.buffer)) BUFFER_SIZE = BUFFER_SIZE - t := by
    rw [h.valid.toSize_unused, h.size, h.used]
    omega
  -- A `read` gives at most the bytes that it was asked for.
  have hbytes : (readSocket s (BUFFER_SIZE - t)).2.2.1.length ≤ BUFFER_SIZE - t := by
    unfold readSocket
    split
    · exact Nat.zero_le _
    split
    · exact Nat.zero_le _
    · exact Nat.zero_le _
    · exact List.length_take_le _ _
  generalize hread : readSocket s (BUFFER_SIZE - t) = r at hbytes ⊢
  have hstore : conn.buffer.buffer.store conn.buffer.used r.2.2.1 =
      .ok (conn.buffer.buffer.put conn.buffer.used r.2.2.1) := by
    apply Block.store_of_le
    rw [h.valid.size_eq, h.size, h.used]
    omega
  refine ⟨{ conn.buffer with
    buffer := conn.buffer.buffer.put conn.buffer.used r.2.2.1
    used := conn.buffer.used + r.2.2.1.length }, ?_, ?_⟩
  · rw [azBufferFetchSocket, hunused, hread]
    simp only [hstore, ok_bind]
  · refine ⟨h.isOpen, ⟨h.valid.size_eq, Nat.le_add_right_of_le h.valid.cursor_le, ?_,
      h.valid.size_le⟩, h.size, congrArg (· + _) h.used, ?_⟩
    · show conn.buffer.used + _ ≤ conn.buffer.size
      rw [h.used, h.size]
      omega
    · exact (h.valid.unread_append _).trans (by rw [h.unread, List.nil_append])

/-- A part of a line goes back in front of the cursor, when the move stays inside the block. -/
theorem pushBack_part (heap : Heap) (h : conn.Holds t []) (hle : w.length ≤ t) :
    (w = [] ∨ 2 * t ≤ BUFFER_SIZE →
      ∃ buffer, azBufferPushBack .checked heap conn.buffer w = .ok (0, buffer) ∧
        { conn with buffer := buffer }.Holds t w) ∧
    (¬ (w = [] ∨ 2 * t ≤ BUFFER_SIZE) →
      ∃ e, azBufferPushBack .checked heap conn.buffer w = .error e) := by
  obtain ⟨hmax, -⟩ := h.le
  -- Everything was read, so the cursor is at the end of the used part.
  have hcursor : conn.buffer.cursor = t := by
    have hlen := AzBuffer.length_unread conn.buffer
    have hcur := h.valid.cursor_le
    rw [h.unread, h.used, List.length_nil] at hlen
    rw [h.used] at hcur
    omega
  have hroom : AzBuffer.RoomFor heap conn.buffer w := by
    intro hgrow
    rw [h.size, h.unread, List.length_nil] at hgrow
    omega
  obtain ⟨hgranted, -⟩ := hroom.granted h.valid
  have hsize : AzBuffer.roomSize conn.buffer w = BUFFER_SIZE := by
    have hstays : ¬ AzBuffer.Grows conn.buffer w := by
      rw [AzBuffer.Grows, h.size, h.unread, List.length_nil]
      exact Nat.not_lt_of_le (Nat.le_trans (Nat.mod_le _ _) (by omega))
    rw [AzBuffer.roomSize, if_neg hstays, h.size]
  have hfits : AzBuffer.MoveFits conn.buffer w ↔ w = [] ∨ 2 * t ≤ BUFFER_SIZE := by
    rw [AzBuffer.MoveFits, hcursor, h.used, hsize, Nat.max_eq_left hle, Nat.two_mul]
  obtain ⟨hchecked, htrap⟩ := AzBuffer.azBufferPushBack_checked h.valid hgranted
  rw [hfits] at hchecked htrap
  refine ⟨fun hok => ?_, htrap⟩
  obtain ⟨buffer, hpush, -, hvalid, hunread⟩ := hchecked hok
  refine ⟨buffer, hpush, ?_⟩
  by_cases hempty : w = []
  · subst hempty
    cases hpush
    exact h
  · obtain ⟨hsize', hused⟩ := AzBuffer.used_of_azBufferPushBack h.valid hempty hgranted hpush
    refine ⟨h.isOpen, hvalid, hsize'.trans hsize, ?_, ?_⟩
    · show buffer.used = t
      rw [hused, h.unread, hcursor, List.length_nil]
      omega
    · show buffer.unread = w
      rw [hunread, h.unread, List.append_nil]

end

/-! ### Turns of the loops -/

section
variable (heap : Heap) {conn : Connection} {t : Nat} {w : Bytes}

/-- The complete lines in the buffer are passed on, one in a turn. -/
theorem receiveLoop_lines {ls : List Bytes} (h : conn.Holds t (ls.flatten ++ w))
    (hls : ∀ l ∈ ls, IsLine LF l) (fuel : Nat) {n : Int} (hn : 0 < n) :
    ∃ conn', conn'.Holds t w ∧ conn'.incoming = conn.incoming ∧
      conn'.lines = conn.lines ++ ls.map cstr ∧
      receiveLoop heap (fuel + ls.length) n conn =
        if ls.all (·.length < BUFFER_SIZE) then receiveLoop heap fuel n conn'
        else .error .oobWrite := by
  induction ls generalizing conn with
  | nil => exact ⟨conn, h, rfl, (List.append_nil _).symm, rfl⟩
  | cons l ls ih =>
    rw [List.flatten_cons, List.append_assoc] at h
    obtain ⟨buffer, hread, hholds⟩ := readLine_line h (hls l List.mem_cons_self)
    have hpassed : { conn with buffer := buffer, lines := conn.lines ++ [cstr l] }.Holds t
        (ls.flatten ++ w) :=
      ⟨hholds.isOpen, hholds.valid, hholds.size, hholds.used, hholds.unread⟩
    obtain ⟨conn', hholds', hincoming, hlines, hrun⟩ :=
      ih hpassed fun l' hl' => hls l' (List.mem_cons_of_mem l hl')
    refine ⟨conn', hholds', hincoming, ?_, ?_⟩
    · rw [hlines, List.map_cons, List.append_assoc]
      rfl
    · rw [List.length_cons, ← Nat.add_assoc, receiveLoop, hread]
      simp only [ok_bind, if_true, doReceive1]
      -- A line that fills `buf` leaves no room for the terminator.
      by_cases hlong : BUFFER_SIZE ≤ l.length
      · have hall : (l :: ls).all (·.length < BUFFER_SIZE) = false := by
          rw [List.all_cons, decide_eq_false (Nat.not_lt_of_le hlong), Bool.false_and]
        rw [if_pos hlong, hall]
        rfl
      · have hall : (l :: ls).all (·.length < BUFFER_SIZE) =
            ls.all (·.length < BUFFER_SIZE) := by
          rw [List.all_cons, decide_eq_true (Nat.lt_of_not_le hlong), Bool.true_and]
        rw [if_neg hlong, ok_bind, if_pos hn, hall]
        exact hrun

/-- A turn without a line is a fetch. -/
theorem receiveLoop_part (h : conn.Holds t w) (hLF : LF ∉ w)
    {got : Int × Bool × Bytes × Incoming}
    (hgot : readSocket conn.incoming (BUFFER_SIZE - t) = got) :
    ∃ conn' : Connection, conn'.Holds (t + got.2.2.1.length) got.2.2.1 ∧
      conn'.incoming = got.2.2.2 ∧ conn'.lines = conn.lines ∧
      ∀ fuel n, receiveLoop heap (fuel + 1) n conn =
        if got.1 = -1 then
          if got.2.1 then do
            let (_, buffer) ← azBufferPushBack .checked heap conn'.buffer w
            .ok (0, { conn' with buffer := buffer })
          else do
            let conn ← doReceive1 w conn'
            .ok (-1, conn)
        else if got.1 = 0 then do
          let conn ← doReceive1 w conn'
          .ok (-1, conn)
        else receiveLoop heap fuel got.1 conn' := by
  -- No newline is among the bytes, so the loop goes on to `read`.
  obtain ⟨ret, buffer, hret, hread, hholds⟩ := readLine_part h hLF
  obtain ⟨buffer', hfetch, hfetched⟩ := fetchSocket_eq hholds conn.incoming
  rw [hgot] at hfetch hfetched
  refine ⟨{ conn with buffer := buffer', incoming := got.2.2.2 }, ?_, rfl, rfl, ?_⟩
  · exact ⟨hfetched.isOpen, hfetched.valid, hfetched.size, hfetched.used, hfetched.unread⟩
  · intro fuel n
    rw [receiveLoop, hread]
    simp only [ok_bind, if_neg hret]
    rw [hfetch]
    rfl

/-- At the end of the stream, or with a full buffer, what is there is passed on, and the result is
negative. -/
theorem receiveLoop_last (h : conn.Holds t w) (hLF : LF ∉ w)
    (hlast : conn.incoming.arrivals = [] ∨ t = BUFFER_SIZE) (fuel : Nat) (n : Int) :
    ∃ conn' : Connection, conn'.incoming = conn.incoming ∧
      conn'.lines = conn.lines ++ [cstr w] ∧
      receiveLoop heap (fuel + 1) n conn =
        if w.length < BUFFER_SIZE then .ok (-1, conn') else .error .oobWrite := by
  have hgot : ∃ ret, (ret = 0 ∨ ret = -1) ∧
      readSocket conn.incoming (BUFFER_SIZE - t) = (ret, false, [], conn.incoming) := by
    by_cases hfull : BUFFER_SIZE - t = 0
    · -- A `read` of no bytes.
      exact ⟨0, Or.inl rfl, by rw [readSocket, if_pos hfull]⟩
    · obtain hnone : conn.incoming.arrivals = [] := hlast.resolve_right (by omega)
      rw [readSocket, if_neg hfull, hnone]
      refine ⟨_, ?_, rfl⟩
      split
      · exact Or.inl rfl
      · exact Or.inr rfl
  obtain ⟨ret, hret, hgot⟩ := hgot
  obtain ⟨conn', -, hincoming, hlines, hturn⟩ := receiveLoop_part heap h hLF hgot
  refine ⟨{ conn' with lines := conn'.lines ++ [cstr w] }, hincoming,
    congrArg (· ++ _) hlines, ?_⟩
  -- What is left is passed on as a line of its own, and the result closes the connection.
  have hpass : (do
      let conn ← doReceive1 w conn'
      .ok ((-1 : Int), conn)) =
        if w.length < BUFFER_SIZE then .ok (-1, { conn' with lines := conn'.lines ++ [cstr w] })
        else .error .oobWrite := by
    unfold doReceive1
    by_cases hlong : BUFFER_SIZE ≤ w.length
    · rw [if_pos hlong, if_neg (Nat.not_lt_of_le hlong)]
      rfl
    · rw [if_neg hlong, if_pos (Nat.lt_of_not_le hlong)]
      rfl
  rw [hturn fuel n]
  rcases hret with rfl | rfl
  · exact hpass
  · exact hpass

/-- With nothing to read the part is put back, and the connection waits. -/
theorem receiveLoop_again {as : List Arrival} (h : conn.Holds t w) (hLF : LF ∉ w)
    (hroom : t < BUFFER_SIZE) (hagain : conn.incoming.arrivals = .again :: as) (fuel : Nat)
    (n : Int) :
    (w = [] ∨ 2 * t ≤ BUFFER_SIZE →
      ∃ conn' : Connection, conn'.Holds t w ∧
        conn'.incoming = { conn.incoming with arrivals := as } ∧ conn'.lines = conn.lines ∧
        receiveLoop heap (fuel + 1) n conn = .ok (0, conn')) ∧
    (¬ (w = [] ∨ 2 * t ≤ BUFFER_SIZE) →
      ∃ e, receiveLoop heap (fuel + 1) n conn = .error e) := by
  have hgot : readSocket conn.incoming (BUFFER_SIZE - t) =
      (-1, true, [], { conn.incoming with arrivals := as }) := by
    rw [readSocket, if_neg (by omega), hagain]
  obtain ⟨conn', hholds, hincoming, hlines, hturn⟩ := receiveLoop_part heap h hLF hgot
  -- `EAGAIN`: the part of a line is pushed back, for the next call.
  obtain ⟨hback, htrap⟩ := pushBack_part heap hholds (w := w) h.le.2
  constructor
  · intro hok
    obtain ⟨buffer, hpush, hholds'⟩ := hback hok
    refine ⟨{ conn' with buffer := buffer }, hholds', hincoming, hlines, ?_⟩
    rw [hturn fuel n]
    simp only [if_true, hpush, ok_bind]
  · intro hno
    obtain ⟨e, hpush⟩ := htrap hno
    refine ⟨e, ?_⟩
    rw [hturn fuel n]
    simp only [if_true, hpush, error_bind]

/-- With something to read the loop goes on. The part is nowhere any more. -/
theorem receiveLoop_data {b : UInt8} {bs : Bytes} {as : List Arrival} (h : conn.Holds t w)
    (hLF : LF ∉ w) (hroom : t < BUFFER_SIZE) (hdata : conn.incoming.arrivals = .data b bs :: as)
    (fuel : Nat) (n : Int) :
    ∃ conn' : Connection,
      conn'.Holds (t + ((b :: bs).take (BUFFER_SIZE - t)).length)
        ((b :: bs).take (BUFFER_SIZE - t)) ∧
      conn'.incoming = { conn.incoming with
        arrivals := arrivalsOf ((b :: bs).drop (BUFFER_SIZE - t)) ++ as } ∧
      conn'.lines = conn.lines ∧
      ∃ m, 0 < m ∧ receiveLoop heap (fuel + 1) n conn = receiveLoop heap fuel m conn' := by
  have hgot : readSocket conn.incoming (BUFFER_SIZE - t) =
      ((((b :: bs).take (BUFFER_SIZE - t)).length : Int), false, (b :: bs).take (BUFFER_SIZE - t),
        { conn.incoming with
          arrivals := arrivalsOf ((b :: bs).drop (BUFFER_SIZE - t)) ++ as }) := by
    rw [readSocket, if_neg (by omega), hdata]
  obtain ⟨conn', hholds, hincoming, hlines, hturn⟩ := receiveLoop_part heap h hLF hgot
  -- The part of a line is written over by the next one, and the loop goes on with what has arrived.
  have hpos : 0 < (((b :: bs).take (BUFFER_SIZE - t)).length : Int) := by
    rw [List.length_take, List.length_cons]
    omega
  refine ⟨conn', hholds, hincoming, hlines, _, hpos, ?_⟩
  rw [hturn fuel n]
  simp only [if_neg (by omega : ¬ (((b :: bs).take (BUFFER_SIZE - t)).length : Int) = -1),
    if_neg (by omega : ¬ (((b :: bs).take (BUFFER_SIZE - t)).length : Int) = 0)]

end

end Compostela.RunLoop
