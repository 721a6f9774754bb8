import Compostela.Aggregator.Session

/-!
# `Compostela.Proofs.Timestamps`: the timestamp of a merged record

`__w3cdatetime` writes what `strftime` makes of `"%FT%T%z"`, moves the last two digits up and puts
a colon in front of them. It returns the length of the result, and never zero: one more than what
`strftime` returned, whether there is a colon or not. `_do_merge_file` writes that many bytes behind
a space.

* `w3cdatetime_of_colon`: what it does to a text with a zone offset.
* `timestamps_iff`: both functions are right exactly when there is such a text.
-/

set_option autoImplicit false

namespace Compostela.Aggregator

open Compostela.Common
open Compostela.Memory

/-- The text with a colon in the zone offset at its end, a sign and four digits. -/
def colonInZone (s : Bytes) : Option Bytes :=
  match s.reverse with
  | m2 :: m1 :: h2 :: h1 :: sign :: front =>
      if (sign = 43 ∨ sign = 45) ∧ isdigit h1 ∧ isdigit h2 ∧ isdigit m1 ∧ isdigit m2 then
        some (front.reverse ++ [sign, h1, h2, 58, m1, m2])
      else none
  | _ => none

/-- `2024-03-01T12:30:00+0900` and the end of it. -/
example : colonInZone [48, 48, 43, 48, 57, 48, 48] = some [48, 48, 43, 48, 57, 58, 48, 48] := rfl

/-- `strftime` has made a text that ends in a zone offset. -/
def HasZone (text : Option Bytes) : Prop := ∃ s, text = some s ∧ (colonInZone s).isSome

/-- `__w3cdatetime` stays inside its buffer, and returns zero or the length of the text that it
leaves there, with its colon. -/
def Dated (b : Block) (text : Option Bytes) : Prop :=
  ∃ n b', w3cdatetime b 0 text = .ok (n, b') ∧
    (n = 0 ∨ ∃ s z, text = some s ∧ colonInZone s = some z ∧ n = z.length ∧ b'.bytes 0 n = z)

/-- `_do_merge_file` writes a record with the same stamp whatever it merges: nothing, or a space and
the text with its colon. -/
def Stamps (cfg : Config) (heap : Heap) (ts : BitVec 64) (aggr : Option ScAggregateContext) :
    Prop :=
  ∃ stamp : Option Bytes,
    (∀ bs, stamp = some bs →
      ∃ s z, cfg.strftime 30 ts = some s ∧ colonInZone s = some z ∧ bs = 32 :: z) ∧
    ∀ (host path text : Bytes) (buffer : AzBuffer) (fs : Fs), buffer.Valid →
      ∃ ret buffer' fs',
        doMergeFile cfg heap (some host) path ts buffer (.ok text) aggr fs =
          .ok (ret, buffer', fs') ∧
        fs'.writes = fs.writes ++
          if fs.results.headD .ok = .fail then []
          else (outcomes fs.results.tail
            (recordHead host stamp ++ linePieces buffer.unread text)).map
            fun bytes => ⟨.doMergeFile, mkPath cfg.logdir path PATH_MAX, bytes⟩

/-! ### `__w3cdatetime` -/

/-- A text gets a colon when it ends in a sign and four digits. -/
theorem colonInZone_eq_some {s z : Bytes} :
    colonInZone s = some z ↔ ∃ front sign h1 h2 m1 m2, s = front ++ [sign, h1, h2, m1, m2] ∧
      (sign = 43 ∨ sign = 45) ∧ isdigit h1 ∧ isdigit h2 ∧ isdigit m1 ∧ isdigit m2 ∧
      z = front ++ [sign, h1, h2, 58, m1, m2] := by
  constructor
  · intro h
    unfold colonInZone at h
    split at h
    · rename_i m2 m1 h2 h1 sign front hs
      rw [List.reverse_eq_iff] at hs
      split at h
      · rename_i hzone
        obtain ⟨hsign, d1, d2, d3, d4⟩ := hzone
        cases h
        exact ⟨front.reverse, sign, h1, h2, m1, m2, by simp [hs], hsign, d1, d2, d3, d4, rfl⟩
      · cases h
    · cases h
  · rintro ⟨front, sign, h1, h2, m1, m2, rfl, hsign, d1, d2, d3, d4, rfl⟩
    simp only [colonInZone, List.reverse_append, List.reverse_cons, List.reverse_nil,
      List.nil_append, List.cons_append, List.reverse_reverse]
    rw [if_pos ⟨hsign, d1, d2, d3, d4⟩]

/-- What `__w3cdatetime` does behind the call of `strftime`, with `n` its result and `p` the end of
its text. -/
def insertColon (b : Block) (p n : Nat) : Except Trap (Nat × Block) :=
  if b.byte p ≠ 0 then .ok (n + 1, b)
  else if p < 1 then .error .oobRead
  else if isdigit (b.byte (p - 1)) = false then .ok (n + 1, b)
  else if p < 2 then .error .oobRead
  else if isdigit (b.byte (p - 2)) = false then .ok (n + 1, b)
  else do
    let b ← b.store (p - 2) [58, b.byte (p - 2), b.byte (p - 1), 0]
    .ok (n + 1, b)

/-- With a text from `strftime` the colon is looked for at its end. -/
theorem w3cdatetime_some (b : Block) (base : Nat) (s : Bytes) :
    w3cdatetime b base (some s) =
      b.store base (s ++ [0]) >>= fun b => insertColon b (base + s.length) s.length := rfl

/-- Without a text the buffer is as it was, and its content is taken for a text of length 0. -/
theorem w3cdatetime_none (b : Block) (base : Nat) :
    w3cdatetime b base none = insertColon b base 0 := rfl

/-- The result does not tell whether there is a colon. -/
theorem insertColon_fst {b b' : Block} {p k n : Nat} (h : insertColon b p k = .ok (n, b')) :
    n = k + 1 := by
  unfold insertColon at h
  split at h
  · cases h
    rfl
  split at h
  · cases h
  split at h
  · cases h
    rfl
  split at h
  · cases h
  split at h
  · cases h
    rfl
  · obtain ⟨moved, -, h⟩ := bind_eq_ok.mp h
    cases h
    rfl

/-- The byte at one place of what was stored. -/
theorem byte_put {b : Block} {off i : Nat} {bs : Bytes} (h : i < bs.length) :
    (b.put off bs).byte (off + i) = bs[i] := by
  have hself := Block.bytes_put_self b off bs
  have hget := List.getElem_of_eq hself.symm h
  rw [hget, Block.getElem_bytes]

/-- A text with a zone offset comes out with its colon, below it nothing changes, and the result is
its length. -/
theorem w3cdatetime_of_colon {s z : Bytes} (hz : colonInZone s = some z) {b : Block} {base : Nat}
    (hfits : base + s.length + 1 < b.size) :
    ∃ b', w3cdatetime b base (some s) = .ok (z.length, b') ∧ b'.size = b.size ∧
      b'.bytes base z.length = z := by
  obtain ⟨front, sign, h1, h2, m1, m2, rfl, -, -, -, d3, d4, rfl⟩ := colonInZone_eq_some.mp hz
  generalize hn : front.length = n
  have hstored : b.store base (front ++ [sign, h1, h2, m1, m2] ++ [0]) =
      .ok (b.put base (front ++ [sign, h1, h2, m1, m2] ++ [0])) := by
    apply Block.store_of_le
    simp only [List.length_append, List.length_cons, List.length_nil] at hfits ⊢
    omega
  generalize hbuf : b.put base (front ++ [sign, h1, h2, m1, m2] ++ [0]) = buf at hstored
  have hsize : buf.size = b.size := by rw [← hbuf, Block.size_put]
  -- The terminator and the two digits in front of it.
  have hend : buf.byte (base + (n + 5)) = 0 := by
    rw [← hbuf, byte_put (by simp; omega)]
    simp [← hn]
  have hm2 : buf.byte (base + (n + 5) - 1) = m2 := by
    rw [← hbuf, show base + (n + 5) - 1 = base + (n + 4) by omega, byte_put (by simp; omega)]
    simp [← hn]
  have hm1 : buf.byte (base + (n + 5) - 2) = m1 := by
    rw [← hbuf, show base + (n + 5) - 2 = base + (n + 3) by omega, byte_put (by simp; omega)]
    simp [← hn]
  have hmoved : buf.store (base + (n + 5) - 2) [58, m1, m2, 0] =
      .ok (buf.put (base + (n + 5) - 2) [58, m1, m2, 0]) := by
    apply Block.store_of_le
    simp only [List.length_append, List.length_cons, List.length_nil, hn] at hfits ⊢
    omega
  refine ⟨buf.put (base + (n + 5) - 2) [58, m1, m2, 0], ?_, hsize, ?_⟩
  · have hlen : (front ++ [sign, h1, h2, m1, m2]).length = n + 5 := by simp [hn]
    rw [w3cdatetime_some, hstored, ok_bind, hlen, insertColon, hend, hm1, hm2, if_neg (by simp),
      if_neg (by omega), if_neg (by simp [d4]), if_neg (by omega), if_neg (by simp [d3]), hmoved]
    simp [hn]
  · have hfront : buf.bytes base (n + 3) = front ++ [sign, h1, h2] := by
      rw [← hbuf, Block.bytes_put_take _ _ _ _ (by simp; omega)]
      simp [← hn, List.take_append, List.take_of_length_le]
    have hcolon : (buf.put (base + (n + 5) - 2) [58, m1, m2, 0]).bytes (base + (n + 5) - 2) 3 =
        [58, m1, m2] := Block.bytes_put_take _ _ _ _ (by simp)
    rw [show (front ++ [sign, h1, h2, 58, m1, m2]).length = n + 3 + 3 by simp [hn],
      Block.bytes_append, Block.bytes_put_of_disjoint _ _ _ _ _ (by omega), hfront,
      show base + (n + 3) = base + (n + 5) - 2 by omega, hcolon]
    simp

/-- `__w3cdatetime` does not return zero. -/
theorem w3cdatetime_pos {b b' : Block} {base n : Nat} {text : Option Bytes}
    (h : w3cdatetime b base text = .ok (n, b')) : 0 < n := by
  cases text with
  | none =>
    rw [w3cdatetime_none] at h
    rw [insertColon_fst h]
    exact Nat.succ_pos 0
  | some s =>
    rw [w3cdatetime_some] at h
    obtain ⟨buf, -, h⟩ := bind_eq_ok.mp h
    rw [insertColon_fst h]
    exact Nat.succ_pos s.length

/-- On a buffer that the text fits. -/
theorem dated_iff {b : Block} {text : Option Bytes}
    (hfits : ∀ s, text = some s → s.length + 1 < b.size) : Dated b text ↔ HasZone text := by
  constructor
  · rintro ⟨n, b', hrun, rfl | ⟨s, z, htext, hz, -, -⟩⟩
    · exact absurd (w3cdatetime_pos hrun) (Nat.lt_irrefl 0)
    · exact ⟨s, htext, by simp [hz]⟩
  · rintro ⟨s, rfl, hsome⟩
    obtain ⟨z, hz⟩ := Option.isSome_iff_exists.mp hsome
    obtain ⟨b', hrun, -, hbytes⟩ := w3cdatetime_of_colon hz (show 0 + s.length + 1 < b.size by
      rw [Nat.zero_add]
      exact hfits s rfl)
    exact ⟨z.length, b', hrun, .inr ⟨s, z, rfl, hz, rfl, hbytes⟩⟩

/-! ### `_do_merge_file` -/

/-- The stamp of a text with a zone offset. -/
theorem mergeTimestamp_of_colon {cfg : Config} {ts : BitVec 64} {s z : Bytes}
    (htext : cfg.strftime 30 ts = some s) (hz : colonInZone s = some z) (heap : Heap)
    {cxt : ScAggregateContext} (hon : cxt.fTimestamp = true) :
    mergeTimestamp cfg heap ts (some cxt) = .ok (some (32 :: z)) := by
  have hlen := cfg.strftime_fits 30 ts s htext
  obtain ⟨tsbuf, hrun, hsize, hbytes⟩ :=
    w3cdatetime_of_colon hz (show 1 + s.length + 1 < (Block.mk 32 heap.stack).size by
      show _ < 32
      omega)
  have hsize : tsbuf.size = 32 := hsize
  have hzlen : z.length = s.length + 1 := by
    obtain ⟨front, sign, h1, h2, m1, m2, rfl, -, -, -, -, -, rfl⟩ := colonInZone_eq_some.mp hz
    simp
  simp only [mergeTimestamp, if_pos hon, htext, hrun, ok_bind]
  rw [Block.store_of_le (by simp [hsize]), ok_bind,
    Block.load_of_le (by rw [Block.size_put]; omega), ok_bind, Nat.add_comm z.length 1,
    Block.bytes_append, Nat.zero_add, Block.bytes_put_of_disjoint _ _ _ 1 _ (by simp), hbytes]
  rfl

/-- Where a stamp is asked for, `_do_merge_file` makes one or does not go on. -/
theorem mergeTimestamp_ne_none {cfg : Config} {heap : Heap} {ts : BitVec 64}
    {cxt : ScAggregateContext} (hon : cxt.fTimestamp = true) :
    mergeTimestamp cfg heap ts (some cxt) ≠ .ok none := by
  intro h
  simp only [mergeTimestamp, if_pos hon] at h
  obtain ⟨⟨n, b⟩, -, h⟩ := bind_eq_ok.mp h
  obtain ⟨tsbuf, -, h⟩ := bind_eq_ok.mp h
  obtain ⟨bs, -, h⟩ := bind_eq_ok.mp h
  cases h

/-- A record shows its stamp. -/
theorem recordHead_inj (host : Bytes) (rest : List Bytes) {stamp stamp' : Option Bytes}
    (h : recordHead host stamp ++ rest = recordHead host stamp' ++ rest) : stamp = stamp' := by
  rw [List.append_left_inj, recordHead, recordHead, List.append_left_inj, List.cons_inj_right] at h
  cases stamp <;> cases stamp' <;> simp_all

/-- With successful calls the pieces are written as they are. -/
theorem outcomes_nil (pieces : List Bytes) : outcomes [] pieces = pieces := by
  induction pieces with
  | nil => rfl
  | cons piece rest ih =>
    show piece :: outcomes [] rest = _
    rw [ih]

/-- A stamp that is made is the one of every record. -/
theorem stamps_of_eq {cfg : Config} {heap : Heap} {ts : BitVec 64}
    {aggr : Option ScAggregateContext} {stamp : Option Bytes}
    (hstamp : mergeTimestamp cfg heap ts aggr = .ok stamp) (host path text : Bytes)
    {buffer : AzBuffer} (hv : buffer.Valid) (fs : Fs) :
    ∃ ret buffer' fs',
      doMergeFile cfg heap (some host) path ts buffer (.ok text) aggr fs =
        .ok (ret, buffer', fs') ∧
      fs'.writes = fs.writes ++
        if fs.results.headD .ok = .fail then []
        else (outcomes fs.results.tail (recordHead host stamp ++ linePieces buffer.unread text)).map
          fun bytes => ⟨.doMergeFile, mkPath cfg.logdir path PATH_MAX, bytes⟩ := by
  obtain ⟨fs1, hresults, hwrites, hrun⟩ := doMergeFile_eq hstamp hv (some host) path text fs
  by_cases hfail : fs.results.headD .ok = .fail
  · rw [if_pos hfail] at hrun
    exact ⟨_, _, _, hrun, by rw [if_pos hfail, List.append_nil, hwrites]⟩
  · rw [if_neg hfail] at hrun
    obtain ⟨buffer', -, -, hrun⟩ := hrun
    exact ⟨_, _, _, hrun, by rw [if_neg hfail, Fs.writes_writeAll, hwrites, hresults]⟩

/-- The timestamp of a record is right exactly when the time has a text with a zone offset, or no
timestamp is asked for. -/
theorem stamps_iff {cfg : Config} {heap : Heap} {ts : BitVec 64}
    {aggr : Option ScAggregateContext} :
    Stamps cfg heap ts aggr ↔
      ∀ cxt, aggr = some cxt → cxt.fTimestamp = true → HasZone (cfg.strftime 30 ts) := by
  constructor
  · rintro ⟨stamp, hzone, hall⟩ cxt rfl hon
    -- One record of an empty line tells what stamp was made.
    obtain ⟨ret, buffer', fs', hrun, hwrites⟩ :=
      hall [] [] [] (azBufferNew heap 0) Fs.empty (AzBuffer.valid_azBufferNew heap (Nat.zero_le _))
    cases hmade : mergeTimestamp cfg heap ts (some cxt) with
    | error e =>
      rw [doMergeFile, hmade] at hrun
      cases hrun
    | ok made =>
      obtain ⟨ret2, buffer2, fs2, hrun2, hwrites2⟩ := stamps_of_eq hmade [] [] []
        (AzBuffer.valid_azBufferNew heap (Nat.zero_le _)) Fs.empty
      rw [hrun] at hrun2
      cases hrun2
      rw [hwrites, List.append_right_inj] at hwrites2
      have hsame : made = stamp := by
        apply recordHead_inj [] (linePieces (azBufferNew heap 0).unread [])
        have hmap := List.map_injective_iff.mpr (fun x y hxy => (FsWrite.mk.inj hxy).2.2) hwrites2
        exact ((outcomes_nil _).symm.trans hmap.symm).trans (outcomes_nil _)
      cases made with
      | none => exact absurd hmade (mergeTimestamp_ne_none hon)
      | some bs =>
        obtain ⟨s, z, htext, hz, -⟩ := hzone bs hsame.symm
        exact ⟨s, htext, by simp [hz]⟩
  · intro hall
    cases aggr with
    | none =>
      exact ⟨none, by simp, fun host path text buffer fs hv =>
        stamps_of_eq rfl host path text hv fs⟩
    | some cxt =>
      by_cases hon : cxt.fTimestamp = true
      · obtain ⟨s, htext, hsome⟩ := hall cxt rfl hon
        obtain ⟨z, hz⟩ := Option.isSome_iff_exists.mp hsome
        refine ⟨some (32 :: z), ?_, fun host path text buffer fs hv =>
          stamps_of_eq (mergeTimestamp_of_colon htext hz heap hon) host path text hv fs⟩
        rintro bs ⟨⟩
        exact ⟨s, z, htext, hz, rfl⟩
      · refine ⟨none, by simp, fun host path text buffer fs hv =>
          stamps_of_eq ?_ host path text hv fs⟩
        simp [mergeTimestamp, hon]

/-- `__w3cdatetime` on every buffer and text that fits it, and `_do_merge_file` for every time: they
are right exactly when `strftime` has made a text that ends in a zone offset, or no timestamp is
asked for. -/
theorem timestamps_iff {b : Block} {text : Option Bytes}
    (hfits : ∀ s, text = some s → s.length + 1 < b.size) (cfg : Config) (heap : Heap)
    (ts : BitVec 64) (aggr : Option ScAggregateContext) :
    (Dated b text ↔ HasZone text) ∧
      (Stamps cfg heap ts aggr ↔
        ∀ cxt, aggr = some cxt → cxt.fTimestamp = true → HasZone (cfg.strftime 30 ts)) :=
  ⟨dated_iff hfits, stamps_iff⟩

/-- `12+0100` in a buffer of 31 bytes. -/
theorem timestamps_iff_short :
    Dated ⟨31, fun _ => 0⟩ (some [49, 50, 43, 48, 49, 48, 48]) :=
  (@timestamps_iff ⟨31, fun _ => 0⟩ (some [49, 50, 43, 48, 49, 48, 48]) (by
    rintro s ⟨⟩
    decide) (smallConfig []) zeroHeap 0 none).1.mpr ⟨_, rfl, rfl⟩

/-- A merged file with timestamps. -/
def stampedContext : ScAggregateContext := ⟨[110], true, false, true⟩

/-- A memory with ones in it. -/
def onesHeap : Heap := ⟨fun _ => true, fun _ => true, fun _ => 1, fun _ => 1⟩

/-- The year of `2 ^ 55` seconds has ten digits, and its text does not fit. The result is not zero,
and a record gets a space and the first byte of the buffer. -/
theorem timestamp_of_no_text :
    ¬ Dated ⟨31, fun _ => 1⟩ none ∧
    ¬ Stamps (smallConfig [stampedContext]) onesHeap (.ofNat 64 (2 ^ 55)) (some stampedContext) ∧
    mergeTimestamp (smallConfig [stampedContext]) onesHeap (.ofNat 64 (2 ^ 55))
      (some stampedContext) = .ok (some [32, 1]) := by
  refine ⟨fun h => ?_, fun h => ?_, rfl⟩
  · obtain ⟨s, hnone, -⟩ := (dated_iff (by simp)).mp h
    cases hnone
  · obtain ⟨s, hnone, -⟩ := stamps_iff.mp h _ rfl rfl
    cases hnone

end Compostela.Aggregator
