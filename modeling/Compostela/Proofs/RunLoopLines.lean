import Compostela.RunLoop.Connection

/-!
# `Compostela.Proofs.RunLoopLines`: which streams get through the run loop

`handed` says what a connection passes on, without a buffer: only the number of bytes that were
fetched so far, and the part that is put back, count. The loops of `__do_receive` and the calls of
`__run_loop_wait` follow it.

A part of a line is lost when there is more to read behind it. At the end of the stream something is
passed on in any case, so a stream that ends with a line has one more. And after as many bytes as
the buffer has the connection is closed.

* `serve_ends`: a connection passes on what `handed` says.
* `handed_iff`: when that is what the stream is about.
* `delivers_iff`: the streams that get through.
-/

set_option autoImplicit false

namespace Compostela.RunLoop

open Compostela.Common
open Compostela.Lines
open Compostela.Memory
open Compostela.Segments

/-! ### A connection without its buffer -/

/-- The lines that a connection passes on, and the arrivals that it does not look at. -/
abbrev Handed : Type := Option (List Bytes × List Arrival)

/-- The connection is closed, with the part `p` passed on. -/
def handedLast (p : Bytes) (as : List Arrival) : Handed :=
  if p.length < BUFFER_SIZE then some ([cstr p], as) else none

/-- Lines that are passed on before the others. -/
def handedLines (ls : List Bytes) (r : Handed) : Handed :=
  if ls.all (·.length < BUFFER_SIZE) then r.map fun (more, as) => (ls.map cstr ++ more, as)
  else none

/-- What a connection passes on that has fetched `t` bytes, with the part `p` of a line in its
buffer. -/
def handed : Nat → Bytes → List Arrival → Handed
  | _, p, [] => handedLast p []
  | t, p, .again :: as =>
      if t = BUFFER_SIZE then handedLast p (.again :: as)
      else if p = [] ∨ 2 * t ≤ BUFFER_SIZE then handed t p as
      else none
  | t, p, .data b bs :: as =>
      if t = BUFFER_SIZE then handedLast p (.data b bs :: as)
      else
        let got := (b :: bs).take (BUFFER_SIZE - t)
        let rest := (b :: bs).drop (BUFFER_SIZE - t)
        -- The part `p` does not get here. What does not fit fills the buffer.
        handedLines (linesOf LF got)
          (if rest = [] then handed (t + got.length) (remainder LF got) as
          else handedLast (remainder LF got) (arrivalsOf rest ++ as))

/-- A full buffer is the end of a connection. -/
theorem handed_full (p : Bytes) (a : Arrival) (as : List Arrival) :
    handed BUFFER_SIZE p (a :: as) = handedLast p (a :: as) := by
  cases a with
  | again => rw [handed, if_pos rfl]
  | data b bs => rw [handed, if_pos rfl]

/-! ### The loops follow it -/

/-- The connection has passed on `lines` before, and then what `handed` says. -/
def Ends (lines : List Bytes) : Except Trap Connection → Handed → Prop
  | .ok conn, some (more, as) =>
      conn.isOpen = false ∧ conn.lines = lines ++ more ∧ conn.incoming.arrivals = as
  | .ok _, none => False
  | .error _, some _ => False
  | .error _, none => True

/-- The calls of `__run_loop_wait` behind the receive function. -/
def goOn (heap : Heap) (fuel : Nat) (r : Int × Connection) : Except Trap Connection :=
  if r.1 < 0 then .ok { r.2 with isOpen := false }
  else if r.2.isOpen then serveConnection heap fuel r.2
  else .ok r.2

/-- One more wake-up of a connection: a receive, and the wake-ups behind it. -/
theorem serveConnection_succ (heap : Heap) (fuel : Nat) (conn : Connection) :
    serveConnection heap (fuel + 1) conn = doReceive heap conn >>= goOn heap fuel := by
  rw [serveConnection, runLoopWait]
  cases doReceive heap conn with
  | error e => rfl
  | ok r =>
    obtain ⟨ret, conn'⟩ := r
    simp only [ok_bind, goOn]
    by_cases hret : ret < 0
    · rw [if_pos hret, if_pos hret]
      rfl
    · rw [if_neg hret, if_neg hret]
      rfl

section
variable (heap : Heap) {conn : Connection} {t : Nat} {w : Bytes}

/-- At the end of the stream, and with a full count, what is left in the buffer is passed on as it
is. -/
theorem ends_last (h : conn.Holds t w) (hLF : LF ∉ w)
    (hlast : conn.incoming.arrivals = [] ∨ t = BUFFER_SIZE) (fuel F : Nat) (n : Int) :
    Ends conn.lines (receiveLoop heap (fuel + 1) n conn >>= goOn heap F)
      (handedLast w conn.incoming.arrivals) := by
  obtain ⟨conn', hincoming, hlines, hturn⟩ := receiveLoop_last heap h hLF hlast fuel n
  rw [hturn, handedLast]
  split
  · exact ⟨rfl, hlines, congrArg Incoming.arrivals hincoming⟩
  · trivial

/-- Lines in the buffer come before what is behind them. -/
theorem ends_lines (h : conn.Holds t w) (fuel F : Nat) {n : Int} (hn : 0 < n) {r : Handed}
    (hrest : ∀ conn', conn'.Holds t (remainder LF w) → conn'.incoming = conn.incoming →
      Ends conn'.lines (receiveLoop heap fuel n conn' >>= goOn heap F) r) :
    Ends conn.lines (receiveLoop heap (fuel + (linesOf LF w).length) n conn >>= goOn heap F)
      (handedLines (linesOf LF w) r) := by
  rw [← flatten_append_remainder LF w] at h
  obtain ⟨conn', hholds, hincoming, hlines, hrun⟩ :=
    receiveLoop_lines heap h (fun _ => isLine_of_mem) fuel hn
  have hends := hrest conn' hholds hincoming
  rw [hrun, handedLines]
  -- A line that leaves no room for its terminator ends the handing over.
  split
  · rw [hlines] at hends
    cases hrun' : receiveLoop heap fuel n conn' >>= goOn heap F with
    | error e =>
      rw [hrun'] at hends
      cases r with
      | none => trivial
      | some r => exact hends
    | ok conn'' =>
      rw [hrun'] at hends
      cases r with
      | none => exact hends
      | some r =>
        obtain ⟨hclosed, hlines', harrivals⟩ := hends
        exact ⟨hclosed, by rw [hlines', List.append_assoc], harrivals⟩
  · trivial

end

/-- With the arrivals `as` still to come, a connection that has a part of a line in its buffer ends
as `handed` says. -/
def EndsFrom (heap : Heap) (as : List Arrival) : Prop :=
  ∀ {conn : Connection} {t : Nat} {p : Bytes}, conn.Holds t p → LF ∉ p →
    conn.incoming.arrivals = as → ∀ {fuel F : Nat} {n : Int},
    p.length + (bytesOf as).length + as.length ≤ fuel → as.length ≤ F →
    Ends conn.lines (receiveLoop heap (fuel + 1) n conn >>= goOn heap F) (handed t p as)

section
variable {heap : Heap} {conn : Connection} {t : Nat} {p : Bytes} {as : List Arrival}

/-- The connection waits, and the next call starts with the part that was put back. -/
theorem EndsFrom.again (hnext : EndsFrom heap as) (h : conn.Holds t p) (hLF : LF ∉ p)
    (hroom : t < BUFFER_SIZE) (harrivals : conn.incoming.arrivals = .again :: as) {fuel F : Nat}
    {n : Int} (hF : as.length < F) :
    Ends conn.lines (receiveLoop heap (fuel + 1) n conn >>= goOn heap F)
      (handed t p (.again :: as)) := by
  rw [handed, if_neg (Nat.ne_of_lt hroom)]
  obtain ⟨hback, htrap⟩ := receiveLoop_again heap h hLF hroom harrivals fuel n
  by_cases hhalf : p = [] ∨ 2 * t ≤ BUFFER_SIZE
  · obtain ⟨conn', hholds, hincoming, hlines, hturn⟩ := hback hhalf
    obtain ⟨F, rfl⟩ := Nat.exists_eq_add_one_of_ne_zero (Nat.ne_zero_of_lt hF)
    have harrivals' : conn'.incoming.arrivals = as := congrArg Incoming.arrivals hincoming
    have hcall : goOn heap (F + 1) (0, conn') = serveConnection heap (F + 1) conn' :=
      if_pos hholds.isOpen
    rw [if_pos hhalf, hturn, ok_bind, hcall, serveConnection_succ, ← hlines]
    refine hnext hholds hLF harrivals' ?_ (by omega)
    rw [hholds.unread, Incoming.bytes, harrivals']
  · obtain ⟨e, hturn⟩ := htrap hhalf
    rw [if_neg hhalf, hturn]
    trivial

/-- The lines of a segment first, and then what is behind them. -/
theorem EndsFrom.data {b : UInt8} {bs : Bytes} (hnext : EndsFrom heap as) (h : conn.Holds t p)
    (hLF : LF ∉ p) (hroom : t < BUFFER_SIZE)
    (harrivals : conn.incoming.arrivals = .data b bs :: as) {fuel F : Nat} {n : Int}
    (hfuel : (b :: bs).length + (bytesOf as).length + as.length + 1 ≤ fuel) (hF : as.length ≤ F) :
    Ends conn.lines (receiveLoop heap (fuel + 1) n conn >>= goOn heap F)
      (handed t p (.data b bs :: as)) := by
  rw [handed, if_neg (Nat.ne_of_lt hroom)]
  obtain ⟨conn', hholds, hincoming, hlines, m, hm, hturn⟩ :=
    receiveLoop_data heap h hLF hroom harrivals fuel n
  have harrivals' : conn'.incoming.arrivals =
      arrivalsOf ((b :: bs).drop (BUFFER_SIZE - t)) ++ as :=
    congrArg Incoming.arrivals hincoming
  have hle := length_linesOf_add_remainder_le LF ((b :: bs).take (BUFFER_SIZE - t))
  have htake : ((b :: bs).take (BUFFER_SIZE - t)).length ≤ (b :: bs).length :=
    List.length_take_le' _ _
  -- Each line takes one turn of the loop, and the fuel covers them.
  obtain ⟨rest, rfl⟩ : ∃ rest,
      fuel = rest + 1 + (linesOf LF ((b :: bs).take (BUFFER_SIZE - t))).length :=
    ⟨fuel - 1 - (linesOf LF ((b :: bs).take (BUFFER_SIZE - t))).length, by omega⟩
  rw [hturn, ← hlines]
  refine ends_lines heap hholds (rest + 1) F hm ?_
  intro conn'' hholds' hincoming'
  have harrivals'' := (congrArg Incoming.arrivals hincoming').trans harrivals'
  by_cases hall : (b :: bs).drop (BUFFER_SIZE - t) = []
  · rw [if_pos hall]
    rw [hall] at harrivals''
    exact hnext hholds' (notMem_remainder LF _) harrivals'' (by omega) hF
  · -- The segment has filled the buffer, and the next `read` is for no bytes.
    rw [if_neg hall, ← harrivals'']
    have htaken : ((b :: bs).take (BUFFER_SIZE - t)).length = BUFFER_SIZE - t := by
      rw [List.drop_eq_nil_iff] at hall
      rw [List.length_take]
      omega
    exact ends_last heap hholds' (notMem_remainder LF _) (Or.inr (by omega)) rest F m

end

/-- The loops follow `handed`. The induction is on the arrivals. -/
theorem receiveLoop_ends (heap : Heap) (as : List Arrival) : EndsFrom heap as := by
  induction as with
  | nil =>
    intro conn t p h hLF harrivals fuel F n _ _
    have hends := ends_last heap h hLF (Or.inl harrivals) fuel F n
    rw [harrivals] at hends
    exact hends
  | cons a as ih =>
    intro conn t p h hLF harrivals fuel F n hfuel hF
    rw [List.length_cons] at hfuel hF
    by_cases hfull : t = BUFFER_SIZE
    · have hends := ends_last heap h hLF (Or.inr hfull) fuel F n
      rwa [harrivals, ← handed_full, ← hfull] at hends
    have hroom : t < BUFFER_SIZE := Nat.lt_of_le_of_ne h.le.1 hfull
    cases a with
    | again => exact ih.again h hLF hroom harrivals hF
    | data b bs =>
      rw [bytesOf_data, List.length_append] at hfuel
      exact ih.data h hLF hroom harrivals (by omega) (by omega)

/-- A connection passes on what `handed` says. -/
theorem serve_ends (heap : Heap) (incoming : Incoming) :
    Ends [] (serve heap incoming) (handed 0 [] incoming.arrivals) := by
  rw [serve, serveConnection_succ]
  exact receiveLoop_ends heap incoming.arrivals (holds_new heap incoming) List.not_mem_nil rfl
    (Nat.le_refl _) (Nat.le_refl _)

/-! ### What a stream is about -/

/-- What is to be passed on of a stream: its lines, and the remainder if there is one. -/
def streamLines (s : Bytes) : List Bytes :=
  linesOf LF s ++ if remainder LF s = [] then [] else [remainder LF s]

/-- The lines of a stream are together the stream. -/
theorem flatten_streamLines (s : Bytes) : (streamLines s).flatten = s := by
  conv_rhs => rw [← flatten_append_remainder LF s]
  rw [streamLines, List.flatten_append]
  split
  · rename_i hnone
    rw [hnone]
    rfl
  · rw [List.flatten_singleton]

/-- The lines at the front of a stream come first. -/
theorem streamLines_append (d s : Bytes) :
    streamLines (d ++ s) = linesOf LF d ++ streamLines (remainder LF d ++ s) := by
  rw [streamLines, streamLines, linesOf_append, remainder_append, List.append_assoc]

/-- Bytes without a newline are one line, and no line if there are none. -/
theorem streamLines_of_notMem {p : Bytes} (h : LF ∉ p) :
    streamLines p = if p = [] then [] else [p] := by
  rw [streamLines, linesOf_of_notMem h, remainder_of_notMem h, List.nil_append]

/-! ### What is lost stays lost -/

/-- Lines are C strings as a whole exactly when no byte of them is zero. -/
theorem map_cstr_eq_self_iff {ls : List Bytes} : ls.map cstr = ls ↔ 0 ∉ ls.flatten := by
  have hid : ls.map cstr = ls ↔ ls.map cstr = ls.map id := by rw [List.map_id]
  rw [hid, List.map_inj_left, List.mem_flatten]
  simp only [id_eq, cstr_eq_self_iff, not_exists, not_and]

/-- A C string is not longer than the line it is cut from. -/
theorem length_flatten_map_cstr (ls : List Bytes) :
    (ls.map cstr).flatten.length ≤ ls.flatten.length := by
  induction ls with
  | nil => exact Nat.le_refl 0
  | cons l ls ih =>
    have hle := length_cstr_le l
    rw [List.map_cons, List.flatten_cons, List.flatten_cons, List.length_append,
      List.length_append]
    omega

/-- What is passed on at the end is not longer than the part, and no arrival is used up. -/
theorem length_of_handedLast {p : Bytes} {as rest : List Arrival} {ls : List Bytes}
    (h : handedLast p as = some (ls, rest)) : ls.flatten.length ≤ p.length ∧ rest = as := by
  unfold handedLast at h
  split at h
  · cases h
    rw [List.flatten_singleton]
    exact ⟨length_cstr_le p, rfl⟩
  · cases h

/-- Lines are passed on when each of them fits the buffer, and what is behind them is passed on
too. -/
theorem handedLines_eq_some_iff {ls ls' : List Bytes} {r : Handed} {rest : List Arrival} :
    handedLines ls r = some (ls', rest) ↔
      ls.all (·.length < BUFFER_SIZE) = true ∧
        ∃ more, r = some (more, rest) ∧ ls.map cstr ++ more = ls' := by
  unfold handedLines
  by_cases hall : ls.all (·.length < BUFFER_SIZE) = true
  · rw [if_pos hall, Option.map_eq_some_iff]
    constructor
    · rintro ⟨⟨more, as⟩, hr, heq⟩
      cases heq
      exact ⟨hall, more, hr, rfl⟩
    · rintro ⟨-, more, hr, rfl⟩
      exact ⟨(more, rest), hr, rfl⟩
  · rw [if_neg hall]
    exact ⟨nofun, fun h => absurd h.1 hall⟩

/-- Behind a segment no part from before it is passed on. -/
theorem length_of_handed_data {t : Nat} {p : Bytes} {b : UInt8} {bs : Bytes}
    {as rest : List Arrival} {ls : List Bytes}
    (hbound : ∀ {t p ls rest}, handed t p as = some (ls, rest) →
      ls.flatten.length ≤ p.length + (bytesOf as).length)
    (hroom : t ≠ BUFFER_SIZE) (h : handed t p (.data b bs :: as) = some (ls, rest)) :
    ls.flatten.length ≤ (b :: bs).length + (bytesOf as).length := by
  rw [handed, if_neg hroom] at h
  obtain ⟨-, more, hmore, rfl⟩ := handedLines_eq_some_iff.mp h
  have htake : ((b :: bs).take (BUFFER_SIZE - t)).length ≤ (b :: bs).length :=
    List.length_take_le' _ _
  have hlines := length_flatten_map_cstr (linesOf LF ((b :: bs).take (BUFFER_SIZE - t)))
  have hsplit := length_flatten_add_remainder LF ((b :: bs).take (BUFFER_SIZE - t))
  have hrest : more.flatten.length ≤
      (remainder LF ((b :: bs).take (BUFFER_SIZE - t))).length + (bytesOf as).length := by
    split at hmore
    · exact hbound hmore
    · exact Nat.le_add_right_of_le (length_of_handedLast hmore).1
  rw [List.flatten_append, List.length_append]
  omega

/-- No more bytes are passed on than there are. -/
theorem length_of_handed {as : List Arrival} : ∀ {t : Nat} {p : Bytes} {ls : List Bytes}
    {rest : List Arrival}, handed t p as = some (ls, rest) →
      ls.flatten.length ≤ p.length + (bytesOf as).length := by
  induction as with
  | nil =>
    intro t p ls rest h
    exact (length_of_handedLast h).1
  | cons a as ih =>
    intro t p ls rest h
    -- A full buffer ends the connection, whatever has arrived.
    by_cases hfull : t = BUFFER_SIZE
    · rw [hfull, handed_full] at h
      exact Nat.le_add_right_of_le (length_of_handedLast h).1
    cases a with
    | again =>
      rw [handed, if_neg hfull] at h
      split at h
      · exact ih h
      · cases h
    | data b bs =>
      have hle := length_of_handed_data ih hfull h
      rw [bytesOf_data, List.length_append]
      omega

/-! ### The condition -/

/-- Each segment with bytes behind it ends where a line ends. -/
def CutAtLines : List Arrival → Prop
  | [] => True
  | .again :: as => CutAtLines as
  | .data b bs :: as => (remainder LF (b :: bs) = [] ∨ bytesOf as = []) ∧ CutAtLines as

/-- The streams that get through. They are no longer than the buffer, and do not end with a line.
Whoever waits last has read no more than half a buffer. -/
structure GetsThrough (arrivals : List Arrival) : Prop where
  fits : (bytesOf arrivals).length ≤ BUFFER_SIZE
  ends : remainder LF (bytesOf arrivals) ≠ []
  short : (remainder LF (bytesOf arrivals)).length < BUFFER_SIZE
  zero : 0 ∉ bytesOf arrivals
  cut : CutAtLines arrivals
  waits : arrivals.getLast? = some .again → 2 * (bytesOf arrivals).length ≤ BUFFER_SIZE

/-- The same for a connection that has fetched `t` bytes and has the part `p` of a line in its
buffer. -/
structure Carried (t : Nat) (p : Bytes) (as : List Arrival) : Prop where
  fits : t + (bytesOf as).length ≤ BUFFER_SIZE
  ends : remainder LF (p ++ bytesOf as) ≠ []
  short : (remainder LF (p ++ bytesOf as)).length < BUFFER_SIZE
  zero : 0 ∉ p ++ bytesOf as
  behind : p = [] ∨ bytesOf as = []
  cut : CutAtLines as
  waits : as.getLast? = some .again → 2 * (t + (bytesOf as).length) ≤ BUFFER_SIZE

/-- Arrivals without bytes are moments with nothing to read. -/
theorem getLast_of_bytesOf_nil {as : List Arrival} (h : bytesOf as = []) (hne : as ≠ []) :
    as.getLast? = some .again := by
  obtain ⟨a, ha⟩ := Option.ne_none_iff_exists'.mp (mt List.getLast?_eq_none_iff.mp hne)
  cases a with
  | again => exact ha
  | data b bs =>
    obtain ⟨front, rfl⟩ := List.getLast?_eq_some_iff.mp ha
    rw [bytesOf_append, bytesOf_data] at h
    simp at h

section
variable {t : Nat} {p : Bytes} {as : List Arrival}

/-- The part at the end of the stream comes through unless the buffer is too small for it. -/
theorem handedLast_iff (hLF : LF ∉ p) (ht : t ≤ BUFFER_SIZE) :
    handedLast p [] = some (streamLines p, []) ↔ Carried t p [] := by
  have hcarried : Carried t p [] ↔ p ≠ [] ∧ p.length < BUFFER_SIZE ∧ 0 ∉ p := by
    constructor
    · rintro ⟨-, hends, hshort, hzero, -, -, -⟩
      rw [bytesOf_nil, List.append_nil, remainder_of_notMem hLF] at hends hshort
      rw [bytesOf_nil, List.append_nil] at hzero
      exact ⟨hends, hshort, hzero⟩
    · rintro ⟨hends, hshort, hzero⟩
      refine ⟨ht, ?_, ?_, ?_, Or.inr rfl, trivial, nofun⟩
      · rwa [bytesOf_nil, List.append_nil, remainder_of_notMem hLF]
      · rwa [bytesOf_nil, List.append_nil, remainder_of_notMem hLF]
      · rwa [bytesOf_nil, List.append_nil]
  rw [hcarried, handedLast, streamLines_of_notMem hLF, ← cstr_eq_self_iff]
  by_cases hshort : p.length < BUFFER_SIZE
  · by_cases hempty : p = []
    · simp [hempty]
    · simp [hshort, hempty]
  · simp [hshort]

/-- With a full buffer nothing else may be behind. -/
theorem not_carried_full {a : Arrival} : ¬ Carried BUFFER_SIZE p (a :: as) := by
  intro h
  have hnone : bytesOf (a :: as) = [] := by
    have hfits := h.fits
    exact List.length_eq_zero_iff.mp (by omega)
  have hwaits := h.waits (getLast_of_bytesOf_nil hnone (List.cons_ne_nil a as))
  have hpos : 0 < BUFFER_SIZE := by decide
  omega

/-- A read that finds nothing yet lets the part through only when half of the buffer is enough for
the count. -/
theorem carried_again_iff (hLF : LF ∉ p) :
    Carried t p (.again :: as) ↔ (p = [] ∨ 2 * t ≤ BUFFER_SIZE) ∧ Carried t p as := by
  constructor
  · intro h
    have hwaits : as.getLast? = some .again → 2 * (t + (bytesOf as).length) ≤ BUFFER_SIZE := by
      intro hlast
      refine h.waits ?_
      rw [List.getLast?_cons, hlast]
      rfl
    refine ⟨?_, h.fits, h.ends, h.short, h.zero, h.behind, h.cut, hwaits⟩
    -- Nothing arrives behind a part of a line, so the last wait is the one that counts.
    refine h.behind.imp_right fun hnone => ?_
    have hhalf := h.waits (getLast_of_bytesOf_nil hnone (List.cons_ne_nil _ _))
    rwa [hnone] at hhalf
  · rintro ⟨hhalf, h⟩
    refine ⟨h.fits, h.ends, h.short, h.zero, h.behind, h.cut, fun hlast => ?_⟩
    rw [bytesOf_again]
    by_cases has : as = []
    · subst has
      have hends := h.ends
      rw [bytesOf_nil, List.append_nil, remainder_of_notMem hLF] at hends
      exact hhalf.resolve_left hends
    · obtain ⟨a, as', rfl⟩ := List.exists_cons_of_ne_nil has
      rw [List.getLast?_cons_cons] at hlast
      exact h.waits hlast

/-- A line in front of a part is shorter than the buffer. -/
theorem short_of_fits {d more : Bytes} (hends : remainder LF (d ++ more) ≠ [])
    (hfits : (d ++ more).length ≤ BUFFER_SIZE) :
    (linesOf LF d).all (·.length < BUFFER_SIZE) = true := by
  rw [List.all_eq_true]
  intro l hl
  refine decide_eq_true ?_
  have hmem : l.length ≤ (linesOf LF d).flatten.length :=
    (List.sublist_flatten_of_mem hl).length_le
  have hfront : (linesOf LF d).flatten.length ≤ (linesOf LF (d ++ more)).flatten.length := by
    rw [linesOf_append, List.flatten_append, List.length_append]
    exact Nat.le_add_right _ _
  have hsplit := length_flatten_add_remainder LF (d ++ more)
  have hpos := List.length_pos_of_ne_nil hends
  omega

/-- One arrival with an empty buffer: its lines have to fit and to be without zeros, and the rest
has to be carried on. -/
theorem carried_data_iff {b : UInt8} {bs : Bytes} :
    Carried t [] (.data b bs :: as) ↔
      (linesOf LF (b :: bs)).all (·.length < BUFFER_SIZE) = true ∧
        (linesOf LF (b :: bs)).map cstr = linesOf LF (b :: bs) ∧
        Carried (t + (b :: bs).length) (remainder LF (b :: bs)) as := by
  have hremainder := remainder_append LF (b :: bs) (bytesOf as)
  have hsplit := flatten_append_remainder LF (b :: bs)
  -- The lines of this segment and what is left of it hold all of its bytes.
  have hzero : 0 ∉ [] ++ bytesOf (.data b bs :: as) ↔
      (linesOf LF (b :: bs)).map cstr = linesOf LF (b :: bs) ∧
        0 ∉ remainder LF (b :: bs) ++ bytesOf as := by
    rw [map_cstr_eq_self_iff, List.nil_append, bytesOf_data]
    conv_lhs => rw [← hsplit, List.append_assoc, List.mem_append, not_or]
  have hlast : (Arrival.data b bs :: as).getLast? = some .again ↔ as.getLast? = some .again := by
    cases as with
    | nil => simp
    | cons a as => rw [List.getLast?_cons_cons]
  constructor
  · intro h
    have hfits := h.fits
    have hends := h.ends
    have hshort := h.short
    obtain ⟨hmap, hzero'⟩ := hzero.mp h.zero
    rw [List.nil_append, bytesOf_data] at hends hshort
    rw [bytesOf_data] at hfits
    refine ⟨short_of_fits hends (by omega), hmap, ?_, ?_, ?_, hzero', h.cut.1, h.cut.2, ?_⟩
    · rwa [Nat.add_assoc, ← List.length_append]
    · rwa [← hremainder]
    · rwa [← hremainder]
    · intro hagain
      have hhalf := h.waits (hlast.mpr hagain)
      rwa [bytesOf_data, List.length_append, ← Nat.add_assoc] at hhalf
  · rintro ⟨-, hmap, h⟩
    refine ⟨?_, ?_, ?_, hzero.mpr ⟨hmap, h.zero⟩, Or.inl rfl, ⟨h.behind, h.cut⟩, ?_⟩
    · rw [bytesOf_data, List.length_append, ← Nat.add_assoc]
      exact h.fits
    · rw [List.nil_append, bytesOf_data, hremainder]
      exact h.ends
    · rw [List.nil_append, bytesOf_data, hremainder]
      exact h.short
    · intro hagain
      rw [bytesOf_data, List.length_append, ← Nat.add_assoc]
      exact h.waits (hlast.mp hagain)

/-- A part in front of a segment is lost, and too few bytes are passed on. -/
theorem not_handed_part {b : UInt8} {bs : Bytes} (hroom : t < BUFFER_SIZE) (hpart : p ≠ []) :
    handed t p (.data b bs :: as) ≠
      some (streamLines (p ++ bytesOf (.data b bs :: as)), []) := by
  intro h
  have hle := length_of_handed_data length_of_handed (Nat.ne_of_lt hroom) h
  have hpos := List.length_pos_of_ne_nil hpart
  rw [flatten_streamLines, List.length_append, bytesOf_data, List.length_append] at hle
  omega

/-- A segment behind whole lines. -/
theorem handed_data_iff {b : UInt8} {bs : Bytes} (hroom : t < BUFFER_SIZE)
    (hnext : t + (b :: bs).length ≤ BUFFER_SIZE →
      (handed (t + (b :: bs).length) (remainder LF (b :: bs)) as =
          some (streamLines (remainder LF (b :: bs) ++ bytesOf as), []) ↔
        Carried (t + (b :: bs).length) (remainder LF (b :: bs)) as)) :
    handed t [] (.data b bs :: as) = some (streamLines (bytesOf (.data b bs :: as)), []) ↔
      Carried t [] (.data b bs :: as) := by
  rw [handed, if_neg (Nat.ne_of_lt hroom), carried_data_iff, bytesOf_data, streamLines_append,
    handedLines_eq_some_iff]
  -- The segment fits into what is left of the buffer, or fills it.
  by_cases hall : (b :: bs).drop (BUFFER_SIZE - t) = []
  · rw [List.drop_eq_nil_iff] at hall
    rw [List.take_of_length_le hall, List.drop_of_length_le hall, if_pos rfl,
      ← hnext (by omega)]
    constructor
    · rintro ⟨hshort, more, hmore, heq⟩
      obtain ⟨hmap, rfl⟩ := List.append_inj heq (List.length_map cstr)
      exact ⟨hshort, hmap, hmore⟩
    · rintro ⟨hshort, hmap, hmore⟩
      exact ⟨hshort, _, hmore, by rw [hmap]⟩
  · -- The segment does not fit, and what is left of it is not read.
    constructor
    · rintro ⟨-, more, hmore, -⟩
      rw [if_neg hall] at hmore
      have hleft := (length_of_handedLast hmore).2
      rw [eq_comm, List.append_eq_nil_iff] at hleft
      have hbytes := congrArg bytesOf hleft.1
      rw [bytesOf_arrivalsOf] at hbytes
      exact absurd hbytes hall
    · rintro ⟨-, -, h⟩
      have hfits := h.fits
      rw [List.drop_eq_nil_iff] at hall
      omega

end

/-- What a connection passes on is what its stream is about exactly when the stream is carried. The
induction is on the arrivals. -/
theorem handed_iff (as : List Arrival) : ∀ {t : Nat} {p : Bytes}, LF ∉ p → t ≤ BUFFER_SIZE →
    (handed t p as = some (streamLines (p ++ bytesOf as), []) ↔ Carried t p as) := by
  induction as with
  | nil =>
    intro t p hLF ht
    rw [bytesOf_nil, List.append_nil]
    exact handedLast_iff hLF ht
  | cons a as ih =>
    intro t p hLF ht
    by_cases hfull : t = BUFFER_SIZE
    · -- The connection is closed, and arrivals are left.
      subst hfull
      rw [handed_full]
      refine ⟨fun h => ?_, fun h => absurd h not_carried_full⟩
      exact absurd (length_of_handedLast h).2 (List.cons_ne_nil a as).symm
    have hroom : t < BUFFER_SIZE := Nat.lt_of_le_of_ne ht hfull
    cases a with
    | again =>
      rw [handed, if_neg hfull, carried_again_iff hLF, bytesOf_again]
      by_cases hhalf : p = [] ∨ 2 * t ≤ BUFFER_SIZE
      · rw [if_pos hhalf, ih hLF ht]
        exact ⟨fun h => ⟨hhalf, h⟩, And.right⟩
      · rw [if_neg hhalf]
        exact ⟨nofun, fun h => absurd h.1 hhalf⟩
    | data b bs =>
      by_cases hpart : p = []
      · subst hpart
        exact handed_data_iff hroom fun hle => ih (notMem_remainder LF _) hle
      · refine ⟨fun h => absurd h (not_handed_part hroom hpart), fun h => ?_⟩
        exact absurd (h.behind.resolve_left hpart) (by simp)

/-- From the start of a connection, what is carried is what gets through. -/
theorem carried_start_iff {arrivals : List Arrival} :
    Carried 0 [] arrivals ↔ GetsThrough arrivals := by
  constructor
  · rintro ⟨hfits, hends, hshort, hzero, -, hcut, hwaits⟩
    rw [Nat.zero_add] at hfits hwaits
    rw [List.nil_append] at hends hshort hzero
    exact ⟨hfits, hends, hshort, hzero, hcut, hwaits⟩
  · rintro ⟨hfits, hends, hshort, hzero, hcut, hwaits⟩
    rw [← List.nil_append (bytesOf arrivals)] at hends hshort hzero
    rw [← Nat.zero_add (bytesOf arrivals).length] at hfits hwaits
    exact ⟨hfits, hends, hshort, hzero, Or.inl rfl, hcut, hwaits⟩

/-! ### The streams that get through -/

/-- The law of a connection: the lines of its stream are passed on, and what is behind them, and it
is closed at the end of the stream. -/
def Delivers (heap : Heap) (arrivals : List Arrival) : Prop :=
  ∃ conn, serve heap ⟨arrivals, .eof⟩ = .ok conn ∧ conn.isOpen = false ∧
    conn.lines = streamLines (bytesOf arrivals) ∧ conn.incoming.arrivals = []

/-- The callbacks get the stream's lines exactly when these are what is passed on. -/
theorem delivers_iff_handed {heap : Heap} {arrivals : List Arrival} :
    Delivers heap arrivals ↔
      handed 0 [] arrivals = some (streamLines (bytesOf arrivals), []) := by
  -- The run of the server ends as the abstract one says, trap or not.
  have hends := serve_ends heap ⟨arrivals, .eof⟩
  unfold Delivers
  cases hserve : serve heap ⟨arrivals, .eof⟩ with
  | error e =>
    rw [hserve] at hends
    cases hhanded : handed 0 [] arrivals with
    | none => simp
    | some r => simp only [hhanded, Ends] at hends
  | ok conn =>
    rw [hserve] at hends
    cases hhanded : handed 0 [] arrivals with
    | none => simp only [hhanded, Ends] at hends
    | some r =>
      simp only [hhanded, Ends] at hends
      obtain ⟨hclosed, hlines, harrivals⟩ := hends
      rw [List.nil_append] at hlines
      constructor
      · rintro ⟨conn', heq, -, hlines', harrivals'⟩
        cases heq
        rw [← hlines', ← harrivals', hlines, harrivals]
      · intro heq
        cases heq
        exact ⟨conn, rfl, hclosed, hlines, harrivals⟩

/-- The lines of a stream, and what is behind them, get through exactly when the stream has at most
as many bytes as the buffer, ends with a part of a line, has no zero byte, and is cut where lines
end; and when the connection waits for the end of the stream, half a buffer is enough for it. -/
theorem delivers_iff (heap : Heap) (arrivals : List Arrival) :
    Delivers heap arrivals ↔ GetsThrough arrivals := by
  rw [delivers_iff_handed, ← carried_start_iff,
    ← handed_iff arrivals List.not_mem_nil (Nat.zero_le _), List.nil_append]

/-- A line and a half, cut inside the line. -/
def cutLine : List Arrival := [.data 97 [98], .data 99 [LF, 100]]

/-- The first segment is lost. -/
theorem cutLine_loses_part :
    streamLines (bytesOf cutLine) = [[97, 98, 99, LF], [100]] ∧
      (serve zeroHeap ⟨cutLine, .eof⟩).map (·.lines) = .ok [[99, LF], [100]] ∧
      ¬ Delivers zeroHeap cutLine := by
  have hlost : (serve zeroHeap ⟨cutLine, .eof⟩).map (·.lines) = .ok [[99, LF], [100]] := rfl
  refine ⟨rfl, hlost, ?_⟩
  rintro ⟨conn, hserve, -, hlines, -⟩
  -- The line begins with its second segment.
  rw [hserve] at hlost
  have hpassed : conn.lines = [[99, LF], [100]] := Except.ok.inj hlost
  rw [hlines] at hpassed
  exact absurd hpassed (by decide)

end Compostela.RunLoop
