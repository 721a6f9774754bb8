import Mathlib.Data.List.Basic

/-!
# `Compostela.Lib.Segments`: byte streams cut into segments

A stream socket keeps the bytes and their order, not the boundaries between writes. The
reading side finds a list of `Arrival`s: non-empty segments of any length, and moments
with nothing to read on a non-blocking socket. After the last arrival the stream has an
`Ending`, which every later read finds again.

`readFull` is the loop that reads until it has `n` bytes or the stream ends.
`readFull_fst` and `bytesOf_readFull_snd` say that the segmentation is invisible to it:
it takes the first `n` bytes of the stream and leaves the others.

`writeFull` is the loop that writes until everything is accepted. Each call accepts some
of the bytes or refuses. `writeFull_fst_prefix` says that a prefix of the data is what
gets out, and `writeFull_of_accepting` that nothing is missing when no call refuses.
`writeFull_fst` says where the prefix ends: at the `allowance` of the calls.
-/

set_option autoImplicit false

namespace Compostela.Segments

/-- What one read finds: a non-empty segment, or nothing at the moment. -/
inductive Arrival
  | data (b : UInt8) (bs : List UInt8)
  | again
  deriving DecidableEq, Repr

/-- What every read finds after the last arrival. -/
inductive Ending
  | eof
  | error
  deriving DecidableEq, Repr

/-- The reading side of a stream: what is still to arrive, and how the stream ends. -/
structure Incoming where
  arrivals : List Arrival
  ending : Ending
  deriving DecidableEq, Repr

def Arrival.bytes : Arrival → List UInt8
  | .data b bs => b :: bs
  | .again => []

/-- The bytes of a list of arrivals, in order. -/
def bytesOf (as : List Arrival) : List UInt8 := as.flatMap Arrival.bytes

def Incoming.bytes (s : Incoming) : List UInt8 := bytesOf s.arrivals

/-- No arrival brings no byte. -/
@[simp] theorem bytesOf_nil : bytesOf [] = [] := rfl

/-- A read that finds nothing yet brings no byte. -/
@[simp] theorem bytesOf_again (as : List Arrival) : bytesOf (.again :: as) = bytesOf as := rfl

/-- The bytes of the first arrival are in front. -/
@[simp] theorem bytesOf_data (b : UInt8) (bs : List UInt8) (as : List Arrival) :
    bytesOf (.data b bs :: as) = b :: bs ++ bytesOf as := rfl

/-- The bytes of two groups of arrivals are one behind the other. -/
@[simp] theorem bytesOf_append (as rest : List Arrival) :
    bytesOf (as ++ rest) = bytesOf as ++ bytesOf rest := List.flatMap_append

/-- The arrivals of a byte string that comes in one segment. -/
def arrivalsOf : List UInt8 → List Arrival
  | [] => []
  | b :: bs => [.data b bs]

/-- Bytes that arrive are the bytes that were sent. -/
@[simp] theorem bytesOf_arrivalsOf (bs : List UInt8) : bytesOf (arrivalsOf bs) = bs := by
  cases bs <;> simp [arrivalsOf]

/-- Read until `n` bytes are there or the stream ends. One read per arrival: a segment
longer than what is missing is split and its rest stays in the stream. -/
def readFull : Nat → List Arrival → List UInt8 × List Arrival
  | 0, as => ([], as)
  | _ + 1, [] => ([], [])
  | n + 1, .again :: as => readFull (n + 1) as
  | n + 1, .data b bs :: as =>
      match bs.drop n with
      | [] =>
          let r := readFull (n - bs.length) as
          (b :: bs ++ r.1, r.2)
      | c :: cs => (b :: bs.take n, .data c cs :: as)

/-- Nothing is read when nothing is asked for. -/
@[simp] theorem readFull_zero (as : List Arrival) : readFull 0 as = ([], as) := by
  cases as <;> rfl

/-- The loop gets the first `n` bytes of the stream, whatever the segments are. -/
theorem readFull_fst (n : Nat) (as : List Arrival) :
    (readFull n as).1 = (bytesOf as).take n := by
  fun_induction readFull n as with
  | case1 as => simp
  | case2 n => simp
  | case3 n as ih => simpa using ih
  | case4 n b bs as hdrop r ih =>
      have hle : bs.length ≤ n := by simpa using hdrop
      have ih' : r.1 = (bytesOf as).take (n - bs.length) := ih
      simp [ih', List.take_append, List.take_of_length_le hle]
  | case5 n b bs as c cs hdrop =>
      have hlt : n < bs.length := by
        have := congrArg List.length hdrop
        simp at this
        omega
      simp [List.take_append_of_le_length (Nat.le_of_lt hlt)]

/-- The loop leaves the bytes after the first `n`. -/
theorem bytesOf_readFull_snd (n : Nat) (as : List Arrival) :
    bytesOf (readFull n as).2 = (bytesOf as).drop n := by
  fun_induction readFull n as with
  | case1 as => simp
  | case2 n => simp
  | case3 n as ih => simpa using ih
  | case4 n b bs as hdrop r ih =>
      have hle : bs.length ≤ n := by simpa using hdrop
      have ih' : bytesOf r.2 = (bytesOf as).drop (n - bs.length) := ih
      simp [ih', List.drop_append, List.drop_of_length_le hle]
  | case5 n b bs as c cs hdrop =>
      have hlt : n < bs.length := by
        have := congrArg List.length hdrop
        simp at this
        omega
      simp [List.drop_append_of_le_length (Nat.le_of_lt hlt), ← hdrop]

/-- What one write call does with the bytes it is given: it accepts the first `k + 1` of
them (all of them when there are fewer), or none. -/
inductive Accept
  | upTo (k : Nat)
  | refuse
  deriving DecidableEq, Repr

/-- Write until everything is accepted or a call refuses. The first component is what was
accepted. Past the end of the script every call accepts everything. -/
def writeFull : List UInt8 → List Accept → List UInt8 × List Accept
  | [], rs => ([], rs)
  | b :: bs, [] => (b :: bs, [])
  | _ :: _, .refuse :: rs => ([], rs)
  | b :: bs, .upTo k :: rs =>
      let r := writeFull (bs.drop k) rs
      (b :: bs.take k ++ r.1, r.2)

/-- What gets out is a prefix of the data. -/
theorem writeFull_fst_prefix (data : List UInt8) (rs : List Accept) :
    (writeFull data rs).1 <+: data := by
  fun_induction writeFull data rs with
  | case1 rs => simp
  | case2 b bs => simp
  | case3 b bs rs => simp
  | case4 b bs k rs r ih =>
      have h : bs.take k ++ r.1 <+: bs.take k ++ bs.drop k :=
        (List.prefix_append_right_inj _).mpr ih
      rw [List.take_append_drop] at h
      simpa using h

/-- When no call refuses, everything gets out, and no later call is affected. -/
theorem writeFull_of_accepting (data : List UInt8) (rs : List Accept)
    (h : ∀ r ∈ rs, r ≠ .refuse) :
    (writeFull data rs).1 = data ∧ ∀ r ∈ (writeFull data rs).2, r ≠ .refuse := by
  fun_induction writeFull data rs with
  | case1 rs => exact ⟨rfl, h⟩
  | case2 b bs => simp
  | case3 b bs rs => exact absurd rfl (h .refuse (by simp))
  | case4 b bs k rs r ih =>
      obtain ⟨hall, hrest⟩ := ih (fun x hx => h x (by simp [hx]))
      refine ⟨?_, hrest⟩
      have hr : r.1 = bs.drop k := hall
      simp [hr]

/-- The number of bytes that the calls accept before the first refusal, if there is one. -/
def allowance : List Accept → Option Nat
  | [] => none
  | .refuse :: _ => some 0
  | .upTo k :: rs => (allowance rs).map (k + 1 + ·)

/-- The loop gets out as many bytes as are accepted before the first refusal. -/
theorem writeFull_fst (data : List UInt8) (rs : List Accept) :
    (writeFull data rs).1 = match allowance rs with
      | none => data
      | some n => data.take n := by
  fun_induction writeFull data rs with
  | case1 rs => cases allowance rs <;> simp
  | case2 b bs => rfl
  | case3 b bs rs => rfl
  | case4 b bs k rs r ih =>
      have ih' : r.1 = match allowance rs with
        | none => bs.drop k
        | some n => (bs.drop k).take n := ih
      rw [allowance, ih']
      cases allowance rs with
      | none => simp
      | some n =>
        have hsum : k + 1 + n = (k + n) + 1 := by omega
        simp only [Option.map_some, hsum, List.take_succ_cons, List.cons_append, List.take_add]

end Compostela.Segments
