import Compostela.Follower.Rotate
import Compostela.Lib.Runs

/-!
# `Compostela.Proofs.RotateAgain`: a second call of `do_rotate` at the same time

`do_rotate` runs every second. For the next call at the same time there should be nothing to do:
each entry finds the context that the call before added for it. The search of an entry stops at
the first context of its file, so an entry only finds its own context when no other entry gives
the file another display name.

`followed` is what a search sees of the list, and `doRotate_eq_self_iff` says when a call leaves
everything as it is. `rotate_again_iff` is the condition on the entries.
-/

set_option autoImplicit false

namespace Compostela.Follower

open Compostela.Common
open Compostela.Memory
open Compostela.Runs

/-- The display name of the first context of a file. -/
def followed (contexts : List Listed) (fn : Bytes) : Option Bytes :=
  (contexts.find? fun c => c.cxt.filename = some fn).map (·.cxt.displayName)

/-- Every entry has its two names, and entries of one file give it the same display name. -/
structure OneName (clock : Clock) (patterns : List ScConfigPatternEntry) : Prop where
  named : ∀ pe ∈ patterns, ∃ fn dn, entryNames clock pe = .ok (fn, dn)
  agree : ∀ pe ∈ patterns, ∀ pe' ∈ patterns, ∀ fn dn dn', entryNames clock pe = .ok (fn, dn) →
    entryNames clock pe' = .ok (fn, dn') → dn = dn'

/-- Every entry finds its context. -/
def Follows (clock : Clock) (patterns : List ScConfigPatternEntry) (contexts : List Listed) :
    Prop :=
  ∀ pe ∈ patterns, ∃ fn dn, entryNames clock pe = .ok (fn, dn) ∧ followed contexts fn = some dn

/-- A new context in front is the first one of its file. -/
theorem followed_cons {contexts : List Listed} {new : Listed} {fn : Bytes} (fn' : Bytes)
    (h : new.cxt.filename = some fn) :
    followed (new :: contexts) fn' =
      if fn' = fn then some new.cxt.displayName else followed contexts fn' := by
  unfold followed
  by_cases hsame : fn' = fn
  · rw [if_pos hsame, List.find?_cons_of_pos (by simp [h, hsame])]
    rfl
  · rw [if_neg hsame, List.find?_cons_of_neg (by simp [h, Ne.symm hsame])]

section
variable {σ : Type} {net : Listed → Net σ} {clock : Clock} {heap : Nat → Heap}
  {patterns : List ScConfigPatternEntry} {contexts contexts' : List Listed}
  {conn conn' : ScAggregatorConnection σ}

/-- An entry that finds its context leaves everything as it is. -/
theorem rotateEntry_of_followed (net : Listed → Net σ) (heap : Heap)
    (conn : ScAggregatorConnection σ) {pe : ScConfigPatternEntry} {fn dn : Bytes}
    (hnames : entryNames clock pe = .ok (fn, dn)) (h : followed contexts fn = some dn) :
    rotateEntry net clock heap pe contexts conn = .ok (contexts, conn) := by
  obtain ⟨c, hfind, hdn⟩ := Option.map_eq_some_iff.mp h
  unfold rotateEntry
  rw [hnames, ok_bind]
  simp only [hfind]
  rw [if_pos hdn]

/-- After an entry its file is followed under its display name, and nothing changes for the other
files. When the entry did not find its context, there is one more. -/
theorem rotateEntry_followed {heap : Heap} {pe : ScConfigPatternEntry}
    (h : rotateEntry net clock heap pe contexts conn = .ok (contexts', conn')) :
    ∃ fn dn, entryNames clock pe = .ok (fn, dn) ∧
      (∀ fn', followed contexts' fn' = if fn' = fn then some dn else followed contexts fn') ∧
      (followed contexts fn ≠ some dn → contexts.length < contexts'.length) := by
  obtain ⟨fn, dn, hnames, ⟨c, hfind, hdn, rfl⟩ | ⟨-, new, rfl, hfn, hdn, -⟩⟩ := rotateEntry_eq_ok h
  · have hfound : followed contexts' fn = some dn := by
      rw [followed, hfind, ← hdn]
      rfl
    refine ⟨fn, dn, hnames, ?_, fun hother => absurd hfound hother⟩
    intro fn'
    split
    · rename_i hsame
      rw [hsame]
      exact hfound
    · rfl
  · refine ⟨fn, dn, hnames, ?_, fun _ => Nat.lt_succ_self _⟩
    intro fn'
    rw [followed_cons fn' hfn, hdn]

/-- A call leaves everything as it is exactly when every entry finds its context. -/
theorem doRotate_eq_self_iff :
    doRotate net clock heap patterns contexts conn = .ok (contexts, conn) ↔
      Follows clock patterns contexts := by
  induction patterns with
  | nil => exact ⟨fun _ => by simp [Follows], fun _ => rfl⟩
  | cons pe rest ih =>
    have hcons : Follows clock (pe :: rest) contexts ↔
        (∃ fn dn, entryNames clock pe = .ok (fn, dn) ∧ followed contexts fn = some dn) ∧
          Follows clock rest contexts := List.forall_mem_cons
    rw [hcons]
    constructor
    · intro h
      obtain ⟨⟨contexts1, conn1⟩, hentry, h⟩ := bind_eq_ok.mp h
      have hlen : contexts1.length ≤ contexts.length := (doRotate_suffix h).length_le
      obtain ⟨fn, dn, hnames, -, hmore⟩ := rotateEntry_followed hentry
      -- A context that is added would have to go again.
      have hfound : followed contexts fn = some dn := by
        by_contra hother
        exact absurd (hmore hother) (Nat.not_lt_of_le hlen)
      rw [rotateEntry_of_followed net (heap rest.length) conn hnames hfound] at hentry
      cases hentry
      exact ⟨⟨fn, dn, hnames, hfound⟩, ih.mp h⟩
    · rintro ⟨⟨fn, dn, hnames, hfound⟩, hrest⟩
      exact bind_eq_ok.mpr
        ⟨_, rotateEntry_of_followed net (heap rest.length) conn hnames hfound, ih.mpr hrest⟩

/-- After a call each file of an entry is followed under the display name of one of its entries,
and nothing changes for the other files. -/
theorem doRotate_followed (fn : Bytes)
    (h : doRotate net clock heap patterns contexts conn = .ok (contexts', conn')) :
    (∃ pe ∈ patterns, ∃ dn, entryNames clock pe = .ok (fn, dn) ∧
        followed contexts' fn = some dn) ∨
      (∀ pe ∈ patterns, ∀ dn, entryNames clock pe ≠ .ok (fn, dn)) ∧
        followed contexts' fn = followed contexts fn := by
  induction patterns generalizing contexts conn with
  | nil =>
    cases h
    exact Or.inr ⟨by simp, rfl⟩
  | cons pe rest ih =>
    obtain ⟨⟨contexts1, conn1⟩, hentry, h⟩ := bind_eq_ok.mp h
    obtain ⟨fn1, dn1, hnames, hfollowed, -⟩ := rotateEntry_followed hentry
    -- The last entry for a file decides which context follows it.
    rcases ih h with ⟨pe', hpe', dn, hnames', hdn⟩ | ⟨hnone, hsame⟩
    · exact Or.inl ⟨pe', List.mem_cons_of_mem _ hpe', dn, hnames', hdn⟩
    · -- No later entry has this file.
      rw [hfollowed fn] at hsame
      by_cases hfn : fn = fn1
      · rw [if_pos hfn] at hsame
        rw [← hfn] at hnames
        exact Or.inl ⟨pe, List.mem_cons_self, dn1, hnames, hsame⟩
      · rw [if_neg hfn] at hsame
        refine Or.inr ⟨List.forall_mem_cons.mpr ⟨?_, hnone⟩, hsame⟩
        intro dn heq
        rw [hnames] at heq
        cases heq
        exact hfn rfl

/-- After a call every entry finds its context exactly when the entries of a file agree. -/
theorem follows_iff_oneName
    (h : doRotate net clock heap patterns contexts conn = .ok (contexts', conn')) :
    Follows clock patterns contexts' ↔ OneName clock patterns := by
  constructor
  · intro hfollows
    constructor
    · intro pe hpe
      obtain ⟨fn, dn, hnames, -⟩ := hfollows pe hpe
      exact ⟨fn, dn, hnames⟩
    -- One file is followed under one name, so two entries for it agree.
    · intro pe hpe pe' hpe' fn dn dn' hnames hnames'
      obtain ⟨fn1, dn1, hnames1, hdn⟩ := hfollows pe hpe
      obtain ⟨fn2, dn2, hnames2, hdn'⟩ := hfollows pe' hpe'
      rw [hnames] at hnames1
      rw [hnames'] at hnames2
      cases hnames1
      cases hnames2
      exact Option.some.inj (hdn.symm.trans hdn')
  · intro hone pe hpe
    obtain ⟨fn, dn, hnames⟩ := hone.named pe hpe
    refine ⟨fn, dn, hnames, ?_⟩
    rcases doRotate_followed fn h with ⟨pe', hpe', dn', hnames', hdn⟩ | ⟨hnone, -⟩
    · rw [hdn, hone.agree pe hpe pe' hpe' fn dn dn' hnames hnames']
    · exact absurd hnames (hnone pe hpe dn)

/-- A call goes through when every entry has its names and every close returns. -/
theorem exists_doRotate
    (hclose : ∀ k c conn, ∃ r, scFollowContextClose (net c) (heap k) c.cxt conn = .ok r)
    (hnamed : ∀ pe ∈ patterns, ∃ fn dn, entryNames clock pe = .ok (fn, dn))
    (contexts : List Listed) (conn : ScAggregatorConnection σ) :
    ∃ r, doRotate net clock heap patterns contexts conn = .ok r := by
  induction patterns generalizing contexts conn with
  | nil => exact ⟨_, rfl⟩
  | cons pe rest ih =>
    obtain ⟨fn, dn, hnames⟩ := hnamed pe List.mem_cons_self
    -- The names can be built and the RELE exchange does not trap.
    have hentry : ∃ r, rotateEntry net clock (heap rest.length) pe contexts conn = .ok r := by
      unfold rotateEntry
      rw [hnames, ok_bind]
      simp only
      cases contexts.find? fun c => c.cxt.filename = some fn with
      | none => exact ⟨_, rfl⟩
      | some c =>
        obtain ⟨⟨ret, conn1⟩, hret⟩ := hclose rest.length c conn
        simp only
        split
        · exact ⟨_, rfl⟩
        · exact ⟨_, bind_eq_ok.mpr ⟨_, hret, rfl⟩⟩
    obtain ⟨⟨contexts1, conn1⟩, hentry⟩ := hentry
    obtain ⟨r, hrest⟩ := ih (fun pe' hpe' => hnamed pe' (List.mem_cons_of_mem _ hpe'))
      contexts1 conn1
    exact ⟨r, bind_eq_ok.mpr ⟨_, hentry, hrest⟩⟩

/-- `do_rotate`, and then any number of calls at the same time that add no context and use the
connection for nothing. -/
def RotatesOnce (net : Listed → Net σ) (clock : Clock) (heap : Nat → Heap)
    (patterns : List ScConfigPatternEntry) (contexts : List Listed)
    (conn : ScAggregatorConnection σ) : Prop :=
  ∃ contexts' conn', doRotate net clock heap patterns contexts conn = .ok (contexts', conn') ∧
    ∀ later : List (Nat → Heap),
      later.foldlM (fun s heap => doRotate net clock heap patterns s.1 s.2) (contexts', conn') =
        .ok (contexts', conn')

/-- The second call finds the contexts of the first one. -/
theorem RotatesOnce.oneName (h : RotatesOnce net clock heap patterns contexts conn) :
    OneName clock patterns := by
  obtain ⟨contexts', conn', hfirst, hlater⟩ := h
  obtain ⟨s, hs, hend⟩ := foldlM_cons_eq_ok.mp (hlater [heap])
  cases hend
  exact (follows_iff_oneName hfirst).mp (doRotate_eq_self_iff.mp hs)

/-- The later calls have nothing to do exactly when the entries of each file agree on its display
name, whatever contexts the list had before. -/
theorem rotatesOnce_iff (heap : Nat → Heap)
    (hclose : ∀ k c conn, ∃ r, scFollowContextClose (net c) (heap k) c.cxt conn = .ok r)
    (patterns : List ScConfigPatternEntry) (contexts : List Listed)
    (conn : ScAggregatorConnection σ) :
    RotatesOnce net clock heap patterns contexts conn ↔ OneName clock patterns := by
  constructor
  · exact RotatesOnce.oneName
  · intro hone
    obtain ⟨⟨contexts', conn'⟩, hfirst⟩ := exists_doRotate hclose hone.named contexts conn
    have hfollows := (follows_iff_oneName hfirst).mpr hone
    refine ⟨contexts', conn', hfirst, ?_⟩
    intro later
    induction later with
    | nil => rfl
    | cons heap' rest ih =>
      exact foldlM_cons_eq_ok.mpr ⟨_, doRotate_eq_self_iff.mpr hfollows, ih⟩

end

/-! ### Small lists -/

/-- A peer that takes every request and answers it with an empty response. -/
def answering : Net Unit where
  sendall s data := .ok (data.length, s)
  recvall s _ := .ok (headerSize, ScLogMessage.netHeader SCM_RESP_OK 1 0, s)

/-- A RELE request is answered. -/
theorem exists_close_answering (cxt : ScFollowContext) (conn : ScAggregatorConnection Unit) :
    ∃ r, scFollowContextClose answering zeroHeap cxt conn = .ok r := by
  obtain ⟨opened, net⟩ := conn
  have hlen : (releMessage cxt).contentLength.toInt = 4 := rfl
  have hsize : ((releMessage cxt).content.size : Int) = 4 := rfl
  unfold scFollowContextClose
  cases opened with
  | false => exact ⟨_, rfl⟩
  | true =>
    rw [if_neg Bool.noConfusion]
    split
    · exact ⟨_, rfl⟩
    · rw [scAggregatorConnectionSendMessage_of_frame rfl (by omega) (by omega)]
      simp only [answering, Except.map, ok_bind]
      split
      · exact ⟨_, rfl⟩
      · exact ⟨_, rfl⟩

/-- The file `a`, and the file `b` with its own display name. -/
def twoFiles : List ScConfigPatternEntry :=
  [⟨[97], none, false, false⟩, ⟨[98], some [120], false, false⟩]

/-- The file `a` with two display names. -/
def twoNames : List ScConfigPatternEntry :=
  [⟨[97], some [120], false, false⟩, ⟨[97], some [121], false, false⟩]

/-- A time at which nothing can be written. -/
def anyTime : Clock := ⟨fun _ => none, nofun⟩

/-- The two entries are for different files. -/
theorem oneName_twoFiles : OneName anyTime twoFiles := by
  have hfirst : entryNames anyTime ⟨[97], none, false, false⟩ = .ok ([97], [97]) := by decide
  have hsecond : entryNames anyTime ⟨[98], some [120], false, false⟩ = .ok ([98], [120]) := by
    decide
  constructor
  · simp [twoFiles, hfirst, hsecond]
  · simp [twoFiles, hfirst, hsecond]

/-- Two entries for two files, of which each rotates once. -/
theorem rotatesOnce_twoFiles :
    OneName anyTime twoFiles ∧
      RotatesOnce (fun _ => answering) anyTime (fun _ => zeroHeap) twoFiles [] ⟨true, ()⟩ :=
  ⟨oneName_twoFiles, (rotatesOnce_iff (fun _ => zeroHeap)
    (fun _ c conn => exists_close_answering c.cxt conn) twoFiles [] ⟨true, ()⟩).mpr
      oneName_twoFiles⟩

/-- After one, two and three calls at one time the list has two, four and six contexts. -/
theorem not_rotatesOnce_twoNames :
    (∀ n ∈ [1, 2, 3], ((List.replicate n fun _ => zeroHeap).foldlM
      (fun s heap => doRotate (fun _ => answering) anyTime heap twoNames s.1 s.2)
        ([], ⟨true, ()⟩)).map (fun s => s.1.length) = .ok (2 * n)) ∧
      ¬ RotatesOnce (fun _ => answering) anyTime (fun _ => zeroHeap) twoNames [] ⟨true, ()⟩ := by
  refine ⟨by decide, ?_⟩
  intro h
  have hsame := h.oneName.agree _ List.mem_cons_self _ (List.mem_cons_of_mem _ List.mem_cons_self)
    [97] [120] [121] (by decide) (by decide)
  exact absurd hsame (by decide)

end Compostela.Follower
