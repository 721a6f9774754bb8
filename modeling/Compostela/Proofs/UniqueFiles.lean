import Compostela.Follower.Client
import Compostela.Follower.ContextList
import Mathlib.Data.List.Nodup

/-!
# `Compostela.Proofs.UniqueFiles`: the files of the context list

`do_rotate` looks for the file of an entry and adds a context when it finds none, but it also
adds one when the context it finds has another display name, and the old context stays. The
`OPEN` command does not look at all.

`OneContextPerFile` is the law, and `KeepsNames` the condition on an event.
`oneContextPerFile_step_iff` shows that it is exact for every event, and
`oneContextPerFile_run` is the result for every run of the follower.
-/

set_option autoImplicit false

namespace Compostela.Proofs.UniqueFiles

open Compostela.Common
open Compostela.Memory
open Compostela.Runs
open Compostela.Follower

/-- No two contexts of the list follow the same file. -/
def OneContextPerFile (contexts : List Listed) : Prop :=
  ∀ (i j : Nat) (c d : Listed) (fn : Bytes), contexts[i]? = some c → contexts[j]? = some d →
    c.cxt.filename = some fn → d.cxt.filename = some fn → i = j

/-- The names of the moment agree: an entry gives its file the display name that a context of
the file has, and that every other entry of the file gives it. -/
def NamesAgree (clock : Clock) (patterns : List ScConfigPatternEntry) (contexts : List Listed) :
    Prop :=
  ∀ pe ∈ patterns, ∀ fn dn, entryNames clock pe = .ok (fn, dn) →
    (∀ c ∈ contexts, c.cxt.filename = some fn → c.cxt.displayName = dn) ∧
      ∀ pe' ∈ patterns, ∀ dn', entryNames clock pe' = .ok (fn, dn') → dn' = dn

/-- The commands name files that no context follows, each file once. -/
def OpensNew (lines : List Bytes) (contexts : List Listed) : Prop :=
  (openedFiles lines).Nodup ∧
    ∀ fn ∈ openedFiles lines, ∀ c ∈ contexts, c.cxt.filename ≠ some fn

/-- An event of the list keeps to one context for each file. -/
def KeepsNames {σ : Type} (patterns : List ScConfigPatternEntry) (s : ContextList σ) :
    ContextList.Event σ → Prop
  | .tick clock _ => NamesAgree clock patterns s.contexts
  | .control heap _ data => ∀ lines, readControl heap data = .ok lines → OpensNew lines s.contexts
  | .run .. => True
  | .reconnect .. => True
  | .network .. => True

/-! ### The files of a list -/

/-- The files that the contexts follow. -/
def filesOf (contexts : List Listed) : List Bytes := contexts.filterMap (·.cxt.filename)

/-- One context for each file means that no name is in the list of names twice. -/
theorem oneContextPerFile_iff (contexts : List Listed) :
    OneContextPerFile contexts ↔ (filesOf contexts).Nodup := by
  rw [filesOf, List.Nodup, List.pairwise_filterMap, List.pairwise_iff_getElem]
  constructor
  · intro h i j hi hj hlt fn hfn fn' hfn' heq
    subst heq
    have hsame := h i j contexts[i] contexts[j] fn (List.getElem?_eq_getElem hi)
      (List.getElem?_eq_getElem hj) hfn hfn'
    omega
  · intro h i j c d fn hc hd hcfn hdfn
    obtain ⟨hi, rfl⟩ := List.getElem?_eq_some_iff.mp hc
    obtain ⟨hj, rfl⟩ := List.getElem?_eq_some_iff.mp hd
    -- Neither place is before the other.
    rcases Nat.lt_trichotomy i j with hlt | heq | hlt
    · exact absurd rfl (h i j hi hj hlt fn hcfn fn hdfn)
    · exact heq
    · exact absurd rfl (h j i hj hi hlt fn hdfn fn hcfn)

/-- The names of the list are those of its contexts. -/
theorem mem_filesOf {contexts : List Listed} {fn : Bytes} :
    fn ∈ filesOf contexts ↔ ∃ c ∈ contexts, c.cxt.filename = some fn := List.mem_filterMap

/-- A new context in front keeps the law exactly when nobody follows its file. -/
theorem oneContextPerFile_cons {contexts : List Listed} {new : Listed} {fn : Bytes}
    (hfile : new.cxt.filename = some fn) :
    OneContextPerFile (new :: contexts) ↔
      (∀ c ∈ contexts, c.cxt.filename ≠ some fn) ∧ OneContextPerFile contexts := by
  rw [oneContextPerFile_iff, oneContextPerFile_iff]
  have hcons : filesOf (new :: contexts) = fn :: filesOf contexts := by
    simp [filesOf, hfile]
  rw [hcons, List.nodup_cons, mem_filesOf]
  constructor
  · rintro ⟨hnone, hrest⟩
    exact ⟨fun c hc heq => hnone ⟨c, hc, heq⟩, hrest⟩
  · rintro ⟨hnone, hrest⟩
    exact ⟨fun ⟨c, hc, heq⟩ => hnone c hc heq, hrest⟩

/-- With fewer contexts there is still at most one for each file. -/
theorem OneContextPerFile.sublist {contexts contexts' : List Listed}
    (h : OneContextPerFile contexts) (hsub : contexts'.Sublist contexts) :
    OneContextPerFile contexts' := by
  rw [oneContextPerFile_iff] at h ⊢
  exact h.sublist (hsub.filterMap _)

/-- Two contexts with one file are the same. -/
theorem OneContextPerFile.eq {contexts : List Listed} {c d : Listed} {fn : Bytes}
    (h : OneContextPerFile contexts) (hc : c ∈ contexts) (hd : d ∈ contexts)
    (hcfn : c.cxt.filename = some fn) (hdfn : d.cxt.filename = some fn) : c = d := by
  obtain ⟨i, hi⟩ := List.mem_iff_getElem?.mp hc
  obtain ⟨j, hj⟩ := List.mem_iff_getElem?.mp hd
  have hij := h i j c d fn hi hj hcfn hdfn
  rw [hij, hj] at hi
  exact (Option.some.inj hi).symm

/-- Without contexts no file has two. -/
theorem oneContextPerFile_nil : OneContextPerFile [] := by
  intro i j c d fn hc
  simp at hc

/-! ### The events -/

section
variable {σ : Type} {net : Listed → Net σ} {clock : Clock} {heap : Nat → Heap} {md5 : Md5}
  {patterns : List ScConfigPatternEntry} {contexts contexts' : List Listed}
  {conn conn' : ScAggregatorConnection σ} {s s' : ContextList σ}

/-- A file that `find?` does not find in the list. -/
theorem filename_ne_of_find {fn : Bytes}
    (h : (contexts.find? fun c => c.cxt.filename = some fn) = none) :
    ∀ c ∈ contexts, c.cxt.filename ≠ some fn := by
  intro c hc heq
  have hnone := List.find?_eq_none.mp h c hc
  simp [heq] at hnone

/-- The names of all entries agree with a list exactly when those of the later entries agree
with the list that has the context of the first entry in it. -/
theorem namesAgree_cons_iff {pe : ScConfigPatternEntry} {rest : List ScConfigPatternEntry}
    {contexts1 : List Listed} {c : Listed} {fn dn : Bytes}
    (hnames : entryNames clock pe = .ok (fn, dn)) (h1 : OneContextPerFile contexts1)
    (hc : c ∈ contexts1) (hfn : c.cxt.filename = some fn) (hdn : c.cxt.displayName = dn)
    (hmem : ∀ d, d ∈ contexts1 ↔ d = c ∨ d ∈ contexts) :
    NamesAgree clock (pe :: rest) contexts ↔ NamesAgree clock rest contexts1 := by
  constructor
  · intro h pe2 hpe2 fn2 dn2 hnames2
    obtain ⟨hlist, hentries⟩ := h pe2 (List.mem_cons_of_mem _ hpe2) fn2 dn2 hnames2
    refine ⟨?_, fun pe' hpe' => hentries pe' (List.mem_cons_of_mem _ hpe')⟩
    intro d hd hdfn
    rcases (hmem d).mp hd with rfl | hd
    · -- The context of the first entry has that entry's name.
      have hsame : fn = fn2 := Option.some.inj (hfn.symm.trans hdfn)
      rw [← hsame] at hnames2 hentries
      rw [hdn]
      exact hentries pe (List.mem_cons_self ..) dn hnames
    · exact hlist d hd hdfn
  · intro h
    -- A later entry of the same file gives it the name of the first one.
    have hlater : ∀ pe2 ∈ rest, ∀ dn2, entryNames clock pe2 = .ok (fn, dn2) → dn2 = dn := by
      intro pe2 hpe2 dn2 hnames2
      rw [← hdn]
      exact ((h pe2 hpe2 fn dn2 hnames2).1 c hc hfn).symm
    intro pe2 hpe2 fn2 dn2 hnames2
    rcases List.mem_cons.mp hpe2 with rfl | hrest2
    · rw [hnames] at hnames2
      cases hnames2
      constructor
      · intro d hd hdfn
        rw [h1.eq ((hmem d).mpr (Or.inr hd)) hc hdfn hfn]
        exact hdn
      · intro pe' hpe' dn' hnames'
        rcases List.mem_cons.mp hpe' with rfl | hpe'
        · rw [hnames] at hnames'
          cases hnames'
          rfl
        · exact hlater pe' hpe' dn' hnames'
    · obtain ⟨hlist, hentries⟩ := h pe2 hrest2 fn2 dn2 hnames2
      refine ⟨fun d hd => hlist d ((hmem d).mpr (Or.inr hd)), ?_⟩
      intro pe' hpe' dn' hnames'
      rcases List.mem_cons.mp hpe' with rfl | hpe'
      · rw [hnames] at hnames'
        cases hnames'
        exact (hlater pe2 hrest2 dn2 hnames2).symm
      · exact hentries pe' hpe' dn' hnames'

/-- A call of `do_rotate` keeps the law exactly when the names agree. By induction on the
patterns: a list that breaks the law stays broken, because contexts are only added. -/
theorem oneContextPerFile_tick_iff (h : OneContextPerFile contexts)
    (hrun : doRotate net clock heap patterns contexts conn = .ok (contexts', conn')) :
    OneContextPerFile contexts' ↔ NamesAgree clock patterns contexts := by
  induction patterns generalizing contexts conn with
  | nil =>
    cases hrun
    exact ⟨fun _ => by simp [NamesAgree], fun _ => h⟩
  | cons pe rest ih =>
    unfold doRotate at hrun
    obtain ⟨⟨contexts1, conn1⟩, hentry, hlater⟩ := bind_eq_ok.mp hrun
    obtain ⟨fn, dn, hnames, ⟨c, hfind, hdn, rfl⟩ | ⟨hother, new, rfl, hfn, hdn, -⟩⟩ :=
      rotateEntry_eq_ok hentry
    · -- The file is followed under this name already.
      have hc := List.mem_of_find?_eq_some hfind
      have hfn : c.cxt.filename = some fn := by simpa using List.find?_some hfind
      rw [ih h hlater, namesAgree_cons_iff hnames h hc hfn hdn]
      intro d
      exact ⟨Or.inr, fun hd => hd.elim (fun heq => heq ▸ hc) id⟩
    · cases hfind : contexts.find? fun c => c.cxt.filename = some fn with
      | none =>
        have h1 : OneContextPerFile (new :: contexts) :=
          (oneContextPerFile_cons hfn).mpr ⟨filename_ne_of_find hfind, h⟩
        rw [ih h1 hlater, namesAgree_cons_iff hnames h1 (List.mem_cons_self ..) hfn hdn]
        exact fun d => List.mem_cons
      | some c =>
        -- The old context and the new one both follow the file.
        have hc := List.mem_of_find?_eq_some hfind
        have hcfn : c.cxt.filename = some fn := by simpa using List.find?_some hfind
        constructor
        · intro h'
          have h1 := h'.sublist (doRotate_suffix hlater).sublist
          exact absurd hcfn (((oneContextPerFile_cons hfn).mp h1).1 c hc)
        · intro hagree
          obtain ⟨hlist, -⟩ := hagree pe (List.mem_cons_self ..) fn dn hnames
          exact absurd (hlist c hc hcfn) (hother c hfind)

/-- The commands of a control connection keep the law exactly when they open new files. -/
theorem oneContextPerFile_control_iff {heap : Heap} {heaps : Nat → Heap} {data : Bytes}
    (h : OneContextPerFile contexts)
    (hrun : doReceiveData0 heap heaps data contexts = .ok contexts') :
    OneContextPerFile contexts' ↔
      ∀ lines, readControl heap data = .ok lines → OpensNew lines contexts := by
  obtain ⟨lines, hlines, hrun⟩ := bind_eq_ok.mp hrun
  obtain ⟨new, rfl, hnew, -⟩ := openLines_eq_ok hrun
  -- The files of the new contexts stand in front, the last line first.
  have hfiles : filesOf (new ++ contexts) = (openedFiles lines).reverse ++ filesOf contexts := by
    rw [filesOf, List.filterMap_append, hnew]
    rfl
  rw [oneContextPerFile_iff] at h ⊢
  rw [hfiles, List.nodup_append, List.nodup_reverse]
  constructor
  · rintro ⟨hnodup, -, hdisjoint⟩ lines' hlines'
    rw [hlines] at hlines'
    cases hlines'
    refine ⟨hnodup, ?_⟩
    intro fn hfn c hc heq
    exact hdisjoint fn (List.mem_reverse.mpr hfn) fn (mem_filesOf.mpr ⟨c, hc, heq⟩) rfl
  · intro hopens
    obtain ⟨hnodup, hnone⟩ := hopens lines hlines
    refine ⟨hnodup, h, ?_⟩
    intro fn hfn fn' hfn' heq
    obtain ⟨c, hc, hcfn⟩ := mem_filesOf.mp hfn'
    rw [← heq] at hcfn
    exact hnone fn (List.mem_reverse.mp hfn) c hc hcfn

/-- Every context of the list has a valid buffer. -/
def AllValid (contexts : List Listed) : Prop := ∀ c ∈ contexts, c.cxt.buffer.Valid

/-- A tick leaves valid buffers. -/
theorem AllValid.doRotate (h : AllValid contexts)
    (hrun : doRotate net clock heap patterns contexts conn = .ok (contexts', conn')) :
    AllValid contexts' := by
  induction patterns generalizing contexts conn with
  | nil =>
    cases hrun
    exact h
  | cons pe rest ih =>
    unfold Follower.doRotate at hrun
    obtain ⟨⟨contexts1, conn1⟩, hentry, hlater⟩ := bind_eq_ok.mp hrun
    refine ih ?_ hlater
    obtain ⟨fn, dn, -, ⟨c, -, -, rfl⟩ | ⟨-, new, rfl, -, -, hvalid⟩⟩ := rotateEntry_eq_ok hentry
    · exact h
    · exact List.forall_mem_cons.mpr ⟨hvalid, h⟩

/-- An event leaves valid buffers. -/
theorem AllValid.step {e : ContextList.Event σ} (h : AllValid s.contexts)
    (hstep : s.step net md5 patterns e = .ok s') : AllValid s'.contexts := by
  cases e with
  | tick clock heap =>
    obtain ⟨⟨contexts1, conn1⟩, hrotate, hstep⟩ := bind_eq_ok.mp hstep
    cases hstep
    exact h.doRotate hrotate
  | control heap heaps data =>
    obtain ⟨contexts1, hreceive, hstep⟩ := bind_eq_ok.mp hstep
    cases hstep
    obtain ⟨lines, -, hopen⟩ := bind_eq_ok.mp hreceive
    obtain ⟨new, rfl, -, hnew⟩ := openLines_eq_ok hopen
    exact List.forall_mem_append.mpr ⟨hnew, h⟩
  | run place inp =>
    simp only [ContextList.step] at hstep
    cases hplace : s.contexts[place]? with
    | none =>
      rw [hplace] at hstep
      cases hstep
      exact h
    | some c =>
      rw [hplace] at hstep
      obtain ⟨⟨ret, cxt, conn1⟩, hrun, hstep⟩ := bind_eq_ok.mp hstep
      -- A run keeps the buffer of its context valid.
      have hcont := runFollowContext_continues (h c (List.mem_of_getElem? hplace)) hrun
      simp only at hstep
      split at hstep
      · obtain ⟨contexts1, hdelete, hstep⟩ := bind_eq_ok.mp hstep
        cases hstep
        intro d hd
        exact h d ((deleteContext_eq_ok hdelete).subset hd)
      · cases hstep
        intro d hd
        rcases List.mem_or_eq_of_mem_set hd with hd | rfl
        · exact h d hd
        · exact hcont.valid
  | reconnect connected =>
    cases hstep
    intro d hd
    obtain ⟨c, hc, rfl⟩ := List.mem_map.mp hd
    exact (h c hc).reset
  | network change =>
    cases hstep
    exact h

/-- The files of a list in which one context is replaced by another of the same file. -/
theorem filesOf_set {place : Nat} {c d : Listed} (hc : contexts[place]? = some c)
    (hfile : d.cxt.filename = c.cxt.filename) :
    filesOf (contexts.set place d) = filesOf contexts := by
  obtain ⟨hlt, rfl⟩ := List.getElem?_eq_some_iff.mp hc
  have hmap : (contexts.set place d).map (·.cxt.filename) = contexts.map (·.cxt.filename) := by
    have hget := List.getElem_map (fun c : Listed => c.cxt.filename) (h := by simpa using hlt)
    rw [List.map_set, hfile, ← hget, List.set_getElem_self]
  have hid : ∀ l : List Listed, filesOf l = (l.map (·.cxt.filename)).filterMap id := by
    intro l
    rw [List.filterMap_map]
    rfl
  rw [hid, hid, hmap]

/-- An event keeps the law exactly when it keeps the names. -/
theorem oneContextPerFile_step_iff {e : ContextList.Event σ} (hvalid : AllValid s.contexts)
    (h : OneContextPerFile s.contexts) (hstep : s.step net md5 patterns e = .ok s') :
    OneContextPerFile s'.contexts ↔ KeepsNames patterns s e := by
  cases e with
  | tick clock heap =>
    obtain ⟨⟨contexts1, conn1⟩, hrotate, hstep⟩ := bind_eq_ok.mp hstep
    cases hstep
    exact oneContextPerFile_tick_iff h hrotate
  | control heap heaps data =>
    obtain ⟨contexts1, hreceive, hstep⟩ := bind_eq_ok.mp hstep
    cases hstep
    exact oneContextPerFile_control_iff h hreceive
  | run place inp =>
    refine ⟨fun _ => trivial, fun _ => ?_⟩
    simp only [ContextList.step] at hstep
    cases hplace : s.contexts[place]? with
    | none =>
      rw [hplace] at hstep
      cases hstep
      exact h
    | some c =>
      rw [hplace] at hstep
      obtain ⟨⟨ret, cxt, conn1⟩, hrun, hstep⟩ := bind_eq_ok.mp hstep
      have hcont := runFollowContext_continues (hvalid c (List.mem_of_getElem? hplace)) hrun
      simp only at hstep
      split at hstep
      · -- A read error removes the context.
        obtain ⟨contexts1, hdelete, hstep⟩ := bind_eq_ok.mp hstep
        cases hstep
        exact h.sublist (deleteContext_eq_ok hdelete)
      · cases hstep
        rw [oneContextPerFile_iff] at h ⊢
        rw [filesOf_set hplace hcont.filename]
        exact h
  | reconnect connected =>
    refine ⟨fun _ => trivial, fun _ => ?_⟩
    cases hstep
    have hfiles : filesOf (resetContexts s.contexts) = filesOf s.contexts := by
      rw [filesOf, resetContexts, List.filterMap_map]
      rfl
    rw [oneContextPerFile_iff] at h ⊢
    rw [hfiles]
    exact h
  | network change =>
    refine ⟨fun _ => trivial, fun _ => ?_⟩
    cases hstep
    exact h

/-- In every run of the follower whose events keep the names, no state that is reached has two
contexts for one file. -/
theorem oneContextPerFile_run {events : List (ContextList.Event σ)}
    (hall : Along (ContextList.step net md5 patterns) (KeepsNames patterns) ⟨[], conn⟩ events)
    (hrun : events.foldlM (ContextList.step net md5 patterns) ⟨[], conn⟩ = .ok s') :
    OneContextPerFile s'.contexts := by
  have hstart : AllValid ([] : List Listed) ∧ OneContextPerFile [] :=
    ⟨by simp [AllValid], oneContextPerFile_nil⟩
  have hkept : AllValid s'.contexts ∧ OneContextPerFile s'.contexts :=
    hall.invariant (I := fun s => AllValid s.contexts ∧ OneContextPerFile s.contexts)
      (fun s e s1 h hkeeps hstep =>
        ⟨h.1.step hstep, (oneContextPerFile_step_iff h.1 h.2 hstep).mpr hkeeps⟩) hstart hrun
  exact hkept.2

end

/-! ### Small runs -/

/-- A time at which every conversion gives two digits. -/
def atHour (digit : UInt8) (h : 48 ≤ digit) : Clock where
  strftime := fun _ => some [48, digit]
  strftime_fits := by
    intro fmt s hs
    cases hs
    refine ⟨?_, by simp [PATH_MAX]⟩
    intro hmem
    rcases List.mem_cons.mp hmem with h0 | h0
    · exact absurd h0 (by decide)
    · rw [← List.mem_singleton.mp h0] at h
      exact absurd h (by decide)

/-- The file `a` with a display name that rotates. -/
def rotating : List ScConfigPatternEntry := [⟨[97], some [PERCENT], true, true⟩]

/-- The list before the first call of `do_rotate`, on an open connection that refuses every
send. -/
def noContexts : ContextList Streams := ⟨[], ⟨true, ⟨[], ⟨[], .eof⟩, []⟩⟩⟩

/-- The events on the list. -/
def smallStep :
    ContextList Streams → ContextList.Event Streams → Except Trap (ContextList Streams) :=
  ContextList.step (fun _ => Streams.net) zeroMd5 rotating

/-- `OPEN b x`. -/
def openB : ContextList.Event Streams :=
  .control zeroHeap (fun _ => zeroHeap) (OPEN ++ [98, 32, 120, LF])

/-- The file can be opened, and its read fails. -/
def brokenFile : RunInput := ⟨⟨3, 0x8000⟩, .error, 0, [], none, [], fun _ => zeroHeap⟩

/-- The file `b` is opened, its context is removed after a read error, and it is opened again. -/
def openedAgain : List (ContextList.Event Streams) :=
  [.tick (atHour 49 (by decide)) (fun _ => zeroHeap), openB, .run 0 brokenFile, openB]

/-- After some of the events the list has these files. -/
theorem filesOf_of_run {events : List (ContextList.Event Streams)} {s : ContextList Streams}
    {files : List Bytes} (hrun : events.foldlM smallStep noContexts = .ok s)
    (hfiles : (events.foldlM smallStep noContexts).map (fun s => filesOf s.contexts) = .ok files) :
    filesOf s.contexts = files := by
  rw [hrun] at hfiles
  exact Except.ok.inj hfiles

/-- `openB` names the file `b`. -/
theorem keepsNames_openB {s : ContextList Streams} (h : [98] ∉ filesOf s.contexts) :
    KeepsNames rotating s openB := by
  have hread : readControl zeroHeap (OPEN ++ [98, 32, 120, LF]) = .ok [OPEN ++ [98, 32, 120, LF]] :=
    rfl
  have hopened : openedFiles [OPEN ++ [98, 32, 120, LF]] = [[98]] := rfl
  intro lines hlines
  rw [hread] at hlines
  cases hlines
  rw [OpensNew, hopened]
  refine ⟨List.nodup_singleton _, ?_⟩
  intro fn hfn c hc heq
  rw [List.mem_singleton.mp hfn] at heq
  exact h (mem_filesOf.mpr ⟨c, hc, heq⟩)

/-- The small run keeps the rule about names, also where the file is opened again. -/
theorem keepsNames_openedAgain : Along smallStep (KeepsNames rotating) noContexts openedAgain := by
  refine ⟨?_, fun s1 h1 => ⟨?_, fun s2 h2 => ⟨trivial, fun s3 h3 => ⟨?_, fun _ _ => trivial⟩⟩⟩⟩
  · -- One entry, and no context yet.
    intro pe hpe fn dn hnames
    refine ⟨fun c hc => absurd hc List.not_mem_nil, ?_⟩
    intro pe' hpe' dn' hnames'
    rw [List.mem_singleton.mp hpe] at hnames
    rw [List.mem_singleton.mp hpe', hnames] at hnames'
    cases hnames'
    rfl
  · refine keepsNames_openB ?_
    have hfiles : ((openedAgain.take 1).foldlM smallStep noContexts).map
        (fun s => filesOf s.contexts) = .ok [[97]] := rfl
    rw [filesOf_of_run (foldlM_cons_eq_ok.mpr ⟨s1, h1, rfl⟩) hfiles]
    decide
  · refine keepsNames_openB ?_
    have hfiles : ((openedAgain.take 3).foldlM smallStep noContexts).map
        (fun s => filesOf s.contexts) = .ok [[97]] := rfl
    rw [filesOf_of_run (foldlM_cons_eq_ok.mpr ⟨s1, h1, foldlM_cons_eq_ok.mpr ⟨s2, h2,
      foldlM_cons_eq_ok.mpr ⟨s3, h3, rfl⟩⟩⟩) hfiles]
    decide

/-- The run of `openedAgain` ends with one context for each of its two files. -/
theorem oneContextPerFile_openedAgain :
    ∃ s', openedAgain.foldlM smallStep noContexts = .ok s' ∧ filesOf s'.contexts = [[98], [97]] ∧
      OneContextPerFile s'.contexts := by
  have hfiles : (openedAgain.foldlM smallStep noContexts).map (fun s => filesOf s.contexts)
      = .ok [[98], [97]] := rfl
  cases hrun : openedAgain.foldlM smallStep noContexts with
  | error t =>
    rw [hrun] at hfiles
    cases hfiles
  | ok s' =>
    exact ⟨s', rfl, filesOf_of_run hrun hfiles, oneContextPerFile_run keepsNames_openedAgain hrun⟩

/-- A list with two contexts for one file. -/
theorem not_oneContextPerFile_of_run {events : List (ContextList.Event Streams)} {fn : Bytes}
    (hfiles : (events.foldlM smallStep noContexts).map (fun s => filesOf s.contexts)
      = .ok [fn, fn]) :
    ∃ s', events.foldlM smallStep noContexts = .ok s' ∧ ¬ OneContextPerFile s'.contexts := by
  cases hrun : events.foldlM smallStep noContexts with
  | error t =>
    rw [hrun] at hfiles
    cases hfiles
  | ok s' =>
    refine ⟨s', rfl, ?_⟩
    rw [oneContextPerFile_iff, filesOf_of_run hrun hfiles]
    simp

/-- A second context for the file appears when its display name changes, and when it is opened
twice. -/
theorem two_contexts :
    (∃ s', [.tick (atHour 49 (by decide)) fun _ => zeroHeap,
        .tick (atHour 50 (by decide)) fun _ => zeroHeap].foldlM smallStep noContexts = .ok s' ∧
      ¬ OneContextPerFile s'.contexts) ∧
    (∃ s', [openB, openB].foldlM smallStep noContexts = .ok s' ∧
      ¬ OneContextPerFile s'.contexts) := by
  constructor
  · have hfiles : ([.tick (atHour 49 (by decide)) fun _ => zeroHeap,
        .tick (atHour 50 (by decide)) fun _ => zeroHeap].foldlM smallStep noContexts).map
          (fun s => filesOf s.contexts) = .ok [[97], [97]] := rfl
    exact not_oneContextPerFile_of_run hfiles
  · have hfiles : ([openB, openB].foldlM smallStep noContexts).map
        (fun s => filesOf s.contexts) = .ok [[98], [98]] := rfl
    exact not_oneContextPerFile_of_run hfiles

end Compostela.Proofs.UniqueFiles
