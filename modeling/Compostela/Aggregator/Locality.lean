import Compostela.Aggregator.Session

/-!
# `Compostela.Aggregator.Locality`: which files a handler call depends on

A handler call reads one file, the separate file of the channel that it registers, and writes
at most two, the separate file and the merged file of the channel that the lookup finds.

`Fs.Twin T` relates two file systems that agree on the files of `T` and on the results of the
system calls to come. Every handler takes twins to twins, with the same connection and the
same response: `handle_twin`. `handle_leaves` says what it leaves alone, and `handle_channels`
which channels there are after it.
-/

set_option autoImplicit false

namespace Compostela.Aggregator

open Compostela.Common
open Compostela.Memory

/-- The merged file of a channel. -/
def mergedPath (cfg : Config) (c : ScChannel) : Bytes := mkPath cfg.logdir c.filename PATH_MAX

/-- Two file systems that agree on the files of `T` and on the results to come. -/
structure Fs.Twin (T : Bytes → Prop) (fs fs' : Fs) : Prop where
  results : fs.results = fs'.results
  file : ∀ p, T p → fs.file p = fs'.file p

/-- The calls of a computation on two twins: the same result, and twins again. -/
def Fs.Twins {α : Type} (T : Bytes → Prop) (x y : Except Trap (α × Fs)) : Prop :=
  ∀ a fs1, x = .ok (a, fs1) → ∃ fs1', y = .ok (a, fs1') ∧ Fs.Twin T fs1 fs1'

section
variable {T : Bytes → Prop} {fs fs' : Fs}

/-- Twins stay twins when the same directories are made in both. -/
theorem Fs.Twin.mkdirs (h : Fs.Twin T fs fs') (dirs : List Bytes) :
    Fs.Twin T (dirs.foldl Fs.mkdir fs) (dirs.foldl Fs.mkdir fs') := by
  obtain ⟨hfile, hresults, -⟩ := foldl_mkdir_frame dirs fs
  obtain ⟨hfile', hresults', -⟩ := foldl_mkdir_frame dirs fs'
  refine ⟨hresults.trans (h.results.trans hresults'.symm), ?_⟩
  rw [hfile, hfile']
  exact h.file

/-- One file changes in the same way. -/
theorem Fs.Twin.set (h : Fs.Twin T fs fs') (path : Bytes) (f : Option Bytes → Option Bytes) :
    ∀ p, T p → (if p = path then f (fs.file path) else fs.file p) =
      if p = path then f (fs'.file path) else fs'.file p := by
  intro p hp
  by_cases heq : p = path
  · subst heq
    rw [if_pos rfl, if_pos rfl, h.file p hp]
  · rw [if_neg heq, if_neg heq, h.file p hp]

/-- Both opens have the same result. -/
theorem Fs.Twin.openAppend (h : Fs.Twin T fs fs') (path : Bytes) :
    (fs.openAppend path).1 = (fs'.openAppend path).1 ∧
      Fs.Twin T (fs.openAppend path).2 (fs'.openAppend path).2 := by
  unfold Fs.openAppend
  rw [h.results]
  cases fs'.results.headD .ok with
  | ok => exact ⟨rfl, rfl, h.set path fun c => some (c.getD [])⟩
  | fail => exact ⟨rfl, rfl, h.file⟩
  | short k => exact ⟨rfl, rfl, h.set path fun c => some (c.getD [])⟩

/-- The same write in both leaves twins. -/
theorem Fs.Twin.write (h : Fs.Twin T fs fs') (writer : Writer) (path bytes : Bytes) :
    Fs.Twin T (fs.write writer path bytes) (fs'.write writer path bytes) := by
  unfold Fs.write
  rw [h.results]
  exact ⟨rfl, h.set path fun c =>
    some (c.getD [] ++ Fs.accepted (fs'.results.headD .ok) bytes)⟩

/-- Flushing a buffer does the same to twins. -/
theorem flushBuffer_twin (h : Fs.Twin T fs fs') (writer : Writer) (path : Bytes)
    (buffer : AzBuffer) :
    Fs.Twins T (flushBuffer writer path buffer fs) (flushBuffer writer path buffer fs') := by
  intro b fs1 h1
  unfold flushBuffer at h1 ⊢
  simp only at h1 ⊢
  split at h1
  · rename_i hsome
    obtain ⟨head, hload, h1⟩ := bind_eq_ok.mp h1
    cases h1
    rw [if_pos hsome, hload]
    exact ⟨_, rfl, h.write writer path head⟩
  · rename_i hnone
    cases h1
    rw [if_neg hnone]
    exact ⟨_, rfl, h⟩

/-- `_do_append_file` does the same to twins. -/
theorem doAppendFile_twin (h : Fs.Twin T fs fs') (path : Bytes) (buffer : AzBuffer)
    (data : Except Trap Bytes) {n : Int} {b : AzBuffer} {fs1 : Fs}
    (h1 : doAppendFile path buffer data fs = .ok (n, b, fs1)) :
    ∃ fs1', doAppendFile path buffer data fs' = .ok (n, b, fs1') ∧ Fs.Twin T fs1 fs1' := by
  have hdirs : Fs.Twin T (createDir fs (dirname path)) (createDir fs' (dirname path)) :=
    h.mkdirs _
  obtain ⟨hopen, htwin⟩ := hdirs.openAppend path
  unfold doAppendFile at h1 ⊢
  simp only [← hopen] at h1 ⊢
  -- The open fails on both sides or on none.
  split at h1
  · rename_i hfail
    cases h1
    rw [if_pos hfail]
    exact ⟨_, rfl, htwin⟩
  · rename_i hdone
    obtain ⟨⟨b1, fs2⟩, hflush, h1⟩ := bind_eq_ok.mp h1
    obtain ⟨text, htext, h1⟩ := bind_eq_ok.mp h1
    cases h1
    obtain ⟨fs2', hflush', htwin2⟩ :=
      flushBuffer_twin htwin .doAppendFile path buffer b1 fs2 hflush
    rw [if_neg hdone, hflush', htext]
    exact ⟨_, rfl, htwin2.write .doAppendFile path text⟩

/-- The write of a timestamp does the same to twins. -/
theorem writeTimestamp_twin (h : Fs.Twin T fs fs') (path : Bytes) (stamp : Option Bytes) :
    Fs.Twin T (writeTimestamp path stamp fs) (writeTimestamp path stamp fs') := by
  cases stamp with
  | none => exact h
  | some bs => exact h.write _ _ _

/-- `_do_merge_file` does the same to twins. -/
theorem doMergeFile_twin {cfg : Config} {heap : Heap} {host : Option Bytes} {path : Bytes}
    {ts : BitVec 64} {aggr : Option ScAggregateContext} (h : Fs.Twin T fs fs')
    (buffer : AzBuffer) (data : Except Trap Bytes) {n : Int} {b : AzBuffer} {fs1 : Fs}
    (h1 : doMergeFile cfg heap host path ts buffer data aggr fs = .ok (n, b, fs1)) :
    ∃ fs1', doMergeFile cfg heap host path ts buffer data aggr fs' = .ok (n, b, fs1') ∧
      Fs.Twin T fs1 fs1' := by
  obtain ⟨hopen, htwin⟩ := h.openAppend (mkPath cfg.logdir path PATH_MAX)
  obtain ⟨stamp, hstamp, h1⟩ := bind_eq_ok.mp h1
  unfold doMergeFile
  rw [hstamp, ok_bind]
  simp only [← hopen] at h1 ⊢
  split at h1
  · rename_i hfail
    cases h1
    rw [if_pos hfail]
    exact ⟨_, rfl, htwin⟩
  · rename_i hdone
    obtain ⟨addr, haddr, h1⟩ := bind_eq_ok.mp h1
    obtain ⟨⟨b1, fs2⟩, hflush, h1⟩ := bind_eq_ok.mp h1
    obtain ⟨text, htext, h1⟩ := bind_eq_ok.mp h1
    cases h1
    -- The host, the time and the separator come first.
    have hhead := writeTimestamp_twin
      (htwin.write .doMergeFile (mkPath cfg.logdir path PATH_MAX) addr)
      (mkPath cfg.logdir path PATH_MAX) stamp
    obtain ⟨fs2', hflush', htwin2⟩ := flushBuffer_twin (hhead.write .doMergeFile _ [58, 32])
      .doMergeFile _ buffer b1 fs2 hflush
    rw [if_neg hdone]
    simp only [haddr, ok_bind, hflush', htext]
    exact ⟨_, rfl, htwin2.write .doMergeFile _ text⟩

/-- The merging half of `handler_data` does the same to twins. -/
theorem mergeText_twin {cfg : Config} {heap : Heap} {conn : ScConnection} {c : ScChannel}
    {t : BitVec 64} {text : Except Trap Bytes} (h : Fs.Twin T fs fs') :
    Fs.Twins T (mergeText cfg heap conn c t text fs) (mergeText cfg heap conn c t text fs') := by
  intro b fs1 h1
  unfold mergeText at h1 ⊢
  simp only at h1 ⊢
  -- The mode of the context decides, and it is the same on both sides.
  split at h1
  · rename_i hmode
    obtain ⟨⟨n, b2, fs3⟩, hdo, h1⟩ := bind_eq_ok.mp h1
    cases h1
    obtain ⟨fs3', hdo', htwin⟩ := doMergeFile_twin h c.buffer text hdo
    rw [if_pos hmode, hdo']
    exact ⟨fs3', rfl, htwin⟩
  · rename_i hmode
    cases h1
    rw [if_neg hmode]
    exact ⟨fs', rfl, h⟩

/-- The separate half of `handler_data` does the same to twins. -/
theorem appendText_twin {c : ScChannel} {buffer : AzBuffer} {text : Except Trap Bytes}
    (h : Fs.Twin T fs fs') :
    Fs.Twins T (appendText c buffer text fs) (appendText c buffer text fs') := by
  intro b fs1 h1
  unfold appendText at h1 ⊢
  split at h1
  · rename_i hmode
    obtain ⟨⟨n, b2, fs3⟩, hdo, h1⟩ := bind_eq_ok.mp h1
    cases h1
    obtain ⟨fs3', hdo', htwin⟩ := doAppendFile_twin h c.filenameFullpath buffer text hdo
    rw [if_pos hmode, hdo']
    exact ⟨fs3', rfl, htwin⟩
  · rename_i hmode
    cases h1
    rw [if_neg hmode]
    exact ⟨fs', rfl, h⟩

/-- A line of a channel goes the same way into twins. -/
theorem takeText_twin {cfg : Config} {heap : Heap} {conn : ScConnection} {c : ScChannel}
    {attr : BitVec 32} {t : BitVec 64} {len : Nat} {text : Except Trap Bytes}
    (h : Fs.Twin T fs fs') :
    Fs.Twins T (takeText cfg heap conn c attr t len text fs)
      (takeText cfg heap conn c attr t len text fs') := by
  intro b fs1 h1
  unfold takeText at h1 ⊢
  split at h1
  · rename_i hpiece
    obtain ⟨b1, hbuffer, h1⟩ := bind_eq_ok.mp h1
    cases h1
    rw [if_pos hpiece, hbuffer]
    exact ⟨fs', rfl, h⟩
  · rename_i hline
    obtain ⟨⟨b1, fs2⟩, hmerge, happend⟩ := bind_eq_ok.mp h1
    obtain ⟨fs2', hmerge', htwin⟩ := mergeText_twin h b1 fs2 hmerge
    obtain ⟨fs1', happend', htwin'⟩ := appendText_twin htwin b fs1 happend
    rw [if_neg hline, recordText, hmerge', ok_bind]
    exact ⟨fs1', happend', htwin'⟩

/-- A handler call on twins: the connection and the response are the same. The separate file of
a channel that is registered has to be one that the twins agree on. -/
theorem handle_twin {cfg : Config} {heap : Heap} {chunks : List Nat} {msg : ScLogMessage}
    {conn : ScConnection} {r : Handled} (h : Fs.Twin T fs fs')
    (hinit : handlerFor msg.code msg.channel = some .init → ∀ channel,
      scChannelNew cfg heap conn (nameOf msg) = .ok channel → T channel.filenameFullpath)
    (h1 : handle cfg heap chunks msg conn fs = .ok r) :
    ∃ fs1', handle cfg heap chunks msg conn fs' = .ok ⟨r.conn, fs1', r.sent⟩ ∧
      Fs.Twin T r.fs fs1' := by
  unfold handle at h1 ⊢
  cases hhandler : handlerFor msg.code msg.channel with
  | none =>
    simp only [hhandler] at h1 ⊢
    cases h1
    exact ⟨fs', rfl, h⟩
  | some handler =>
    cases handler with
    | init =>
      simp only [hhandler] at h1 ⊢
      obtain ⟨attr, hattr, h1⟩ := bind_eq_ok.mp h1
      by_cases hneg : (msg.contentLength - 4).toInt < 0
      · rw [if_pos hneg] at h1
        cases h1
      rw [if_neg hneg] at h1
      obtain ⟨p, hp, h1⟩ := bind_eq_ok.mp h1
      obtain ⟨channel, hnew, h1⟩ := bind_eq_ok.mp h1
      obtain ⟨⟨conn1, c⟩, hreg, h1⟩ := bind_eq_ok.mp h1
      obtain ⟨sent, hsent, h1⟩ := bind_eq_ok.mp h1
      cases h1
      obtain ⟨-, rfl⟩ := Block.load_eq_ok.mp hp
      obtain ⟨-, hc, -⟩ := scConnectionRegisterChannel_eq_ok.mp hreg
      -- The size and the digest are those of a file that the twins agree on.
      have hfile : fs.file c.filenameFullpath = fs'.file c.filenameFullpath := by
        rw [hc]
        exact h.file _ (hinit hhandler channel hnew)
      have hcontent : initContent cfg chunks fs' c.filenameFullpath (htonl (word 32 attr)) =
          initContent cfg chunks fs c.filenameFullpath (htonl (word 32 attr)) := by
        unfold initContent initDigest Fs.size
        rw [hfile]
      refine ⟨fs', ?_, h⟩
      unfold handlerInit
      rw [hattr, ok_bind, if_neg hneg, hp, ok_bind, hnew, ok_bind, hreg, ok_bind]
      simp only [hcontent, hsent, ok_bind]
    | dummy =>
      simp only [hhandler] at h1 ⊢
      obtain ⟨sent, hsent, h1⟩ := bind_eq_ok.mp h1
      cases h1
      refine ⟨fs', ?_, h⟩
      unfold handlerDummy
      rw [hsent]
      rfl
    | seek =>
      simp only [hhandler] at h1 ⊢
      obtain ⟨pos, hpos, h1⟩ := bind_eq_ok.mp h1
      cases hc : scConnectionChannel conn msg.channel.toInt with
      | none =>
        rw [hc] at h1
        cases h1
      | some c =>
        rw [hc] at h1
        obtain ⟨sent, hsent, h1⟩ := bind_eq_ok.mp h1
        cases h1
        refine ⟨(doTruncFile c.filenameFullpath fs').2, ?_, h.results, h.file⟩
        unfold handlerSeek
        rw [hpos, ok_bind]
        simp only [hsent]
        rfl
    | data =>
      simp only [hhandler] at h1 ⊢
      cases hc : scConnectionChannel conn msg.channel.toInt with
      | none =>
        rw [hc] at h1
        cases h1
      | some c =>
        rw [hc] at h1
        obtain ⟨attr, hattr, h1⟩ := bind_eq_ok.mp h1
        obtain ⟨t, ht, h1⟩ := bind_eq_ok.mp h1
        obtain ⟨⟨buffer, fs1⟩, htake, h1⟩ := bind_eq_ok.mp h1
        obtain ⟨sent, hsent, h1⟩ := bind_eq_ok.mp h1
        cases h1
        obtain ⟨fs1', htake', htwin⟩ := takeText_twin h buffer fs1 htake
        refine ⟨fs1', ?_, htwin⟩
        unfold handlerData
        simp only [hattr, ht, ok_bind, htake', hsent]
    | rele =>
      simp only [hhandler] at h1 ⊢
      obtain ⟨conn1, hdelete, h1⟩ := bind_eq_ok.mp h1
      obtain ⟨sent, hsent, h1⟩ := bind_eq_ok.mp h1
      cases h1
      refine ⟨fs', ?_, h⟩
      unfold handlerRele
      rw [hdelete, ok_bind, hsent]
      rfl

end

/-! ### What a call leaves alone -/

/-- The files of `A` are as they were, and where no failure was to come, none is. -/
structure Fs.Leaves (A : Bytes → Prop) (fs fs' : Fs) : Prop where
  file : ∀ p, A p → fs'.file p = fs.file p
  results : fs.results = [] → fs'.results = []

section
variable {fs fs' fs'' : Fs} {A : Bytes → Prop}

/-- A call that does nothing leaves all files alone. -/
theorem Fs.Leaves.refl (A : Bytes → Prop) (fs : Fs) : Fs.Leaves A fs fs := ⟨fun _ _ => rfl, id⟩

/-- Two calls that leave files alone leave them alone together. -/
theorem Fs.Leaves.trans (h : Fs.Leaves A fs fs') (h' : Fs.Leaves A fs' fs'') :
    Fs.Leaves A fs fs'' :=
      ⟨fun p hp => (h'.file p hp).trans (h.file p hp), fun hnil => h'.results (h.results hnil)⟩

/-- A write to another file leaves the files of `A` alone. -/
theorem Fs.Leaves.write (h : Fs.Leaves A fs fs') {writer : Writer} {path bytes : Bytes}
    (hp : ¬ A path) : Fs.Leaves A fs (fs'.write writer path bytes) where
  file p hA := by
    have hne : p ≠ path := fun heq => hp (heq ▸ hA)
    exact (if_neg hne : _ = _).trans (h.file p hA)
  results hnil := by
    show fs'.results.tail = []
    rw [h.results hnil]
    rfl

/-- Opening another file leaves the files of `A` alone. -/
theorem Fs.Leaves.openAppend (h : Fs.Leaves A fs fs') {path : Bytes} (hp : ¬ A path) :
    Fs.Leaves A fs (fs'.openAppend path).2 := by
  have htail : fs.results = [] → fs'.results.tail = [] := by
    intro hnil
    rw [h.results hnil]
    rfl
  -- The file that is made is not one of the territory.
  have hfile : ∀ p, A p →
      (if p = path then some ((fs'.file path).getD []) else fs'.file p) = fs.file p := by
    intro p hA
    have hne : p ≠ path := fun heq => hp (heq ▸ hA)
    rw [if_neg hne]
    exact h.file p hA
  unfold Fs.openAppend
  cases fs'.results.headD .ok with
  | ok => exact ⟨hfile, htail⟩
  | fail => exact ⟨h.file, htail⟩
  | short k => exact ⟨hfile, htail⟩

/-- Flushing a buffer into another file leaves the files of `A` alone. -/
theorem Fs.Leaves.flushBuffer (h : Fs.Leaves A fs fs') {writer : Writer} {path : Bytes}
    {buffer b : AzBuffer} (hp : ¬ A path)
    (hflush : flushBuffer writer path buffer fs' = .ok (b, fs'')) : Fs.Leaves A fs fs'' := by
  unfold Aggregator.flushBuffer at hflush
  simp only at hflush
  split at hflush
  · obtain ⟨head, -, hflush⟩ := bind_eq_ok.mp hflush
    cases hflush
    exact h.write hp
  · cases hflush
    exact h

/-- `_do_append_file` leaves all files but its own alone. -/
theorem leaves_doAppendFile {path : Bytes} {buffer b : AzBuffer} {data : Except Trap Bytes}
    {n : Int} (hp : ¬ A path) (h : doAppendFile path buffer data fs = .ok (n, b, fs')) :
    Fs.Leaves A fs fs' := by
  obtain ⟨hfile, hresults, -⟩ := createDir_frame fs (dirname path)
  have hdirs : Fs.Leaves A fs (createDir fs (dirname path)) :=
    ⟨fun p _ => by rw [hfile], fun hnil => hresults.trans hnil⟩
  unfold doAppendFile at h
  simp only at h
  split at h
  · cases h
    exact hdirs.openAppend hp
  · obtain ⟨⟨b1, fs2⟩, hflush, h⟩ := bind_eq_ok.mp h
    obtain ⟨text, -, h⟩ := bind_eq_ok.mp h
    cases h
    exact ((hdirs.openAppend hp).flushBuffer hp hflush).write hp

/-- `_do_merge_file` leaves all files but the merged one alone. -/
theorem leaves_doMergeFile {cfg : Config} {heap : Heap} {host : Option Bytes} {path : Bytes}
    {ts : BitVec 64} {aggr : Option ScAggregateContext} {buffer b : AzBuffer}
    {data : Except Trap Bytes} {n : Int} (hp : ¬ A (mkPath cfg.logdir path PATH_MAX))
    (h : doMergeFile cfg heap host path ts buffer data aggr fs = .ok (n, b, fs')) :
    Fs.Leaves A fs fs' := by
  obtain ⟨stamp, -, h⟩ := bind_eq_ok.mp h
  have hopened := (Fs.Leaves.refl A fs).openAppend hp
  simp only at h
  split at h
  · cases h
    exact hopened
  · obtain ⟨addr, -, h⟩ := bind_eq_ok.mp h
    obtain ⟨⟨b1, fs2⟩, hflush, h⟩ := bind_eq_ok.mp h
    obtain ⟨text, -, h⟩ := bind_eq_ok.mp h
    cases h
    -- Every write goes to the file that was opened.
    refine (Fs.Leaves.flushBuffer ?_ hp hflush).write hp
    cases stamp with
    | none => exact (hopened.write hp).write hp
    | some bs => exact ((hopened.write hp).write hp).write hp

/-- A channel that writes a merged file. One without a mode writes both files. -/
def Merges (c : ScChannel) : Prop := c.aggregateContext.all (·.fMerge) = true

/-- A line of a channel changes at most the files of the channel. -/
theorem leaves_takeText {cfg : Config} {heap : Heap} {conn : ScConnection} {c : ScChannel}
    {attr : BitVec 32} {t : BitVec 64} {len : Nat} {text : Except Trap Bytes} {b : AzBuffer}
    (hseparate : ¬ A c.filenameFullpath) (hmerged : Merges c → ¬ A (mergedPath cfg c))
    (h : takeText cfg heap conn c attr t len text fs = .ok (b, fs')) : Fs.Leaves A fs fs' := by
  unfold takeText at h
  split at h
  · obtain ⟨b1, -, h⟩ := bind_eq_ok.mp h
    cases h
    exact .refl A _
  · obtain ⟨⟨b1, fs2⟩, hmerge, happend⟩ := bind_eq_ok.mp h
    -- The merging half touches the merged file, and only in a mode that merges.
    have hfirst : Fs.Leaves A fs fs2 := by
      unfold mergeText at hmerge
      simp only at hmerge
      split at hmerge
      · rename_i hall
        obtain ⟨⟨n, b2, fs3⟩, hdo, hmerge⟩ := bind_eq_ok.mp hmerge
        cases hmerge
        exact leaves_doMergeFile (hmerged hall) hdo
      · cases hmerge
        exact .refl A _
    have hthen : appendText c b1 text fs2 = .ok (b, fs') := happend
    unfold appendText at hthen
    split at hthen
    · obtain ⟨⟨n, b2, fs3⟩, hdo, hthen⟩ := bind_eq_ok.mp hthen
      cases hthen
      exact hfirst.trans (leaves_doAppendFile hseparate hdo)
    · cases hthen
      exact hfirst

/-- A handler call changes at most the files of the channels of its connection. -/
theorem handle_leaves {cfg : Config} {heap : Heap} {chunks : List Nat} {msg : ScLogMessage}
    {conn : ScConnection} {r : Handled}
    (hp : ∀ c ∈ conn.channelList,
      ¬ A c.filenameFullpath ∧ (Merges c → ¬ A (mergedPath cfg c)))
    (h : handle cfg heap chunks msg conn fs = .ok r) : Fs.Leaves A fs r.fs := by
  unfold handle at h
  cases hhandler : handlerFor msg.code msg.channel with
  | none =>
    simp only [hhandler] at h
    cases h
    exact .refl A _
  | some handler =>
    -- Only `handler_data` writes to files, and only to those of its own channel.
    cases handler with
    | init =>
      simp only [hhandler] at h
      obtain ⟨-, -, -, -, -, hfs⟩ := handlerInit_conn h
      rw [hfs]
      exact .refl A _
    | dummy =>
      simp only [hhandler] at h
      obtain ⟨sent, -, h⟩ := bind_eq_ok.mp h
      cases h
      exact .refl A _
    | seek =>
      simp only [hhandler] at h
      obtain ⟨pos, -, h⟩ := bind_eq_ok.mp h
      cases hc : scConnectionChannel conn msg.channel.toInt with
      | none =>
        rw [hc] at h
        cases h
      | some c =>
        rw [hc] at h
        obtain ⟨sent, -, h⟩ := bind_eq_ok.mp h
        cases h
        exact ⟨fun _ _ => rfl, id⟩
    | data =>
      simp only [hhandler] at h
      cases hc : scConnectionChannel conn msg.channel.toInt with
      | none =>
        rw [hc] at h
        cases h
      | some c =>
        rw [hc] at h
        obtain ⟨attr, -, h⟩ := bind_eq_ok.mp h
        obtain ⟨t, -, h⟩ := bind_eq_ok.mp h
        obtain ⟨⟨buffer, fs1⟩, htake, h⟩ := bind_eq_ok.mp h
        obtain ⟨sent, -, h⟩ := bind_eq_ok.mp h
        cases h
        obtain ⟨hseparate, hmerged⟩ := hp c (mem_of_scConnectionChannel hc)
        exact leaves_takeText hseparate hmerged htake
    | rele =>
      simp only [hhandler] at h
      rw [(handlerRele_conn h).2]
      exact .refl A _

/-- No failure comes out of a handler call. -/
theorem handle_results {cfg : Config} {heap : Heap} {chunks : List Nat} {msg : ScLogMessage}
    {conn : ScConnection} {r : Handled} (hnil : fs.results = [])
    (h : handle cfg heap chunks msg conn fs = .ok r) : r.fs.results = [] :=
  (@handle_leaves fs (fun _ => False) cfg heap chunks msg conn r
    (fun _ _ => ⟨id, fun _ => id⟩) h).results hnil

end

/-! ### The channels after a request -/

/-- Two channels with the same files and the same mode. -/
structure SameFiles (c d : ScChannel) : Prop where
  filename : c.filename = d.filename
  filenameFullpath : c.filenameFullpath = d.filenameFullpath
  aggregateContext : c.aggregateContext = d.aggregateContext

section
variable {cfg : Config} {heap : Heap} {chunks : List Nat} {msg : ScLogMessage}
  {conn : ScConnection} {fs : Fs} {r : Handled}

/-- A new channel depends on the remote name of the connection, and not on its channels. -/
theorem scChannelNew_addr (conn : ScConnection) (name : Bytes) :
    scChannelNew cfg heap conn name = scChannelNew cfg heap ⟨conn.remoteAddr, []⟩ name := rfl

/-- A handler call keeps the host, and each channel after it was there before, or is the one
that an INIT request asked for. -/
theorem handle_channels (hwf : conn.WellFormed)
    (h : handle cfg heap chunks msg conn fs = .ok r) :
    r.conn.remoteAddr = conn.remoteAddr ∧ ∀ c ∈ r.conn.channelList,
      (∃ d ∈ conn.channelList, SameFiles c d) ∨
        handlerFor msg.code msg.channel = some .init ∧
          ∃ d, scChannelNew cfg heap conn (nameOf msg) = .ok d ∧ SameFiles c d := by
  have hsame : ∀ c ∈ conn.channelList, ∃ d ∈ conn.channelList, SameFiles c d :=
    fun c hc => ⟨c, hc, rfl, rfl, rfl⟩
  unfold handle at h
  cases hhandler : handlerFor msg.code msg.channel with
  | none =>
    simp only [hhandler] at h
    cases h
    exact ⟨rfl, fun c hc => Or.inl (hsame c hc)⟩
  | some handler =>
    cases handler with
    | init =>
      simp only [hhandler] at h
      obtain ⟨attr, -, h⟩ := bind_eq_ok.mp h
      by_cases hneg : (msg.contentLength - 4).toInt < 0
      · rw [if_pos hneg] at h
        cases h
      rw [if_neg hneg] at h
      obtain ⟨p, hp, h⟩ := bind_eq_ok.mp h
      obtain ⟨channel, hnew, h⟩ := bind_eq_ok.mp h
      obtain ⟨⟨conn1, c⟩, hreg, h⟩ := bind_eq_ok.mp h
      obtain ⟨sent, -, h⟩ := bind_eq_ok.mp h
      cases h
      obtain ⟨-, rfl⟩ := Block.load_eq_ok.mp hp
      obtain ⟨-, hc, rfl⟩ := scConnectionRegisterChannel_eq_ok.mp hreg
      refine ⟨rfl, fun d hd => ?_⟩
      -- The new channel is the one that `sc_channel_new` made, with a number.
      rcases List.mem_cons.mp hd with rfl | hd
      · refine Or.inr ⟨rfl, channel, hnew, ?_⟩
        rw [hc]
        exact ⟨rfl, rfl, rfl⟩
      · exact Or.inl (hsame d hd)
    | dummy =>
      simp only [hhandler] at h
      obtain ⟨sent, -, h⟩ := bind_eq_ok.mp h
      cases h
      exact ⟨rfl, fun c hc => Or.inl (hsame c hc)⟩
    | seek =>
      simp only [hhandler] at h
      rw [(handlerSeek_conn h).2.1]
      exact ⟨rfl, fun c hc => Or.inl (hsame c hc)⟩
    | data =>
      simp only [hhandler] at h
      obtain ⟨c, buffer', hc, hconn, -⟩ := handlerData_conn h
      rw [hconn]
      refine ⟨rfl, fun d hd => Or.inl ?_⟩
      obtain ⟨e, he, rfl⟩ := List.mem_map.mp hd
      -- A DATA request puts another buffer into its channel, whose paths stay.
      split
      · exact ⟨c, mem_of_scConnectionChannel hc, rfl, rfl, rfl⟩
      · exact hsame e he
    | rele =>
      simp only [hhandler] at h
      obtain ⟨li, hconn, hsub⟩ := handlerRele_sublist hwf h
      rw [hconn]
      exact ⟨rfl, fun c hc => Or.inl (hsame c (hsub.subset hc))⟩

end

end Compostela.Aggregator
