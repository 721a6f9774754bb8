import Compostela.Common.PathNames
import Compostela.Proofs.SplitLines

/-!
# `Compostela.Proofs.Confinement`: where the files of a channel lie

The name in an INIT request becomes a part of two paths. The separate file lies behind `logdir`
and the address of the client, the merged file behind `logdir`. Both texts are cut to the size of
the buffer, and nobody looks at the components of the name.

`opened_run` gives the paths that a run of DATA requests opens and makes: those of the channel, once
for each completed line. `confined_iff` says for every such run when they lie where they should. A
name may go up, when it comes back through the names that it has gone up.
-/

set_option autoImplicit false

namespace Compostela.Proofs.Confinement

open Compostela.Aggregator
open Compostela.Common
open Compostela.Memory
open Compostela.Paths
open Compostela.Runs
open Compostela.Proofs.SplitLines (bothChannel completes Merging Separating)

/-! ### The paths that are opened and made -/

/-- The directories that `_create_dir` makes: the path up to each slash, and the whole path. -/
def createdDirs (fpath : Bytes) : List Bytes :=
  ((List.range fpath.length).filter fun i => fpath.getD i 0 = SLASH).map (fpath.take ·) ++ [fpath]

/-- What was opened and made from `fs` to `fs'`. -/
structure Touches (fs fs' : Fs) (opened made : List Bytes) : Prop where
  opened_eq : fs'.opened = fs.opened ++ opened
  made_eq : fs'.made = fs.made ++ made

/-- A call that does nothing opens and makes nothing. -/
theorem Touches.refl (fs : Fs) : Touches fs fs [] [] :=
  ⟨(List.append_nil _).symm, (List.append_nil _).symm⟩

/-- Two calls in a row open and make what each of them does. -/
theorem Touches.trans {fs fs1 fs2 : Fs} {opened made opened' made' : List Bytes}
    (h : Touches fs fs1 opened made) (h' : Touches fs1 fs2 opened' made') :
    Touches fs fs2 (opened ++ opened') (made ++ made') := by
  refine ⟨?_, ?_⟩
  · rw [h'.opened_eq, h.opened_eq, List.append_assoc]
  · rw [h'.made_eq, h.made_eq, List.append_assoc]

/-- A write opens nothing. -/
theorem Touches.write {fs fs' : Fs} {opened made : List Bytes} (h : Touches fs fs' opened made)
    (writer : Writer) (path bytes : Bytes) : Touches fs (fs'.write writer path bytes) opened made :=
  ⟨h.opened_eq, h.made_eq⟩

/-- An `open` for appending opens its path, also when it fails. -/
theorem touches_openAppend (fs : Fs) (path : Bytes) :
    Touches fs (fs.openAppend path).2 [path] [] := by
  unfold Fs.openAppend
  cases fs.results.headD .ok with
  | fail => exact ⟨rfl, (List.append_nil _).symm⟩
  | _ => exact ⟨rfl, (List.append_nil _).symm⟩

/-- `create_dir` makes the directories of a path and opens nothing. -/
theorem touches_createDir (fs : Fs) (fpath : Bytes) :
    Touches fs (createDir fs fpath) [] (createdDirs fpath) := by
  -- By induction on the directories. Each `mkdir` adds its path, whether it succeeds or not.
  have hfold : ∀ (dirs : List Bytes) (fs : Fs), Touches fs (dirs.foldl Fs.mkdir fs) [] dirs := by
    intro dirs
    induction dirs with
    | nil => exact .refl
    | cons dir rest ih =>
      intro fs
      have hfirst : Touches fs (fs.mkdir dir) [] [dir] := ⟨(List.append_nil _).symm, rfl⟩
      exact hfirst.trans (ih (fs.mkdir dir))
  exact hfold _ fs

/-- Flushing a buffer opens and makes nothing. -/
theorem Touches.flushBuffer {fs fs1 fs' : Fs} {opened made : List Bytes} {writer : Writer}
    {path : Bytes} {buffer buffer' : AzBuffer} (h : Touches fs fs1 opened made)
    (hflush : flushBuffer writer path buffer fs1 = .ok (buffer', fs')) :
    Touches fs fs' opened made := by
  simp only [Aggregator.flushBuffer] at hflush
  split at hflush
  · obtain ⟨head, -, heq⟩ := bind_eq_ok.mp hflush
    cases heq
    exact h.write writer path head
  · cases hflush
    exact h

/-- `_do_append_file` makes the directories of the path and opens it, whether the calls succeed or
not. -/
theorem touches_doAppendFile {path : Bytes} {buffer buffer' : AzBuffer} {data : Except Trap Bytes}
    {fs fs' : Fs} {n : Int} (h : doAppendFile path buffer data fs = .ok (n, buffer', fs')) :
    Touches fs fs' [path] (createdDirs (dirname path)) := by
  have hopen := (touches_createDir fs (dirname path)).trans (touches_openAppend _ path)
  rw [List.nil_append, List.append_nil] at hopen
  -- The directories are made before the `open`, so one that fails has them made too.
  simp only [doAppendFile] at h
  split at h
  · cases h
    exact hopen
  · obtain ⟨⟨b, f⟩, hflush, hrest⟩ := bind_eq_ok.mp h
    obtain ⟨text, -, heq⟩ := bind_eq_ok.mp hrest
    cases heq
    exact (hopen.flushBuffer hflush).write .doAppendFile path text

/-- `_do_merge_file` opens the merged file and makes no directory. -/
theorem touches_doMergeFile {cfg : Config} {heap : Heap} {host : Option Bytes} {path : Bytes}
    {ts : BitVec 64} {buffer buffer' : AzBuffer} {data : Except Trap Bytes}
    {aggr : Option ScAggregateContext} {fs fs' : Fs} {n : Int}
    (h : doMergeFile cfg heap host path ts buffer data aggr fs = .ok (n, buffer', fs')) :
    Touches fs fs' [mkPath cfg.logdir path PATH_MAX] [] := by
  obtain ⟨stamp, -, h⟩ := bind_eq_ok.mp h
  have hopen := touches_openAppend fs (mkPath cfg.logdir path PATH_MAX)
  simp only at h
  split at h
  · cases h
    exact hopen
  · -- The host is read after the `open`. None of the writes opens another file.
    obtain ⟨addr, -, h⟩ := bind_eq_ok.mp h
    obtain ⟨⟨b, f⟩, hflush, hrest⟩ := bind_eq_ok.mp h
    obtain ⟨text, -, heq⟩ := bind_eq_ok.mp hrest
    cases heq
    -- The timestamp is written or left out.
    have hstamp : Touches fs (writeTimestamp (mkPath cfg.logdir path PATH_MAX) stamp
        ((fs.openAppend (mkPath cfg.logdir path PATH_MAX)).2.write .doMergeFile
          (mkPath cfg.logdir path PATH_MAX) addr)) [mkPath cfg.logdir path PATH_MAX] [] := by
      cases stamp with
      | none => exact hopen.write _ _ _
      | some bs => exact (hopen.write _ _ _).write _ _ _
    exact ((hstamp.write _ _ _).flushBuffer hflush).write .doMergeFile _ text

/-- The files that a completed line of a channel opens. -/
def openedFor (cfg : Config) (c : ScChannel) : List Bytes :=
  (if Merging c then [mkPath cfg.logdir c.filename PATH_MAX] else []) ++
    if Separating c then [c.filenameFullpath] else []

/-- The directories that a completed line of a channel makes. -/
def madeFor (c : ScChannel) : List Bytes :=
  if Separating c then createdDirs (dirname c.filenameFullpath) else []

/-- The merging half of `handler_data` opens the merged file, in a mode that has one. -/
theorem touches_mergeText {cfg : Config} {heap : Heap} {conn : ScConnection} {c : ScChannel}
    {t : BitVec 64} {text : Except Trap Bytes} {fs fs' : Fs} {buffer' : AzBuffer}
    (h : mergeText cfg heap conn c t text fs = .ok (buffer', fs')) :
    Touches fs fs' (if Merging c then [mkPath cfg.logdir c.filename PATH_MAX] else []) [] := by
  have hmode : c.aggregateContext.all (·.fMerge) = Merging c := rfl
  simp only [mergeText, hmode] at h
  split at h
  · rename_i hmerge
    obtain ⟨⟨n, b, f⟩, hdo, heq⟩ := bind_eq_ok.mp h
    cases heq
    rw [if_pos hmerge]
    exact touches_doMergeFile hdo
  · rename_i hmerge
    cases h
    rw [if_neg hmerge]
    exact .refl fs

/-- The separate half of `handler_data` opens the separate file and makes its directories, in a mode
that has one. -/
theorem touches_appendText {c : ScChannel} {buffer buffer' : AzBuffer} {text : Except Trap Bytes}
    {fs fs' : Fs} (h : appendText c buffer text fs = .ok (buffer', fs')) :
    Touches fs fs' (if Separating c then [c.filenameFullpath] else []) (madeFor c) := by
  have hmode : c.aggregateContext.all (·.fSeparate) = Separating c := rfl
  simp only [appendText, hmode] at h
  unfold madeFor
  split at h
  · rename_i hsep
    obtain ⟨⟨n, b, f⟩, hdo, heq⟩ := bind_eq_ok.mp h
    cases heq
    rw [if_pos hsep, if_pos hsep]
    exact touches_doAppendFile hdo
  · rename_i hsep
    cases h
    rw [if_neg hsep, if_neg hsep]
    exact .refl fs

/-- A request opens and makes the paths of its channel when it completes a line. -/
theorem touches_handlerData {cfg : Config} {r : Request} {conn : ScConnection} {c : ScChannel}
    {fs : Fs} {handled : Handled}
    (h : handlerData cfg r.heap r.msg conn (some c) fs = .ok handled) :
    Touches fs handled.fs (if completes r then openedFor cfg c else [])
      (if completes r then madeFor c else []) := by
  obtain ⟨attr, hattr, h⟩ := bind_eq_ok.mp h
  obtain ⟨t, -, h⟩ := bind_eq_ok.mp h
  obtain ⟨⟨buffer', fs'⟩, htake, h⟩ := bind_eq_ok.mp h
  obtain ⟨sent, -, heq⟩ := bind_eq_ok.mp h
  cases heq
  obtain ⟨-, rfl⟩ := Block.load_eq_ok.mp hattr
  have hflag : completes r = true ↔ attrOf r.msg &&& ATTR_TOP ≠ 0 := decide_eq_true_iff
  change takeText cfg r.heap conn c (attrOf r.msg) _ _ _ fs = .ok (buffer', fs') at htake
  -- The attribute decides: the text goes to the buffer, or the line goes to the files.
  unfold takeText at htake
  split at htake
  · rename_i hopen
    obtain ⟨b, -, heq⟩ := bind_eq_ok.mp htake
    cases heq
    have hnot : ¬ completes r = true := fun hcompletes => hflag.mp hcompletes hopen
    rw [if_neg hnot, if_neg hnot]
    exact .refl fs
  · rename_i hclosed
    obtain ⟨⟨b1, fs1⟩, hmerge, happend⟩ := bind_eq_ok.mp htake
    rw [if_pos (hflag.mpr hclosed), if_pos (hflag.mpr hclosed)]
    exact (touches_mergeText hmerge).trans (touches_appendText happend)

/-! ### A run of DATA requests on one channel -/

/-- A DATA request for the channel with this number. -/
structure SentOn (id : Int) (r : Request) : Prop where
  code : r.msg.code = SCM_MSG_DATA
  channel : r.msg.channel.toInt = id

/-- The number is looked up to the channel `c`, whatever is in its buffer. -/
def Finds (conn : ScConnection) (c : ScChannel) : Prop :=
  ∃ buffer, scConnectionChannel conn c.id = some { c with buffer := buffer }

/-- The lookup finds what the write to the channel has put there. -/
theorem Finds.update {conn : ScConnection} {c : ScChannel} {buffer : AzBuffer}
    (h : scConnectionChannel conn c.id = some { c with buffer := buffer }) (buffer' : AzBuffer) :
    Finds (conn.update { c with buffer := buffer' }) c := by
  refine ⟨buffer', ?_⟩
  have hmem := mem_of_scConnectionChannel h
  have hfound : ∃ d, conn.channelList.find? (fun x => x.id = c.id) = some d := by
    rw [← Option.isSome_iff_exists, List.find?_isSome]
    exact ⟨_, hmem, by simp⟩
  obtain ⟨d, hd⟩ := hfound
  have hid : d.id = c.id := by simpa using List.find?_some hd
  -- The write keeps the numbers of the list, so the lookup stops at the same element.
  rw [scConnectionChannel_eq, ScConnection.update, List.find?_map]
  have hsame : ((fun x : ScChannel => decide (x.id = c.id)) ∘ fun x : ScChannel =>
      if x.id = c.id then { c with buffer := buffer' } else x) = fun x => decide (x.id = c.id) := by
    funext x
    by_cases hx : x.id = c.id <;> simp [hx]
  simp only [hsame, hd, Option.map_some, hid, if_true, Option.some_or]

/-- A DATA request on a channel whose number is positive runs `handler_data` on it. -/
theorem handlerData_of_step {cfg : Config} {s s' : Session} {r : Request} {c : ScChannel}
    (hpos : 0 < c.id) (hr : SentOn c.id r) (hfinds : Finds s.conn c)
    (hstep : s.step cfg r = .ok s') :
    ∃ buffer handled, scConnectionChannel s.conn c.id = some { c with buffer := buffer } ∧
      handlerData cfg r.heap r.msg s.conn (some { c with buffer := buffer }) s.fs = .ok handled ∧
      s' = ⟨handled.conn, handled.fs⟩ := by
  obtain ⟨handled, hhandle, rfl⟩ := Session.step_eq_ok.mp hstep
  obtain ⟨buffer, hfound⟩ := hfinds
  -- A positive number is not the zero of a control message.
  have hzero : r.msg.channel ≠ 0 := by
    intro h
    have hid := hr.channel
    rw [h] at hid
    simp at hid
    omega
  have hhandler : handlerFor r.msg.code r.msg.channel = some .data := by
    rw [handlerFor, if_neg hzero, hr.code]
    decide
  simp only [handle, hhandler, hr.channel, hfound] at hhandle
  exact ⟨buffer, handled, hfound, hhandle, rfl⟩

/-- The state after the requests `done` on the channel `c`. -/
structure Recorded (cfg : Config) (fs0 : Fs) (c : ScChannel) (done : List Request) (s : Session) :
    Prop where
  finds : Finds s.conn c
  touches : Touches fs0 s.fs ((done.filter completes).flatMap fun _ => openedFor cfg c)
    ((done.filter completes).flatMap fun _ => madeFor c)

/-- One more request of the run, whose paths are added. -/
theorem Recorded.step {cfg : Config} {fs0 : Fs} {c : ScChannel} {done : List Request}
    {s s' : Session} {r : Request} (hpos : 0 < c.id) (h : Recorded cfg fs0 c done s)
    (hr : SentOn c.id r) (hstep : s.step cfg r = .ok s') :
    Recorded cfg fs0 c (done ++ [r]) s' := by
  obtain ⟨buffer, handled, hfound, hdata, rfl⟩ := handlerData_of_step hpos hr h.finds hstep
  obtain ⟨d, buffer', hd, hconn, -⟩ := handlerData_conn hdata
  cases hd
  have htouch := h.touches.trans (touches_handlerData hdata)
  refine ⟨?_, ?_⟩
  · show Finds handled.conn c
    rw [hconn]
    exact Finds.update hfound buffer'
  · rw [List.filter_append, List.flatMap_append, List.flatMap_append]
    -- The last request adds its own paths, and no others.
    have hlast : ∀ f : Request → List Bytes,
        (([r].filter completes).flatMap f) = if completes r then f r else [] := by
      intro f
      cases hflag : completes r <;> simp [hflag]
    rw [hlast, hlast]
    exact htouch

/-- Each completed line opens and makes the paths of the channel, and nothing else is opened or
made. -/
theorem recorded_run {cfg : Config} {c : ScChannel} {datas : List Request} {s s' : Session}
    (hpos : 0 < c.id) (hfinds : Finds s.conn c) (hdatas : ∀ r ∈ datas, SentOn c.id r)
    (hrun : datas.foldlM (Session.step cfg) s = .ok s') : Recorded cfg s.fs c datas s' := by
  have hstart : Recorded cfg s.fs c [] s := ⟨hfinds, .refl s.fs⟩
  have hstep : ∀ done s1 r s2, Recorded cfg s.fs c done s1 → SentOn c.id r →
      s1.step cfg r = .ok s2 → Recorded cfg s.fs c (done ++ [r]) s2 :=
    fun done s1 r s2 h hr hstep => h.step hpos hr hstep
  simpa using run_history hstep hdatas hstart hrun

/-! ### The paths of a channel -/

/-- The path of the separate file, for the address of the client and the name. -/
def separatePath (logdir : Bytes) (addr : Option Bytes) (name : Bytes) : Bytes :=
  (joined logdir (match addr with
    | some a => [a, name]
    | none => [])).take (PATH_MAX - 1)

/-- The directory of a client. -/
def home (logdir addr : Bytes) : Bytes := withSlash (withSlash logdir ++ addr)

/-- A directory that is there when `logdir` is: a front part of its text, the working directory, or
one that lies above it. -/
def Existing (logdir dir : Bytes) : Prop := dir <+: logdir ∨ dir = [DOT] ∨ Under dir logdir

/-- A part of a path that is longer than `logdir` leads up and down along the way to `logdir`, or
into it. -/
def StaysAlong (logdir dir : Bytes) : Prop :=
  logdir.length < dir.length →
    (placeOf logdir).OnTheWay (rooted logdir) (wayOf (dir.drop logdir.length)) ∨
      (placeOf logdir).ComesBack (rooted logdir) (wayOf (dir.drop logdir.length))

/-- The merged file behind `logdir`. -/
theorem under_mergedPath_iff (logdir name : Bytes) :
    Under logdir (mkPath logdir name PATH_MAX) ↔
      LeadsInto logdir (mkPath logdir name PATH_MAX) := by
  have hjoins : Joins logdir ([SLASH] ++ name) := Or.inr (Or.inl rfl)
  rw [mkPath, List.append_assoc]
  exact under_iff_leadsInto hjoins _

/-- The separate file behind `logdir`. -/
theorem under_separatePath_iff (logdir : Bytes) (addr : Option Bytes) (name : Bytes) :
    Under logdir (separatePath logdir addr name) ↔
      LeadsInto logdir (separatePath logdir addr name) := by
  unfold separatePath
  obtain ⟨rest, hrest, hjoins⟩ := joined_eq_append logdir (match addr with
    | some a => [a, name]
    | none => [])
  rw [hrest]
  exact under_iff_leadsInto hjoins _

/-- The separate file behind the directory of the client. -/
theorem under_home_iff (logdir a name : Bytes) :
    Under (home logdir a) (separatePath logdir (some a) name) ↔
      LeadsInto (home logdir a) (separatePath logdir (some a) name) := by
  -- The directory of the client ends with a slash, so the name starts a component.
  have hjoins : Joins (home logdir a) name := Or.inr (Or.inr (getLast?_withSlash _))
  exact under_iff_leadsInto hjoins _

/-- A string of slashes starts with one. -/
theorem slash_prefix_of_dropSlashes {path : Bytes} (hne : path ≠ []) (h : dropSlashes path = []) :
    [SLASH] <+: path := by
  rw [dropSlashes, List.reverse_eq_nil_iff, List.dropWhile_eq_nil_iff] at h
  obtain ⟨b, tail, rfl⟩ := List.exists_cons_of_ne_nil hne
  have hb : b = SLASH := by simpa using h b (by simp)
  rw [hb]
  exact ⟨tail, rfl⟩

/-- What is left without the slashes at the end is the front of a path. -/
theorem dropSlashes_front (path : Bytes) : dropSlashes path <+: path := by
  have h := List.reverse_prefix.mpr
    (List.dropWhile_suffix (fun b : UInt8 => decide (b = SLASH)) (l := path.reverse))
  rwa [List.reverse_reverse] at h

/-- `dirname` cuts the path, or is the working directory. -/
theorem dirname_cases (path : Bytes) : dirname path = [DOT] ∨ dirname path <+: path := by
  have hlast := dropSlashes_front path
  have hparent :
      ((dropSlashes path).reverse.dropWhile (· ≠ SLASH)).reverse <+: dropSlashes path := by
    have h := List.reverse_prefix.mpr (List.dropWhile_suffix
      (fun b : UInt8 => decide (b ≠ SLASH)) (l := (dropSlashes path).reverse))
    rwa [List.reverse_reverse] at h
  -- The five results of `dirname`, in the order of its tests.
  simp only [dirname]
  split_ifs with hnil hslashes hbase hroot
  · exact Or.inl rfl
  · exact Or.inr (slash_prefix_of_dropSlashes hnil hslashes)
  · exact Or.inl rfl
  · exact Or.inr ((slash_prefix_of_dropSlashes hbase hroot).trans (hparent.trans hlast))
  · exact Or.inr ((dropSlashes_front _).trans (hparent.trans hlast))

/-- The directories of a path are front parts of it, apart from the working directory. -/
theorem createdDirs_cases {path dir : Bytes} (h : dir ∈ createdDirs (dirname path)) :
    dir = [DOT] ∨ dir <+: path := by
  have hfront : dir <+: dirname path := by
    rw [createdDirs, List.mem_append, List.mem_singleton, List.mem_map] at h
    rcases h with ⟨i, -, rfl⟩ | rfl
    · exact List.take_prefix _ _
    · exact List.prefix_rfl
  -- `dirname` answers `.` for a path without a directory, which is not a part of it.
  rcases dirname_cases path with hdot | hcut
  · rw [hdot] at h
    have hdirs : createdDirs [DOT] = [[DOT]] := by decide
    rw [hdirs, List.mem_singleton] at h
    exact Or.inl h
  · exact Or.inr (hfront.trans hcut)

/-- A front part of a text behind `logdir` that is longer than `logdir`. -/
theorem exists_behind {logdir rest dir : Bytes} (hjoins : Joins logdir rest)
    (hdir : dir <+: logdir ++ rest) (hlen : logdir.length < dir.length) :
    ∃ rest', dir = logdir ++ rest' ∧ Joins logdir rest' := by
  have hcut : (logdir ++ rest).take dir.length = dir := (List.prefix_iff_eq_take.mp hdir).symm
  -- A cut at its length gives the text itself, so it ends behind `logdir` or inside it.
  rcases take_append_cases hjoins dir.length with ⟨rest', heq, hrest'⟩ | ⟨hinside, -⟩
  · exact ⟨rest', hcut.symm.trans heq, hrest'⟩
  · rw [hcut] at hinside
    exact absurd hinside.length_le (by omega)

/-- A directory of the separate file is there already or lies in `logdir`, unless its text behind
`logdir` leads elsewhere. -/
theorem existing_or_under_iff {logdir rest dir : Bytes} (hjoins : Joins logdir rest)
    (hne : logdir ≠ [] ∨ rest = []) (hdir : dir = [DOT] ∨ dir <+: logdir ++ rest) :
    Existing logdir dir ∨ Under logdir dir ↔ StaysAlong logdir dir := by
  by_cases hlen : logdir.length < dir.length
  · rcases hdir with rfl | hfront
    · -- Only an empty `logdir` is shorter than the working directory.
      have hnil : logdir = [] := List.eq_nil_of_length_eq_zero (by simpa using hlen)
      refine iff_of_true (Or.inl (Or.inr (Or.inl rfl))) fun _ => Or.inr ?_
      rw [hnil]
      exact ⟨Or.inr (Nat.zero_le _), List.prefix_rfl⟩
    · obtain ⟨rest', rfl, hrest'⟩ := exists_behind hjoins hfront hlen
      have hlogdir : logdir ≠ [] := by
        rcases hne with hne | rfl
        · exact hne
        · rw [List.append_nil] at hfront
          exact absurd hfront.length_le (by omega)
      -- The text is longer than `logdir`, so it is neither a part of it nor the working directory.
      have hlong : ¬ logdir ++ rest' <+: logdir := fun h => absurd h.length_le (by omega)
      have hdot : logdir ++ rest' ≠ [DOT] := by
        intro h
        have hpos := List.length_pos_of_ne_nil hlogdir
        rw [h, List.length_singleton] at hlen
        omega
      rw [Existing, or_iff_right hlong, or_iff_right hdot, append_under_iff hlogdir hrest',
        under_append_iff hlogdir hrest', StaysAlong, List.drop_left]
      exact ⟨fun h _ => h, fun h => h hlen⟩
  · -- A text that is not longer is there already, and the condition asks nothing.
    refine iff_of_true ?_ (fun h => absurd h hlen)
    rcases hdir with hdot | hfront
    · exact Or.inl (Or.inr (Or.inl hdot))
    · exact Or.inl (Or.inl
        (List.prefix_of_prefix_length_le hfront (List.prefix_append _ _) (by omega)))

/-! ### Confinement -/

/-- The paths that were opened and made for the channel `c` lie in `logdir`, apart from directories
that are there. The separate file, when it was opened, lies in the directory of the client. -/
structure Confined (logdir : Bytes) (addr : Option Bytes) (c : ScChannel) (separate : Prop)
    (opened made : List Bytes) : Prop where
  opened : ∀ path ∈ opened, Under logdir path
  separate : separate → ∀ a ∈ addr, Under (home logdir a) c.filenameFullpath
  made : ∀ dir ∈ made, Existing logdir dir ∨ Under logdir dir

/-- An INIT request that asks for the digest. It opens the separate file for reading. -/
def asksDigest (init : Request) : Bool := attrOf init.msg &&& ATTR_TOP ≠ 0

/-- The separate file is opened: for the digest, or for a line. -/
def OpensSeparate (init : Request) (datas : List Request) (aggr : Option ScAggregateContext) :
    Prop :=
  asksDigest init = true ∨ (∃ r ∈ datas, completes r = true) ∧ aggr.all (·.fSeparate) = true

/-- What is opened and made for the channel from `s` to `s'`, when `init` registered it and `datas`
went to it. -/
def ChannelConfined (cfg : Config) (s s' : Session) (c : ScChannel) (init : Request)
    (datas : List Request) : Prop :=
  Confined cfg.logdir s.conn.remoteAddr c (OpensSeparate init datas c.aggregateContext)
    ((if asksDigest init then [c.filenameFullpath] else []) ++
      s'.fs.opened.drop s.fs.opened.length)
    (s'.fs.made.drop s.fs.made.length)

/-- The condition on the name: behind `logdir` and behind the directory of the client it comes back
through the names that it goes up, in each path that the mode opens, and on the way it leads to no
other directory. -/
structure NameStays (cfg : Config) (addr : Option Bytes) (init : Request) (datas : List Request) :
    Prop where
  merged : (∃ r ∈ datas, completes r = true) →
    (findAggregateContext cfg (separatePath cfg.logdir addr (nameOf init.msg))).all (·.fMerge) →
    LeadsInto cfg.logdir (mkPath cfg.logdir (nameOf init.msg) PATH_MAX)
  separate : OpensSeparate init datas
      (findAggregateContext cfg (separatePath cfg.logdir addr (nameOf init.msg))) →
    LeadsInto cfg.logdir (separatePath cfg.logdir addr (nameOf init.msg)) ∧
      ∀ a ∈ addr, LeadsInto (home cfg.logdir a) (separatePath cfg.logdir addr (nameOf init.msg))
  made : (∃ r ∈ datas, completes r = true) →
    (findAggregateContext cfg (separatePath cfg.logdir addr (nameOf init.msg))).all (·.fSeparate) →
    ∀ dir ∈ createdDirs (dirname (separatePath cfg.logdir addr (nameOf init.msg))),
      StaysAlong cfg.logdir dir

/-- The channel that an INIT request registers. -/
theorem channel_of_init {cfg : Config} {s s1 : Session} {init : Request} {c : ScChannel}
    (hlogdir : 0 ∉ cfg.logdir) (haddr : ∀ a ∈ s.conn.remoteAddr, 0 ∉ a)
    (hcode : init.msg.code = SCM_MSG_INIT) (hinit : s.step cfg init = .ok s1)
    (hc : scConnectionChannel s1.conn (maxId s.conn.channelList + 1) = some c) :
    s1.fs = s.fs ∧ c.id = maxId s.conn.channelList + 1 ∧ c.filename = nameOf init.msg ∧
      c.filenameFullpath = separatePath cfg.logdir s.conn.remoteAddr (nameOf init.msg) ∧
      c.aggregateContext = findAggregateContext cfg c.filenameFullpath ∧
      (cfg.logdir ≠ [] ∨ s.conn.remoteAddr = none) := by
  obtain ⟨handled, hhandle, rfl⟩ := Session.step_eq_ok.mp hinit
  have hhandler : handlerFor init.msg.code init.msg.channel = some .init := by
    rw [handlerFor, hcode]
    split <;> rfl
  simp only [handle, hhandler] at hhandle
  obtain ⟨attr, -, hhandle⟩ := bind_eq_ok.mp hhandle
  simp only at hhandle
  split at hhandle
  · cases hhandle
  · obtain ⟨p, hp, hhandle⟩ := bind_eq_ok.mp hhandle
    obtain ⟨-, rfl⟩ := Block.load_eq_ok.mp hp
    obtain ⟨channel, hnew, hhandle⟩ := bind_eq_ok.mp hhandle
    obtain ⟨⟨conn', channel'⟩, hreg, hhandle⟩ := bind_eq_ok.mp hhandle
    obtain ⟨sent, -, heq⟩ := bind_eq_ok.mp hhandle
    cases heq
    obtain ⟨-, rfl, rfl⟩ := scConnectionRegisterChannel_eq_ok.mp hreg
    -- The new channel is at the front of the list, and its number is the one that was looked up.
    have hfound : c = { channel with id := maxId s.conn.channelList + 1 } := by
      rw [scConnectionChannel_eq, List.find?_cons_of_pos (by simp), Option.some_or] at hc
      exact (Option.some.inj hc).symm
    obtain ⟨path, hpath, heq⟩ := bind_eq_ok.mp hnew
    cases heq
    rw [hfound]
    refine ⟨rfl, rfl, rfl, ?_, rfl, ?_⟩
    · -- Both components of the path are C strings: the address, and the name up to its zero.
      refine pathcat_eq hlogdir ?_ hpath
      intro comp hcomp
      cases hremote : s.conn.remoteAddr with
      | none =>
        rw [hremote] at hcomp
        cases hcomp
      | some a =>
        rw [hremote] at hcomp
        rcases List.mem_cons.mp hcomp with rfl | hcomp
        · exact haddr _ (by rw [hremote]; rfl)
        · rw [List.mem_singleton.mp hcomp]
          exact zero_notMem_cstr _
    · -- `pathcat` reads in front of an empty string.
      by_contra hnone
      obtain ⟨hnil, hsome⟩ := not_or.mp hnone
      obtain ⟨a, hremote⟩ := Option.ne_none_iff_exists'.mp hsome
      rw [not_not.mp hnil, hremote] at hpath
      cases hpath

/-- The paths of the completing requests are those of one of them, if there is one. -/
theorem mem_flatMap_completes {datas : List Request} {paths : List Bytes} {path : Bytes} :
    (path ∈ (datas.filter completes).flatMap fun _ => paths) ↔
      (∃ r ∈ datas, completes r = true) ∧ path ∈ paths := by
  simp only [List.mem_flatMap, List.mem_filter]
  constructor
  · rintro ⟨r, hr, hpath⟩
    exact ⟨⟨r, hr⟩, hpath⟩
  · rintro ⟨⟨r, hr⟩, hpath⟩
    exact ⟨r, hr, hpath⟩

/-- The directories of the separate file. -/
theorem made_iff {logdir : Bytes} {addr : Option Bytes} (hne : logdir ≠ [] ∨ addr = none)
    (name : Bytes) :
    (∀ dir ∈ createdDirs (dirname (separatePath logdir addr name)),
        Existing logdir dir ∨ Under logdir dir) ↔
      ∀ dir ∈ createdDirs (dirname (separatePath logdir addr name)), StaysAlong logdir dir := by
  -- The separate file is a cut of `logdir` with something behind it.
  have hbehind : ∃ rest, separatePath logdir addr name <+: logdir ++ rest ∧ Joins logdir rest ∧
      (logdir ≠ [] ∨ rest = []) := by
    cases addr with
    | none =>
      refine ⟨[], ?_, Or.inl rfl, Or.inr rfl⟩
      rw [List.append_nil]
      exact List.take_prefix _ _
    | some a =>
      obtain ⟨rest, hrest, hjoins⟩ := joined_eq_append logdir [a, name]
      refine ⟨rest, ?_, hjoins, Or.inl (hne.resolve_right nofun)⟩
      rw [← hrest]
      exact List.take_prefix _ _
  obtain ⟨rest, hfront, hjoins, hrest⟩ := hbehind
  refine forall₂_congr fun dir hdir => ?_
  have hcases : dir = [DOT] ∨ dir <+: logdir ++ rest :=
    (createdDirs_cases hdir).imp_right fun h => h.trans hfront
  exact existing_or_under_iff hjoins hrest hcases

/-- Which paths are opened. -/
theorem opened_iff (cfg : Config) (c : ScChannel) (digest : Bool) (datas : List Request) :
    (∀ path ∈ (if digest then [c.filenameFullpath] else []) ++
        (datas.filter completes).flatMap fun _ => openedFor cfg c, Under cfg.logdir path) ↔
      ((∃ r ∈ datas, completes r = true) → Merging c = true →
        Under cfg.logdir (mkPath cfg.logdir c.filename PATH_MAX)) ∧
      (digest = true ∨ (∃ r ∈ datas, completes r = true) ∧ Separating c = true →
        Under cfg.logdir c.filenameFullpath) := by
  simp only [List.forall_mem_append, mem_flatMap_completes, openedFor]
  -- The flags say which of the paths are in the list.
  by_cases hdone : ∃ r ∈ datas, completes r = true
  · cases digest <;> cases Merging c <;> cases Separating c <;> simp [hdone]
    tauto
  · cases digest <;> simp [hdone]

/-- Which directories are made. -/
theorem madeFor_iff (c : ScChannel) (datas : List Request) (P : Bytes → Prop) :
    (∀ dir ∈ (datas.filter completes).flatMap fun _ => madeFor c, P dir) ↔
      ((∃ r ∈ datas, completes r = true) → Separating c = true →
        ∀ dir ∈ createdDirs (dirname c.filenameFullpath), P dir) := by
  simp only [mem_flatMap_completes, madeFor]
  -- Only the separate file has its directories made.
  cases Separating c with
  | false => simp
  | true =>
    simp only [if_true, forall_const]
    exact ⟨fun h hdone dir hdir => h dir ⟨hdone, hdir⟩, fun h dir hdir => h hdir.1 dir hdir.2⟩

/-- In every run of DATA requests on the channel that an INIT request registered, the paths that
are opened and made lie where they should exactly when the name stays there. `logdir` and the
address of the client are C strings. -/
theorem confined_iff {cfg : Config} {s s1 s2 : Session} {init : Request} {datas : List Request}
    {c : ScChannel} (hlogdir : 0 ∉ cfg.logdir) (haddr : ∀ a ∈ s.conn.remoteAddr, 0 ∉ a)
    (hcode : init.msg.code = SCM_MSG_INIT) (hinit : s.step cfg init = .ok s1)
    (hc : scConnectionChannel s1.conn (maxId s.conn.channelList + 1) = some c)
    (hdatas : ∀ r ∈ datas, SentOn c.id r) (hrun : datas.foldlM (Session.step cfg) s1 = .ok s2) :
    ChannelConfined cfg s s2 c init datas ↔ NameStays cfg s.conn.remoteAddr init datas := by
  obtain ⟨hfs, hid, hname, hpath, haggr, hne⟩ := channel_of_init hlogdir haddr hcode hinit hc
  have hpos : 0 < c.id := by
    have hnonneg := maxId_nonneg s.conn.channelList
    omega
  have hfinds : Finds s1.conn c := by
    refine ⟨c.buffer, ?_⟩
    show scConnectionChannel s1.conn c.id = some c
    rw [hid]
    exact hc
  have htouches := (recorded_run hpos hfinds hdatas hrun).touches
  rw [hfs] at htouches
  have hcontext : findAggregateContext cfg
      (separatePath cfg.logdir s.conn.remoteAddr (nameOf init.msg)) = c.aggregateContext := by
    rw [← hpath, haggr]
  -- The paths are those of the channel, and each of them is looked at behind its directory.
  have hlead : Under cfg.logdir c.filenameFullpath ↔ LeadsInto cfg.logdir
      (separatePath cfg.logdir s.conn.remoteAddr (nameOf init.msg)) := by
    rw [hpath]
    exact under_separatePath_iff _ _ _
  have hhome : ∀ a ∈ s.conn.remoteAddr, Under (home cfg.logdir a) c.filenameFullpath ↔
      LeadsInto (home cfg.logdir a)
        (separatePath cfg.logdir s.conn.remoteAddr (nameOf init.msg)) := by
    intro a ha
    rw [hpath, Option.mem_def.mp ha]
    exact under_home_iff _ _ _
  have hopened := opened_iff cfg c (asksDigest init) datas
  have hmade := madeFor_iff c datas fun dir => Existing cfg.logdir dir ∨ Under cfg.logdir dir
  rw [hname, under_mergedPath_iff, hlead] at hopened
  rw [hpath, made_iff hne] at hmade
  -- What was there before the run is at the front of both lists.
  rw [ChannelConfined, htouches.opened_eq, htouches.made_eq, List.drop_left, List.drop_left]
  -- Each field of one side is the same field of the other, with the paths read as the name.
  constructor
  · intro h
    obtain ⟨hmerged, hseparate⟩ := hopened.mp h.opened
    refine ⟨?_, ?_, ?_⟩
    · rw [hcontext]
      exact hmerged
    · rw [hcontext]
      exact fun hopens => ⟨hseparate hopens, fun a ha => (hhome a ha).mp (h.separate hopens a ha)⟩
    · rw [hcontext]
      exact hmade.mp h.made
  · intro h
    have hmerged := h.merged
    have hseparate := h.separate
    have hdirs := h.made
    rw [hcontext] at hmerged hseparate hdirs
    refine ⟨hopened.mpr ⟨hmerged, fun hopens => (hseparate hopens).1⟩, ?_, hmade.mpr hdirs⟩
    intro hopens a ha
    exact (hhome a ha).mpr ((hseparate hopens).2 a ha)

/-- One line on the channel of the small configuration. -/
theorem confined_iff_small :
    ∃ s2, [smallData ATTR_TOP [97, LF]].foldlM (Session.step (smallConfig [])) (oneChannel []) =
        .ok s2 ∧
      (ChannelConfined (smallConfig []) (Session.start (some [97]) Fs.empty) s2
        bothChannel smallInit
          [smallData ATTR_TOP [97, LF]] ↔
        NameStays (smallConfig []) (some [97]) smallInit [smallData ATTR_TOP [97, LF]]) := by
  have hinit : Session.step (smallConfig []) (Session.start (some [97]) Fs.empty) smallInit =
      .ok (oneChannel []) := by
    obtain ⟨s1, hstep, hnil⟩ := foldlM_cons_eq_ok.mp (Session.small_run [] Fs.empty 1 (by decide))
    cases hnil
    exact hstep
  -- The run is evaluated once, to see that it does not end in undefined behaviour.
  cases hrun :
    [smallData ATTR_TOP [97, LF]].foldlM (Session.step (smallConfig [])) (oneChannel []) with
  | error t =>
    have hok : ([smallData ATTR_TOP [97, LF]].foldlM (Session.step (smallConfig []))
        (oneChannel [])).toBool = true := rfl
    rw [hrun] at hok
    cases hok
  | ok s2 =>
    refine ⟨s2, rfl, confined_iff (by decide) (by decide) rfl hinit rfl ?_ hrun⟩
    intro r hr
    rw [List.mem_singleton.mp hr]
    exact ⟨rfl, by decide⟩

/-- An INIT request for the name `../../x`. -/
def climbingInit : Request :=
  ⟨zeroHeap, [], .received SCM_MSG_INIT 0 ([0, 0, 0, 0] ++ ascii "../../x")⟩

/-- The files of `../../x` lie in the root directory. -/
theorem name_climbs_out :
    ∃ s1 s2 c, Session.step (smallConfig []) (Session.start (some [97]) Fs.empty) climbingInit =
        .ok s1 ∧
      scConnectionChannel s1.conn 1 = some c ∧
      [smallData ATTR_TOP [97, LF]].foldlM (Session.step (smallConfig [])) s1 = .ok s2 ∧
      ¬ ChannelConfined (smallConfig []) (Session.start (some [97]) Fs.empty) s2 c climbingInit
          [smallData ATTR_TOP [97, LF]] := by
  -- The two files of the line, by evaluation.
  have hopened : ([climbingInit, smallData ATTR_TOP [97, LF]].foldlM (Session.step (smallConfig []))
      (Session.start (some [97]) Fs.empty)).map (·.fs.opened) =
        .ok [ascii "/l/../../x", ascii "/l/a/../../x"] := rfl
  have hfound : (Session.step (smallConfig []) (Session.start (some [97]) Fs.empty)
      climbingInit).map (fun s => (scConnectionChannel s.conn 1).isSome) = .ok true :=
    rfl
  cases hrun : [climbingInit, smallData ATTR_TOP [97, LF]].foldlM (Session.step (smallConfig []))
      (Session.start (some [97]) Fs.empty) with
  | error t =>
    rw [hrun] at hopened
    cases hopened
  | ok s2 =>
    rw [hrun] at hopened
    obtain ⟨s1, hinit, hdata⟩ := foldlM_cons_eq_ok.mp hrun
    rw [hinit] at hfound
    obtain ⟨c, hc⟩ := Option.isSome_iff_exists.mp (Except.ok.inj hfound)
    refine ⟨s1, s2, c, hinit, hc, hdata, ?_⟩
    -- Two levels up from `/l` is above the directory of the logs.
    intro h
    have hpaths : s2.fs.opened = [ascii "/l/../../x", ascii "/l/a/../../x"] :=
      Except.ok.inj hopened
    have hin : ascii "/l/../../x" ∈ s2.fs.opened := by
      rw [hpaths]
      exact List.mem_cons_self
    have hunder : Under (ascii "/l") (ascii "/l/../../x") :=
      h.opened _ (List.mem_append_right _ hin)
    exact absurd hunder (by decide)

end Compostela.Proofs.Confinement
