import Compostela.Follower.Descriptors
import Compostela.Proofs.UniqueFiles

/-!
# `Compostela.Proofs.DescriptorOwners`: one owner for each descriptor

A descriptor that the follower opened and did not close should be in one place of its state: the
socket of the connection, the file of one context, the control socket or the epoll descriptor. No
control connection is being served between two events.

Four branches drop a descriptor: a connection that replaces an open socket, a context that is
destroyed with its file, a control connection of which data was read, and a control socket that
stays blocking. `KeepsOwners` says of an event that it takes none of them.
`Accounted.oneOwner_step_iff` is the step lemma, and `oneOwner_run_iff` the result for every run.
-/

set_option autoImplicit false

namespace Compostela.Proofs.DescriptorOwners

open Compostela.Common
open Compostela.Memory
open Compostela.Owners
open Compostela.Runs
open Compostela.Follower
open Compostela.Proofs.UniqueFiles

section
variable {σ : Type}

/-- The places of the state, with what they hold. -/
def ownersOf (s : Descriptors σ) : List Int :=
  held (-1) s.socket ++ (openFiles s.list.contexts ++ (held (-1) s.listener ++ held (-1) s.epfd))

/-- Every descriptor that was opened and not closed has exactly one owner. -/
def OneOwner (s : Descriptors σ) : Prop := ∀ d ∈ s.table, (ownersOf s).count d = 1

/-- An address that can be connected. -/
def Attempt.Connects : Attempt σ → Prop
  | .connected _ => True
  | _ => False

/-- An event drops no descriptor. -/
def KeepsOwners (s : Descriptors σ) : Descriptors.Event σ → Prop
  | .tick .. => True
  | .control _ _ accepted received => accepted = true → received = none
  | .run place inp => ∀ c, s.list.contexts[place]? = some c → ¬ ReadFails inp c.cxt s.list.conn
  | .reconnect attempts => s.list.conn.opened = true → ∀ a ∈ attempts, ¬ Attempt.Connects a
  | .network _ => True

/-- The invariant: every open descriptor has its owner, and no owner refers to a closed one. -/
structure Accounted (s : Descriptors σ) : Prop where
  owned : Owned s.table (ownersOf s)
  opened : s.list.conn.opened = true ↔ s.socket ≠ -1
  valid : AllValid s.list.contexts

end

/-! ### The places -/

section
variable {σ : Type} {s s' : Descriptors σ}

/-- When all owners are accounted for, each open descriptor has one. -/
theorem Accounted.oneOwner (h : Accounted s) : OneOwner s := fun _ hd => h.owned.count_eq_one hd

/-- A descriptor that is dropped has no owner. -/
theorem not_oneOwner_of_lost {d : Int} (h : Owned s.table (d :: ownersOf s)) : ¬ OneOwner s := by
  obtain ⟨hmem, hnone⟩ := h.lost
  intro hone
  have hcount := hone d hmem
  rw [List.count_eq_zero_of_not_mem hnone] at hcount
  cases hcount

/-- -1 stands for no descriptor, so nobody holds it. -/
theorem neg_one_notMem_held (d : Int) : -1 ∉ held (-1) d := by
  unfold held
  split
  · exact List.not_mem_nil
  · rename_i hne
    exact fun hmem => hne (List.mem_singleton.mp hmem).symm

/-- -1 is no open file of a context. -/
theorem neg_one_notMem_openFiles (contexts : List Listed) : -1 ∉ openFiles contexts := by
  intro hmem
  obtain ⟨c, -, hc⟩ := List.mem_flatMap.mp hmem
  exact neg_one_notMem_held _ hc

/-- No descriptor is -1. -/
theorem Accounted.neg_one_notMem (h : Accounted s) : -1 ∉ s.table := by
  rw [h.owned.perm.mem_iff]
  unfold ownersOf
  simp only [List.mem_append, not_or]
  exact ⟨neg_one_notMem_held _, neg_one_notMem_openFiles _, neg_one_notMem_held _,
    neg_one_notMem_held _⟩

/-- The next descriptor is not open yet. -/
theorem nextDescriptor_notMem (inherited table : List Int) :
    nextDescriptor inherited table ∉ table :=
  fun hmem => lowestFree_notMem _ (List.mem_append_right _ hmem)

/-- The next descriptor is a real one, so who gets it holds it. -/
theorem held_nextDescriptor (inherited table : List Int) :
    held (-1) (nextDescriptor inherited table) = [nextDescriptor inherited table] := by
  have hnonneg : 0 ≤ nextDescriptor inherited table := lowestFree_nonneg _
  exact held_of_ne (by omega)

/-- After the calls of an event the socket is still there, or it is closed. `dropped` is what the
list does not have any more. -/
theorem owned_afterCalls {table files dropped : List Int} (list : ContextList σ)
    (hneg : -1 ∉ table)
    (h : Owned table (held (-1) s.socket ++
      (dropped ++ files ++ (held (-1) s.listener ++ held (-1) s.epfd))))
    (hfiles : (openFiles list.contexts).Perm files) :
    Owned (s.afterCalls table list).table (dropped ++ ownersOf (s.afterCalls table list)) := by
  -- `close` on the socket gives its number back, and nobody else owns it.
  have hsocket : Owned (s.afterCalls table list).table
      (held (-1) (s.afterCalls table list).socket ++
        (dropped ++ files ++ (held (-1) s.listener ++ held (-1) s.epfd))) := by
    unfold Descriptors.afterCalls
    split
    · exact h
    · rw [held_self, List.nil_append]
      exact h.releaseHeld hneg
  have hlist : (s.afterCalls table list).list = list ∧
      (s.afterCalls table list).listener = s.listener ∧
      (s.afterCalls table list).epfd = s.epfd := by
    unfold Descriptors.afterCalls
    split <;> exact ⟨rfl, rfl, rfl⟩
  refine hsocket.congr ?_
  unfold ownersOf
  rw [hlist.1, hlist.2.1, hlist.2.2, List.append_assoc dropped]
  refine List.perm_append_comm_assoc .. |>.trans ?_
  exact (((hfiles.symm.append_right _).append_left _).append_left _)

/-- The connection is open exactly when it has a socket. -/
theorem opened_afterCalls {table : List Int} {list : ContextList σ} (h : Accounted s)
    (hclosed : s.list.conn.opened = false → list.conn.opened = false) :
    (s.afterCalls table list).list.conn.opened = true ↔ (s.afterCalls table list).socket ≠ -1 := by
  unfold Descriptors.afterCalls
  split
  · rename_i hopen
    refine ⟨fun _ => h.opened.mp ?_, fun _ => hopen⟩
    cases hbefore : s.list.conn.opened with
    | true => rfl
    | false =>
      rw [hclosed hbefore] at hopen
      cases hopen
  · rename_i hopen
    exact ⟨fun hopen' => absurd hopen' hopen, fun hne => absurd rfl hne⟩

end

/-! ### The context list -/

section
variable {σ : Type} {net : Listed → Net σ} {clock : Clock} {md5 : Md5}
  {patterns : List ScConfigPatternEntry} {contexts contexts' : List Listed}
  {conn conn' : ScAggregatorConnection σ}

/-- `do_rotate` opens no file and no connection. -/
theorem doRotate_closed {heap : Nat → Heap}
    (h : doRotate net clock heap patterns contexts conn = .ok (contexts', conn')) :
    openFiles contexts' = openFiles contexts ∧ (conn.opened = false → conn'.opened = false) := by
  induction patterns generalizing contexts conn with
  | nil =>
    cases h
    exact ⟨rfl, id⟩
  | cons pe rest ih =>
    obtain ⟨⟨contexts1, conn1⟩, hentry, h⟩ := bind_eq_ok.mp h
    obtain ⟨hfiles, hconn⟩ := ih h
    -- An entry closes no file: it sends a RELE and adds a context.
    have hone : openFiles contexts1 = openFiles contexts ∧
        (conn.opened = false → conn1.opened = false) := by
      obtain ⟨fn, dn, -, ⟨c, -, -, rfl, rfl⟩ | ⟨rfl, ⟨-, rfl⟩ | ⟨c, ret, -, -, hclose⟩⟩⟩ :=
        rotateEntry_cases hentry
      · exact ⟨rfl, id⟩
      · exact ⟨rfl, id⟩
      · refine ⟨rfl, fun hopen => ?_⟩
        rcases scFollowContextClose_cases hclose with ⟨-, -, rfl⟩ | ⟨htrue, -⟩ | ⟨htrue, -⟩
        · exact hopen
        · exact absurd htrue (by rw [hopen]; decide)
        · exact absurd htrue (by rw [hopen]; decide)
    exact ⟨hfiles.trans hone.1, fun hopen => hconn (hone.2 hopen)⟩

/-- The commands of a control connection open no file. -/
theorem openLines_closed {heap : Nat → Heap} {lines : List Bytes}
    (h : openLines heap lines contexts = .ok contexts') :
    openFiles contexts' = openFiles contexts := by
  induction lines generalizing contexts with
  | nil =>
    cases h
    rfl
  | cons line rest ih =>
    unfold openLines at h
    split at h
    · obtain ⟨contexts1, hline, h⟩ := bind_eq_ok.mp h
      rw [ih h]
      unfold doControllerDirectOpenWithLine at hline
      split at hline
      · cases hline
      · split at hline
        · split at hline
          · cases hline
          · cases hline
            rfl
        · cases hline
    · exact ih h

/-- Among numbered entries the one with a number is taken out. -/
theorem map_fst_eraseP_zipIdx {α : Type} (l : List α) (n place : Nat) :
    ((l.zipIdx n).eraseP fun p => decide (p.2 = n + place)).map Prod.fst = l.eraseIdx place := by
  induction l generalizing n place with
  | nil => rfl
  | cons a rest ih =>
    cases place with
    | zero =>
      rw [List.zipIdx_cons, List.eraseP_cons_of_pos (by simp), List.zipIdx_map_fst]
      rfl
    | succ place =>
      have hsum : n + (place + 1) = n + 1 + place := by omega
      rw [List.zipIdx_cons, List.eraseP_cons_of_neg (by simp), List.map_cons, hsum, ih]
      rfl

/-- The context at a place is taken out. -/
theorem deleteContext_eq_eraseIdx {place : Nat} (h : deleteContext contexts place = .ok contexts') :
    contexts' = contexts.eraseIdx place := by
  obtain ⟨li, hdelete, h⟩ := bind_eq_ok.mp h
  cases h
  obtain ⟨-, rfl⟩ := azListDelete_eq_ok.mp hdelete
  have herase := map_fst_eraseP_zipIdx contexts 0 place
  rwa [Nat.zero_add] at herase

end

/-! ### The events -/

section
variable {σ : Type} {inherited : List Int} {net : Listed → Net σ} {md5 : Md5}
  {patterns : List ScConfigPatternEntry} {s s' : Descriptors σ}

/-- The list after a tick or a command is the one that it made. -/
theorem list_afterCalls (s : Descriptors σ) (table : List Int) (list : ContextList σ) :
    (s.afterCalls table list).list = list := by
  unfold Descriptors.afterCalls
  split <;> rfl

/-- The invariant after calls that drop nothing. -/
theorem Accounted.afterCalls {list : ContextList σ} {table files : List Int} (h : Accounted s)
    (hneg : -1 ∉ table)
    (howned : Owned table (held (-1) s.socket ++
      (files ++ (held (-1) s.listener ++ held (-1) s.epfd))))
    (hfiles : (openFiles list.contexts).Perm files)
    (hclosed : s.list.conn.opened = false → list.conn.opened = false)
    (hvalid : AllValid list.contexts) : Accounted (s.afterCalls table list) :=
  ⟨@owned_afterCalls σ s table files [] list hneg howned hfiles, opened_afterCalls h hclosed,
    by rw [list_afterCalls]; exact hvalid⟩

/-- A tick of the rotation opens and closes nothing. -/
theorem Accounted.tick {clock : Clock} {heap : Nat → Heap} (h : Accounted s)
    (hstep : s.step inherited net md5 patterns (.tick clock heap) = .ok s') : Accounted s' := by
  obtain ⟨list, hlist, hstep⟩ := bind_eq_ok.mp hstep
  cases hstep
  have hvalid := h.valid.step hlist
  obtain ⟨⟨contexts, conn⟩, hrotate, hlist⟩ := bind_eq_ok.mp hlist
  cases hlist
  obtain ⟨hfiles, hclosed⟩ := doRotate_closed hrotate
  exact h.afterCalls h.neg_one_notMem h.owned (List.Perm.of_eq hfiles) hclosed hvalid

/-- A control connection is closed, or it stays open without an owner. -/
theorem Accounted.control {heap : Heap} {heaps : Nat → Heap} {accepted : Bool}
    {received : Option Bytes} (h : Accounted s)
    (hstep : s.step inherited net md5 patterns (.control heap heaps accepted received) = .ok s') :
    ((accepted = true → received = none) → Accounted s') ∧
      (¬ (accepted = true → received = none) → ¬ OneOwner s') := by
  cases accepted with
  | false =>
    cases hstep
    exact ⟨fun _ => h, fun hnot => absurd nofun hnot⟩
  | true =>
    cases received with
    | none =>
      simp only [Descriptors.step, List.erase_cons_head] at hstep
      cases hstep
      exact ⟨fun _ => h, fun hnot => absurd (fun _ => rfl) hnot⟩
    | some data =>
      simp only [Descriptors.step] at hstep
      rw [if_neg (by decide)] at hstep
      -- The data was read, and nothing closes the accepted descriptor.
      obtain ⟨list, hlist, hstep⟩ := bind_eq_ok.mp hstep
      cases hstep
      refine ⟨fun hkeeps => absurd (hkeeps rfl) (Option.some_ne_none _), fun _ => ?_⟩
      obtain ⟨contexts, hreceive, hlist⟩ := bind_eq_ok.mp hlist
      cases hlist
      obtain ⟨lines, -, hopen⟩ := bind_eq_ok.mp hreceive
      have hfiles := openLines_closed hopen
      have howned := h.owned.acquire (nextDescriptor_notMem inherited s.table)
      refine @not_oneOwner_of_lost σ _ (nextDescriptor inherited s.table) ?_
      unfold ownersOf at howned ⊢
      rw [hfiles]
      exact howned

/-- The result of `open` is the next descriptor, or -1. -/
theorem numbered_fd (inp : RunInput) (fd : Int) :
    (inp.numbered fd).opened.fd = if inp.opened.fd < 0 then -1 else fd := rfl

/-- When `open` fails, the descriptor that a run finds is -1. -/
theorem numbered_fd_of_neg {inp : RunInput} {fd : Int} (hfd : 0 ≤ fd)
    (h : (inp.numbered fd).opened.fd < 0) : (inp.numbered fd).opened.fd = -1 := by
  rw [numbered_fd] at h ⊢
  split at h
  · rename_i hneg
    exact if_pos hneg
  · omega

/-- When `open` succeeds, the descriptor that a run finds is the next one. -/
theorem numbered_fd_of_nonneg {inp : RunInput} {fd : Int}
    (h : 0 ≤ (inp.numbered fd).opened.fd) : (inp.numbered fd).opened.fd = fd := by
  rw [numbered_fd] at h ⊢
  split at h
  · omega
  · rename_i hopen
    exact if_neg hopen

/-- The number of an opened file does not matter for where a run gets to. -/
theorem readFails_numbered (inp : RunInput) {fd : Int} (hfd : 0 ≤ fd) (cxt : ScFollowContext)
    (conn : ScAggregatorConnection σ) :
    ReadFails (inp.numbered fd) cxt conn ↔ ReadFails inp cxt conn := by
  have hopened : 0 ≤ (inp.numbered fd).opened.fd ↔ 0 ≤ inp.opened.fd := by
    rw [numbered_fd]
    split <;> omega
  unfold ReadFails
  rw [hopened]
  rfl

/-- A run whose `read` fails has its file open. -/
theorem fd_ne_of_readFails {inp : RunInput} {cxt : ScFollowContext}
    {conn : ScAggregatorConnection σ} (h : ReadFails inp cxt conn) :
    (if OpensFile inp cxt conn then inp.opened.fd else cxt.fd) ≠ -1 := by
  obtain ⟨hopen, hcode, hfd, -, -⟩ := h
  split
  · rename_i hfresh
    have hge := hfresh.2.2.2
    omega
  · rename_i hold
    rcases hfd with hpos | hboth
    · omega
    · exact absurd ⟨hopen, hcode, hboth⟩ hold

/-- The places of the list after a run, with the file that the run opened. -/
theorem Accounted.opensFile {inp : RunInput} {c : Listed} {cxt : ScFollowContext}
    (h : Accounted s) {rest : List Int}
    (hperm : (openFiles s.list.contexts).Perm (held (-1) c.cxt.fd ++ rest))
    (hfd : cxt.fd = if OpensFile (inp.numbered (nextDescriptor inherited s.table)) c.cxt s.list.conn
      then (inp.numbered (nextDescriptor inherited s.table)).opened.fd else c.cxt.fd) :
    Owned (if OpensFile (inp.numbered (nextDescriptor inherited s.table)) c.cxt s.list.conn
        then (inp.numbered (nextDescriptor inherited s.table)).opened.fd :: s.table else s.table)
      (held (-1) s.socket ++
        (held (-1) cxt.fd ++ rest ++ (held (-1) s.listener ++ held (-1) s.epfd))) := by
  have howned := h.owned.congr ((hperm.append_right _).append_left _)
  rw [hfd]
  split
  · rename_i hopens
    have hnumber : (inp.numbered (nextDescriptor inherited s.table)).opened.fd =
        nextDescriptor inherited s.table := numbered_fd_of_nonneg hopens.2.2.2
    -- The context had no file, so the new descriptor is its only one.
    rw [hopens.2.2.1, held_self, List.nil_append] at howned
    rw [hnumber, held_nextDescriptor]
    have hacquired := howned.acquire (nextDescriptor_notMem inherited s.table)
    exact hacquired.congr List.perm_middle.symm
  · exact howned

/-- A run opens no -1. -/
theorem Accounted.neg_one_notMem_opened {inp : RunInput} {cxt : ScFollowContext}
    {conn : ScAggregatorConnection σ} (h : Accounted s) :
    -1 ∉ (if OpensFile inp cxt conn then inp.opened.fd :: s.table else s.table) := by
  split
  · rename_i hopens
    have hge := hopens.2.2.2
    rw [List.mem_cons, not_or]
    exact ⟨by omega, h.neg_one_notMem⟩
  · exact h.neg_one_notMem

/-- A run of a context whose `read` fails destroys it with its file. -/
theorem Accounted.run {place : Nat} {inp : RunInput} (h : Accounted s)
    (hstep : s.step inherited net md5 patterns (.run place inp) = .ok s') :
    (KeepsOwners s (.run place inp) → Accounted s') ∧
      (¬ KeepsOwners s (.run place inp) → ¬ OneOwner s') := by
  obtain ⟨list, hlist, hstep⟩ := bind_eq_ok.mp hstep
  have hvalid := h.valid.step hlist
  cases hplace : s.list.contexts[place]? with
  | none =>
    simp only [ContextList.step, hplace] at hlist hstep
    cases hlist
    cases hstep
    refine ⟨fun _ => h.afterCalls h.neg_one_notMem h.owned (.refl _) id h.valid,
      fun hnot => absurd ?_ hnot⟩
    intro c hc
    rw [hplace] at hc
    cases hc
  | some c =>
    have hkeeps : KeepsOwners s (.run place inp) ↔ ¬ ReadFails inp c.cxt s.list.conn := by
      constructor
      · intro hkeeps
        exact hkeeps c hplace
      · intro hnot c' hc'
        rw [hplace] at hc'
        cases hc'
        exact hnot
    have hnext : 0 ≤ nextDescriptor inherited s.table := lowestFree_nonneg _
    simp only [ContextList.step, hplace] at hlist hstep
    obtain ⟨⟨ret, cxt, conn⟩, hrun, hlist⟩ := bind_eq_ok.mp hlist
    obtain ⟨hfd, hret, hclosed⟩ := runFollowContext_fd
      (h.valid c (List.mem_of_getElem? hplace)) (numbered_fd_of_neg hnext) hrun
    rw [readFails_numbered inp hnext] at hret
    rw [hkeeps, ← hret]
    -- The file of this context, taken out of the files of the list.
    obtain ⟨rest, hperm, herase, hset⟩ :=
      exists_perm_flatMap (fun c : Listed => held (-1) c.cxt.fd) hplace
    have howned := h.opensFile hperm hfd
    have hneg : -1 ∉ (if OpensFile (inp.numbered (nextDescriptor inherited s.table)) c.cxt
        s.list.conn then (inp.numbered (nextDescriptor inherited s.table)).opened.fd :: s.table
        else s.table) := h.neg_one_notMem_opened
    cases hstep
    constructor
    · intro hgood
      rw [if_neg hgood] at hlist
      cases hlist
      exact h.afterCalls hneg howned (hset _) hclosed hvalid
    · intro hbad
      have hfails := not_not.mp hbad
      rw [if_pos hfails] at hlist
      obtain ⟨contexts, hdelete, hlist⟩ := bind_eq_ok.mp hlist
      cases hlist
      rw [deleteContext_eq_eraseIdx hdelete]
      -- The run got to its `read`, so the file is open.
      have hfile : cxt.fd ≠ -1 := by
        rw [hfd]
        exact fd_ne_of_readFails ((readFails_numbered inp hnext _ _).mpr (hret.mp hfails))
      rw [held_of_ne hfile] at howned
      refine not_oneOwner_of_lost (owned_afterCalls _ hneg howned ?_)
      exact herase

/-- The loop over the addresses stops at the first one that can be connected, with a new
descriptor. Otherwise it leaves the table as it was. -/
theorem openLoop_cases (inherited table : List Int) (attempts : List (Attempt σ)) :
    ((∀ a ∈ attempts, ¬ Attempt.Connects a) ∧ openLoop inherited table attempts = (table, none)) ∨
      (∃ a ∈ attempts, Attempt.Connects a) ∧
        ∃ change, openLoop inherited table attempts =
          (nextDescriptor inherited table :: table,
            some (nextDescriptor inherited table, change)) := by
  induction attempts with
  | nil => exact Or.inl ⟨nofun, rfl⟩
  | cons a rest ih =>
    -- An address without a connection leaves no descriptor.
    have hskip : ¬ Attempt.Connects a →
        openLoop inherited table (a :: rest) = openLoop inherited table rest := by
      intro hnot
      cases a with
      | noSocket => rfl
      | refused => simp only [openLoop, List.erase_cons_head]
      | connected change => exact absurd trivial hnot
    by_cases ha : Attempt.Connects a
    · cases a with
      | noSocket => exact ha.elim
      | refused => exact ha.elim
      | connected change => exact Or.inr ⟨⟨_, List.mem_cons_self, trivial⟩, change, rfl⟩
    · rw [hskip ha]
      refine ih.imp ?_ ?_
      · rintro ⟨hnone, heq⟩
        exact ⟨List.forall_mem_cons.mpr ⟨ha, hnone⟩, heq⟩
      · rintro ⟨⟨b, hb, hconnects⟩, heq⟩
        exact ⟨⟨b, List.mem_cons_of_mem _ hb, hconnects⟩, heq⟩

/-- After a reset no context has an open file. -/
theorem openFiles_resetContexts (contexts : List Listed) :
    openFiles (resetContexts contexts) = [] := by
  rw [openFiles, List.flatMap_eq_nil_iff]
  intro c hc
  obtain ⟨d, -, rfl⟩ := List.mem_map.mp hc
  exact held_self _

/-- A connection that replaces an open socket drops it. -/
theorem Accounted.reconnect {attempts : List (Attempt σ)} (h : Accounted s)
    (hstep : s.step inherited net md5 patterns (.reconnect attempts) = .ok s') :
    (KeepsOwners s (.reconnect attempts) → Accounted s') ∧
      (¬ KeepsOwners s (.reconnect attempts) → ¬ OneOwner s') := by
  obtain ⟨list, hlist, hstep⟩ := bind_eq_ok.mp hstep
  have hvalid := h.valid.step hlist
  cases hlist
  cases hstep
  -- All files are closed.
  have hclosed : Owned (closeFiles s.list.contexts s.table)
      (held (-1) s.socket ++ (held (-1) s.listener ++ held (-1) s.epfd)) :=
    (h.owned.congr (List.perm_append_comm_assoc ..)).releaseAll
  have hfiles := openFiles_resetContexts s.list.contexts
  rcases openLoop_cases inherited (closeFiles s.list.contexts s.table) attempts with
    ⟨hnone, heq⟩ | ⟨⟨a, ha, hconnects⟩, change, heq⟩
  · rw [heq]
    refine ⟨fun _ => ⟨?_, h.opened, hvalid⟩, fun hnot => absurd (fun _ => hnone) hnot⟩
    unfold ownersOf
    rw [hfiles, List.nil_append]
    exact hclosed
  · -- The new descriptor replaces the socket that the connection had, if any.
    have hnew := nextDescriptor_notMem inherited (closeFiles s.list.contexts s.table)
    have hnonneg : 0 ≤ nextDescriptor inherited (closeFiles s.list.contexts s.table) :=
      lowestFree_nonneg _
    have hacquired := hclosed.acquire hnew
    rw [heq]
    constructor
    · intro hkeeps
      have hsocket : s.socket = -1 := by
        by_contra hne
        exact hkeeps (h.opened.mpr hne) a ha hconnects
      rw [hsocket, held_self, List.nil_append] at hacquired
      refine ⟨?_, ⟨fun _ => ?_, fun _ => rfl⟩, hvalid⟩
      · unfold ownersOf
        rw [hfiles, List.nil_append]
        show Owned _ (held (-1) (nextDescriptor inherited _) ++ _)
        rw [held_nextDescriptor]
        exact hacquired
      · show nextDescriptor inherited _ ≠ -1
        omega
    · intro hdrops
      have hsocket : s.socket ≠ -1 := by
        intro hnone
        refine hdrops fun hopen => ?_
        exact absurd hnone (h.opened.mp hopen)
      rw [held_of_ne hsocket] at hacquired
      refine @not_oneOwner_of_lost σ _ s.socket ?_
      unfold ownersOf
      rw [hfiles, List.nil_append]
      show Owned _ (s.socket :: (held (-1) (nextDescriptor inherited _) ++ _))
      rw [held_nextDescriptor]
      exact hacquired.congr (List.Perm.swap ..)

/-- An event keeps one owner for each descriptor exactly when it takes none of the branches that
drop one. -/
theorem Accounted.step_cases {e : Descriptors.Event σ} (h : Accounted s)
    (hstep : s.step inherited net md5 patterns e = .ok s') :
    (KeepsOwners s e → Accounted s') ∧ (¬ KeepsOwners s e → ¬ OneOwner s') := by
  cases e with
  | tick clock heap => exact ⟨fun _ => h.tick hstep, fun hnot => absurd trivial hnot⟩
  | control heap heaps accepted received => exact h.control hstep
  | run place inp => exact h.run hstep
  | reconnect attempts => exact h.reconnect hstep
  | network change =>
    refine ⟨fun _ => ?_, fun hnot => absurd trivial hnot⟩
    cases hstep
    exact ⟨h.owned, h.opened, h.valid⟩

/-- In a run every state that is reached has one owner for each descriptor exactly when no event
drops one. -/
theorem Accounted.run_iff {events : List (Descriptors.Event σ)} (h : Accounted s)
    (hrun : events.foldlM (Descriptors.step inherited net md5 patterns) s = .ok s') :
    (∀ n s1, (events.take n).foldlM (Descriptors.step inherited net md5 patterns) s = .ok s1 →
        OneOwner s1) ↔
      Along (Descriptors.step inherited net md5 patterns) KeepsOwners s events := by
  induction events generalizing s with
  | nil =>
    refine ⟨fun _ => trivial, fun _ n s1 hreach => ?_⟩
    rw [List.take_nil] at hreach
    cases hreach
    exact h.oneOwner
  | cons e rest ih =>
    obtain ⟨s1, hone, hrest⟩ := foldlM_cons_eq_ok.mp hrun
    obtain ⟨hkept, hdropped⟩ := h.step_cases hone
    constructor
    · -- The event that drops a descriptor ends in a state that shows it.
      intro hall
      have hkeeps : KeepsOwners s e := by
        by_contra hnot
        exact hdropped hnot (hall 1 s1 (foldlM_cons_eq_ok.mpr ⟨s1, hone, rfl⟩))
      refine ⟨hkeeps, fun s2 hstep => ?_⟩
      rw [hone] at hstep
      cases hstep
      exact (ih (hkept hkeeps) hrest).mp fun n s2 hreach =>
        hall (n + 1) s2 (foldlM_cons_eq_ok.mpr ⟨s1, hone, hreach⟩)
    · rintro ⟨hkeeps, hlater⟩ n s2 hreach
      cases n with
      | zero =>
        cases hreach
        exact h.oneOwner
      | succ n =>
        obtain ⟨s3, hstep, hreach⟩ := foldlM_cons_eq_ok.mp hreach
        rw [hone] at hstep
        cases hstep
        exact (ih (hkept hkeeps) hrest).mpr (hlater s1 hone) n s2 hreach

/-! ### The start -/

/-- `_setup_epoll` owns the descriptor that it returns. -/
theorem owned_setupEpoll {table owners : List Int} (h : Owned table owners) (created : Bool) :
    Owned (setupEpoll inherited table created).2
      (held (-1) (setupEpoll inherited table created).1 ++ owners) := by
  cases created with
  | false => exact h
  | true =>
    show Owned _ (held (-1) (nextDescriptor inherited table) ++ owners)
    rw [held_nextDescriptor]
    exact h.acquire (nextDescriptor_notMem inherited table)

/-- The control socket gets its place, or it is dropped when it stays blocking. -/
theorem owned_setupServerUnixSocket {table owners : List Int} (h : Owned table owners)
    (how : Listening) :
    (how ≠ .blocking → Owned (setupServerUnixSocket inherited table how).2
      (held (-1) (setupServerUnixSocket inherited table how).1 ++ owners)) ∧
    (how = .blocking → ∃ d, Owned (setupServerUnixSocket inherited table how).2
      (d :: (held (-1) (setupServerUnixSocket inherited table how).1 ++ owners))) := by
  have hacquired := h.acquire (nextDescriptor_notMem inherited table)
  cases how with
  | noSocket => exact ⟨fun _ => h, nofun⟩
  | blocking => exact ⟨fun hne => absurd rfl hne, fun _ => ⟨_, hacquired⟩⟩
  | refused =>
    refine ⟨fun _ => ?_, nofun⟩
    simp only [setupServerUnixSocket, List.erase_cons_head]
    exact h
  | listening =>
    refine ⟨fun _ => ?_, nofun⟩
    show Owned _ (held (-1) (nextDescriptor inherited table) ++ owners)
    rw [held_nextDescriptor]
    exact hacquired

/-- The state before the main loop has one owner for each descriptor when the control socket does
not stay blocking. -/
theorem start_cases (inherited : List Int) (net0 : σ) (attempts : List (Attempt σ))
    (how : Listening) (created : Bool) :
    (how ≠ .blocking → Accounted (Descriptors.start inherited net0 attempts how created)) ∧
      (how = .blocking → ¬ OneOwner (Descriptors.start inherited net0 attempts how created)) := by
  have hfound : Owned (openLoop inherited [] attempts).1
      (held (-1) (((openLoop inherited [] attempts).2.map Prod.fst).getD (-1))) ∧
      ((scAggregatorConnectionOpen ((openLoop inherited [] attempts).2.map Prod.snd)
          ⟨false, net0⟩).2.opened = true ↔
        ((openLoop inherited [] attempts).2.map Prod.fst).getD (-1) ≠ -1) := by
    have hempty : Owned ([] : List Int) [] := ⟨List.nodup_nil, .refl _⟩
    rcases openLoop_cases inherited [] attempts with ⟨-, heq⟩ | ⟨-, change, heq⟩
    · rw [heq]
      exact ⟨hempty, ⟨nofun, fun hne => absurd rfl hne⟩⟩
    · have hnonneg : 0 ≤ nextDescriptor inherited [] := lowestFree_nonneg _
      rw [heq]
      refine ⟨?_, fun _ => ?_, fun _ => rfl⟩
      · show Owned _ (held (-1) (nextDescriptor inherited []))
        rw [held_nextDescriptor]
        exact hempty.acquire (nextDescriptor_notMem inherited [])
      · show nextDescriptor inherited [] ≠ -1
        omega
  obtain ⟨howned, hopened⟩ := hfound
  -- The control socket and the epoll descriptor come on top of the connection.
  obtain ⟨hlistens, hblocks⟩ := @owned_setupServerUnixSocket inherited _ _ howned how
  have hturn : ∀ a b c : List Int, (c ++ (b ++ a)).Perm (a ++ (b ++ c)) := by
    intro a b c
    refine List.perm_append_comm.trans ?_
    rw [List.append_assoc]
    exact List.perm_append_comm_assoc ..
  constructor
  · intro hne
    refine ⟨?_, hopened, by simp [AllValid, Descriptors.start]⟩
    exact (owned_setupEpoll (hlistens hne) created).congr (hturn ..)
  · intro hblocking
    obtain ⟨d, hdropped⟩ := hblocks hblocking
    refine @not_oneOwner_of_lost σ _ d ((owned_setupEpoll hdropped created).congr ?_)
    exact List.perm_middle.trans ((hturn ..).cons d)

/-- In a run of the follower, every state that is reached has one owner for each descriptor that
was opened and not closed, exactly when the control socket does not stay blocking and no event
drops a descriptor. -/
theorem oneOwner_run_iff (inherited : List Int) (net : Listed → Net σ) (md5 : Md5)
    (patterns : List ScConfigPatternEntry) (net0 : σ) (attempts : List (Attempt σ))
    (how : Listening) (created : Bool) (events : List (Descriptors.Event σ))
    (hrun : events.foldlM (Descriptors.step inherited net md5 patterns)
      (Descriptors.start inherited net0 attempts how created) = .ok s') :
    (∀ n s1, (events.take n).foldlM (Descriptors.step inherited net md5 patterns)
        (Descriptors.start inherited net0 attempts how created) = .ok s1 → OneOwner s1) ↔
      how ≠ .blocking ∧ Along (Descriptors.step inherited net md5 patterns) KeepsOwners
        (Descriptors.start inherited net0 attempts how created) events := by
  obtain ⟨hgood, hbad⟩ := start_cases inherited net0 attempts how created
  constructor
  · intro hall
    have hhow : how ≠ .blocking := fun hblocking => hbad hblocking (hall 0 _ rfl)
    exact ⟨hhow, ((hgood hhow).run_iff hrun).mp hall⟩
  · rintro ⟨hhow, halong⟩
    exact ((hgood hhow).run_iff hrun).mpr halong

end

/-! ### Small runs -/

/-- A peer that takes every request and then closes the connection. -/
def closing : Net Unit where
  sendall s data := .ok (data.length, s)
  recvall s _ := .ok (0, [], s)

/-- The follower is connected, with the socket 3, the control socket 4 and the epoll
descriptor 5. -/
def connectedStart : Descriptors Unit :=
  Descriptors.start [0, 1, 2] () [.noSocket, .refused, .connected id] .listening true

/-- The events on it, with the pattern `rotating`. -/
def smallStep : Descriptors Unit → Descriptors.Event Unit → Except Trap (Descriptors Unit) :=
  Descriptors.step [0, 1, 2] (fun _ => closing) zeroMd5 rotating

/-- The character `1` is a digit: it is not below `0`. -/
theorem digit_one : (48 : UInt8) ≤ 49 := by decide

/-- `do_rotate` adds the context of the file `a`. -/
def smallTick : Descriptors.Event Unit := .tick (atHour 49 digit_one) fun _ => zeroHeap

/-- The file has a line. -/
def smallFile : RunInput :=
  ⟨⟨0, 0x8000⟩, .chunk 100, 0, [97, LF], none, [], fun _ => zeroHeap⟩

/-- A descriptor of a state that has no owner. -/
theorem not_oneOwner_of_mem {s : Descriptors Unit} {d : Int} {table owners : List Int}
    (hstate : (s.table, ownersOf s) = (table, owners)) (hd : d ∈ table) (hnone : d ∉ owners) :
    ¬ OneOwner s := by
  obtain ⟨htable, howners⟩ := Prod.mk.inj hstate
  intro hone
  have hcount := hone d (htable ▸ hd)
  rw [howners, List.count_eq_zero_of_not_mem hnone] at hcount
  cases hcount

/-- A run to a state with a descriptor that has no owner. -/
theorem exists_not_oneOwner {events : List (Descriptors.Event Unit)} {d : Int}
    {table owners : List Int}
    (hrun : (events.foldlM smallStep connectedStart).map (fun s => (s.table, ownersOf s)) =
      .ok (table, owners)) (hd : d ∈ table) (hnone : d ∉ owners) :
    ∃ s, events.foldlM smallStep connectedStart = .ok s ∧ ¬ OneOwner s := by
  cases hs : events.foldlM smallStep connectedStart with
  | error t =>
    rw [hs] at hrun
    cases hrun
  | ok s =>
    rw [hs] at hrun
    exact ⟨s, rfl, not_oneOwner_of_mem (Except.ok.inj hrun) hd hnone⟩

/-- The peer closes the connection, and the follower connects again: the socket 3 is dropped. The
read of the file fails: the file 6 is dropped. Data comes over a control connection: the
connection 6 is dropped. -/
theorem descriptors_dropped :
    (∃ s, [smallTick, .run 0 smallFile, .reconnect [.connected id]].foldlM smallStep
        connectedStart = .ok s ∧ ¬ OneOwner s) ∧
      (∃ s, [smallTick, .run 0 brokenFile].foldlM smallStep connectedStart = .ok s ∧
        ¬ OneOwner s) ∧
      ∃ s, [.control zeroHeap (fun _ => zeroHeap) true (some [120])].foldlM smallStep
        connectedStart = .ok s ∧ ¬ OneOwner s := by
  refine ⟨?_, ?_, ?_⟩
  · have hrun : ([smallTick, .run 0 smallFile, .reconnect [.connected id]].foldlM smallStep
        connectedStart).map (fun s => (s.table, ownersOf s)) =
        .ok ([6, 5, 4, 3], [6, 4, 5]) := rfl
    exact exists_not_oneOwner hrun (by decide : (3 : Int) ∈ _) (by decide)
  · have hrun : ([smallTick, .run 0 brokenFile].foldlM smallStep connectedStart).map
        (fun s => (s.table, ownersOf s)) = .ok ([6, 5, 4, 3], [3, 4, 5]) := rfl
    exact exists_not_oneOwner hrun (by decide : (6 : Int) ∈ _) (by decide)
  · have hrun : ([.control zeroHeap (fun _ => zeroHeap) true (some [120])].foldlM smallStep
        connectedStart).map (fun s => (s.table, ownersOf s)) =
        .ok ([6, 5, 4, 3], [3, 4, 5]) := rfl
    exact exists_not_oneOwner hrun (by decide : (6 : Int) ∈ _) (by decide)

/-- A run in which no descriptor is dropped: a file is opened, a control connection comes and
goes, and no address can be connected again. -/
def smallEvents : List (Descriptors.Event Unit) :=
  [smallTick, .run 0 smallFile, .control zeroHeap (fun _ => zeroHeap) true none,
    .reconnect [.refused], smallTick]

/-- In every state of the small run each open descriptor has one owner. -/
theorem oneOwner_run_iff_small :
    ∃ s', smallEvents.foldlM smallStep connectedStart = .ok s' ∧
      (s'.table, ownersOf s') = ([5, 4, 3], [3, 4, 5]) ∧
      ∀ n s1, (smallEvents.take n).foldlM smallStep connectedStart = .ok s1 → OneOwner s1 := by
  have hend : (smallEvents.foldlM smallStep connectedStart).map
      (fun s => (s.table, ownersOf s)) = .ok ([5, 4, 3], [3, 4, 5]) := rfl
  cases hrun : smallEvents.foldlM smallStep connectedStart with
  | error t =>
    rw [hrun] at hend
    cases hend
  | ok s' =>
    rw [hrun] at hend
    refine ⟨s', rfl, Except.ok.inj hend, ?_⟩
    refine (oneOwner_run_iff [0, 1, 2] (fun _ => closing) zeroMd5 rotating () _ .listening true
      smallEvents hrun).mpr ⟨nofun, trivial, fun _ _ => ⟨?_, fun _ _ => ⟨fun _ => rfl, fun _ _ =>
        ⟨?_, fun _ _ => ⟨trivial, fun _ _ => trivial⟩⟩⟩⟩⟩
    · exact fun c _ hfails => nomatch hfails.2.2.2.2
    · intro _ a ha
      rw [List.mem_singleton.mp ha]
      exact id

end Compostela.Proofs.DescriptorOwners
