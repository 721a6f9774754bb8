import Compostela.Aggregator.Locality
import Compostela.Follower.Matching
import Compostela.System.Link
import Compostela.System.Wire

/-!
# `Compostela.System.Meddled`: a link to an aggregator with other clients

The aggregator serves its connections by turns, one message at a time. So between two frames of
a follower the other clients can change files. `Meddled` is a link with such changes, and
`simulates` says that they make no difference to the follower while they are outside of its
territory `T`: every call is matched by a call on a plain link. The files outside are what the
changes alone make of them, whatever the follower sends.
-/

set_option autoImplicit false

namespace Compostela.System

open Compostela.Common
open Compostela.Memory
open Compostela.Matching
open Compostela.Segments
open Compostela.Aggregator
open Compostela.Follower
open Link

/-- A file that another client made, changed or removed. -/
structure Change where
  path : Bytes
  content : Option Bytes
  deriving DecidableEq, Repr

/-- The files after a change. -/
def changed (fs : Fs) (w : Change) : Fs :=
  { fs with file := fun p => if p = w.path then w.content else fs.file p }

/-- A link to an aggregator with other clients. `foreign` is what they change before each of
the frames to come, and `applied` what they have changed. -/
structure Meddled where
  link : Link
  foreign : List (List Change)
  applied : List Change

namespace Meddled

/-- The other clients have their turn. -/
def others (s : Meddled) : Meddled where
  link := { s.link with fs := (s.foreign.headD []).foldl changed s.link.fs }
  foreign := s.foreign.tail
  applied := s.applied ++ s.foreign.headD []

/-- The calls of a socket. A frame is handled after the changes of the others. -/
def net (cfg : Config) (sender : Sender) : Net Meddled where
  sendall s data := do
    let (ret, l) ← Link.sendall cfg sender s.others.link data
    .ok (ret, { s.others with link := l })
  recvall s size := do
    let (ret, bytes, l) ← Link.recvall s.link size
    .ok (ret, bytes, { s with link := l })

end Meddled

/-! ### Changes -/

section
variable {T : Bytes → Prop} {fs fs' : Fs} {ws : List Change}

/-- Changes outside of the territory leave a twin. -/
theorem twin_foldl_changed (h : Fs.Twin T fs fs') (hws : ∀ w ∈ ws, ¬ T w.path) :
    Fs.Twin T (ws.foldl changed fs) fs' := by
  induction ws generalizing fs with
  | nil => exact h
  | cons w ws ih =>
    refine ih ⟨h.results, fun p hp => ?_⟩ fun w' hw' => hws w' (List.mem_cons_of_mem w hw')
    show (if p = w.path then w.content else fs.file p) = fs'.file p
    rw [if_neg ?_]
    · exact h.file p hp
    · rintro rfl
      exact hws w (List.mem_cons_self ..) hp

/-- A file after changes depends on the file before them. -/
theorem file_foldl_changed {p : Bytes} (h : fs.file p = fs'.file p) :
    (ws.foldl changed fs).file p = (ws.foldl changed fs').file p := by
  induction ws generalizing fs fs' with
  | nil => exact h
  | cons w ws ih =>
    refine ih ?_
    show (if p = w.path then w.content else fs.file p) =
      if p = w.path then w.content else fs'.file p
    rw [h]

end

/-! ### The territory -/

/-- The registrations of a host get channels of its territory, and none of them merges. `N`
holds of the display names. -/
def Grants (cfg : Config) (addr : Option Bytes) (T N : Bytes → Prop) : Prop :=
  ∀ (heap : Heap) (name : Bytes) (c : ScChannel), N name →
    scChannelNew cfg heap ⟨addr, []⟩ name = .ok c → T c.filenameFullpath ∧ ¬ Merges c

/-- The messages of the follower, with display names for which `N` holds. -/
def Says (N : Bytes → Prop) (msg : ScLogMessage) : Prop :=
  ∃ req, Built msg req ∧ ∀ attr name, req = .init attr name → N name

/-- A link with changes on the left, and a plain link on the right. `fs0` are the files before
the first change. -/
structure Amid (addr : Option Bytes) (T : Bytes → Prop) (fs0 : Fs) (s : Meddled) (t : Link) :
    Prop where
  same : s.link = { t with fs := s.link.fs }
  twin : Fs.Twin T s.link.fs t.fs
  addr_eq : t.conn.remoteAddr = addr
  wf : t.conn.WellFormed
  own : ∀ c ∈ t.conn.channelList, T c.filenameFullpath ∧ ¬ Merges c
  foreign : ∀ ws ∈ s.foreign, ∀ w ∈ ws, ¬ T w.path
  outside : ∀ p, ¬ T p → s.link.fs.file p = (s.applied.foldl changed fs0).file p

section
variable {cfg : Config} {addr : Option Bytes} {T N : Bytes → Prop} {fs0 : Fs} {s : Meddled}
  {l t : Link}

/-- The other clients have their turn, and the follower does not see it. -/
theorem Amid.others (h : Amid addr T fs0 s t) : Amid addr T fs0 s.others t := by
  have hnow : ∀ w ∈ s.foreign.headD [], ¬ T w.path := by
    intro w hw
    cases hforeign : s.foreign with
    | nil =>
      rw [hforeign] at hw
      cases hw
    | cons ws rest =>
      rw [hforeign] at hw
      exact h.foreign ws (by rw [hforeign]; exact List.mem_cons_self ..) w hw
  refine ⟨?_, twin_foldl_changed h.twin hnow, h.addr_eq, h.wf, h.own, fun ws hws => ?_,
    fun p hp => ?_⟩
  · exact congrArg (fun l : Link => { l with fs := s.others.link.fs }) h.same
  · exact h.foreign ws (List.mem_of_mem_tail hws)
  · show ((s.foreign.headD []).foldl changed s.link.fs).file p = _
    rw [Meddled.others, List.foldl_append]
    exact file_foldl_changed (h.outside p hp)

/-- What is behind the socket changes, but not the files. -/
theorem Amid.link (h : Amid addr T fs0 s t) {f : Link → Link}
    (hfs : ∀ l, (f l).fs = l.fs)
    (hcomm : ∀ (l : Link) (fs : Fs), f { l with fs := fs } = { f l with fs := fs })
    (hconn : (f t).conn = t.conn) : Amid addr T fs0 { s with link := f s.link } (f t) := by
  have hlink : (f s.link).fs = s.link.fs := hfs s.link
  refine ⟨?_, ?_, ?_, ?_, ?_, h.foreign, ?_⟩
  · show f s.link = { f t with fs := (f s.link).fs }
    rw [hlink, ← hcomm, ← h.same]
  · show Fs.Twin T (f s.link).fs (f t).fs
    rw [hlink, hfs]
    exact h.twin
  · rw [hconn]
    exact h.addr_eq
  · rw [hconn]
    exact h.wf
  · rw [hconn]
    exact h.own
  · show ∀ p, ¬ T p → (f s.link).fs.file p = _
    rw [hlink]
    exact h.outside

/-- A new connection has no channels. -/
theorem Amid.reconnect (h : Amid addr T fs0 s t) :
    Amid addr T fs0 { s with link := s.link.reconnect addr } (t.reconnect addr) where
  same := by
    show s.link.reconnect addr = { t.reconnect addr with fs := s.link.fs }
    rw [h.same]
    rfl
  twin := h.twin
  addr_eq := rfl
  wf := ScConnection.wellFormed_nil addr
  own := nofun
  foreign := h.foreign
  outside := h.outside

/-- The aggregator handles a frame of the follower. -/
theorem Amid.serve (hgrants : Grants cfg addr T N) (h : Amid addr T fs0 s t) {sender : Sender}
    {call : Call} {msg : ScLogMessage} (hmsg : Says N msg) :
    Matched (fun a b => Amid addr T fs0 { s with link := a } b)
      (Link.serve cfg sender call s.link msg.frame.bytes)
      (Link.serve cfg sender call t msg.frame.bytes) := by
  obtain ⟨req, hbuilt, hnames⟩ := hmsg
  have hsend := hbuilt.sendable
  have hbytes : (⟨arrivalsOf msg.frame.bytes, .eof⟩ : Incoming).bytes = msg.frame.bytes ++ [] := by
    rw [List.append_nil]
    exact bytesOf_arrivalsOf msg.frame.bytes
  have hfit : msg.frame.content.length ≤ BUFSIZE := by
    rw [hsend.frame.content_eq]
    exact hsend.fits
  obtain ⟨got, rest, hrecv, hframe, -⟩ := receiveFrame_of_frame call.heap hbytes hfit
  intro l hl
  obtain ⟨o, ho, hl⟩ := bind_eq_ok.mp hl
  have hconn : s.link.conn = t.conn := by rw [h.same]
  rw [doReceive_of_receiveFrame cfg call.chunks _ _ hrecv, hconn] at ho
  cases hhandle : handle cfg call.heap call.chunks got t.conn s.link.fs with
  | error trap =>
    rw [hhandle] at ho
    cases ho
  | ok r =>
    rw [hhandle] at ho
    cases ho
    cases hl
    -- An INIT request asks for a name of the host.
    have hnew : handlerFor got.code got.channel = some .init → ∀ c,
        scChannelNew cfg call.heap t.conn (nameOf got) = .ok c →
        T c.filenameFullpath ∧ ¬ Merges c := by
      intro hinit c hc
      have hreads : Reads got req := by
        refine reads_of_frame (by rw [hframe]; exact hsend.frame) fun attr name hreq => ?_
        subst hreq
        cases hbuilt with
        | init cxt hname hlen => exact hname
      have hcode := code_of_handlerFor_init hinit
      cases req with
      | init attr name =>
        rw [hreads.2.2.2] at hc
        refine hgrants call.heap name c (hnames attr name rfl) ?_
        rw [← h.addr_eq]
        exact hc
      | data channel complete time text =>
        rw [hreads.1] at hcode
        exact absurd hcode (by decide)
      | rele channel =>
        rw [hreads.1] at hcode
        exact absurd hcode (by decide)
    obtain ⟨fs', hhandle', htwin⟩ :=
      handle_twin h.twin (fun hinit c hc => (hnew hinit c hc).1) hhandle
    obtain ⟨haddr, hchannels⟩ := handle_channels h.wf hhandle
    have hleaves := @handle_leaves s.link.fs (fun p => ¬ T p) cfg call.heap call.chunks got t.conn r
      (fun c hc => ⟨not_not.mpr (h.own c hc).1, fun hmerges => absurd hmerges (h.own c hc).2⟩)
      hhandle
    refine ⟨_, bind_eq_ok.mpr ⟨_, by
      rw [doReceive_of_receiveFrame cfg call.chunks _ _ hrecv, hhandle']; rfl, rfl⟩, ?_⟩
    refine ⟨?_, htwin, haddr.trans h.addr_eq, h.wf.handle hhandle, fun c hc => ?_, h.foreign,
      fun p hp => (hleaves.file p hp).trans (h.outside p hp)⟩
    · rw [h.same]
    · rcases hchannels c hc with ⟨d, hd, hsame⟩ | ⟨hinit, d, hd, hsame⟩
      · unfold Merges
        rw [hsame.filenameFullpath, hsame.aggregateContext]
        exact h.own d hd
      · unfold Merges
        rw [hsame.filenameFullpath, hsame.aggregateContext]
        exact hnew hinit d hd

/-- A send of the follower, after the turn of the others. -/
theorem Amid.sendall (hgrants : Grants cfg addr T N) (h : Amid addr T fs0 s t) {sender : Sender}
    {msg : ScLogMessage} (hmsg : Says N msg) :
    Matched (fun a b => a.1 = b.1 ∧ Amid addr T fs0 { s with link := a.2 } b.2)
      (Link.sendall cfg sender s.link msg.frame.bytes)
      (Link.sendall cfg sender t msg.frame.bytes) := by
  -- The two links have the same fates, so they take the same branch.
  have hfate : s.link.fate = t.fate := by
    rw [h.same]
    rfl
  have hnext : Amid addr T fs0 { s with link := { s.link with fates := s.link.fates.tail } }
      { t with fates := t.fates.tail } :=
    h.link (f := fun l => { l with fates := l.fates.tail }) (fun _ => rfl) (fun _ _ => rfl) rfl
  have hcut : ∀ {a b : Link} (ending : Ending), Amid addr T fs0 { s with link := a } b →
      Amid addr T fs0 { s with link := a.cut ending } (b.cut ending) := fun ending hab =>
    hab.link (f := fun l => l.cut ending) (fun _ => rfl) (fun _ _ => rfl) rfl
  unfold Link.sendall
  rw [hfate]
  refine .ite (fun _ => .ok ⟨rfl, hcut _ hnext⟩) fun _ => ?_
  refine .ite_iff (by rw [h.same]) (fun _ => .ok ⟨rfl, hcut _ hnext⟩) fun _ => ?_
  refine .ite (fun _ => .ok ⟨rfl, hcut _ ?_⟩) fun _ => ?_
  · -- The frame is lost.
    exact hnext.link (f := fun l =>
      { l with log := l.log ++ [Item.exchange ⟨sender, msg.frame.bytes, []⟩] })
      (fun _ => rfl) (fun _ _ => rfl) rfl
  · refine (hnext.serve hgrants hmsg).bind fun a b hab => .ok ⟨rfl, ?_⟩
    split
    · exact hcut _ hab
    · exact hab

/-- `recvall` amid other clients gets what it gets alone. -/
theorem Amid.recvall (h : Amid addr T fs0 s t) (size : Nat) :
    Matched (fun a b => a.1 = b.1 ∧ a.2.1 = b.2.1 ∧
        Amid addr T fs0 { s with link := a.2.2 } b.2.2)
      (Link.recvall s.link size) (Link.recvall t size) := by
  have hunread : s.link.unread = t.unread := by rw [h.same]
  have hending : s.link.ending = t.ending := by rw [h.same]
  unfold Link.recvall
  refine .ite_iff (by rw [hunread]) (fun _ => .ok ⟨by rw [hending], rfl, ?_⟩) fun _ =>
    .ok ⟨by rw [hunread], by rw [hunread], ?_⟩
  · rw [hending]
    exact h.link (f := fun l => l.cut t.ending) (fun _ => rfl) (fun _ _ => rfl) rfl
  · rw [hunread]
    exact h.link (f := fun l => { l with unread := t.unread.drop size })
      (fun _ => rfl) (fun _ _ => rfl) rfl

/-- The other clients make no difference to the calls of the follower. -/
theorem Amid.simulates (hgrants : Grants cfg addr T N) (fs0 : Fs) (sender : Sender) :
    Simulates (Meddled.net cfg sender) (Link.net cfg sender) (Says N) (Amid addr T fs0) where
  whole := by
    rintro msg ⟨req, hbuilt, -⟩
    have hsend := hbuilt.sendable
    have hle := hsend.length_le
    rw [hsend.length_eq]
    exact ⟨Int.natCast_nonneg _, by omega⟩
  sendall h hmsg := by
    refine ((Amid.others h).sendall hgrants hmsg).bind_left fun a b hab => ?_
    exact .ok ⟨hab.1, hab.2⟩
  recvall h := by
    refine (Amid.recvall h _).bind_left fun a b hab => ?_
    exact .ok ⟨hab.1, hab.2.1, hab.2.2⟩

/-- A display name of the host, for which every message is sent. -/
theorem permits_of_isName {name : Bytes} (hname : N name) (hnul : 0 ∉ name)
    (hlen : name.length + 4 ≤ BUFSIZE) : Permits (Says N) name where
  init cxt heq := by
    subst heq
    refine ⟨_, .init cxt hnul hlen, fun attr name hreq => ?_⟩
    cases hreq
    exact hname
  data hroom hstore := ⟨_, .data _ _ _ _ _ _ hroom hstore, nofun⟩
  rele cxt := ⟨_, .rele cxt, nofun⟩

end

end Compostela.System
