import Compostela.Proofs.EveryFile
import Compostela.System.Meddled

/-!
# `Compostela.Proofs.AmidOthers`: a follower beside other clients

`Crowd` is the machine of `Proofs/EveryFile` at an aggregator with other clients, which change
files between any two frames of the follower. While they keep away from its separate files,
every run is a run of the machine alone: the contexts are the same and so are the separate
files. So each of them is a prefix of its own file that ends with a whole line. Every other
file is what the other clients make of it, whatever the follower sends.

`Shadows` is the simulation, over that of `System/Meddled`, and `Matched.run` makes the run.
-/

set_option autoImplicit false

namespace Compostela.Proofs.AmidOthers

open Compostela.Common
open Compostela.Memory
open Compostela.Matching
open Compostela.Aggregator
open Compostela.Follower
open Compostela.System
open Compostela.Proofs.EveryFile
open Compostela.Proofs.Resume (separate WholeLines components)

/-- The files of a machine and its follower, at an aggregator with other clients. -/
structure Crowd where
  files : Bytes → Bytes
  contexts : List Listed
  conn : ScAggregatorConnection Meddled

/-- An event of the machine. The other clients have a turn before it, and one before each of its
frames. -/
structure Crowd.Event where
  host : Host.Event
  foreign : List (List Change)

namespace Crowd

/-- The connection without the other clients. -/
def link (conn : ScAggregatorConnection Meddled) : ScAggregatorConnection Link :=
  ⟨conn.opened, conn.net.link⟩

/-- The machine without the other clients. -/
def plain (s : Crowd) : Host := ⟨s.files, s.contexts, link s.conn⟩

/-- Something happens to the link. -/
def onLink (f : Link → Link) (s : Meddled) : Meddled := { s with link := f s.link }

/-- The connection when the other clients had their first turn. -/
def turn (foreign : List (List Change)) (conn : ScAggregatorConnection Meddled) :
    ScAggregatorConnection Meddled :=
  { conn with net := { conn.net with foreign := foreign }.others }

/-- The connection with the fates of the frames to come. -/
def withFates (fates : List Fate) (conn : ScAggregatorConnection Meddled) :
    ScAggregatorConnection Meddled :=
  { conn with net := onLink (fun l => { l with fates := fates }) conn.net }

/-- The calls of a context of the list. -/
def net (cfg : Config) (c : Listed) : Net Meddled := Meddled.net cfg (senderOf c)

/-- One event. -/
def step (cfg : Config) (md5 : Md5) (addr : Option Bytes) (patterns : List ScConfigPatternEntry)
    (s : Crowd) (e : Event) : Except Trap Crowd :=
  let conn := turn e.foreign s.conn
  match e.host with
  | .grow name bytes => do
      let host ← s.plain.step cfg md5 addr patterns (.grow name bytes)
      .ok ⟨host.files, s.contexts, conn⟩
  | .loop (.tick clock heap fates) => do
      let (contexts, conn) ←
        doRotate (net cfg) clock heap patterns s.contexts (withFates fates conn)
      .ok ⟨s.files, contexts, conn⟩
  | .loop (.pass found fates reconnected) => do
      let (contexts, conn) ← mainPass (net cfg) md5 (s.plain.inputs found)
        (if reconnected then some (onLink (Link.reconnect addr)) else none) s.contexts
        (withFates fates conn)
      .ok ⟨s.files, contexts, conn⟩
  | .loop (.drop ending) =>
      .ok ⟨s.files, s.contexts, { conn with net := onLink (fun l => l.cut ending) conn.net }⟩

/-- Before the first event. -/
def start (files : Bytes → Bytes) (fs : Fs) (addr : Option Bytes) (opened : Bool) : Crowd :=
  ⟨files, [], ⟨opened, (MainLoop.start fs addr opened).conn.net, [], []⟩⟩

end Crowd

/-! ### The simulation -/

/-- The separate files of the copies. -/
def Territory (copies : List Copy) (p : Bytes) : Prop := ∃ o ∈ copies, o.path = p

/-- The display names of the copies. -/
def Named (copies : List Copy) (name : Bytes) : Prop := ∃ o ∈ copies, o.displayName = name

/-- The other clients keep away from the separate files of the copies. -/
def KeepsAway (copies : List Copy) (e : Crowd.Event) : Prop :=
  ∀ ws ∈ e.foreign, ∀ w ∈ ws, ∀ o ∈ copies, o.path ≠ w.path

/-- The crowd on the left, and the machine alone on the right. -/
structure Shadows (cfg : Config) (addr : Option Bytes) (copies : List Copy) (fs : Fs) (s : Crowd)
    (t : Host) : Prop where
  files : s.files = t.files
  contexts : s.contexts = t.loop.contexts
  alike : Alike (Amid addr (Territory copies) fs) s.conn t.loop.conn
  running : Running cfg addr copies t

section
variable {cfg : Config} {addr : Option Bytes} {copies : List Copy} {fs : Fs}
  {patterns : List ScConfigPatternEntry} {md5 : Md5} {s : Crowd} {t : Host}
  {conn : ScAggregatorConnection Meddled} {conn' : ScAggregatorConnection Link}

/-- A registration under the name of a copy is for its separate file, without merging. -/
theorem grants (hcopies : CopiesFor cfg addr copies) :
    Grants cfg addr (Territory copies) (Named copies) := by
  rintro heap name c ⟨o, ho, rfl⟩ hnew
  have hmode := hcopies.separate o ho
  obtain ⟨-, -, -, hcontext⟩ := scChannelNew_eq_ok hnew
  have hpath : c.filenameFullpath = o.path := by
    obtain ⟨heap', hpath'⟩ := hmode.path_eq
    obtain ⟨p, hp, hchan⟩ := bind_eq_ok.mp hnew
    cases hchan
    exact pathcat_unique hp hpath'
  refine ⟨⟨o, ho, hpath.symm⟩, ?_⟩
  obtain ⟨ctx, hctx, -, hmerge⟩ := hmode.mode
  rw [hpath, hctx] at hcontext
  simp [Merges, hcontext, hmerge]

/-- Every message under the name of a copy is sent. -/
theorem permits (hcopies : CopiesFor cfg addr copies) {o : Copy} (ho : o ∈ copies) :
    Permits (Says (Named copies)) o.displayName := by
  have hname := (hcopies.separate o ho).isName
  have hshort := hname.short
  exact permits_of_isName ⟨o, ho, rfl⟩ hname.noNul
    (by unfold PATH_MAX at hshort; unfold BUFSIZE; omega)

/-- The context of a copy sends messages about the display names of the copies only. -/
theorem sends_of_follows (hcopies : CopiesFor cfg addr copies) {o : Copy} (ho : o ∈ copies)
    {cxt : ScFollowContext} (h : Follows o cxt) : Sends (Says (Named copies)) cxt :=
  ⟨by rw [h.idle.name_eq]; exact permits hcopies ho, h.idle.room, h.idle.valid⟩

/-- The other clients have their first turn, on the left only. -/
theorem alike_turn (h : Alike (Amid addr (Territory copies) fs) conn conn') {e : Crowd.Event}
    (haway : KeepsAway copies e) :
    Alike (Amid addr (Territory copies) fs) (Crowd.turn e.foreign conn) conn' := by
  have hnext : Amid addr (Territory copies) fs { conn.net with foreign := e.foreign } conn'.net :=
    ⟨h.net.same, h.net.twin, h.net.addr_eq, h.net.wf, h.net.own,
      fun ws hws w hw ⟨o, ho, heq⟩ => haway ws hws w hw o ho heq, h.net.outside⟩
  exact ⟨h.opened, hnext.others⟩

/-- The fates of the frames to come are the same on both sides. -/
theorem alike_withFates (h : Alike (Amid addr (Territory copies) fs) conn conn')
    (fates : List Fate) :
    Alike (Amid addr (Territory copies) fs) (Crowd.withFates fates conn)
      (withFates fates conn') :=
  ⟨h.opened, h.net.link (f := fun l => { l with fates := fates }) (fun _ => rfl) (fun _ _ => rfl)
    rfl⟩

/-- Both reconnect, or none does. -/
theorem alike_open (reconnected : Bool) (h : Alike (Amid addr (Territory copies) fs) conn conn') :
    Alike (Amid addr (Territory copies) fs)
      (scAggregatorConnectionOpen
        (if reconnected then some (Crowd.onLink (Link.reconnect addr)) else none) conn).2
      (scAggregatorConnectionOpen
        (if reconnected then some (Link.reconnect addr) else none) conn').2 := by
  cases reconnected with
  | false => exact h
  | true => exact ⟨rfl, h.net.reconnect⟩

/-- Both machines read the same files. -/
theorem inputs_plain (h : Shadows cfg addr copies fs s t) (found : Nat → RunInput) :
    s.plain.inputs found = t.inputs found := by
  have hfile : s.plain.fileOf = t.fileOf := by
    have hcontexts : s.plain.loop.contexts = t.loop.contexts := h.contexts
    have hfiles : s.plain.files = t.files := h.files
    unfold Host.fileOf
    rw [hcontexts, hfiles]
  unfold Host.inputs
  rw [hfile]

/-- Every event of the crowd is one of the machine alone. -/
theorem shadows_step (hcopies : CopiesFor cfg addr copies) (h : Shadows cfg addr copies fs s t)
    {e : Crowd.Event} (hserved : Served copies patterns e.host) (haway : KeepsAway copies e) :
    Matched (Shadows cfg addr copies fs) (s.step cfg md5 addr patterns e)
      (t.step cfg md5 addr patterns e.host) := by
  obtain ⟨host, foreign⟩ := e
  have halike := alike_turn h.alike haway
  have hsim := fun c : Listed => Amid.simulates (grants hcopies) fs (senderOf c)
  have hfollows : ∀ c ∈ s.contexts, ∃ o ∈ copies, Follows o c.cxt := by
    rw [h.contexts]
    exact h.running.follows
  -- The events are the same up to the connection, and the machine alone keeps its invariant.
  suffices hmatched : Matched (fun (s : Crowd) (t : Host) => s.files = t.files ∧
      s.contexts = t.loop.contexts ∧ Alike (Amid addr (Territory copies) fs) s.conn t.loop.conn)
      (s.step cfg md5 addr patterns ⟨host, foreign⟩) (t.step cfg md5 addr patterns host) by
    intro s' hs'
    obtain ⟨t', ht', hfiles, hcontexts, halike'⟩ := hmatched s' hs'
    exact ⟨t', ht', hfiles, hcontexts, halike', (running_step hcopies h.running hserved ht').1⟩
  cases host with
  | grow name bytes =>
    have hfiles : s.plain.files = t.files := h.files
    intro s' hs'
    cases hs'
    refine ⟨_, rfl, ?_⟩
    rw [hfiles]
    split
    · exact ⟨rfl, h.contexts, halike⟩
    · exact ⟨hfiles, h.contexts, halike⟩
  | loop e =>
    cases e with
    | tick clock heap fates =>
      intro s' hs'
      obtain ⟨⟨contexts1, conn1⟩, hrotate, hs'⟩ := bind_eq_ok.mp hs'
      cases hs'
      rw [h.contexts] at hrotate hfollows
      have hnames : ∀ pe ∈ patterns, ∀ fn dn, entryNames clock pe = .ok (fn, dn) →
          Permits (Says (Named copies)) dn := by
        intro pe hpe fn dn hname
        obtain ⟨o, ho, hcopy⟩ := hserved pe hpe
        cases hcopy.symm.trans hname
        exact permits hcopies ho
      obtain ⟨⟨contexts2, conn2⟩, hrotate', hsame, halike1⟩ :=
        doRotate_matched hsim hnames (alike_withFates halike fates) (fun c hc => by
          obtain ⟨o, ho, hfollow⟩ := hfollows c hc
          exact (sends_of_follows hcopies ho hfollow).permits) _ hrotate
      exact ⟨⟨t.files, contexts2, conn2⟩,
        bind_eq_ok.mpr ⟨_, bind_eq_ok.mpr ⟨_, hrotate', rfl⟩, rfl⟩, h.files, hsame, halike1⟩
    | pass found fates reconnected =>
      intro s' hs'
      obtain ⟨⟨contexts1, conn1⟩, hpass, hs'⟩ := bind_eq_ok.mp hs'
      cases hs'
      rw [inputs_plain h, h.contexts] at hpass
      rw [h.contexts] at hfollows
      obtain ⟨⟨contexts2, conn2⟩, hpass', hsame, halike1⟩ :=
        mainPass_matched hsim (alike_withFates halike fates) (fun c hc => by
          obtain ⟨o, ho, hfollow⟩ := hfollows c hc
          exact ⟨sends_of_follows hcopies ho hfollow, h.running.nothing c hc⟩)
          (alike_open reconnected) _ hpass
      exact ⟨⟨t.files, contexts2, conn2⟩,
        bind_eq_ok.mpr ⟨_, bind_eq_ok.mpr ⟨_, hpass', rfl⟩, rfl⟩, h.files, hsame, halike1⟩
    | drop ending =>
      refine .ok ⟨h.files, h.contexts, halike.opened, ?_⟩
      exact halike.net.link (f := fun l => l.cut ending) (fun _ => rfl) (fun _ _ => rfl) rfl

end

/-! ### A small run -/

/-- The file `/l/b/n` of another client. -/
def otherPath : Bytes := [47, 108, 47, 98, 47, 110]

/-- In each event the other client writes its file, before the second frame. -/
def smallCrowd : List Crowd.Event :=
  smallEvents.map fun e => ⟨e, [[], [⟨otherPath, some [120]⟩]]⟩

/-- The separate files of the small copies, and the file of the other client. -/
def crowdFiles (s : Crowd) : List Bytes :=
  (smallCopies.map Copy.path ++ [otherPath]).map fun p => separate p s.conn.net.link.fs

end Compostela.Proofs.AmidOthers
