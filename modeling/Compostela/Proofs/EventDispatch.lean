import Compostela.Aggregator.Dispatch

/-!
# `Compostela.Proofs.EventDispatch`: what reaches `do_receive`

The inner loop of `run_main` leaves `done` at zero when `accept` or `epoll_ctl` fails for the
listening socket of an event. Then the event goes to `do_receive`, and the number of the socket is
taken for the address of an `sc_connection`.

* `typeSafe_iff`: one event.
* `dispatch_safe_iff`: the runs in which `do_receive` is called for connections only.
-/

set_option autoImplicit false

namespace Compostela.Aggregator

open Compostela.Memory
open Compostela.Runs

/-- The inner loop for the first event of a batch. -/
def innerLoop (socks : List ListenSocket) (s : Dispatcher) (event : Registered)
    (rest : List Registered) (answers : Nat → Answer) : Bool × Dispatcher :=
  acceptLoop event.data answers 0 socks { s with ready := rest }

/-- The event for which `do_receive` is called, if it is called, with the state that it meets. -/
def received (socks : List ListenSocket) (s : Dispatcher) :
    DispatchEvent → Option (Registered × Dispatcher)
  | .wait _ => none
  | .turn answers _ =>
      match s.ready with
      | [] => none
      | event :: rest =>
          if (innerLoop socks s event rest answers).1 then none
          else some (event, (innerLoop socks s event rest answers).2)

/-- When `do_receive` is called, the event is that of an accepted connection, and the address is
the one of its `sc_connection`, which is in memory. -/
def TypeSafe (socks : List ListenSocket) (s : Dispatcher) (e : DispatchEvent) : Prop :=
  ∀ event s', received socks s e = some (event, s') →
    (∀ sock ∈ socks, event.fd ≠ Fin.val sock) ∧ ⟨event.data, event.fd⟩ ∈ s'.conns

/-- The `accept` and the `epoll_ctl` for a listening socket succeed. -/
def Accepts (socks : List ListenSocket) (answers : Nat → Answer) (sock : ListenSocket) : Prop :=
  ∃ j : Nat, socks[j]? = some sock ∧ (answers j).accepted = true ∧ (answers j).added = true

/-- The event is not mistaken for one of a connection. -/
structure NotMistaken (socks : List ListenSocket) (answers : Nat → Answer) (event : Registered) :
    Prop where
  /-- A reported listening socket accepts. -/
  listening : ∀ sock ∈ socks, event.fd = Fin.val sock → Accepts socks answers sock
  /-- A connection for which there was no memory has the data of socket 0. -/
  memory : event.data = 0 → Taken socks 0 answers

/-- The next event of the batch is not mistaken. -/
def Succeeds (socks : List ListenSocket) (s : Dispatcher) : DispatchEvent → Prop
  | .wait _ => True
  | .turn answers _ => ∀ event rest, s.ready = event :: rest → NotMistaken socks answers event

/-- The union gives the number of a listening socket back. -/
theorem dataFd_ofFd (sock : ListenSocket) : dataFd (ofFd sock) = sock := by
  have hlt := sock.isLt
  unfold dataFd ofFd
  rw [BitVec.toNat_ofNat]
  omega

section
variable {socks : List ListenSocket} {s : Dispatcher} {event : Registered} {rest : List Registered}

/-- The inner loop for an event of the batch. -/
theorem innerLoop_spec (h : Inv socks s) (hready : s.ready = event :: rest)
    (answers : Nat → Answer) :
    Inv socks (innerLoop socks s event rest answers).2 ∧
      s.conns ⊆ (innerLoop socks s event rest answers).2.conns ∧
      (innerLoop socks s event rest answers).2.ready = rest ∧
      ((innerLoop socks s event rest answers).1 = true ↔ Taken socks event.data answers) := by
  have hfits := h.ready
  have hnodup := h.ready_nodup
  rw [hready] at hfits hnodup
  have hrest : Inv socks { s with ready := rest } :=
    { h with
      ready := fun r hr => hfits r (List.mem_cons_of_mem _ hr)
      ready_nodup := (List.nodup_cons.mp hnodup).2 }
  obtain ⟨hinv, hsub, hsame⟩ := hrest.acceptLoop event.data answers 0 socks
  refine ⟨hinv, hsub, hsame, ?_⟩
  have hdone := acceptLoop_done_iff event.data answers 0 socks { s with ready := rest }
  simp only [Nat.zero_add] at hdone
  exact hdone

/-- An event is not mistaken exactly when the inner loop takes it, or it is one of a connection in
memory. -/
theorem notMistaken_iff (h : Inv socks s) (hready : s.ready = event :: rest)
    (answers : Nat → Answer) :
    NotMistaken socks answers event ↔ Taken socks event.data answers ∨
      ((∀ sock ∈ socks, event.fd ≠ Fin.val sock) ∧ ⟨event.data, event.fd⟩ ∈ s.conns) := by
  have hfits : Fitting socks s.conns event := h.ready event (hready ▸ List.mem_cons_self)
  constructor
  · intro hclear
    rcases hfits with ⟨sock, hsock, hfd, hdata⟩ | ⟨hother, hnull | hmem⟩
    · obtain ⟨j, hj, hyes⟩ := hclear.listening sock hsock hfd
      exact Or.inl ⟨j, sock, hj, by rw [hdata, dataFd_ofFd], hyes⟩
    · exact Or.inl (hnull ▸ hclear.memory hnull)
    · exact Or.inr ⟨hother, hmem⟩
  · rintro (htaken | ⟨hother, hmem⟩)
    · refine ⟨?_, fun hnull => hnull ▸ htaken⟩
      intro sock hsock hsame
      rcases hfits with ⟨sock', -, hfd, hdata⟩ | ⟨hother, -⟩
      · obtain ⟨j, sock'', hj, hnumber, hyes⟩ := htaken
        rw [hdata, dataFd_ofFd] at hnumber
        have heq : sock'' = sock := Fin.ext (by omega)
        exact ⟨j, heq ▸ hj, hyes⟩
      · exact absurd hsame (hother sock hsock)
    · exact ⟨fun sock hsock hsame => absurd hsame (hother sock hsock),
        fun hnull => absurd hnull (h.addr_ne _ hmem)⟩

/-- One event: the call of `do_receive` is type-safe exactly when the event is not mistaken. -/
theorem typeSafe_iff (h : Inv socks s) (e : DispatchEvent) :
    TypeSafe socks s e ↔ Succeeds socks s e := by
  cases e with
  | wait fds => exact iff_of_true nofun trivial
  | turn answers destroyed =>
    unfold TypeSafe Succeeds received
    cases hready : s.ready with
    | nil => exact iff_of_true nofun nofun
    | cons event rest =>
      obtain ⟨hinv, hsub, -, hdone⟩ := innerLoop_spec h hready answers
      have hclear := notMistaken_iff h hready answers
      by_cases htaken : Taken socks event.data answers
      · refine iff_of_true ?_ ?_
        · intro event' s' hreceived
          simp only [hdone.mpr htaken, if_true] at hreceived
          cases hreceived
        · intro event' rest' heq
          cases heq
          exact hclear.mpr (Or.inl htaken)
      -- No listening socket takes the event, so its pointer is read as a connection.
      · have hnot : ¬ (innerLoop socks s event rest answers).1 = true := mt hdone.mp htaken
        simp only [hnot]
        constructor
        · intro hsafe event' rest' heq
          cases heq
          obtain ⟨hother, hmem⟩ := hsafe event _ rfl
          refine ⟨fun sock hsock hsame => absurd hsame (hother sock hsock), ?_⟩
          exact fun hnull => absurd hnull (hinv.addr_ne _ hmem)
        · intro hall event' s' hreceived
          cases hreceived
          obtain ⟨hother, hmem⟩ :=
            (hclear.mp (hall event rest rfl)).resolve_left htaken
          exact ⟨hother, hsub hmem⟩

/-- An event that is not mistaken keeps the invariant. -/
theorem inv_dispatch {s' : Dispatcher} (h : Inv socks s) {e : DispatchEvent}
    (hsucceeds : Succeeds socks s e) (hs : dispatch socks s e = .ok s') : Inv socks s' := by
  cases e with
  | wait fds =>
    cases hs
    split
    · exact h.wait fds
    · exact h
  | turn answers destroyed =>
    unfold dispatch at hs
    cases hready : s.ready with
    | nil =>
      rw [hready] at hs
      cases hs
      exact h
    | cons event rest =>
      rw [hready] at hs
      obtain ⟨hinv, hsub, hsame, hdone⟩ := innerLoop_spec h hready answers
      change (if (innerLoop socks s event rest answers).1 = true then
        Except.ok (innerLoop socks s event rest answers).2
        else receiveOn (innerLoop socks s event rest answers).2 event.data destroyed) = .ok s' at hs
      rcases (notMistaken_iff h hready answers).mp (hsucceeds event rest hready) with
        htaken | ⟨-, hmem⟩
      · rw [if_pos (hdone.mpr htaken)] at hs
        cases hs
        exact hinv
      · split at hs
        · cases hs
          exact hinv
        · have hnodup := h.ready_nodup
          rw [hready] at hnodup
          -- A batch holds a descriptor once, so no later event has the one that was closed.
          have hother : ∀ r ∈ (innerLoop socks s event rest answers).2.ready, r.fd ≠ event.fd := by
            intro r hr heq
            rw [hsame] at hr
            exact (List.nodup_cons.mp hnodup).1 (List.mem_map.mpr ⟨r, hr, heq⟩)
          obtain ⟨s1, heq, hinv1⟩ := hinv.receiveOn (hsub hmem) hother destroyed
          exact Except.ok.inj (heq.symm.trans hs) ▸ hinv1

end

/-- The runs of `run_main` over any listening sockets and batches. Every call of `do_receive` is
for an accepted connection that is in memory exactly when no event is mistaken. -/
theorem dispatch_safe_iff (socks : List ListenSocket) (added : ListenSocket → Bool)
    (events : List DispatchEvent) :
    Along (dispatch socks) (TypeSafe socks) (dispatcherStart socks added) events ↔
      Along (dispatch socks) (Succeeds socks) (dispatcherStart socks added) events := by
  have hstart := inv_dispatcherStart socks added
  constructor
  · intro hsafe
    refine Along.imp_of_invariant (I := Inv socks) ?_ ?_ hsafe hstart
    · exact fun s e s' h hsafe hs => inv_dispatch h ((typeSafe_iff h e).mp hsafe) hs
    · exact fun s e h hsafe => (typeSafe_iff h e).mp hsafe
  · intro hall
    refine Along.imp_of_invariant (I := Inv socks) ?_ ?_ hall hstart
    · exact fun s e s' h hsucceeds hs => inv_dispatch h hsucceeds hs
    · exact fun s e h hsucceeds => (typeSafe_iff h e).mpr hsucceeds

/-- A descriptor that is not open. -/
def unusedFd (opened : List Nat) : Nat := opened.max?.getD 0 + 1

/-- A system whose `accept` and `epoll_ctl` succeed or not, with memory for one connection. -/
def answerOf (accepted added : Bool) : Answer where
  accepted := accepted
  fd := unusedFd
  fd_new := by
    intro opened hmem
    have hle := List.le_max?_getD_of_mem (k := 0) hmem
    unfold unusedFd at hle
    omega
  malloc := fun used => if 4096 ∈ used then 0 else 4096
  malloc_new := by
    intro used
    by_cases hused : (4096 : BitVec 64) ∈ used
    · exact Or.inl (if_pos hused)
    · exact Or.inr (by rwa [if_neg hused])
  added := added

/-- A listening socket 3 is reported. When its `accept` fails, and also when `epoll_ctl` fails,
`do_receive` gets the address 3. -/
theorem listening_event_received :
    (¬ Along (dispatch [3]) (TypeSafe [3]) (dispatcherStart [3] fun _ => true)
      [.wait [3], .turn (fun _ => answerOf false true) false]) ∧
    (¬ Along (dispatch [3]) (TypeSafe [3]) (dispatcherStart [3] fun _ => true)
      [.wait [3], .turn (fun _ => answerOf true false) false]) := by
  constructor
  · intro h
    have hcall := (h.2 _ rfl).1 ⟨3, 3⟩ _ rfl
    exact hcall.1 3 List.mem_cons_self rfl
  · intro h
    have hcall := (h.2 _ rfl).1 ⟨3, 3⟩ _ rfl
    exact hcall.1 3 List.mem_cons_self rfl

end Compostela.Aggregator
