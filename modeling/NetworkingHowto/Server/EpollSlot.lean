import NetworkingHowto.Server.Slot
import NetworkingHowto.Server.EpollProgress

/-! Every iteration of the epoll loop moves each slot by one `SlotMove`: a slot is served at most
once a batch, on the bits its socket reported. -/
namespace NetworkingHowto.Server.Epoll
open NetworkingHowto.Bytes

section
variable {e : Endian} {server : FileshareServer} {F : List UInt8} {maxConns : Nat}

theorem epollServeSlot_slotMove {io : Nat → StepIo} {u u' : EpollState} {i : Nat}
    {ev : Readiness} (hl : (u.conns i).state.live)
    (hs : epollServeSlot e server F io u i ev = .ok u') :
    SlotMove e server F (io i) ev (u.conns i) (u.wire i) (u'.conns i) (u'.wire i) ∧
      ∀ j ≠ i, u'.conns j = u.conns j ∧ u'.wire j = u.wire j := by
  unfold epollServeSlot at hs
  split_ifs at hs with hhup hout
  · rw [epollFinish_ok hs]
    exact ⟨by simpa using .hangup _ _ hl hhup, fun j hj => ⟨Function.update_noteq hj _ _, rfl⟩⟩
  · obtain ⟨r, hr, hiff, -⟩ := sendOnWritable_live e server F (io i) hl
    rw [hr] at hs
    dsimp only at hs
    have hm := SlotMove.send (u.conns i) (u.wire i) r hout hr
    split_ifs at hs with hsucc
    · cases hs
      exact ⟨by simpa using hm,
        fun j hj => ⟨Function.update_noteq hj _ _, Function.update_noteq hj _ _⟩⟩
    · rw [epollFinish_ok hs]
      have hfin := FileshareConnection.finish_of_state (hiff.mp (by simpa using hsucc))
      exact ⟨by simpa [hfin] using hm,
        fun j hj => ⟨by simp [Function.update_noteq hj], Function.update_noteq hj _ _⟩⟩
  · cases hs
    exact ⟨.stay _ _, fun _ _ => ⟨rfl, rfl⟩⟩

theorem epollAdmit_conns {acc : AcceptIo} {u u' : EpollState} (ha : epollAdmit acc u = .ok u') :
    u'.wire = u.wire ∧ (∀ j ≠ u.numConnectedClients, u'.conns j = u.conns j) ∧
      (u'.conns u.numConnectedClients).state = .sendFileSize ∧
      (u'.conns u.numConnectedClients).srcFileOffset =
        (u.conns u.numConnectedClients).srcFileOffset := by
  unfold epollAdmit at ha
  obtain ⟨⟨b, conn⟩, hacc, ha⟩ := ok_of_bind_ok ha
  obtain ⟨il, -, ha⟩ := ok_of_bind_ok ha
  cases ha
  exact ⟨rfl, fun j hj => Function.update_noteq hj _ _, by simp,
    by simp [serverAcceptConnectionRequest_conn hacc]⟩

variable (e server F maxConns) in
/-- During the event loop of an iteration in round `r` whose top left `s`: the batch
invariant; every slot event still to come names a slot admitted in `s`, still as it was there,
with bits its socket reported in `r`; and every slot has moved from `s` by one `SlotMove`. -/
structure MoveBatch (r : Round) (s : EpollState) (rest : List (Nat × Readiness))
    (u : EpollState) : Prop where
  batch : BatchInv server maxConns rest u
  le : s.numConnectedClients ≤ u.numConnectedClients
  events : ∀ ev ∈ rest, ev.1 ≠ 0 → ev.1 - 1 < s.numConnectedClients ∧
    u.conns (ev.1 - 1) = s.conns (ev.1 - 1) ∧ u.wire (ev.1 - 1) = s.wire (ev.1 - 1) ∧
    (ev.2.pollhup = true → (r.ready (s.conns (ev.1 - 1)).clientSockFd).pollhup = true) ∧
    (ev.2.pollout = true → (r.ready (s.conns (ev.1 - 1)).clientSockFd).pollout = true)
  moved : ∀ j, SlotMove e server F (r.io j) (r.ready (s.conns j).clientSockFd) (s.conns j)
    (s.wire j) (u.conns j) (u.wire j)

theorem MoveBatch.start {r : Round} {s : EpollState} (h : EpollInv server maxConns s)
    (hp : s.acceptNewConnectionsPrev = true → s.numConnectedClients < maxConns)
    {batch : List (Nat × Readiness)} (hb : batch.Perm (readyEvents r.ready s.interest)) :
    MoveBatch e server F maxConns r s batch s := by
  refine ⟨BatchInv.start h hp hb, le_rfl, fun ev hev h0 => ?_, fun j => .stay _ _⟩
  obtain ⟨reg, hreg, -, rfl⟩ := mem_readyEvents_iff.mp (hb.subset hev)
  rcases (h.interest reg).mp hreg with ⟨-, rfl⟩ | ⟨j, hj, -, rfl⟩
  · exact absurd rfl h0
  · simp [slotReg, hj]

theorem MoveBatch.step (hmax : maxConns < 2^32) {r : Round} {s : EpollState}
    (htop : ∀ j, s.numConnectedClients ≤ j → (s.conns j).state = .connectionEmpty) :
    ∀ x rest u u', MoveBatch e server F maxConns r s (x :: rest) u →
      epollServeEvent e server F r.accept r.io u x = .ok u' →
        MoveBatch e server F maxConns r s rest u'
  | ⟨tag, ev⟩, rest, u, u', hmb, hs => by
    have hb' := BatchInv.step hmax _ _ _ _ hmb.batch hs
    have hle := hmb.le
    unfold epollServeEvent at hs
    split_ifs at hs with h0
    · -- the listening socket: a client is admitted into the first free slot
      obtain ⟨hw, hc, hst, hoff⟩ := epollAdmit_conns hs
      obtain ⟨-, hn, -⟩ := hmb.batch.inv.newSlot hmax
        (hmb.batch.listen _ (List.mem_cons_self _ _) h0) hs
      obtain ⟨hc0, hw0⟩ := (hmb.moved u.numConnectedClients).eq_of_empty (htop _ hmb.le)
        (hmb.batch.inv.table.empty _ le_rfl)
      refine ⟨hb', by omega, fun ev' hev' h0' => ?_, fun j => ?_⟩
      · have hlt := (hmb.events ev' (List.mem_cons_of_mem _ hev') h0').1
        rw [hc _ (by omega), hw]
        exact hmb.events ev' (List.mem_cons_of_mem _ hev') h0'
      · by_cases hj : j = u.numConnectedClients
        · subst hj
          rw [hw, hw0]
          exact .newClient _ _ _ (htop _ hmb.le) hst (by rw [hoff, hc0])
        · rw [hc j hj, hw]
          exact hmb.moved j
    · -- a slot's event: that slot is served, on the bits its socket reported
      have hne := hmb.batch.rest_ne
      obtain ⟨hlt, hcj, hwj, hhup, hout⟩ := hmb.events _ (List.mem_cons_self _ _) h0
      obtain ⟨hlt', hl⟩ := hmb.batch.slots _ (List.mem_cons_self _ _) h0
      obtain ⟨hm, hoth⟩ := epollServeSlot_slotMove hl hs
      obtain ⟨-, hn, -⟩ := hmb.batch.inv.serveSlot hmax hlt' hl hs
      dsimp only at h0 hcj hwj hhup hout hm hoth
      refine ⟨hb', by omega, fun ev' hev' h0' => ?_, fun j => ?_⟩
      · have hne' : ev'.1 - 1 ≠ tag - 1 := by have := hne ev' hev'; dsimp only at this; omega
        rw [(hoth _ hne').1, (hoth _ hne').2]
        exact hmb.events ev' (List.mem_cons_of_mem _ hev') h0'
      · by_cases hj : j = tag - 1
        · subst hj
          rw [hcj, hwj] at hm
          exact hm.mono hhup hout
        · rw [(hoth j hj).1, (hoth j hj).2]
          exact hmb.moved j

theorem epollIteration_slotMove (hmax : maxConns < 2^32) {r : Round} {s s' t : EpollState}
    {batch : List (Nat × Readiness)} (h : EpollInv server maxConns s)
    (ht : epollTop server maxConns r s = .ok (some s'))
    (hb : batch.Perm (readyEvents r.ready s'.interest))
    (hd : epollDispatch e server F r batch s' = .ok t) (i : Nat) :
    SlotMove e server F (r.io i) (r.ready (s.conns i).clientSockFd) (s.conns i) (s.wire i)
      (t.conns i) (t.wire i) := by
  obtain ⟨h', hp⟩ := h.top ht
  have hs' : s'.conns = s.conns ∧ s'.wire = s.wire ∧
      s'.numConnectedClients = s.numConnectedClients := by
    rcases epollTop_some ht with ⟨-, rfl⟩ | ⟨-, rfl⟩ <;> exact ⟨rfl, rfl, rfl⟩
  unfold epollDispatch at hd
  split at hd
  · cases hd
  have hmb := foldlM_invariant (MoveBatch e server F maxConns r s')
    (MoveBatch.step hmax fun j hj => h'.table.empty j hj) (MoveBatch.start h' hp hb) hd
  simpa [hs'.1, hs'.2.1] using hmb.moved i

variable (e server F maxConns) in
/-- An iteration that goes on, in which slot `i`'s answers and the report on its socket
satisfy `P`; the other slots get whatever answers the kernel gives. -/
def SlotStep (P : StepIo → Readiness → FileshareConnection → Prop) (i : Nat) (s t : EpollState) :
    Prop :=
  ∃ (r : Round) (s' : EpollState) (batch : List (Nat × Readiness)),
    P (r.io i) (r.ready (s.conns i).clientSockFd) (s.conns i) ∧
    epollTop server maxConns r s = .ok (some s') ∧ batch.Perm (readyEvents r.ready s'.interest) ∧
    AtAccept e server F r.accept.Ok r batch s' ∧ epollDispatch e server F r batch s' = .ok t

theorem SlotStep.step {P : StepIo → Readiness → FileshareConnection → Prop} {i : Nat}
    {s t : EpollState} (h : SlotStep e server F maxConns P i s t) : Step e server F maxConns s t :=
  let ⟨r, s', batch, _, ht, hb, ha, hd⟩ := h
  ⟨r, s', batch, ht, hb, ha, hd⟩

theorem slot_reachable (hmax : maxConns < 2^32)
    {P : StepIo → Readiness → FileshareConnection → Prop}
    {Q : FileshareConnection → List UInt8 → Prop} (h0 : Q .zero [])
    (hstep : ∀ {io ready conn w conn' w'}, P io ready conn → Q conn w →
      SlotMove e server F io ready conn w conn' w' → Q conn' w')
    {i : Nat} {s : EpollState}
    (hs : Reachable (· = EpollState.init server) (SlotStep e server F maxConns P i) s) :
    EpollInv server maxConns s ∧ Q (s.conns i) (s.wire i) := by
  induction hs with
  | init h => exact h ▸ ⟨EpollInv.init server maxConns, h0⟩
  | step _ hst ih =>
    obtain ⟨r, s', batch, hP, ht, hb, -, hd⟩ := hst
    exact ⟨ih.1.continues hmax ⟨r, s', batch, ht, hb, hd⟩,
      hstep hP ih.2 (epollIteration_slotMove hmax ih.1 ht hb hd i)⟩

end

end NetworkingHowto.Server.Epoll
