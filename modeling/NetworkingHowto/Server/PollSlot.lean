import NetworkingHowto.Server.Slot
import NetworkingHowto.Server.PollLoop

/-! Every iteration of the poll loop moves each slot by one `SlotMove`, on the bits `poll`
reported for it. -/
namespace NetworkingHowto.Server.Poll
open NetworkingHowto.Bytes

theorem pollPrepare_revents {server : FileshareServer} {r : Round} {acceptNew : Bool}
    {s : PollState} {pfds : Nat → Pollfd} (h : pollPrepare server r acceptNew s = .ok pfds)
    {i : Nat} (hi : i < s.numConnectedClients) (hne : (s.conns i).state ≠ .connectionEmpty) :
    ((pfds (1 + i)).revents.pollhup = true → (r.ready (s.conns i).clientSockFd).pollhup = true) ∧
    ((pfds (1 + i)).revents.pollout = true → (r.ready (s.conns i).clientSockFd).pollout = true) := by
  simp only [pollPrepare] at h
  obtain ⟨p', hp', hrest⟩ := ok_of_bind_ok h
  split at hrest
  · cases hrest
  cases hrest
  obtain ⟨h1, h2, -⟩ := register_spec hp'
  have hlt : 1 + i < 1 + s.numConnectedClients := by omega
  cases hs : (s.conns i).state
  · exact absurd hs hne
  case transferFinished => simp [pollResult, hlt, h1 i hi hs, Readiness.none]
  all_goals
    simp only [pollResult, hlt, if_true, h2 i hi (by simp [hs, TransferState.live])]
    split_ifs <;> simp [Readiness.none]

section
variable {e : Endian} {server : FileshareServer} {F : List UInt8} {maxConns : Nat}

theorem pollServeSlot_slotMove {io : Nat → StepIo} {pfds : Nat → Pollfd} {t t' : LoopState}
    {k : Nat} (hrep : (pfds (1 + k)).revents.any → (t.conns k).state.live)
    (hs : pollServeSlot e server F io pfds t k = .ok t') :
    SlotMove e server F (io k) (pfds (1 + k)).revents (t.conns k) (t.wire k) (t'.conns k)
      (t'.wire k) ∧ ∀ j ≠ k, t'.conns j = t.conns j ∧ t'.wire j = t.wire j := by
  unfold pollServeSlot at hs
  dsimp only at hs
  split_ifs at hs with hhup hout
  · obtain ⟨fds, -, hs⟩ := ok_of_bind_ok hs
    cases hs
    exact ⟨by simpa using .hangup _ _ (hrep (by simp [Readiness.any, hhup])) hhup,
      fun j hj => ⟨Function.update_noteq hj _ _, rfl⟩⟩
  · cases hr : sendOnWritable e server F (t.conns k) (io k) with
    | none => rw [hr] at hs; cases hs
    | some r =>
      rw [hr] at hs
      dsimp only at hs
      have hm := SlotMove.send (t.conns k) (t.wire k) r hout hr
      have hoth : ∀ j ≠ k, Function.update t.conns k r.conn j = t.conns j ∧
          Function.update t.wire k (t.wire k ++ r.sent) j = t.wire j :=
        fun j hj => ⟨Function.update_noteq hj _ _, Function.update_noteq hj _ _⟩
      split_ifs at hs
      · cases hs
        exact ⟨by simpa using hm, hoth⟩
      · obtain ⟨fds, -, hs⟩ := ok_of_bind_ok hs
        cases hs
        exact ⟨by simpa using hm, hoth⟩
  · cases hs
    exact ⟨.stay _ _, fun _ _ => ⟨rfl, rfl⟩⟩

theorem pollAcceptBlock_conns {acc : AcceptIo} {pfds : Nat → Pollfd} {t v : LoopState}
    (hv : pollAcceptBlock acc pfds t = .ok v) :
    v.wire = t.wire ∧ (∀ j ≠ t.numConnectedClients, v.conns j = t.conns j) ∧
      (v.conns t.numConnectedClients = t.conns t.numConnectedClients ∨
        (v.conns t.numConnectedClients).state = .sendFileSize ∧
          (v.conns t.numConnectedClients).srcFileOffset =
            (t.conns t.numConnectedClients).srcFileOffset) := by
  unfold pollAcceptBlock at hv
  split at hv
  · simp only [pollAdmit] at hv
    obtain ⟨⟨b, conn⟩, hacc, hv⟩ := ok_of_bind_ok hv
    cases hv
    exact ⟨rfl, fun j hj => Function.update_noteq hj _ _,
      .inr (by simp [serverAcceptConnectionRequest_conn hacc])⟩
  · cases hv
    exact ⟨rfl, fun _ _ => rfl, .inl rfl⟩

theorem pollServeSlots_slotMove {io : Nat → StepIo} {pfds : Nat → Pollfd} {v u : LoopState}
    (hrep : ∀ k < v.numConnectedClients, (pfds (1 + k)).revents.any → (v.conns k).state.live)
    (hu : (List.range v.numConnectedClients).foldlM (pollServeSlot e server F io pfds) v = .ok u)
    (j : Nat) :
    (v.numConnectedClients ≤ j → u.conns j = v.conns j ∧ u.wire j = v.wire j) ∧
    (j < v.numConnectedClients →
      SlotMove e server F (io j) (pfds (1 + j)).revents (v.conns j) (v.wire j) (u.conns j) (u.wire j)) :=
  range_foldlM_invariant (fun k u => ∀ j,
      (k ≤ j → u.conns j = v.conns j ∧ u.wire j = v.wire j) ∧
      (j < k → SlotMove e server F (io j) (pfds (1 + j)).revents (v.conns j) (v.wire j)
        (u.conns j) (u.wire j)))
    (fun k hk u u' hq hs j => by
      have hk' := (hq k).1 le_rfl
      obtain ⟨hm, hoth⟩ := pollServeSlot_slotMove (fun hany => hk'.1 ▸ hrep k hk hany) hs
      refine ⟨fun hj => ?_, fun hj => ?_⟩
      · rw [(hoth j (by omega)).1, (hoth j (by omega)).2]
        exact (hq j).1 (by omega)
      · rcases Nat.lt_succ_iff_lt_or_eq.mp hj with hj | rfl
        · rw [(hoth j (by omega)).1, (hoth j (by omega)).2]
          exact (hq j).2 hj
        · rw [← hk'.1, ← hk'.2]
          exact hm)
    (fun j => ⟨fun _ => ⟨rfl, rfl⟩, nofun⟩) hu j

theorem pollIteration_slotMove (hmax : maxConns < 2^64) {r : Round} {s t : PollState}
    (h : PollInv maxConns s) (hr : pollIteration e server F maxConns r s = .ok (some t))
    (i : Nat) :
    SlotMove e server F (r.io i) (r.ready (s.conns i).clientSockFd) (s.conns i) (s.wire i)
      (t.conns i) (t.wire i) := by
  simp only [pollIteration] at hr
  split at hr
  · cases hr
  obtain ⟨pfds, hp, hr⟩ := ok_of_bind_ok hr
  obtain ⟨u, hu, hr⟩ := ok_of_bind_ok hr
  cases hr
  unfold pollServe at hu
  obtain ⟨v, hv, hu⟩ := ok_of_bind_ok hu
  obtain ⟨hvt, hvn, hvr⟩ := pollAcceptBlock_spec hmax h hp hv
  obtain ⟨hvw, hvc, hadm⟩ := pollAcceptBlock_conns hv
  have hfold := pollServeSlots_slotMove hvr hu
  dsimp only at hvw hvc hadm hvn
  have hempty := h.table.empty s.numConnectedClients le_rfl
  rcases lt_trichotomy i s.numConnectedClients with hi | rfl | hi
  · -- an admitted slot: served once, on the bits reported for its socket
    obtain ⟨hhup, hout⟩ := pollPrepare_revents hp hi (h.table.admitted i hi)
    have hm := (hfold i).2 (by omega)
    rw [hvc i (by omega), hvw] at hm
    exact hm.mono hhup hout
  · -- the slot the accept block fills: not reported on in this iteration
    have hquiet : (pfds (1 + s.numConnectedClients)).revents = .none := by
      rw [(pollPrepare_spec hp).2.2.2 _ (by omega)]
      exact h.fresh _ (by omega)
    have hkeep : u.conns s.numConnectedClients = v.conns s.numConnectedClients ∧
        u.wire s.numConnectedClients = v.wire s.numConnectedClients := by
      by_cases hlt : s.numConnectedClients < v.numConnectedClients
      · exact ((hfold _).2 hlt).eq_of_quiet (by rw [hquiet]; rfl) (by rw [hquiet]; rfl)
          (hvt.admitted _ hlt)
      · exact (hfold _).1 (by omega)
    rw [hkeep.1, hkeep.2, hvw]
    rcases hadm with hc | ⟨hc, ho⟩
    · rw [hc]; exact .stay _ _
    · exact .newClient _ _ _ hempty hc ho
  · -- a slot past the admitted ones: left alone
    rw [((hfold i).1 (by omega)).1, ((hfold i).1 (by omega)).2, hvc i (by omega), hvw]
    exact .stay _ _

variable (e server F maxConns) in
/-- An iteration that goes on, in which slot `i`'s answers and the report on its socket
satisfy `P`; the other slots get whatever answers the kernel gives. -/
def SlotStep (P : StepIo → Readiness → FileshareConnection → Prop) (i : Nat) (s t : PollState) :
    Prop :=
  ∃ r : Round, r.accept.Ok s.openFds ∧ P (r.io i) (r.ready (s.conns i).clientSockFd) (s.conns i) ∧
    pollIteration e server F maxConns r s = .ok (some t)

theorem SlotStep.step {P : StepIo → Readiness → FileshareConnection → Prop} {i : Nat}
    {s t : PollState} (h : SlotStep e server F maxConns P i s t) : Step e server F maxConns s t :=
  let ⟨r, ha, _, hr⟩ := h
  ⟨r, ha, hr⟩

theorem slot_reachable (hmax : maxConns < 2^64)
    {P : StepIo → Readiness → FileshareConnection → Prop}
    {Q : FileshareConnection → List UInt8 → Prop} (h0 : Q .zero [])
    (hstep : ∀ {io ready conn w conn' w'}, P io ready conn → Q conn w →
      SlotMove e server F io ready conn w conn' w' → Q conn' w')
    {i : Nat} {s : PollState}
    (hs : Reachable (· = PollState.init server) (SlotStep e server F maxConns P i) s) :
    PollInv maxConns s ∧ Q (s.conns i) (s.wire i) := by
  induction hs with
  | init h => exact h ▸ ⟨PollInv.init server maxConns, h0⟩
  | step _ hst ih =>
    obtain ⟨r, -, hP, hr⟩ := hst
    exact ⟨ih.1.step hmax hr, hstep hP ih.2 (pollIteration_slotMove hmax ih.1 hr i)⟩

end

end NetworkingHowto.Server.Poll
