import NetworkingHowto.Server.Wire
import NetworkingHowto.Server.PollLoop

/-! Each client of the poll server receives a prefix of the header and the file, over every run
with good answers. -/
namespace NetworkingHowto.Server.Poll
open NetworkingHowto.Bytes

section
variable {e : Endian} {server : FileshareServer} {F : List UInt8} {maxConns : Nat}

theorem wireInv_serveSlot (hS : server.srcFileSize = F.length) {io : Nat → StepIo}
    {pfds : Nat → Pollfd} {t t' : LoopState} (h : WireInv F t) {k : Nat}
    (hgood : (pfds (1 + k)).revents.any → (io k).Good F (t.conns k))
    (hs : pollServeSlot e server F io pfds t k = .ok t') :
    WireInv F t' ∧ ∀ j ≠ k, t'.conns j = t.conns j := by
  unfold pollServeSlot at hs
  dsimp only at hs
  split_ifs at hs with hhup hout
  · obtain ⟨fds, -, hs⟩ := ok_of_bind_ok hs
    cases hs
    exact ⟨h.finish k rfl rfl, fun j hj => Function.update_noteq hj _ _⟩
  · cases hr : sendOnWritable e server F (t.conns k) (io k) with
    | none => rw [hr] at hs; cases hs
    | some r =>
      rw [hr] at hs
      dsimp only at hs
      have hslot := (h k).send hS (hgood (by simp [Readiness.any, hout])) hr
      split_ifs at hs
      · cases hs
        exact ⟨h.update hslot rfl rfl, fun j hj => Function.update_noteq hj _ _⟩
      · obtain ⟨fds, -, hs⟩ := ok_of_bind_ok hs
        cases hs
        exact ⟨h.update hslot rfl rfl, fun j hj => Function.update_noteq hj _ _⟩
  · cases hs
    exact ⟨h, fun _ _ => rfl⟩

theorem wireInv_acceptBlock {acc : AcceptIo} {pfds : Nat → Pollfd} {t v : LoopState}
    (hv : pollAcceptBlock acc pfds t = .ok v) (h : WireInv F t)
    (he : (t.conns t.numConnectedClients).state = .connectionEmpty) :
    WireInv F v ∧ ∀ j ≠ t.numConnectedClients, v.conns j = t.conns j := by
  unfold pollAcceptBlock at hv
  split at hv
  · simp only [pollAdmit] at hv
    obtain ⟨⟨b, conn⟩, hacc, hv⟩ := ok_of_bind_ok hv
    cases hv
    refine ⟨h.update ((h _).newClient he rfl ?_) rfl (Function.update_eq_self _ _).symm,
      fun j hj => Function.update_noteq hj _ _⟩
    rw [serverAcceptConnectionRequest_conn hacc]
  · cases hv
    exact ⟨h, fun _ _ => rfl⟩

theorem wireInv_iteration (hS : server.srcFileSize = F.length) {r : Round} {s t : PollState}
    (h : PollInv maxConns s) (hw : WireInv F s.toLoopState) (hg : r.Good F s.toLoopState)
    (hr : pollIteration e server F maxConns r s = .ok (some t)) : WireInv F t.toLoopState := by
  simp only [pollIteration] at hr
  split at hr
  · cases hr
  obtain ⟨pfds, hp, hr⟩ := ok_of_bind_ok hr
  obtain ⟨u, hu, hr⟩ := ok_of_bind_ok hr
  cases hr
  unfold pollServe at hu
  obtain ⟨v, hv, hu⟩ := ok_of_bind_ok hu
  obtain ⟨hvw, hvc⟩ := wireInv_acceptBlock hv hw (h.table.empty _ le_rfl)
  have hgood : ∀ k, (pfds (1 + k)).revents.any → (r.io k).Good F (v.conns k) := fun k hany => by
    by_cases hk : k < s.numConnectedClients
    · rw [hvc k (by dsimp only; omega)]
      exact hg k hk
    · rw [(pollPrepare_spec hp).2.2.2 _ (by omega), h.fresh _ (by omega)] at hany
      cases hany
  exact (range_foldlM_invariant (fun k u => WireInv F u ∧ ∀ i, k ≤ i → u.conns i = v.conns i)
    (fun k _ u u' ⟨hu, hc⟩ hs => by
      obtain ⟨hu', hc'⟩ := wireInv_serveSlot hS hu (by rw [hc k le_rfl]; exact hgood k) hs
      exact ⟨hu', fun i hi => (hc' i (by omega)).trans (hc i (by omega))⟩)
    ⟨hvw, fun _ _ => rfl⟩ hu).1

variable (e server F maxConns) in
def GoodStep (s t : PollState) : Prop :=
  ∃ r : Round, r.accept.Ok s.openFds ∧ r.Good F s.toLoopState ∧
    pollIteration e server F maxConns r s = .ok (some t)

theorem GoodStep.step {s t : PollState} (h : GoodStep e server F maxConns s t) :
    Step e server F maxConns s t :=
  let ⟨r, ha, _, hr⟩ := h
  ⟨r, ha, hr⟩

theorem wireInv_reachable (hS : server.srcFileSize = F.length) (hmax : maxConns < 2^64)
    {s : PollState} (hs : Reachable (· = PollState.init server) (GoodStep e server F maxConns) s) :
    PollInv maxConns s ∧ WireInv F s.toLoopState := by
  induction hs with
  | init h => exact h ▸ ⟨PollInv.init server maxConns, WireInv.init server⟩
  | step _ hst ih =>
    obtain ⟨_, _, hg, hr⟩ := hst
    exact ⟨ih.1.step hmax hr, wireInv_iteration hS ih.1 ih.2 hg hr⟩

/-- Over every run of the poll loop with good answers, which is a run of the loop: each
slot's socket has received a prefix of the header and the file, exactly what its record
says it has sent, and the whole of it once the transfer finished at the file's end. -/
theorem poll_clients_receive_file (hS : server.srcFileSize = F.length) (hmax : maxConns < 2^64)
    {s : PollState} (hs : Reachable (· = PollState.init server) (GoodStep e server F maxConns) s)
    (i : Nat) :
    Reachable (· = PollState.init server) (Step e server F maxConns) s ∧
    s.wire i <+: be64 F.length ++ F ∧ WireOk F (s.conns i) (s.wire i) ∧
    ((s.conns i).state = .transferFinished → (s.conns i).srcFileOffset = F.length →
      0 < F.length → s.wire i = be64 F.length ++ F) := by
  have hslot := (wireInv_reachable hS hmax hs).2 i
  exact ⟨hs.mono fun _ _ h => h.step, hslot.ok.isPrefix, hslot.ok, hslot.whole⟩

end

theorem reachable_admitted :
    ∃ s : PollState, Reachable (· = PollState.init ⟨3, 1, 4⟩) (GoodStep .little ⟨3, 1, 4⟩ [7] 1) s ∧
      s.numConnectedClients = 1 ∧ s.receivedSigint = false ∧ s.conns 0 = ⟨5, 0, .sendFileSize⟩ := by
  have h0 : Reachable (· = PollState.init ⟨3, 1, 4⟩) (GoodStep .little ⟨3, 1, 4⟩ [7] 1)
      (PollState.init ⟨3, 1, 4⟩) := .init rfl
  exact ⟨_, h0.step ⟨⟨false, false, fun fd => if fd = 4 then ⟨true, false, false⟩ else .none,
    ⟨5, false, 0, 0, 0⟩, fun _ => ⟨0, 0, 0⟩⟩, .inr ⟨by decide, by decide⟩,
    fun i hi => absurd hi (Nat.not_lt_zero i), rfl⟩, rfl, rfl, rfl⟩

theorem reachable_one_byte :
    ∃ s : PollState, Reachable (· = PollState.init ⟨3, 1, 4⟩) (GoodStep .little ⟨3, 1, 4⟩ [7] 1) s ∧
      s.conns 0 = ⟨5, 1, .transferFinished⟩ ∧ s.wire 0 = be64 1 ++ [7] := by
  have h0 : Reachable (· = PollState.init ⟨3, 1, 4⟩) (GoodStep .little ⟨3, 1, 4⟩ [7] 1)
      (PollState.init ⟨3, 1, 4⟩) := .init rfl
  have h1 := h0.step ⟨⟨false, false, fun fd => if fd = 4 then ⟨true, false, false⟩ else .none,
    ⟨5, false, 0, 0, 0⟩, fun _ => ⟨0, 0, 0⟩⟩, .inr ⟨by decide, by decide⟩,
    fun i hi => absurd hi (Nat.not_lt_zero i), rfl⟩
  have h2 := h1.step ⟨⟨false, false, fun fd => if fd = 5 then ⟨false, true, false⟩ else .none,
    ⟨-1, false, 0, 0, 0⟩, fun _ => ⟨0, 8, 0⟩⟩, .inl rfl, by
      unfold Round.Good StepIo.Good StepIo.Allowed StepIo.PreadOk StepIo.WriteOk StaleEagainShortHeader
      decide, rfl⟩
  have h3 := h2.step ⟨⟨false, false, fun fd => if fd = 5 then ⟨false, true, false⟩ else .none,
    ⟨-1, false, 0, 0, 0⟩, fun _ => ⟨1, 1, 0⟩⟩, .inl rfl, by
      unfold Round.Good StepIo.Good StepIo.Allowed StepIo.PreadOk StepIo.WriteOk StaleEagainShortHeader
      decide, rfl⟩
  exact ⟨_, h3, rfl, rfl⟩

/-- The run of `reachable_one_byte`: the client's socket has received the whole framed file. -/
theorem poll_clients_receive_file_one_byte :
    ∃ s : PollState, (⟨3, 1, 4⟩ : FileshareServer).srcFileSize = ([7] : List UInt8).length ∧
      (1 : Nat) < 2^64 ∧
      Reachable (· = PollState.init ⟨3, 1, 4⟩) (GoodStep .little ⟨3, 1, 4⟩ [7] 1) s ∧
      s.conns 0 = ⟨5, 1, .transferFinished⟩ ∧
      (Reachable (· = PollState.init ⟨3, 1, 4⟩) (Step .little ⟨3, 1, 4⟩ [7] 1) s ∧
        s.wire 0 <+: be64 ([7] : List UInt8).length ++ [7] ∧ WireOk [7] (s.conns 0) (s.wire 0) ∧
        ((s.conns 0).state = .transferFinished →
          (s.conns 0).srcFileOffset = ([7] : List UInt8).length →
          0 < ([7] : List UInt8).length → s.wire 0 = be64 ([7] : List UInt8).length ++ [7])) :=
  let ⟨s, hs, hc, _⟩ := reachable_one_byte
  ⟨s, rfl, by decide, hs, hc, poll_clients_receive_file rfl (by decide) hs 0⟩

end NetworkingHowto.Server.Poll
