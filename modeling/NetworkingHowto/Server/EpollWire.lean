import NetworkingHowto.Server.Wire
import NetworkingHowto.Server.EpollInvariant

/-! Each client of the epoll server receives a prefix of the header and the file, over every run
with good answers. -/
namespace NetworkingHowto.Server.Epoll
open NetworkingHowto.Bytes

section
variable {e : Endian} {server : FileshareServer} {F : List UInt8} {maxConns : Nat}

theorem wireInv_admit {acc : AcceptIo} {u u' : EpollState} (ha : epollAdmit acc u = .ok u')
    (h : WireInv F u.toLoopState)
    (he : (u.conns u.numConnectedClients).state = .connectionEmpty) :
    WireInv F u'.toLoopState ∧ ∀ j ≠ u.numConnectedClients, u'.conns j = u.conns j := by
  unfold epollAdmit at ha
  obtain ⟨⟨b, conn⟩, hacc, ha⟩ := ok_of_bind_ok ha
  obtain ⟨il, -, ha⟩ := ok_of_bind_ok ha
  cases ha
  refine ⟨h.update ((h _).newClient he rfl ?_) rfl (Function.update_eq_self _ _).symm,
    fun j hj => Function.update_noteq hj _ _⟩
  rw [serverAcceptConnectionRequest_conn hacc]

theorem wireInv_serveSlot (hS : server.srcFileSize = F.length) {io : Nat → StepIo}
    {u u' : EpollState} {i : Nat} {ev : Readiness}
    (hs : epollServeSlot e server F io u i ev = .ok u') (h : WireInv F u.toLoopState)
    (hgood : (io i).Good F (u.conns i)) :
    WireInv F u'.toLoopState ∧ ∀ j ≠ i, u'.conns j = u.conns j := by
  unfold epollServeSlot at hs
  split_ifs at hs with hhup hout
  · rw [epollFinish_ok hs]
    exact ⟨h.finish i rfl rfl, fun j hj => Function.update_noteq hj _ _⟩
  · cases hr : sendOnWritable e server F (u.conns i) (io i) with
    | none => rw [hr] at hs; cases hs
    | some r =>
      rw [hr] at hs
      dsimp only at hs
      have hslot := (h i).send hS hgood hr
      split_ifs at hs
      · cases hs
        exact ⟨h.update hslot rfl rfl, fun j hj => Function.update_noteq hj _ _⟩
      · rw [epollFinish_ok hs]
        refine ⟨h.update hslot.finish (by simp) rfl, fun j hj => ?_⟩
        simp [Function.update_noteq hj]
  · cases hs
    exact ⟨h, fun _ _ => rfl⟩

variable (server F maxConns) in
/-- During the event loop of an iteration whose top left `s`: the batch invariant, every
socket in step, and every slot event still to come names a slot admitted in `s` whose
record is still the one it had there. -/
def WireBatch (s : EpollState) (rest : List (Nat × Readiness)) (u : EpollState) : Prop :=
  BatchInv server maxConns rest u ∧ WireInv F u.toLoopState ∧
    ∀ ev ∈ rest, ev.1 ≠ 0 →
      ev.1 - 1 < s.numConnectedClients ∧ u.conns (ev.1 - 1) = s.conns (ev.1 - 1)

theorem WireBatch.step (hmax : maxConns < 2^32) (hS : server.srcFileSize = F.length)
    {r : Round} {s : EpollState} (hg : r.Good F s.toLoopState) :
    ∀ x rest u u', WireBatch server F maxConns s (x :: rest) u →
      epollServeEvent e server F r.accept r.io u x = .ok u' → WireBatch server F maxConns s rest u'
  | ⟨tag, ev⟩, rest, u, u', ⟨hb, hw, hc⟩, hs => by
    have hb' := BatchInv.step hmax _ _ _ _ hb hs
    unfold epollServeEvent at hs
    split_ifs at hs with h0
    · obtain ⟨hw', hc'⟩ := wireInv_admit hs hw (hb.inv.table.empty _ le_rfl)
      refine ⟨hb', hw', fun ev' hev' hne => ?_⟩
      have hmem := List.mem_cons_of_mem (tag, ev) hev'
      have := (hb.slots ev' hmem hne).1
      exact ⟨(hc ev' hmem hne).1, (hc' _ (by omega)).trans (hc ev' hmem hne).2⟩
    · obtain ⟨hlt, heq⟩ := hc _ (List.mem_cons_self _ _) h0
      obtain ⟨hw', hc'⟩ := wireInv_serveSlot hS hs hw (by rw [heq]; exact hg _ hlt)
      refine ⟨hb', hw', fun ev' hev' hne => ?_⟩
      have hmem := List.mem_cons_of_mem (tag, ev) hev'
      have := hb.rest_ne ev' hev'
      exact ⟨(hc ev' hmem hne).1, (hc' _ (by dsimp only at h0 this ⊢; omega)).trans (hc ev' hmem hne).2⟩

theorem wireInv_iteration (hmax : maxConns < 2^32) (hS : server.srcFileSize = F.length)
    {r : Round} {s s' t : EpollState} {batch : List (Nat × Readiness)}
    (h : EpollInv server maxConns s) (hw : WireInv F s.toLoopState) (hg : r.Good F s.toLoopState)
    (ht : epollTop server maxConns r s = .ok (some s'))
    (hb : batch.Perm (readyEvents r.ready s'.interest))
    (hd : epollDispatch e server F r batch s' = .ok t) : WireInv F t.toLoopState := by
  obtain ⟨h', hp⟩ := h.top ht
  have hs' : r.Good F s'.toLoopState ∧ WireInv F s'.toLoopState := by
    rcases epollTop_some ht with ⟨-, rfl⟩ | ⟨-, rfl⟩ <;> exact ⟨hg, hw⟩
  unfold epollDispatch at hd
  split at hd
  · cases hd
  have hstart := BatchInv.start h' hp hb
  exact (foldlM_invariant (WireBatch server F maxConns s') (WireBatch.step hmax hS hs'.1)
    ⟨hstart, hs'.2, fun ev hev h0 => ⟨(hstart.slots ev hev h0).1, rfl⟩⟩ hd).2.1

variable (e server F maxConns) in
def GoodStep (s t : EpollState) : Prop :=
  ∃ (r : Round) (s' : EpollState) (batch : List (Nat × Readiness)),
    r.Good F s.toLoopState ∧ epollTop server maxConns r s = .ok (some s') ∧
    batch.Perm (readyEvents r.ready s'.interest) ∧ AtAccept e server F r.accept.Ok r batch s' ∧
    epollDispatch e server F r batch s' = .ok t

theorem GoodStep.step {s t : EpollState} (h : GoodStep e server F maxConns s t) :
    Step e server F maxConns s t :=
  let ⟨r, s', batch, _, ht, hb, ha, hd⟩ := h
  ⟨r, s', batch, ht, hb, ha, hd⟩

theorem wireInv_reachable (hS : server.srcFileSize = F.length) (hmax : maxConns < 2^32)
    {s : EpollState} (hs : Reachable (· = EpollState.init server) (GoodStep e server F maxConns) s) :
    EpollInv server maxConns s ∧ WireInv F s.toLoopState := by
  induction hs with
  | init h => exact h ▸ ⟨EpollInv.init server maxConns, WireInv.init server⟩
  | step _ hst ih =>
    obtain ⟨r, s', batch, hg, ht, hb, -, hd⟩ := hst
    exact ⟨ih.1.continues hmax ⟨r, s', batch, ht, hb, hd⟩,
      wireInv_iteration hmax hS ih.1 ih.2 hg ht hb hd⟩

/-- Over every run of the epoll loop with good answers, which is a run of the loop: each
slot's socket has received a prefix of the header and the file, exactly what its record
says it has sent, and the whole of it once the transfer finished at the file's end. -/
theorem epoll_clients_receive_file (hS : server.srcFileSize = F.length) (hmax : maxConns < 2^32)
    {s : EpollState} (hs : Reachable (· = EpollState.init server) (GoodStep e server F maxConns) s)
    (i : Nat) :
    Reachable (· = EpollState.init server) (Step e server F maxConns) s ∧
    s.wire i <+: be64 F.length ++ F ∧ WireOk F (s.conns i) (s.wire i) ∧
    ((s.conns i).state = .transferFinished → (s.conns i).srcFileOffset = F.length →
      0 < F.length → s.wire i = be64 F.length ++ F) := by
  have hslot := (wireInv_reachable hS hmax hs).2 i
  exact ⟨hs.mono fun _ _ h => h.step, hslot.ok.isPrefix, hslot.ok, hslot.whole⟩

end

theorem reachable_one_byte :
    ∃ s : EpollState, Reachable (· = EpollState.init ⟨3, 1, 4⟩) (GoodStep .little ⟨3, 1, 4⟩ [7] 1) s ∧
      s.conns 0 = ⟨5, 1, .transferFinished⟩ ∧ s.wire 0 = be64 1 ++ [7] := by
  have h0 : Reachable (· = EpollState.init ⟨3, 1, 4⟩) (GoodStep .little ⟨3, 1, 4⟩ [7] 1)
      (EpollState.init ⟨3, 1, 4⟩) := .init rfl
  have h1 := h0.step ⟨⟨false, false, fun fd => if fd = 4 then ⟨true, false, false⟩ else .none,
    ⟨5, false, 0, 0, 0⟩, fun _ => ⟨0, 0, 0⟩⟩, _, _, fun i hi => absurd hi (Nat.not_lt_zero i), rfl,
    List.Perm.refl _, atAccept_singleton (.inr ⟨by decide, by decide⟩), rfl⟩
  have h2 := h1.step ⟨⟨false, false, fun fd => if fd = 5 then ⟨false, true, false⟩ else .none,
    ⟨-1, false, 0, 0, 0⟩, fun _ => ⟨0, 8, 0⟩⟩, _, _, by
      unfold Round.Good StepIo.Good StepIo.Allowed StepIo.PreadOk StepIo.WriteOk StaleEagainShortHeader
      decide, rfl, List.Perm.refl _, atAccept_of_ne (by decide), by rfl⟩
  have h3 := h2.step ⟨⟨false, false, fun fd => if fd = 5 then ⟨false, true, false⟩ else .none,
    ⟨-1, false, 0, 0, 0⟩, fun _ => ⟨1, 1, 0⟩⟩, _, _, by
      unfold Round.Good StepIo.Good StepIo.Allowed StepIo.PreadOk StepIo.WriteOk StaleEagainShortHeader
      decide, rfl, List.Perm.refl _, atAccept_of_ne (by decide), by rfl⟩
  exact ⟨_, h3, rfl, rfl⟩

/-- The run of `reachable_one_byte`: the client's socket has received the whole framed file. -/
theorem epoll_clients_receive_file_one_byte :
    ∃ s : EpollState, (⟨3, 1, 4⟩ : FileshareServer).srcFileSize = ([7] : List UInt8).length ∧
      (1 : Nat) < 2^32 ∧
      Reachable (· = EpollState.init ⟨3, 1, 4⟩) (GoodStep .little ⟨3, 1, 4⟩ [7] 1) s ∧
      s.conns 0 = ⟨5, 1, .transferFinished⟩ ∧
      (Reachable (· = EpollState.init ⟨3, 1, 4⟩) (Step .little ⟨3, 1, 4⟩ [7] 1) s ∧
        s.wire 0 <+: be64 ([7] : List UInt8).length ++ [7] ∧ WireOk [7] (s.conns 0) (s.wire 0) ∧
        ((s.conns 0).state = .transferFinished →
          (s.conns 0).srcFileOffset = ([7] : List UInt8).length →
          0 < ([7] : List UInt8).length → s.wire 0 = be64 ([7] : List UInt8).length ++ [7])) :=
  let ⟨s, hs, hc, _⟩ := reachable_one_byte
  ⟨s, rfl, by decide, hs, hc, epoll_clients_receive_file rfl (by decide) hs 0⟩

end NetworkingHowto.Server.Epoll
