import NetworkingHowto.Server.PollWire
import NetworkingHowto.Server.Progress

/-! The poll loop reaches its `break` under a kernel that serves every live socket, once no new
connection is accepted. -/
namespace NetworkingHowto.Server.Poll
open NetworkingHowto.Bytes

/-- Every live admitted slot with a descriptor holds it, and no two live slots share one. -/
structure HeldInv (s : LoopState) : Prop where
  held : ∀ i < s.numConnectedClients, (s.conns i).state.live → 0 ≤ (s.conns i).clientSockFd →
    (s.conns i).clientSockFd ∈ s.openFds
  distinct : ∀ i < s.numConnectedClients, ∀ j < s.numConnectedClients,
    (s.conns i).state.live → (s.conns j).state.live → 0 ≤ (s.conns i).clientSockFd →
    (s.conns i).clientSockFd = (s.conns j).clientSockFd → i = j

section
variable {e : Endian} {server : FileshareServer} {F : List UInt8} {maxConns : Nat}

theorem HeldInv.mono {t t' : LoopState} (h : HeldInv t)
    (hn : t'.numConnectedClients = t.numConnectedClients)
    (hc : ∀ m, (t'.conns m).state.live →
      (t.conns m).state.live ∧ (t'.conns m).clientSockFd = (t.conns m).clientSockFd)
    (hfds : ∀ m < t.numConnectedClients, (t'.conns m).state.live → 0 ≤ (t.conns m).clientSockFd →
      (t.conns m).clientSockFd ∈ t.openFds → (t.conns m).clientSockFd ∈ t'.openFds) :
    HeldInv t' := by
  refine ⟨fun i hi hl h0 => ?_, fun i hi j hj hli hlj h0 heq => ?_⟩
  · obtain ⟨hl', hfd⟩ := hc i hl
    rw [hfd] at h0 ⊢
    exact hfds i (hn ▸ hi) hl h0 (h.held i (hn ▸ hi) hl' h0)
  · obtain ⟨hli', hfdi⟩ := hc i hli
    obtain ⟨hlj', hfdj⟩ := hc j hlj
    exact h.distinct i (hn ▸ hi) j (hn ▸ hj) hli' hlj' (hfdi ▸ h0) (hfdi ▸ hfdj ▸ heq)

theorem HeldInv.erase {t : LoopState} (h : HeldInv t) {k m : Nat} (hk : k < t.numConnectedClients)
    (hm : m < t.numConnectedClients) (hkl : (t.conns k).state.live) (hml : (t.conns m).state.live)
    (hmk : m ≠ k) (h0 : 0 ≤ (t.conns m).clientSockFd) (hmem : (t.conns m).clientSockFd ∈ t.openFds) :
    (t.conns m).clientSockFd ∈ t.openFds.erase (t.conns k).clientSockFd :=
  (List.mem_erase_of_ne fun heq => hmk (h.distinct m hm k hk hml hkl h0 heq)).mpr hmem

theorem HeldInv.replace {t t' : LoopState} (h : HeldInv t) {k : Nat}
    (hk : k < t.numConnectedClients) (hl : (t.conns k).state.live) {x : FileshareConnection}
    (hc : t'.conns = Function.update t.conns k x) (hfd : x.clientSockFd = (t.conns k).clientSockFd)
    (hn : t'.numConnectedClients = t.numConnectedClients)
    (hfds : t'.openFds = t.openFds ∨
      (x.state.live = false ∧ t'.openFds = t.openFds.erase (t.conns k).clientSockFd)) :
    HeldInv t' := by
  refine h.mono hn (fun m hm => ?_) (fun m hm hml h0 hmem => ?_)
  · rw [hc] at hm ⊢
    by_cases hmk : m = k
    · subst hmk
      rw [Function.update_same] at hm ⊢
      exact ⟨hl, hfd⟩
    · rw [Function.update_noteq hmk] at hm ⊢
      exact ⟨hm, rfl⟩
  · rcases hfds with hf | ⟨hx, hf⟩
    · exact hf ▸ hmem
    · have hmk : m ≠ k := by
        rintro rfl
        rw [hc, Function.update_same, hx] at hml
        cases hml
      rw [hc, Function.update_noteq hmk] at hml
      exact hf ▸ h.erase hk hm hl hml hmk h0 hmem

theorem heldInv_serveSlot {io : Nat → StepIo} {pfds : Nat → Pollfd} {t t' : LoopState}
    (h : HeldInv t) {k : Nat} (hk : k < t.numConnectedClients)
    (hrep : (pfds (1 + k)).revents.any → (t.conns k).state.live)
    (hs : pollServeSlot e server F io pfds t k = .ok t') : HeldInv t' := by
  unfold pollServeSlot at hs
  dsimp only at hs
  split_ifs at hs with hhup hout
  · have hl := hrep (by simp [Readiness.any, hhup])
    obtain ⟨fds, hfds, hs⟩ := ok_of_bind_ok hs
    cases hs
    exact h.replace hk hl rfl rfl rfl (.inr ⟨rfl, serverCloseConnSocket_ok hfds⟩)
  · have hl := hrep (by simp [Readiness.any, hout])
    obtain ⟨r, hr, hiff, -, hfd⟩ := sendOnWritable_live e server F (io k) hl
    rw [hr] at hs
    dsimp only at hs
    split_ifs at hs with hsucc
    · cases hs
      exact h.replace hk hl rfl hfd rfl (.inl rfl)
    · obtain ⟨fds, hfds, hs⟩ := ok_of_bind_ok hs
      cases hs
      have hfin := hiff.mp (by simpa using hsucc)
      refine h.replace hk hl rfl hfd rfl (.inr ⟨by simp [hfin, TransferState.live], ?_⟩)
      simpa [hfd] using serverCloseConnSocket_ok hfds
  · cases hs
    exact h

theorem heldInv_acceptBlock {acc : AcceptIo} {pfds : Nat → Pollfd} {t v : LoopState}
    (hv : pollAcceptBlock acc pfds t = .ok v) (h : HeldInv t) (hacc : acc.Ok t.openFds) :
    HeldInv v := by
  unfold pollAcceptBlock at hv
  split at hv
  · simp only [pollAdmit] at hv
    obtain ⟨⟨b, conn⟩, hreq, hv⟩ := ok_of_bind_ok hv
    cases hv
    obtain rfl := serverAcceptConnectionRequest_conn hreq
    have hfresh : 0 ≤ acc.acceptRet → acc.acceptRet ≠ -1 ∧ acc.acceptRet ∉ t.openFds :=
      fun h0 => by
        rcases hacc with h1 | ⟨-, h1⟩
        · omega
        · exact ⟨by omega, h1⟩
    have old : ∀ i < t.numConnectedClients + 1, i ≠ t.numConnectedClients →
        i < t.numConnectedClients := fun i hi hin => by omega
    refine ⟨fun i hi hl h0 => ?_, fun i hi j hj hli hlj h0 heq => ?_⟩
    · dsimp only at hi hl h0 ⊢
      by_cases hin : i = t.numConnectedClients
      · subst hin
        simp only [Function.update_same] at h0 ⊢
        rw [if_neg (hfresh h0).1]
        exact List.mem_cons_self _ _
      · rw [Function.update_noteq hin] at hl h0 ⊢
        have hmem := h.held i (old i hi hin) hl h0
        split <;> simp [hmem]
    · dsimp only at hi hj hli hlj h0 heq
      by_cases hin : i = t.numConnectedClients <;> by_cases hjn : j = t.numConnectedClients
      · exact hin.trans hjn.symm
      · subst hin
        simp only [Function.update_same, Function.update_noteq hjn] at heq hlj h0
        exact absurd (heq ▸ h.held j (old j hj hjn) hlj (heq ▸ h0)) (hfresh h0).2
      · subst hjn
        simp only [Function.update_same, Function.update_noteq hin] at heq hli h0
        exact absurd (heq ▸ h.held i (old i hi hin) hli h0) (hfresh (heq ▸ h0)).2
      · rw [Function.update_noteq hin] at hli h0 heq
        rw [Function.update_noteq hjn] at hlj heq
        exact h.distinct i (old i hi hin) j (old j hj hjn) hli hlj h0 heq
  · cases hv
    exact h

theorem HeldInv.step (hmax : maxConns < 2^64) {r : Round} {s t : PollState} (h : PollInv maxConns s)
    (hh : HeldInv s.toLoopState) (hacc : r.accept.Ok s.openFds)
    (hr : pollIteration e server F maxConns r s = .ok (some t)) : HeldInv t.toLoopState := by
  simp only [pollIteration] at hr
  split at hr
  · cases hr
  obtain ⟨pfds, hp, hr⟩ := ok_of_bind_ok hr
  obtain ⟨u, hu, hr⟩ := ok_of_bind_ok hr
  cases hr
  unfold pollServe at hu
  obtain ⟨v, hv, hu⟩ := ok_of_bind_ok hu
  obtain ⟨hvt, -, hvr⟩ := pollAcceptBlock_spec hmax h hp hv
  exact (range_foldlM_invariant (fun k u => SlotLoopInv maxConns pfds v.numConnectedClients k u ∧
      HeldInv u)
    (fun k hk u u' ⟨hsl, hu⟩ hs => ⟨slotLoopInv_step hmax k hk u u' hsl hs,
      heldInv_serveSlot hu (by rw [hsl.2.1]; exact hk) (hsl.2.2 k le_rfl hk) hs⟩)
    ⟨⟨hvt, rfl, fun i _ hi => hvr i hi⟩, heldInv_acceptBlock hv ⟨hh.held, hh.distinct⟩ hacc⟩ hu).2

theorem heldInv_reachable (hmax : maxConns < 2^64) {s : PollState}
    (hs : Reachable (· = PollState.init server) (Step e server F maxConns) s) :
    PollInv maxConns s ∧ HeldInv s.toLoopState := by
  induction hs with
  | init h => exact h ▸ ⟨PollInv.init server maxConns, ⟨nofun, nofun⟩⟩
  | step _ hst ih =>
    obtain ⟨r, hacc, hr⟩ := hst
    exact ⟨ih.1.step hmax hr, ih.2.step hmax ih.1 hacc hr⟩

end

/-! ### An iteration that serves every live slot -/

section
variable {e : Endian} {server : FileshareServer} {F : List UInt8} {maxConns : Nat}

theorem pollServeSlot_frame {io : Nat → StepIo} {pfds : Nat → Pollfd} {u u' : LoopState} {k : Nat}
    (hs : pollServeSlot e server F io pfds u k = .ok u') :
    u'.numConnectedClients = u.numConnectedClients ∧ u'.receivedSigint = u.receivedSigint := by
  unfold pollServeSlot at hs
  dsimp only at hs
  split_ifs at hs
  · obtain ⟨_, -, hs⟩ := ok_of_bind_ok hs
    cases hs
    exact ⟨rfl, rfl⟩
  · cases hr : sendOnWritable e server F (u.conns k) (io k) with
    | none => rw [hr] at hs; cases hs
    | some r =>
      rw [hr] at hs
      dsimp only at hs
      split_ifs at hs
      · cases hs
        exact ⟨rfl, rfl⟩
      · obtain ⟨_, -, hs⟩ := ok_of_bind_ok hs
        cases hs
        exact ⟨rfl, rfl⟩
  · cases hs
    exact ⟨rfl, rfl⟩

variable (e) in
theorem pollServeSlot_serving (hS : server.srcFileSize = F.length) {io : Nat → StepIo}
    {pfds : Nat → Pollfd} {u : LoopState} {k : Nat} {w : List UInt8}
    (hl : (u.conns k).state.live) (hw : WireOk F (u.conns k) w) (hfull : (io k).Full F (u.conns k))
    (hfd : (u.conns k).clientSockFd ∈ u.openFds)
    (hrev : (pfds (1 + k)).revents.pollout = true ∨ (pfds (1 + k)).revents.pollhup = true) :
    ∃ u', pollServeSlot e server F io pfds u k = .ok u' ∧ (∀ j ≠ k, u'.conns j = u.conns j) ∧
      remaining F (u'.conns k) < remaining F (u.conns k) ∧
      (u'.conns k).clientSockFd = (u.conns k).clientSockFd ∧
      (u'.openFds = u.openFds ∨ u'.openFds = u.openFds.erase (u.conns k).clientSockFd) ∧
      ((pfds (1 + k)).revents.pollhup = false → Delivering F (u'.conns k)) := by
  have hpos := remaining_pos (F := F) hl
  unfold pollServeSlot
  dsimp only
  split_ifs with hhup hout
  · simp only [serverCloseConnSocket, if_pos hfd, ok_bind]
    refine ⟨_, rfl, fun j hj => Function.update_noteq hj _ _, ?_, by simp, .inr rfl,
      fun h => absurd hhup (by simp [h])⟩
    simpa [remaining] using hpos
  · obtain ⟨r, hr, hlt, hend⟩ := sendOnWritable_progress hS hw hl hfull
    obtain ⟨r', hr', -, hne, hfdr⟩ := sendOnWritable_live e server F (io k) hl
    obtain rfl : r' = r := Option.some.inj (hr'.symm.trans hr)
    have hdel : Delivering F (Function.update u.conns k r'.conn k) := by
      simpa using delivering_of_ne_empty hne hend
    rw [hr]
    dsimp only
    split_ifs with hsucc
    · exact ⟨_, rfl, fun j hj => Function.update_noteq hj _ _, by simpa using hlt,
        by simpa using hfdr, .inl rfl, fun _ => hdel⟩
    · have hmem : (Function.update u.conns k r'.conn k).clientSockFd ∈ u.openFds := by
        simpa [hfdr] using hfd
      simp only [serverCloseConnSocket, if_pos hmem, ok_bind]
      exact ⟨_, rfl, fun j hj => Function.update_noteq hj _ _, by simpa using hlt,
        by simpa using hfdr, .inr (by simp [hfdr]), fun _ => hdel⟩
  · simp [hhup, hout] at hrev


theorem register_ok {conns : Nat → FileshareConnection} {n : Nat}
    (hne : ∀ i < n, (conns i).state ≠ .connectionEmpty) (p : Nat → Pollfd) :
    ∃ p', (List.range n).foldlM (registerSlot conns) p = .ok p' := by
  have h : ∃ p', (List.range n).foldlM (registerSlot conns) p = .ok p' ∧ True :=
    range_foldlM_ok (fun _ _ => True) (fun k hk q _ => by
      cases hs : (conns k).state
      · exact absurd hs (hne k hk)
      all_goals exact ⟨_, by simp only [registerSlot, hs]; rfl, trivial⟩) trivial
  exact h.imp fun _ h => h.1

/-- The slot loop of a serving iteration from `s` in round `r`, after `k` slots: the counters
and the shutdown flag `sig` stay, the slots from `k` on are as in `s` with their sockets held,
and every slot before `k` that was live has less left on the same socket, and is still served
or done unless `r` reported it hung up, while the others are as in `s`. -/
structure ServingLoopInv (F : List UInt8) (s : LoopState) (r : Round) (sig : Bool) (k : Nat)
    (u : LoopState) : Prop where
  n : u.numConnectedClients = s.numConnectedClients
  sig : u.receivedSigint = sig
  ahead : ∀ i, k ≤ i → u.conns i = s.conns i
  held : ∀ i, k ≤ i → i < s.numConnectedClients → (s.conns i).state.live →
    (s.conns i).clientSockFd ∈ u.openFds
  served : ∀ i < k, (s.conns i).state.live →
    remaining F (u.conns i) < remaining F (s.conns i) ∧
      (u.conns i).clientSockFd = (s.conns i).clientSockFd ∧
      ((r.ready (s.conns i).clientSockFd).pollhup = false → Delivering F (u.conns i))
  idle : ∀ i < k, ¬ (s.conns i).state.live → u.conns i = s.conns i

theorem ServingLoopInv.start {s v : LoopState} {r : Round} (hh : HeldInv s)
    (hfd : ∀ i < s.numConnectedClients, (s.conns i).state.live → 0 ≤ (s.conns i).clientSockFd)
    (hn : v.numConnectedClients = s.numConnectedClients) (hc : v.conns = s.conns)
    (ho : v.openFds = s.openFds) : ServingLoopInv F s r v.receivedSigint 0 v :=
  ⟨hn, rfl, fun _ _ => hc ▸ rfl, fun i _ hi hl => ho ▸ hh.held i hi hl (hfd i hi hl), nofun, nofun⟩

variable (e) in
theorem ServingLoopInv.step (hS : server.srcFileSize = F.length) {s : LoopState} {sig : Bool}
    {r : Round} {pfds : Nat → Pollfd} (hr : r.Serving F s) (hw : WireInv F s) (hh : HeldInv s)
    (hne : ∀ i < s.numConnectedClients, (s.conns i).state ≠ .connectionEmpty)
    (hfd : ∀ i < s.numConnectedClients, (s.conns i).state.live → 0 ≤ (s.conns i).clientSockFd)
    (hlive : ∀ i < s.numConnectedClients, (s.conns i).state.live →
      pfds (1 + i) = ⟨(s.conns i).clientSockFd, .outHup,
        (r.ready (s.conns i).clientSockFd).mask .outHup⟩ ∨ (s.conns i).clientSockFd < 0)
    (hfin : ∀ i < s.numConnectedClients, (s.conns i).state = .transferFinished →
      (pfds (1 + i)).revents = .none) :
    ∀ k < s.numConnectedClients, ∀ u, ServingLoopInv F s r sig k u →
      ∃ u', pollServeSlot e server F r.io pfds u k = .ok u' ∧ ServingLoopInv F s r sig (k + 1) u' := by
  intro k hk u hu
  have hk' := hu.ahead k le_rfl
  by_cases hl : (s.conns k).state.live
  · have hpk : pfds (1 + k) = ⟨(s.conns k).clientSockFd, .outHup,
        (r.ready (s.conns k).clientSockFd).mask .outHup⟩ :=
      (hlive k hk hl).resolve_right (by have := hfd k hk hl; omega)
    have hrev : (pfds (1 + k)).revents.pollout = true ∨ (pfds (1 + k)).revents.pollhup = true := by
      rw [hpk]
      simpa using hr.ready k hk hl
    have hlu : (u.conns k).state.live := hk' ▸ hl
    have hwu : WireOk F (u.conns k) (s.wire k) := hk' ▸ (hw k).ok
    have hfu : (r.io k).Full F (u.conns k) := hk' ▸ hr.full k hk
    have hmu : (u.conns k).clientSockFd ∈ u.openFds := hk' ▸ hu.held k le_rfl hk hl
    obtain ⟨u', hs', hoth, hless, hfdk, hfds', hdk⟩ := pollServeSlot_serving e hS hlu hwu hfu hmu hrev
    obtain ⟨hn', hsig'⟩ := pollServeSlot_frame hs'
    refine ⟨u', hs', ⟨hn'.trans hu.n, hsig'.trans hu.sig, fun i hi => ?_, fun i hi hin hli => ?_,
      fun i hi hli => ?_, fun i hi hli => ?_⟩⟩
    · rw [hoth i (by omega)]
      exact hu.ahead i (by omega)
    · have hmem := hu.held i (by omega) hin hli
      rcases hfds' with hf | hf
      · exact hf ▸ hmem
      · rw [hf, hk']
        refine (List.mem_erase_of_ne fun he => ?_).mpr hmem
        have := hh.distinct i hin k hk hli hl (hfd i hin hli) he
        omega
    · rcases Nat.lt_succ_iff_lt_or_eq.mp hi with hi | rfl
      · rw [hoth i (by omega)]
        exact hu.served i hi hli
      · rw [← hk']
        exact ⟨hless, hfdk, fun hh => hdk (by rw [hpk]; simpa [hk'] using hh)⟩
    · rcases Nat.lt_succ_iff_lt_or_eq.mp hi with hi | rfl
      · rw [hoth i (by omega)]
        exact hu.idle i hi hli
      · exact absurd hl hli
  · have hfin' : (s.conns k).state = .transferFinished := by
      have := hne k hk
      cases h : (s.conns k).state <;> simp_all [TransferState.live]
    have hs' : pollServeSlot e server F r.io pfds u k = .ok u := by
      simp [pollServeSlot, hfin k hk hfin', Readiness.none]
      rfl
    refine ⟨u, hs', ⟨hu.n, hu.sig, fun i hi => hu.ahead i (by omega),
      fun i hi hin hli => hu.held i (by omega) hin hli, fun i hi hli => ?_, fun i hi hli => ?_⟩⟩
    · rcases Nat.lt_succ_iff_lt_or_eq.mp hi with hi | rfl
      · exact hu.served i hi hli
      · exact absurd hli hl
    · rcases Nat.lt_succ_iff_lt_or_eq.mp hi with hi | rfl
      · exact hu.idle i hi hli
      · exact hk'

theorem pollIteration_serving (hS : server.srcFileSize = F.length) (hmax : maxConns < 2^64)
    {s : PollState} (hs : Reachable (· = PollState.init server) (GoodStep e server F maxConns) s)
    (hstop : s.numConnectedClients = maxConns ∨ s.receivedSigint = true)
    (hfd : ∀ i < s.numConnectedClients, (s.conns i).state.live → 0 ≤ (s.conns i).clientSockFd)
    {r : Round} (hr : r.Serving F s.toLoopState) :
    pollIteration e server F maxConns r s = .ok none ∨
    ∃ t, pollIteration e server F maxConns r s = .ok (some t) ∧
      pending F t.toLoopState < pending F s.toLoopState ∧
      (t.numConnectedClients = maxConns ∨ t.receivedSigint = true) ∧
      (∀ i < t.numConnectedClients, (t.conns i).state.live → 0 ≤ (t.conns i).clientSockFd) ∧
      t.numConnectedClients = s.numConnectedClients ∧
      (r.NoHangup s.toLoopState →
        ∀ i < s.numConnectedClients, Delivering F (s.conns i) → Delivering F (t.conns i)) := by
  obtain ⟨hpi, hwi⟩ := wireInv_reachable hS hmax hs
  have hh := (heldInv_reachable hmax (hs.mono fun _ _ h => h.step)).2
  have hacc : (s.numConnectedClients != maxConns && !(s.receivedSigint || r.sigint)) = false := by
    rcases hstop with h | h <;> simp [h]
  unfold pollIteration
  simp only [hacc, Bool.not_false, Bool.and_true, decide_eq_true_eq]
  by_cases h0 : s.numActiveClients = 0
  · exact .inl (if_pos h0)
  right
  rw [if_neg h0]
  obtain ⟨p', hp'⟩ := register_ok hpi.table.admitted (pollServerDoNotWaitForClient s.pollfds)
  have hp : pollPrepare server r false s =
      .ok (pollResult r.ready (1 + s.numConnectedClients) p') := by
    simp [pollPrepare, hp', hr.wait]
  obtain ⟨hin, hfin, hlive, -⟩ := pollPrepare_spec hp
  set pfds := pollResult r.ready (1 + s.numConnectedClients) p'
  set v : LoopState := { s.toLoopState with receivedSigint := s.receivedSigint || r.sigint }
  have hv : pollAcceptBlock r.accept pfds v = .ok v := by
    unfold pollAcceptBlock
    rw [if_neg fun h => absurd (hin h) (by simp)]
    rfl
  obtain ⟨u, hu, hloop⟩ := range_foldlM_ok (ServingLoopInv F s.toLoopState r v.receivedSigint)
    (ServingLoopInv.step e hS hr hwi hh hpi.table.admitted hfd hlive hfin)
    (ServingLoopInv.start hh hfd rfl rfl rfl)
  refine ⟨{ u with pollfds := pfds }, ?_, ?_, ?_, fun i hi hli => ?_, hloop.n,
    fun hnh i hi hd => ?_⟩
  · simp only [hp, ok_bind, pollServe, hv, hu]
    rfl
  · obtain ⟨i, hi, hli⟩ := exists_live_of_liveCount_pos
      (hpi.table.active ▸ Nat.pos_of_ne_zero h0 : 0 < liveCount s.conns s.numConnectedClients)
    refine pending_lt hloop.n (fun j hj => ?_) ⟨i, hi, (hloop.served i hi hli).1⟩
    by_cases hlj : (s.conns j).state.live
    · exact (hloop.served j hj hlj).1.le
    · exact le_of_eq (congrArg (remaining F) (hloop.idle j hj hlj))
  · rcases hstop with h | h
    · exact .inl (hloop.n.trans h)
    · exact .inr (by simp [hloop.sig, v, h])
  · have hi' : i < s.numConnectedClients := hloop.n ▸ hi
    by_cases hl : (s.conns i).state.live
    · exact (hloop.served i hi' hl).2.1 ▸ hfd i hi' hl
    · exact absurd (hloop.idle i hi' hl ▸ hli) hl
  · by_cases hl : (s.conns i).state.live
    · exact (hloop.served i hi hl).2.2 (hnh i hi hl)
    · exact (hloop.idle i hi hl).symm ▸ hd

variable (e server F maxConns) in
/-- `while (true)` of `main`, each pass with the answers `env` gives in the state it starts
from, for at most `fuel` passes: `true` once it reached the `break`, `false` on an `exit` or
when the passes run out. -/
def runUntilBreak (env : PollState → Round) : Nat → PollState → Bool
  | 0, _ => false
  | fuel + 1, s =>
    match pollIteration e server F maxConns (env s) s with
    | .ok none => true
    | .ok (some t) => runUntilBreak env fuel t
    | .error _ => false

/-- Progress of the poll loop. From every state a run with good answers reaches, once no new
connection is accepted (`max_conns` slots admitted, or SIGINT received) and every live slot has
a descriptor (no failed `accept` was admitted), a kernel that at every pass serves every live
slot (reports its socket writable or hung up, moves whole headers and blocks) brings the loop
to its `break` within `pending + 1` passes, none of which exits. -/
theorem poll_loop_breaks (hS : server.srcFileSize = F.length) (hmax : maxConns < 2^64)
    {s : PollState} (hs : Reachable (· = PollState.init server) (GoodStep e server F maxConns) s)
    (hstop : s.numConnectedClients = maxConns ∨ s.receivedSigint = true)
    (hfd : ∀ i < s.numConnectedClients, (s.conns i).state.live → 0 ≤ (s.conns i).clientSockFd)
    (env : PollState → Round)
    (henv : ∀ t, Reachable (· = PollState.init server) (GoodStep e server F maxConns) t →
      (env t).Serving F t.toLoopState) :
    runUntilBreak e server F maxConns env (pending F s.toLoopState + 1) s = true := by
  suffices h : ∀ fuel (s : PollState),
      Reachable (· = PollState.init server) (GoodStep e server F maxConns) s →
      (s.numConnectedClients = maxConns ∨ s.receivedSigint = true) →
      (∀ i < s.numConnectedClients, (s.conns i).state.live → 0 ≤ (s.conns i).clientSockFd) →
      pending F s.toLoopState < fuel → runUntilBreak e server F maxConns env fuel s = true from
    h _ s hs hstop hfd (Nat.lt_succ_self _)
  intro fuel
  induction fuel with
  | zero => exact fun _ _ _ _ h => absurd h (Nat.not_lt_zero _)
  | succ fuel ih =>
    intro s hs hstop hfd hlt
    have hr := henv s hs
    rcases pollIteration_serving hS hmax hs hstop hfd hr with h | ⟨t, ht, hpt, hstop', hfd', -⟩
    · simp [runUntilBreak, h]
    · simp only [runUntilBreak, ht]
      exact ih t (hs.step ⟨env s, hr.accept, hr.good, ht⟩) hstop' hfd' (by omega)

end

/-- The client of `reachable_admitted`, with `max_conns = 1` reached: the kernel of
`servingRound`, which serves every reachable state, brings the loop to its `break`. -/
theorem poll_loop_breaks_one_byte :
    ∃ s : PollState, (⟨3, 1, 4⟩ : FileshareServer).srcFileSize = ([7] : List UInt8).length ∧
      (1 : Nat) < 2^64 ∧
      Reachable (· = PollState.init ⟨3, 1, 4⟩) (GoodStep .little ⟨3, 1, 4⟩ [7] 1) s ∧
      (s.numConnectedClients = 1 ∨ s.receivedSigint = true) ∧
      (∀ i < s.numConnectedClients, (s.conns i).state.live → 0 ≤ (s.conns i).clientSockFd) ∧
      (∀ t, Reachable (· = PollState.init ⟨3, 1, 4⟩) (GoodStep .little ⟨3, 1, 4⟩ [7] 1) t →
        (servingRound [7] t.toLoopState).Serving [7] t.toLoopState) ∧
      s.conns 0 = ⟨5, 0, .sendFileSize⟩ ∧
      runUntilBreak .little ⟨3, 1, 4⟩ [7] 1 (fun t => servingRound [7] t.toLoopState)
        (pending [7] s.toLoopState + 1) s = true := by
  obtain ⟨s, hs, hn, -, hc⟩ := reachable_admitted
  have hfd : ∀ i < s.numConnectedClients, (s.conns i).state.live → 0 ≤ (s.conns i).clientSockFd :=
    fun i hi _ => by
      obtain rfl : i = 0 := by omega
      rw [hc]
      decide
  have henv : ∀ t, Reachable (· = PollState.init ⟨3, 1, 4⟩) (GoodStep .little ⟨3, 1, 4⟩ [7] 1) t →
      (servingRound [7] t.toLoopState).Serving [7] t.toLoopState :=
    fun _ ht => servingRound_serving (wireInv_reachable rfl (by decide) ht).2
  exact ⟨s, rfl, by decide, hs, .inl hn, hfd, henv, hc,
    poll_loop_breaks rfl (by decide) hs (.inl hn) hfd _ henv⟩

section
variable {e : Endian} {server : FileshareServer} {F : List UInt8} {maxConns : Nat}

variable (e server F maxConns) in
/-- A pass of `while (true)` with the round `env` gives in the state it starts from, that goes
on to `t`. -/
def EnvPass (env : PollState → Round) (s t : PollState) : Prop :=
  pollIteration e server F maxConns (env s) s = .ok (some t)

theorem pollRun_delivers (hS : server.srcFileSize = F.length) (hmax : maxConns < 2^64)
    (env : PollState → Round)
    (henv : ∀ t, Reachable (· = PollState.init server) (GoodStep e server F maxConns) t →
      (env t).Serving F t.toLoopState ∧ (env t).NoHangup t.toLoopState) :
    ∀ (fuel : Nat) (s : PollState),
      Reachable (· = PollState.init server) (GoodStep e server F maxConns) s →
      (s.numConnectedClients = maxConns ∨ s.receivedSigint = true) →
      (∀ i < s.numConnectedClients, (s.conns i).state.live → 0 ≤ (s.conns i).clientSockFd) →
      pending F s.toLoopState < fuel →
      ∃ t, Relation.ReflTransGen (EnvPass e server F maxConns env) s t ∧
        Reachable (· = PollState.init server) (GoodStep e server F maxConns) t ∧
        pollIteration e server F maxConns (env t) t = .ok none ∧
        t.numConnectedClients = s.numConnectedClients ∧
        ∀ i < s.numConnectedClients, Delivering F (s.conns i) → Delivering F (t.conns i)
  | 0, _, _, _, _, h => absurd h (Nat.not_lt_zero _)
  | fuel + 1, s, hs, hstop, hfd, hlt => by
    obtain ⟨hr, hnh⟩ := henv s hs
    rcases pollIteration_serving hS hmax hs hstop hfd hr with
      h | ⟨t, ht, hpt, hstop', hfd', hn, hdel⟩
    · exact ⟨s, .refl, hs, h, rfl, fun _ _ => id⟩
    · obtain ⟨u, hrun, hu, hbrk, hnu, hdu⟩ := pollRun_delivers hS hmax env henv fuel t
        (hs.step ⟨env s, hr.accept, hr.good, ht⟩) hstop' hfd' (by omega)
      exact ⟨u, .head ht hrun, hu, hbrk, hnu.trans hn,
        fun i hi hd => hdu i (hn ▸ hi) (hdel hnh i hi hd)⟩

/-- Every client gets the whole file. From every state a run with good answers reaches, once
no new connection is accepted (`max_conns` slots admitted, or SIGINT received) and every live
slot has a descriptor, a kernel that at every pass serves every live slot and reports no
hangup drives the loop to its `break`, and by then every client whose transfer was going on
has finished it, its socket having received the header and the whole of a non-empty file. -/
theorem poll_clients_receive_whole_file (hS : server.srcFileSize = F.length)
    (hmax : maxConns < 2^64) (hF : 0 < F.length) {s : PollState}
    (hs : Reachable (· = PollState.init server) (GoodStep e server F maxConns) s)
    (hstop : s.numConnectedClients = maxConns ∨ s.receivedSigint = true)
    (hfd : ∀ i < s.numConnectedClients, (s.conns i).state.live → 0 ≤ (s.conns i).clientSockFd)
    (env : PollState → Round)
    (henv : ∀ t, Reachable (· = PollState.init server) (GoodStep e server F maxConns) t →
      (env t).Serving F t.toLoopState ∧ (env t).NoHangup t.toLoopState) :
    ∃ t, Relation.ReflTransGen (EnvPass e server F maxConns env) s t ∧
      pollIteration e server F maxConns (env t) t = .ok none ∧
      ∀ i < s.numConnectedClients, (s.conns i).state.live →
        (t.conns i).state = .transferFinished ∧ t.wire i = be64 F.length ++ F := by
  obtain ⟨t, hrun, ht, hbrk, hn, hdel⟩ :=
    pollRun_delivers hS hmax env henv _ s hs hstop hfd (Nat.lt_succ_self _)
  obtain ⟨hpi, hwi⟩ := wireInv_reachable hS hmax ht
  refine ⟨t, hrun, hbrk, fun i hi hl => ?_⟩
  have hfin := pollIteration_break hpi hbrk i (hn ▸ hi)
  rcases hdel i hi (.inl hl) with hl' | ⟨-, hend⟩
  · simp [hfin, TransferState.live] at hl'
  · exact ⟨hfin, (hwi i).whole hfin hend hF⟩

end

/-- The client of `reachable_admitted`: under the kernel of `servingRound`, which serves every
reachable state and reports no hangup, the loop breaks with the client's socket holding the
header and the byte. -/
theorem poll_clients_receive_whole_file_one_byte :
    ∃ s : PollState, (⟨3, 1, 4⟩ : FileshareServer).srcFileSize = ([7] : List UInt8).length ∧
      (1 : Nat) < 2^64 ∧ 0 < ([7] : List UInt8).length ∧
      Reachable (· = PollState.init ⟨3, 1, 4⟩) (GoodStep .little ⟨3, 1, 4⟩ [7] 1) s ∧
      (s.numConnectedClients = 1 ∨ s.receivedSigint = true) ∧
      (∀ i < s.numConnectedClients, (s.conns i).state.live → 0 ≤ (s.conns i).clientSockFd) ∧
      (∀ t, Reachable (· = PollState.init ⟨3, 1, 4⟩) (GoodStep .little ⟨3, 1, 4⟩ [7] 1) t →
        (servingRound [7] t.toLoopState).Serving [7] t.toLoopState ∧
          (servingRound [7] t.toLoopState).NoHangup t.toLoopState) ∧
      s.conns 0 = ⟨5, 0, .sendFileSize⟩ ∧
      ∃ t, Relation.ReflTransGen
          (EnvPass .little ⟨3, 1, 4⟩ [7] 1 fun t => servingRound [7] t.toLoopState) s t ∧
        pollIteration .little ⟨3, 1, 4⟩ [7] 1 (servingRound [7] t.toLoopState) t = .ok none ∧
        ∀ i < s.numConnectedClients, (s.conns i).state.live →
          (t.conns i).state = .transferFinished ∧ t.wire i = be64 ([7] : List UInt8).length ++ [7] := by
  obtain ⟨s, hs, hn, -, hc⟩ := reachable_admitted
  have hfd : ∀ i < s.numConnectedClients, (s.conns i).state.live → 0 ≤ (s.conns i).clientSockFd :=
    fun i hi _ => by
      obtain rfl : i = 0 := by omega
      rw [hc]
      decide
  have henv : ∀ t, Reachable (· = PollState.init ⟨3, 1, 4⟩) (GoodStep .little ⟨3, 1, 4⟩ [7] 1) t →
      (servingRound [7] t.toLoopState).Serving [7] t.toLoopState ∧
        (servingRound [7] t.toLoopState).NoHangup t.toLoopState :=
    fun t ht => ⟨servingRound_serving (wireInv_reachable rfl (by decide) ht).2,
      servingRound_noHangup [7] t.toLoopState⟩
  exact ⟨s, rfl, by decide, by decide, hs, .inl hn, hfd, henv, hc,
    poll_clients_receive_whole_file rfl (by decide) (by decide) hs (.inl hn) hfd _ henv⟩

end NetworkingHowto.Server.Poll
