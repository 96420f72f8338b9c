import NetworkingHowto.Server.Loop

/-! The main loop of `server-poll.c`: re-register, `poll`, admit, then serve the admitted slots
in index order. -/
namespace NetworkingHowto.Server.Poll
open NetworkingHowto.Bytes

structure Pollfd where
  fd : Int
  events : Readiness
  revents : Readiness
deriving DecidableEq, Repr

structure PollState extends LoopState where
  pollfds : Nat → Pollfd

/-- After `calloc(max_conns + 1U, sizeof(struct pollfd))`. -/
def PollState.init (server : FileshareServer) : PollState :=
  { LoopState.init server with pollfds := fun _ => ⟨0, .none, .none⟩ }

def pollServerWaitForClient (pollfds : Nat → Pollfd) (server : FileshareServer) : Nat → Pollfd :=
  Function.update pollfds 0 ⟨server.listenSockFd, .inOnly, .none⟩

def pollServerDoNotWaitForClient (pollfds : Nat → Pollfd) : Nat → Pollfd :=
  Function.update pollfds 0 ⟨-1, .none, .none⟩

def pollConnWaitOnSocket (pollfds : Nat → Pollfd) (i : Nat) (conn : FileshareConnection) :
    Nat → Pollfd :=
  Function.update pollfds (1 + i) ⟨conn.clientSockFd, .outHup, .none⟩

def pollConnDoNotWaitOnSocket (pollfds : Nat → Pollfd) (i : Nat) : Nat → Pollfd :=
  Function.update pollfds (1 + i) ⟨-1, .none, .none⟩

def registerSlot (conns : Nat → FileshareConnection) (pollfds : Nat → Pollfd) (i : Nat) :
    Except String (Nat → Pollfd) :=
  match (conns i).state with
  | .connectionEmpty => .error "Unexpected state!\n"
  | .sendFileSize | .sendDataBlock => .ok (pollConnWaitOnSocket pollfds i (conns i))
  | .transferFinished => .ok (pollConnDoNotWaitOnSocket pollfds i)

/-- `poll(pollfds, nfds, -1)` returning: each of the first `nfds` entries gets the bits its
descriptor is ready for, and an entry with a negative descriptor gets none. -/
def pollResult (ready : Int → Readiness) (nfds : Nat) (pollfds : Nat → Pollfd) : Nat → Pollfd :=
  fun j => if j < nfds then
    { pollfds j with revents :=
        if (pollfds j).fd < 0 then .none else (ready (pollfds j).fd).mask (pollfds j).events }
  else pollfds j

section
variable (e : Endian) (server : FileshareServer) (F : List UInt8) (maxConns : Nat)

/-- The accept block: `server_accept_connection_request` into
`conns[num_connected_clients]`, whose result the loop does not look at. -/
def pollAdmit (acc : AcceptIo) (s : LoopState) : Except String LoopState := do
  let inShutdown := s.receivedSigint || acc.sigint
  let (_, conn) ← serverAcceptConnectionRequest inShutdown (s.conns s.numConnectedClients) acc
  pure { s with
    receivedSigint := inShutdown
    openFds := if acc.acceptRet = -1 then s.openFds else acc.acceptRet :: s.openFds
    conns := Function.update s.conns s.numConnectedClients { conn with state := .sendFileSize }
    numConnectedClients := s.numConnectedClients + 1
    numActiveClients := incSize s.numActiveClients }

def pollServeSlot (io : Nat → StepIo) (pollfds : Nat → Pollfd) (s : LoopState) (i : Nat) :
    Except String LoopState :=
  let rev := (pollfds (1 + i)).revents
  if rev.pollhup then do
    let fds ← serverCloseConnSocket s.openFds (s.conns i)
    pure { s with
      openFds := fds
      conns := Function.update s.conns i { s.conns i with state := .transferFinished }
      numActiveClients := decSize s.numActiveClients }
  else if rev.pollout then
    match sendOnWritable e server F (s.conns i) (io i) with
    | none => .error "Unexpected state!\n"
    | some r =>
      let s := { s with
        conns := Function.update s.conns i r.conn
        wire := Function.update s.wire i (s.wire i ++ r.sent) }
      if r.success then pure s
      else do
        let fds ← serverCloseConnSocket s.openFds (s.conns i)
        pure { s with openFds := fds, numActiveClients := decSize s.numActiveClients }
  else pure s

def pollPrepare (r : Round) (acceptNew : Bool) (s : PollState) : Except String (Nat → Pollfd) := do
  let pollfds := if acceptNew then pollServerWaitForClient s.pollfds server
    else pollServerDoNotWaitForClient s.pollfds
  let pollfds ← (List.range s.numConnectedClients).foldlM (registerSlot s.conns) pollfds
  if r.waitFails then throw "Unable to poll-wait for data on descriptors\n"
  pure (pollResult r.ready (1 + s.numConnectedClients) pollfds)

def pollAcceptBlock (acc : AcceptIo) (pollfds : Nat → Pollfd) (t : LoopState) :
    Except String LoopState :=
  if (pollfds 0).revents.pollin then pollAdmit acc t else pure t

def pollServe (r : Round) (pollfds : Nat → Pollfd) (t : LoopState) : Except String LoopState := do
  let t ← pollAcceptBlock r.accept pollfds t
  (List.range t.numConnectedClients).foldlM (pollServeSlot e server F r.io pollfds) t

/-- One pass of `while (true)`: `.ok none` is the `break`, `.error` an `exit`. -/
def pollIteration (r : Round) (s : PollState) : Except String (Option PollState) :=
  let sigint := s.receivedSigint || r.sigint
  let acceptNew := s.numConnectedClients != maxConns && !sigint
  if s.numActiveClients = 0 && !acceptNew then .ok none
  else do
    let pollfds ← pollPrepare server r acceptNew s
    let t ← pollServe e server F r pollfds { s.toLoopState with receivedSigint := sigint }
    pure (some { t with pollfds })

/-- One iteration that continues, with an `accept` that fails or returns a fresh descriptor. -/
def Step (s t : PollState) : Prop :=
  ∃ r : Round, r.accept.Ok s.openFds ∧ pollIteration e server F maxConns r s = .ok (some t)

end

/-! What the registration loop and `poll` leave in `pollfds`. -/

theorem register_spec {conns : Nat → FileshareConnection} {n : Nat} {p p' : Nat → Pollfd}
    (h : (List.range n).foldlM (registerSlot conns) p = .ok p') :
    (∀ i < n, (conns i).state = .transferFinished → (p' (1 + i)).fd = -1) ∧
    (∀ i < n, (conns i).state.live → p' (1 + i) = ⟨(conns i).clientSockFd, .outHup, .none⟩) ∧
    (∀ j, (∀ i < n, j ≠ 1 + i) → p' j = p j) := by
  refine range_foldlM_invariant (fun k q =>
      (∀ i < k, (conns i).state = .transferFinished → (q (1 + i)).fd = -1) ∧
      (∀ i < k, (conns i).state.live → q (1 + i) = ⟨(conns i).clientSockFd, .outHup, .none⟩) ∧
      (∀ j, (∀ i < k, j ≠ 1 + i) → q j = p j))
    (fun k _ q q' ⟨h1, h2, h3⟩ hq => ?_) ⟨nofun, nofun, fun _ _ => rfl⟩ h
  have old : ∀ i < k, q' (1 + i) = q (1 + i) := fun i hi => by
    cases hs : (conns k).state <;> simp only [registerSlot, hs] at hq <;> cases hq <;>
      exact Function.update_noteq (by omega) _ _
  have rest : ∀ j, (∀ i < k + 1, j ≠ 1 + i) → q' j = q j := fun j hj => by
    cases hs : (conns k).state <;> simp only [registerSlot, hs] at hq <;> cases hq <;>
      exact Function.update_noteq (hj k (by omega)) _ _
  refine ⟨fun i hi hf => ?_, fun i hi hl => ?_, fun j hj => (rest j hj).trans (h3 j fun i hi => hj i (by omega))⟩
  · rcases Nat.lt_succ_iff_lt_or_eq.mp hi with hi | rfl
    · rw [old i hi]; exact h1 i hi hf
    · simp only [registerSlot, hf] at hq; cases hq; simp [pollConnDoNotWaitOnSocket]
  · rcases Nat.lt_succ_iff_lt_or_eq.mp hi with hi | rfl
    · rw [old i hi]; exact h2 i hi hl
    · cases hs : (conns i).state <;> simp only [hs, TransferState.live, Bool.false_eq_true] at hl <;>
        simp only [registerSlot, hs] at hq <;> cases hq <;> simp [pollConnWaitOnSocket]

theorem pollResult_of_ge {ready : Int → Readiness} {nfds j : Nat} (p : Nat → Pollfd) (h : nfds ≤ j) :
    pollResult ready nfds p j = p j := by
  simp [pollResult, show ¬ j < nfds by omega]

theorem pollResult_neg {ready : Int → Readiness} {nfds j : Nat} {p : Nat → Pollfd} (h : j < nfds)
    (hfd : (p j).fd < 0) : (pollResult ready nfds p j).revents = .none := by
  simp [pollResult, h, hfd]

theorem pollPrepare_spec {server : FileshareServer} {r : Round} {acceptNew : Bool} {s : PollState}
    {pfds : Nat → Pollfd} (h : pollPrepare server r acceptNew s = .ok pfds) :
    ((pfds 0).revents.pollin → acceptNew) ∧
    (∀ i < s.numConnectedClients, (s.conns i).state = .transferFinished →
      (pfds (1 + i)).revents = .none) ∧
    (∀ i < s.numConnectedClients, (s.conns i).state.live →
      pfds (1 + i) = ⟨(s.conns i).clientSockFd, .outHup,
        (r.ready (s.conns i).clientSockFd).mask .outHup⟩ ∨ (s.conns i).clientSockFd < 0) ∧
    (∀ j, s.numConnectedClients < j → pfds j = s.pollfds j) := by
  simp only [pollPrepare] at h
  obtain ⟨p', hp', hrest⟩ := ok_of_bind_ok h
  split at hrest
  · cases hrest
  · cases hrest
    obtain ⟨h1, h2, h3⟩ := register_spec hp'
    refine ⟨fun hin => ?_, fun i hi hf => pollResult_neg (by omega) (by rw [h1 i hi hf]; decide),
      fun i hi hl => ?_, fun j hj => ?_⟩
    · have h0 := h3 0 (fun i _ => by omega)
      cases hacc : acceptNew
      · rw [pollResult_neg (by omega) (by rw [h0, hacc]; simp [pollServerDoNotWaitForClient])] at hin
        cases hin
      · rfl
    · by_cases hfd : (s.conns i).clientSockFd < 0
      · exact .inr hfd
      · left
        simp [pollResult, h2 i hi hl, hfd, show 1 + i < 1 + s.numConnectedClients by omega]
    · rw [pollResult_of_ge _ (by omega), h3 j (fun i hi => by omega)]
      split <;> simp [pollServerWaitForClient, pollServerDoNotWaitForClient,
        Function.update_noteq (show j ≠ 0 by omega)]

/-! The table invariant over runs of the poll loop. -/

section
variable {e : Endian} {server : FileshareServer} {F : List UInt8} {maxConns : Nat}

theorem tableInv_serveSlot (hmax : maxConns < 2^64) {io : Nat → StepIo} {pfds : Nat → Pollfd}
    {t t' : LoopState} (h : TableInv maxConns t) {k : Nat} (hk : k < t.numConnectedClients)
    (hrep : (pfds (1 + k)).revents.any → (t.conns k).state.live)
    (hs : pollServeSlot e server F io pfds t k = .ok t') :
    TableInv maxConns t' ∧ t'.numConnectedClients = t.numConnectedClients ∧
      ∀ j ≠ k, t'.conns j = t.conns j := by
  unfold pollServeSlot at hs
  dsimp only at hs
  split_ifs at hs with hhup hout
  · obtain ⟨fds, -, hs⟩ := ok_of_bind_ok hs
    cases hs
    exact ⟨h.finish hmax hk (hrep (by simp [Readiness.any, hhup])) _ rfl rfl rfl rfl, rfl,
      fun j hj => Function.update_noteq hj _ _⟩
  · have hl := hrep (by simp [Readiness.any, hout])
    obtain ⟨r, hr, hiff, hne, -⟩ := sendOnWritable_live e server F (io k) hl
    rw [hr] at hs
    dsimp only at hs
    split_ifs at hs with hsucc
    · cases hs
      have hlive : r.conn.state.live := by
        cases hc : r.conn.state <;> simp_all [TransferState.live]
      exact ⟨h.update hk _ hne rfl rfl (by rw [if_pos hl, if_pos hlive]), rfl,
        fun j hj => Function.update_noteq hj _ _⟩
    · obtain ⟨fds, -, hs⟩ := ok_of_bind_ok hs
      cases hs
      exact ⟨h.finish hmax hk hl _ (hiff.mp (by simpa using hsucc)) rfl rfl rfl, rfl,
        fun j hj => Function.update_noteq hj _ _⟩
  · cases hs
    exact ⟨h, rfl, fun _ _ => rfl⟩

/-- During the slot loop, after `k` slots: the table invariant, and every slot still to
come that the kernel reported on is live. -/
def SlotLoopInv (maxConns : Nat) (pfds : Nat → Pollfd) (n k : Nat) (u : LoopState) : Prop :=
  TableInv maxConns u ∧ u.numConnectedClients = n ∧
    ∀ i, k ≤ i → i < n → (pfds (1 + i)).revents.any → (u.conns i).state.live

theorem slotLoopInv_step (hmax : maxConns < 2^64) {io : Nat → StepIo} {pfds : Nat → Pollfd}
    {n : Nat} : ∀ k < n, ∀ u u', SlotLoopInv maxConns pfds n k u →
      pollServeSlot e server F io pfds u k = .ok u' → SlotLoopInv maxConns pfds n (k + 1) u' :=
  fun k hk u u' ⟨hu, hn, hr⟩ hs => by
    obtain ⟨hu', hn', hc'⟩ := tableInv_serveSlot hmax hu (by omega) (hr k (Nat.le_refl _) hk) hs
    exact ⟨hu', hn'.trans hn, fun i hi hi' hany => by
      rw [hc' i (by omega)]; exact hr i (by omega) hi' hany⟩

theorem pollServeSlot_ne_unexpected {io : Nat → StepIo} {pfds : Nat → Pollfd} {u : LoopState}
    {k : Nat} (hrep : (pfds (1 + k)).revents.any → (u.conns k).state.live) :
    pollServeSlot e server F io pfds u k ≠ .error "Unexpected state!\n" := by
  intro hs
  unfold pollServeSlot at hs
  dsimp only at hs
  split_ifs at hs with hhup hout
  · rcases error_of_bind_error hs with hc | ⟨_, _, hc⟩
    · exact absurd (serverCloseConnSocket_error hc) (by decide)
    · cases hc
  · obtain ⟨r, hr, -⟩ := sendOnWritable_live e server F (io k)
      (hrep (by simp [Readiness.any, hout]))
    rw [hr] at hs
    dsimp only at hs
    split_ifs at hs
    · cases hs
    · rcases error_of_bind_error hs with hc | ⟨_, _, hc⟩
      · exact absurd (serverCloseConnSocket_error hc) (by decide)
      · cases hc
  · cases hs

/-- The invariant of the poll loop between iterations: the table invariant, and `pollfds`
entries past the admitted slots report nothing. -/
structure PollInv (maxConns : Nat) (s : PollState) : Prop where
  table : TableInv maxConns s.toLoopState
  fresh : ∀ j, s.numConnectedClients < j → (s.pollfds j).revents = .none

theorem PollInv.init (server : FileshareServer) (maxConns : Nat) :
    PollInv maxConns (PollState.init server) :=
  ⟨TableInv.init server maxConns, fun _ _ => rfl⟩

theorem pollAcceptBlock_spec (hmax : maxConns < 2^64) {r : Round} {s : PollState}
    {pfds : Nat → Pollfd} {v : LoopState} (h : PollInv maxConns s)
    (hp : pollPrepare server r (s.numConnectedClients != maxConns && !(s.receivedSigint || r.sigint))
      s = .ok pfds)
    (hv : pollAcceptBlock r.accept pfds { s.toLoopState with receivedSigint := s.receivedSigint || r.sigint }
      = .ok v) :
    TableInv maxConns v ∧ (v.numConnectedClients = s.numConnectedClients ∨
      v.numConnectedClients = s.numConnectedClients + 1) ∧
      ∀ i < v.numConnectedClients, (pfds (1 + i)).revents.any → (v.conns i).state.live := by
  obtain ⟨hin, hfin, -, hkeep⟩ := pollPrepare_spec hp
  have hrep : ∀ i < s.numConnectedClients, (pfds (1 + i)).revents.any → (s.conns i).state.live := by
    intro i hi hany
    have hne := h.table.admitted i hi
    cases hst : (s.conns i).state <;> simp_all [TransferState.live, Readiness.any, Readiness.none]
  have hnew : (pfds (1 + s.numConnectedClients)).revents = .none := by
    rw [hkeep _ (by omega)]; exact h.fresh _ (by omega)
  unfold pollAcceptBlock at hv
  split at hv
  · rename_i hpin
    have hacc := hin hpin
    simp only [pollAdmit] at hv
    obtain ⟨⟨b, conn⟩, -, hv⟩ := ok_of_bind_ok hv
    cases hv
    have hlt : s.numConnectedClients < maxConns := by
      have := h.table.bound; simp only [Bool.and_eq_true, bne_iff_ne] at hacc; omega
    refine ⟨h.table.newSlot hlt hmax _ rfl rfl rfl rfl, .inr rfl, fun i hi hany => ?_⟩
    by_cases hi' : i = s.numConnectedClients
    · subst hi'; simp [hnew, Readiness.any, Readiness.none] at hany
    · dsimp only at hi ⊢
      rw [Function.update_noteq hi']
      exact hrep i (by omega) hany
  · cases hv
    exact ⟨h.table.of_eq rfl rfl rfl, .inl rfl, hrep⟩

theorem PollInv.step (hmax : maxConns < 2^64) {r : Round} {s t : PollState} (h : PollInv maxConns s)
    (hr : pollIteration e server F maxConns r s = .ok (some t)) : PollInv maxConns t := by
  simp only [pollIteration] at hr
  split at hr
  · cases hr
  obtain ⟨pfds, hp, hr⟩ := ok_of_bind_ok hr
  obtain ⟨u, hu, hr⟩ := ok_of_bind_ok hr
  cases hr
  unfold pollServe at hu
  obtain ⟨v, hv, hu⟩ := ok_of_bind_ok hu
  obtain ⟨hvt, hvn, hvr⟩ := pollAcceptBlock_spec hmax h hp hv
  obtain ⟨hut, hun, -⟩ := range_foldlM_invariant _ (slotLoopInv_step hmax) ⟨hvt, rfl,
    fun i _ hi => hvr i hi⟩ hu
  obtain ⟨-, -, -, hkeep⟩ := pollPrepare_spec hp
  refine ⟨hut, fun j hj => ?_⟩
  dsimp only at hj ⊢
  rw [hkeep j (by omega)]
  exact h.fresh j (by omega)

theorem pollIteration_ne_unexpected (hmax : maxConns < 2^64) {r : Round} {s : PollState}
    (h : PollInv maxConns s) :
    pollIteration e server F maxConns r s ≠ .error "Unexpected state!\n" := by
  intro hr
  simp only [pollIteration] at hr
  split at hr
  · cases hr
  rcases error_of_bind_error hr with hp | ⟨pfds, hp, hr⟩
  · simp only [pollPrepare] at hp
    rcases error_of_bind_error hp with hreg | ⟨_, -, hw⟩
    · obtain ⟨k, hk, _, -, hk'⟩ := range_foldlM_error (fun _ _ => True) (fun _ _ _ _ _ _ => trivial)
        trivial hreg
      have hne := h.table.admitted k hk
      cases hs : (s.conns k).state <;> simp only [registerSlot, hs] at hk' <;> cases hk'
      exact hne hs
    · split at hw
      · exact absurd (Except.error.inj hw) (by decide)
      · cases hw
  rcases error_of_bind_error hr with hu | ⟨u, -, hu⟩
  · unfold pollServe at hu
    rcases error_of_bind_error hu with hv | ⟨v, hv, hu⟩
    · unfold pollAcceptBlock at hv
      split at hv
      · simp only [pollAdmit] at hv
        rcases error_of_bind_error hv with ha | ⟨_, -, ha⟩
        · exact serverAcceptConnectionRequest_ne_unexpected ha
        · cases ha
      · cases hv
    · obtain ⟨hvt, -, hvr⟩ := pollAcceptBlock_spec hmax h hp hv
      obtain ⟨k, hk, w, ⟨-, hwn, hwr⟩, hk'⟩ := range_foldlM_error _ (slotLoopInv_step hmax)
        ⟨hvt, rfl, fun i _ hi => hvr i hi⟩ hu
      exact pollServeSlot_ne_unexpected (hwr k (Nat.le_refl _) (hwn ▸ hk)) hk'
  · cases hu

theorem pollIteration_break {r : Round} {s : PollState} (h : PollInv maxConns s)
    (hr : pollIteration e server F maxConns r s = .ok none) :
    ∀ i < s.numConnectedClients, (s.conns i).state = .transferFinished := by
  simp only [pollIteration] at hr
  split at hr
  · rename_i hbrk
    simp only [Bool.and_eq_true, decide_eq_true_eq] at hbrk
    exact h.table.all_finished hbrk.1
  · obtain ⟨_, -, hr⟩ := ok_of_bind_ok hr
    obtain ⟨_, -, hr⟩ := ok_of_bind_ok hr
    cases hr

theorem PollInv.reachable (hmax : maxConns < 2^64) {s : PollState}
    (hs : Reachable (· = PollState.init server) (Step e server F maxConns) s) : PollInv maxConns s :=
  hs.invariant (fun _ h => h ▸ PollInv.init server maxConns) (fun _ _ h ⟨_, _, hr⟩ => h.step hmax hr)

/-- Over every run of the poll loop, at the top of each iteration: at most `max_conns`
slots are admitted, exactly those are not `CONNECTION_EMPTY`, `num_active_clients` counts
the live ones; no iteration reaches an `Unexpected state!` exit, and the loop breaks only
once every admitted slot is `TRANSFER_FINISHED`. -/
theorem poll_table_invariant (hmax : maxConns < 2^64) (s : PollState)
    (hs : Reachable (· = PollState.init server) (Step e server F maxConns) s) :
    s.numConnectedClients ≤ maxConns ∧
    (∀ i < s.numConnectedClients, (s.conns i).state ≠ .connectionEmpty) ∧
    (∀ i, s.numConnectedClients ≤ i → (s.conns i).state = .connectionEmpty) ∧
    s.numActiveClients = liveCount s.conns s.numConnectedClients ∧
    (∀ r, pollIteration e server F maxConns r s ≠ .error "Unexpected state!\n") ∧
    (∀ r, pollIteration e server F maxConns r s = .ok none →
      ∀ i < s.numConnectedClients, (s.conns i).state = .transferFinished) := by
  have h := PollInv.reachable hmax hs
  exact ⟨h.table.bound, h.table.admitted, h.table.empty, h.table.active,
    fun _ => pollIteration_ne_unexpected hmax h, fun _ => pollIteration_break h⟩

end

/-- The first iteration admits a client on descriptor 5 into slot 0 of a table of three. -/
theorem poll_table_invariant_admitted :
    ∃ s : PollState, (3 : Nat) < 2^64 ∧
      Reachable (· = PollState.init ⟨3, 1, 4⟩) (Step .little ⟨3, 1, 4⟩ [7] 3) s ∧
      s.conns 0 = ⟨5, 0, .sendFileSize⟩ ∧
      (s.numConnectedClients ≤ 3 ∧
        (∀ i < s.numConnectedClients, (s.conns i).state ≠ .connectionEmpty) ∧
        (∀ i, s.numConnectedClients ≤ i → (s.conns i).state = .connectionEmpty) ∧
        s.numActiveClients = liveCount s.conns s.numConnectedClients ∧
        (∀ r, pollIteration .little ⟨3, 1, 4⟩ [7] 3 r s ≠ .error "Unexpected state!\n") ∧
        (∀ r, pollIteration .little ⟨3, 1, 4⟩ [7] 3 r s = .ok none →
          ∀ i < s.numConnectedClients, (s.conns i).state = .transferFinished)) := by
  have h0 : Reachable (· = PollState.init ⟨3, 1, 4⟩) (Step .little ⟨3, 1, 4⟩ [7] 3)
      (PollState.init ⟨3, 1, 4⟩) := .init rfl
  have h1 := h0.step ⟨⟨false, false, fun fd => if fd = 4 then ⟨true, false, false⟩ else .none,
    ⟨5, false, 0, 0, 0⟩, fun _ => ⟨0, 0, 0⟩⟩, .inr ⟨by decide, by decide⟩, rfl⟩
  exact ⟨_, by decide, h1, rfl, poll_table_invariant (by decide) _ h1⟩

/-- A SIGINT that lands between the listening socket turning readable and a failed `accept`:
`server_accept_connection_request` returns `false` with descriptor `-1`, yet the loop puts
slot 0 in `SEND_FILE_SIZE` and counts it active. From there, whatever the kernel reports, an
iteration neither breaks nor changes the slot, and both descriptors it hands to `poll` are
`-1`: the loop waits on no valid descriptor. -/
theorem poll_admits_failed_accept :
    let srv : FileshareServer := ⟨3, 1, 4⟩
    let r : Round := ⟨false, false, fun fd => if fd = 4 then ⟨true, false, false⟩ else .none,
      ⟨-1, true, 0, 0, 0⟩, fun _ => ⟨0, 0, 0⟩⟩
    r.accept.Ok (PollState.init srv).openFds ∧
    ∃ s1 : PollState, pollIteration .little srv [7] 1 r (PollState.init srv) = .ok (some s1) ∧
      s1.conns 0 = ⟨-1, 0, .sendFileSize⟩ ∧ s1.numConnectedClients = 1 ∧
      s1.numActiveClients = 1 ∧ s1.receivedSigint = true ∧
      ∀ r' : Round, r'.waitFails = false → ∃ s2 : PollState,
        pollIteration .little srv [7] 1 r' s1 = .ok (some s2) ∧ s2.conns 0 = s1.conns 0 ∧
        s2.numActiveClients = 1 ∧ (s2.pollfds 0).fd = -1 ∧ (s2.pollfds 1).fd = -1 := by
  refine ⟨.inl rfl, _, rfl, rfl, rfl, rfl, rfl, fun r' hw => ?_⟩
  obtain ⟨sig, w, ready, acc, io⟩ := r'
  subst hw
  exact ⟨_, rfl, rfl, rfl, rfl, rfl⟩

end NetworkingHowto.Server.Poll
