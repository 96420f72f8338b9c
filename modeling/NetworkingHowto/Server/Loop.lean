import NetworkingHowto.Reachable
import NetworkingHowto.Server.Protocol

/-! What the poll loop of `server-poll.c` and the epoll loop of `part_000` share: the connection
table, the shutdown flag, the held descriptors, and the table invariant. -/
namespace NetworkingHowto.Server

structure Readiness where
  pollin : Bool
  pollout : Bool
  pollhup : Bool
deriving DecidableEq, Repr

namespace Readiness

def none : Readiness := ⟨false, false, false⟩

/-- `POLLIN` (`EPOLLIN`): the listening socket's interest. -/
def inOnly : Readiness := ⟨true, false, false⟩

/-- `POLLOUT|POLLHUP` (`EPOLLOUT|EPOLLHUP`): a connection socket's interest. -/
def outHup : Readiness := ⟨false, true, true⟩

/-- What the kernel reports for a descriptor that is `ready` and registered for `events`:
the requested bits, and a hangup whether requested or not. -/
def mask (ready events : Readiness) : Readiness :=
  ⟨ready.pollin && events.pollin, ready.pollout && events.pollout, ready.pollhup⟩

def any (r : Readiness) : Bool := r.pollin || r.pollout || r.pollhup

@[simp] theorem mask_none (ready : Readiness) : ready.mask none = ⟨false, false, ready.pollhup⟩ := by
  simp [mask, none]

@[simp] theorem mask_outHup (ready : Readiness) :
    ready.mask outHup = ⟨false, ready.pollout, ready.pollhup⟩ := by
  simp [mask, outHup]

end Readiness

/-- Results of the calls in `server_accept_connection_request`; `sigint` is whether a SIGINT
arrives before `program_in_shutdown()` is read after a failed `accept`. -/
structure AcceptIo where
  acceptRet : Int
  sigint : Bool
  lingerRet : Int
  nodelayRet : Int
  corkRet : Int
deriving DecidableEq, Repr

/-- `accept` fails, or returns a descriptor the process does not hold. -/
def AcceptIo.Ok (io : AcceptIo) (openFds : List Int) : Prop :=
  io.acceptRet = -1 ∨ (0 ≤ io.acceptRet ∧ io.acceptRet ∉ openFds)

/-- `accept` returns a descriptor the process does not hold, and each `setsockopt` succeeds. -/
def AcceptIo.Fresh (io : AcceptIo) (openFds : List Int) : Prop :=
  0 ≤ io.acceptRet ∧ io.acceptRet ∉ openFds ∧ io.lingerRet ≠ -1 ∧ io.nodelayRet ≠ -1 ∧
    io.corkRet ≠ -1

theorem AcceptIo.Fresh.mono {io : AcceptIo} {fds fds' : List Int} (h : io.Fresh fds)
    (hsub : ∀ fd ∈ fds', fd ∈ fds) : io.Fresh fds' :=
  ⟨h.1, fun hm => h.2.1 (hsub _ hm), h.2.2⟩

/-- `server_accept_connection_request` on `conn` with the shutdown flag `inShutdown`:
`.error` is an `exit` with that text on stderr. -/
def serverAcceptConnectionRequest (inShutdown : Bool) (conn : FileshareConnection) (io : AcceptIo) :
    Except String (Bool × FileshareConnection) :=
  let conn := { conn with clientSockFd := io.acceptRet }
  if io.acceptRet = -1 then
    if inShutdown then .ok (false, conn)
    else .error "[server_accept_connection_request] Unable to accept() connection on a socket\n"
  else if io.lingerRet = -1 then
    .error "[server_init_listen_socket] Unable to disable SO_LINGER socket option"
  else if io.nodelayRet = -1 then
    .error "[server_accept_connection_request] Unable to enable TCP_NODELAY socket option"
  else if io.corkRet = -1 then
    .error "[server_accept_connection_request] Unable to disable TCP_CORK socket option"
  else .ok (true, conn)

/-- `server_close_conn_socket`: `close` fails with `EBADF`, and the server exits, unless the
descriptor is held. -/
def serverCloseConnSocket (openFds : List Int) (conn : FileshareConnection) : Except String (List Int) :=
  if conn.clientSockFd ∈ openFds then .ok (openFds.erase conn.clientSockFd)
  else .error "[server_close_conn_socket] Unable to close() connection socket\n"

theorem serverCloseConnSocket_error {fds : List Int} {conn : FileshareConnection} {m : String}
    (h : serverCloseConnSocket fds conn = .error m) :
    m = "[server_close_conn_socket] Unable to close() connection socket\n" := by
  unfold serverCloseConnSocket at h
  split at h <;> cases h
  rfl

theorem serverCloseConnSocket_ok {fds fds' : List Int} {conn : FileshareConnection}
    (h : serverCloseConnSocket fds conn = .ok fds') : fds' = fds.erase conn.clientSockFd := by
  unfold serverCloseConnSocket at h
  split at h <;> cases h
  rfl

theorem serverAcceptConnectionRequest_ne_unexpected {b : Bool} {conn : FileshareConnection}
    {io : AcceptIo} : serverAcceptConnectionRequest b conn io ≠ .error "Unexpected state!\n" := by
  unfold serverAcceptConnectionRequest
  split_ifs <;> simp

/-- `num_active_clients -= 1U` on a `size_t`. -/
def decSize (n : Nat) : Nat := (n + SIZE_MAX) % 2^64

/-- `+= 1U` on a `size_t`. -/
def incSize (n : Nat) : Nat := (n + 1) % 2^64

theorem decSize_of_pos {n : Nat} (h0 : 0 < n) (h1 : n < 2^64) : decSize n = n - 1 := by
  unfold decSize SIZE_MAX; omega

theorem incSize_of_lt {n : Nat} (h : n + 1 < 2^64) : incSize n = n + 1 := by
  unfold incSize; omega

/-- What both loops keep between iterations: the table `conns`, the two counters, the
shutdown flag, the descriptors the process holds, and (ghost) the bytes written to each
slot's socket. -/
structure LoopState where
  conns : Nat → FileshareConnection
  numConnectedClients : Nat
  numActiveClients : Nat
  receivedSigint : Bool
  openFds : List Int
  wire : Nat → List UInt8

/-- The table after `calloc` and the `CONNECTION_EMPTY` loop; the source file and the
listening socket are open. -/
def LoopState.init (server : FileshareServer) : LoopState :=
  ⟨fun _ => FileshareConnection.zero, 0, 0, false, [server.srcFileFd, server.listenSockFd],
    fun _ => []⟩

def liveCount (conns : Nat → FileshareConnection) : Nat → Nat
  | 0 => 0
  | n+1 => liveCount conns n + if (conns n).state.live then 1 else 0

theorem liveCount_le (conns : Nat → FileshareConnection) (n : Nat) : liveCount conns n ≤ n := by
  induction n with
  | zero => rfl
  | succ n ih => simp only [liveCount]; split <;> omega

theorem liveCount_congr {c c' : Nat → FileshareConnection} {n : Nat}
    (h : ∀ i < n, (c i).state = (c' i).state) : liveCount c n = liveCount c' n := by
  induction n with
  | zero => rfl
  | succ n ih =>
    simp only [liveCount, h n (Nat.lt_succ_self n), ih fun i hi => h i (by omega)]

theorem liveCount_update (c : Nat → FileshareConnection) {i n : Nat} (hi : i < n)
    (x : FileshareConnection) :
    liveCount (Function.update c i x) n + (if (c i).state.live then 1 else 0) =
      liveCount c n + if x.state.live then 1 else 0 := by
  induction n with
  | zero => omega
  | succ n ih =>
    simp only [liveCount]
    by_cases hn : i = n
    · subst hn
      rw [liveCount_congr (show ∀ j < i, (Function.update c i x j).state = (c j).state from
        fun j hj => by rw [Function.update_noteq (by omega)])]
      simp only [Function.update_same]
      omega
    · rw [Function.update_noteq (Ne.symm hn)]
      have := ih (by omega)
      omega

theorem liveCount_pos {c : Nat → FileshareConnection} {i n : Nat} (hi : i < n)
    (hl : (c i).state.live) : 0 < liveCount c n := by
  have h := liveCount_update c hi ⟨0, 0, .transferFinished⟩
  rw [if_pos hl, if_neg (by decide)] at h
  omega

theorem liveCount_update_ge (c : Nat → FileshareConnection) {i n : Nat} (hi : n ≤ i)
    (x : FileshareConnection) : liveCount (Function.update c i x) n = liveCount c n :=
  liveCount_congr fun j hj => by rw [Function.update_noteq (by omega)]

/-- The kernel's side of one loop iteration: whether a SIGINT arrives before the top test,
whether the wait fails, which descriptors are ready, what `accept` does, and what the
`pread`/`write` of each slot's protocol step return. -/
structure Round where
  sigint : Bool
  waitFails : Bool
  ready : Int → Readiness
  accept : AcceptIo
  io : Nat → StepIo

/-- The table invariant at the top of every iteration: at most `max_conns` slots are
admitted, exactly the admitted ones are not `CONNECTION_EMPTY`, and the active counter
counts the live ones. -/
structure TableInv (maxConns : Nat) (s : LoopState) : Prop where
  bound : s.numConnectedClients ≤ maxConns
  admitted : ∀ i < s.numConnectedClients, (s.conns i).state ≠ .connectionEmpty
  empty : ∀ i, s.numConnectedClients ≤ i → (s.conns i).state = .connectionEmpty
  active : s.numActiveClients = liveCount s.conns s.numConnectedClients

theorem TableInv.init (server : FileshareServer) (maxConns : Nat) :
    TableInv maxConns (LoopState.init server) :=
  ⟨Nat.zero_le _, fun _ h => absurd h (Nat.not_lt_zero _), fun _ _ => rfl, rfl⟩

section
variable {maxConns : Nat} {s : LoopState}

theorem TableInv.of_eq (h : TableInv maxConns s) {t : LoopState} (hc : t.conns = s.conns)
    (hn : t.numConnectedClients = s.numConnectedClients)
    (ha : t.numActiveClients = s.numActiveClients) : TableInv maxConns t := by
  obtain ⟨h1, h2, h3, h4⟩ := h
  exact ⟨hn ▸ h1, hc ▸ hn ▸ h2, hc ▸ hn ▸ h3, hc ▸ hn ▸ ha ▸ h4⟩

theorem TableInv.update (h : TableInv maxConns s) {i : Nat} (hi : i < s.numConnectedClients)
    (x : FileshareConnection) (hx : x.state ≠ .connectionEmpty) {t : LoopState}
    (hc : t.conns = Function.update s.conns i x) (hn : t.numConnectedClients = s.numConnectedClients)
    (hna : t.numActiveClients + (if (s.conns i).state.live then 1 else 0) =
      s.numActiveClients + if x.state.live then 1 else 0) :
    TableInv maxConns t := by
  have hb := h.bound
  refine ⟨by omega, fun j hj => ?_, fun j hj => ?_, ?_⟩
  · rw [hc]
    by_cases hji : j = i
    · subst hji; simpa using hx
    · simpa [Function.update_noteq hji] using h.admitted j (by omega)
  · rw [hc, Function.update_noteq (by omega)]
    exact h.empty j (by omega)
  · have := liveCount_update s.conns hi x
    have := h.active
    rw [hn, hc]
    omega

theorem TableInv.finish (h : TableInv maxConns s) (hmax : maxConns < 2^64) {i : Nat}
    (hi : i < s.numConnectedClients) (hl : (s.conns i).state.live) (x : FileshareConnection)
    (hx : x.state = .transferFinished) {t : LoopState}
    (hc : t.conns = Function.update s.conns i x) (hn : t.numConnectedClients = s.numConnectedClients)
    (hna : t.numActiveClients = decSize s.numActiveClients) : TableInv maxConns t := by
  have hpos := h.active ▸ liveCount_pos hi hl
  have hlt : s.numActiveClients < 2^64 := by
    have := h.active ▸ liveCount_le s.conns _; have := h.bound; omega
  refine h.update hi x (by simp [hx]) hc hn ?_
  rw [hna, decSize_of_pos hpos hlt, if_pos hl, hx]
  simp only [TransferState.live, Bool.false_eq_true, if_false]
  omega

theorem TableInv.newSlot (h : TableInv maxConns s) (hlt : s.numConnectedClients < maxConns)
    (hmax : maxConns < 2^64) (x : FileshareConnection) (hx : x.state = .sendFileSize)
    {t : LoopState} (hc : t.conns = Function.update s.conns s.numConnectedClients x)
    (hn : t.numConnectedClients = s.numConnectedClients + 1)
    (hna : t.numActiveClients = incSize s.numActiveClients) : TableInv maxConns t := by
  have hle : s.numActiveClients ≤ s.numConnectedClients := h.active ▸ liveCount_le _ _
  refine ⟨by omega, fun j hj => ?_, fun j hj => ?_, ?_⟩
  · rw [hc]
    by_cases hji : j = s.numConnectedClients
    · subst hji; simp [hx]
    · simpa [Function.update_noteq hji] using h.admitted j (by omega)
  · rw [hc, Function.update_noteq (by omega)]
    exact h.empty j (by omega)
  · rw [hna, hn, hc, incSize_of_lt (by omega), liveCount, liveCount_update_ge _ (Nat.le_refl _),
      ← h.active]
    simp [hx, TransferState.live]

theorem TableInv.all_finished (h : TableInv maxConns s) (hna : s.numActiveClients = 0) :
    ∀ i < s.numConnectedClients, (s.conns i).state = .transferFinished := by
  intro i hi
  have hne := h.admitted i hi
  have hnl : ¬ (s.conns i).state.live := fun hl => by
    have := h.active ▸ liveCount_pos hi hl; omega
  cases hs : (s.conns i).state <;> simp_all [TransferState.live]

end

end NetworkingHowto.Server
