import NetworkingHowto.Server.PollLoop

/-! The main loop of `part_000`, the epoll server, with the events of one `epoll_wait` served
in any order; a failed `accept` run side by side with the poll loop. -/
namespace NetworkingHowto.Server.Epoll
open NetworkingHowto.Bytes

structure Registration where
  fd : Int
  events : Readiness
  tag : Nat
deriving DecidableEq, Repr

structure EpollState extends LoopState where
  interest : List Registration
  acceptNewConnectionsPrev : Bool

/-- `epoll_ctl(EPOLL_CTL_ADD)`: fails unless the descriptor is held and not yet in the set. -/
def epollCtlAdd (openFds : List Int) (interest : List Registration) (reg : Registration) :
    Option (List Registration) :=
  if reg.fd ∈ openFds ∧ ∀ r ∈ interest, r.fd ≠ reg.fd then some (interest ++ [reg]) else none

/-- `epoll_ctl(EPOLL_CTL_DEL)`: fails unless the descriptor is held and in the set. -/
def epollCtlDel (openFds : List Int) (interest : List Registration) (fd : Int) :
    Option (List Registration) :=
  if fd ∈ openFds ∧ ∃ r ∈ interest, r.fd = fd then some (interest.filter fun r => r.fd != fd)
  else none

/-- The four wrappers around `epoll_ctl`: a failed call is an `exit` with `msg`. -/
def ctlOrExit (msg : String) : Option (List Registration) → Except String (List Registration)
  | some interest => .ok interest
  | none => .error msg

def epollServerWaitForClient (openFds : List Int) (interest : List Registration)
    (server : FileshareServer) : Except String (List Registration) :=
  ctlOrExit "[EPOLL WAIT FOR CLIENT] Unable to call epoll_ctl()\n"
    (epollCtlAdd openFds interest ⟨server.listenSockFd, .inOnly, 0⟩)

def epollServerStopWaitingForClient (openFds : List Int) (interest : List Registration)
    (server : FileshareServer) : Except String (List Registration) :=
  ctlOrExit "[STOP WAITING FOR CLIENT] Unable to call epoll_ctl()\n"
    (epollCtlDel openFds interest server.listenSockFd)

/-- `event.data.u32 = 1U + conn_i`: the tag is truncated to 32 bits. -/
def epollConnWaitOnSocket (openFds : List Int) (interest : List Registration) (i : Nat)
    (conn : FileshareConnection) : Except String (List Registration) :=
  ctlOrExit "[EPOLL WAIT ON SOCKET] Unable to call epoll_ctl()\n"
    (epollCtlAdd openFds interest ⟨conn.clientSockFd, .outHup, (1 + i) % 2^32⟩)

def epollConnStopWaitingOnSocket (openFds : List Int) (interest : List Registration)
    (conn : FileshareConnection) : Except String (List Registration) :=
  ctlOrExit "[STOP WAITING ON SOCKET] Unable to call epoll_ctl()\n"
    (epollCtlDel openFds interest conn.clientSockFd)

/-- After `epoll_server_wait_for_client` registered the listening socket. -/
def EpollState.init (server : FileshareServer) : EpollState :=
  { LoopState.init server with
    interest := [⟨server.listenSockFd, .inOnly, 0⟩]
    acceptNewConnectionsPrev := true }

theorem epollServerWaitForClient_init (server : FileshareServer) :
    epollServerWaitForClient (LoopState.init server).openFds [] server =
      .ok (EpollState.init server).interest := by
  simp [epollServerWaitForClient, epollCtlAdd, LoopState.init, ctlOrExit, EpollState.init]

/-- What one `epoll_wait` can report: each registration whose descriptor is ready for a
requested bit (or hung up), with the reported bits. -/
def readyEvents (ready : Int → Readiness) (interest : List Registration) : List (Nat × Readiness) :=
  interest.filterMap fun reg =>
    if ((ready reg.fd).mask reg.events).any then some (reg.tag, (ready reg.fd).mask reg.events)
    else none

section
variable (e : Endian) (server : FileshareServer) (F : List UInt8) (maxConns : Nat)

/-- The branch for tag 0: accept into `conns[num_connected_clients]` (the result is not
looked at), register the new socket, count it. -/
def epollAdmit (acc : AcceptIo) (s : EpollState) : Except String EpollState := do
  let inShutdown := s.receivedSigint || acc.sigint
  let nc := s.numConnectedClients
  let (_, conn) ← serverAcceptConnectionRequest inShutdown (s.conns nc) acc
  let conn := { conn with state := .sendFileSize }
  let openFds := if acc.acceptRet = -1 then s.openFds else acc.acceptRet :: s.openFds
  let interest ← epollConnWaitOnSocket openFds s.interest nc conn
  pure { s with
    receivedSigint := inShutdown
    openFds := openFds
    interest := interest
    conns := Function.update s.conns nc conn
    numConnectedClients := nc + 1
    numActiveClients := incSize s.numActiveClients }

/-- Stop waiting on slot `i`, close it, mark it finished and uncount it. -/
def epollFinish (s : EpollState) (i : Nat) : Except String EpollState := do
  let interest ← epollConnStopWaitingOnSocket s.openFds s.interest (s.conns i)
  let fds ← serverCloseConnSocket s.openFds (s.conns i)
  pure { s with
    interest := interest
    openFds := fds
    conns := Function.update s.conns i { s.conns i with state := .transferFinished }
    numActiveClients := decSize s.numActiveClients }

/-- The branch for a tag `k ≥ 1`: slot `conn_i = k - 1U` with the reported `events`. -/
def epollServeSlot (io : Nat → StepIo) (s : EpollState) (i : Nat) (events : Readiness) :
    Except String EpollState :=
  if events.pollhup then epollFinish s i
  else if events.pollout then
    match sendOnWritable e server F (s.conns i) (io i) with
    | none => .error "Unexpected state!\n"
    | some r =>
      let s := { s with
        conns := Function.update s.conns i r.conn
        wire := Function.update s.wire i (s.wire i ++ r.sent) }
      if r.success then pure s else epollFinish s i
  else pure s

def epollServeEvent (acc : AcceptIo) (io : Nat → StepIo) (s : EpollState) (ev : Nat × Readiness) :
    Except String EpollState :=
  if ev.1 = 0 then epollAdmit acc s else epollServeSlot e server F io s (ev.1 - 1) ev.2

/-- The top of the loop: the shutdown test, the `break`, and deleting the listening socket
when new connections stop being accepted. -/
def epollTop (r : Round) (s : EpollState) : Except String (Option EpollState) :=
  let sigint := s.receivedSigint || r.sigint
  let acceptNew := s.numConnectedClients != maxConns && !sigint
  if s.numActiveClients = 0 && !acceptNew then .ok none
  else if s.acceptNewConnectionsPrev && !acceptNew then do
    let interest ← epollServerStopWaitingForClient s.openFds s.interest server
    pure (some { s with receivedSigint := sigint, acceptNewConnectionsPrev := false, interest })
  else .ok (some { s with receivedSigint := sigint })

/-- `epoll_wait` returning `batch`, and the event loop over it. -/
def epollDispatch (r : Round) (batch : List (Nat × Readiness)) (s : EpollState) :
    Except String EpollState :=
  if r.waitFails then .error "Unable to epoll-wait for data on descriptors\n"
  else batch.foldlM (epollServeEvent e server F r.accept r.io) s

/-- One pass of `while (true)`: `.ok none` is the `break`, `.error` an `exit`. -/
def epollIteration (r : Round) (batch : List (Nat × Readiness)) (s : EpollState) :
    Except String (Option EpollState) := do
  match ← epollTop server maxConns r s with
  | none => pure none
  | some s => some <$> epollDispatch e server F r batch s

/-- `p` holds of the descriptors the process holds when `accept` is called, after the events
of `batch` that come before the listening socket's. -/
def AtAccept (p : List Int → Prop) (r : Round) (batch : List (Nat × Readiness)) (s : EpollState) :
    Prop :=
  ∀ pre ev rest u, batch = pre ++ (0, ev) :: rest →
    pre.foldlM (epollServeEvent e server F r.accept r.io) s = .ok u → p u.openFds

/-- One iteration that continues: `epoll_wait` reports every ready registration, in any order,
and `accept` fails or returns a descriptor the process does not hold when it is called. -/
def Step (s t : EpollState) : Prop :=
  ∃ (r : Round) (s' : EpollState) (batch : List (Nat × Readiness)),
    epollTop server maxConns r s = .ok (some s') ∧ batch.Perm (readyEvents r.ready s'.interest) ∧
    AtAccept e server F r.accept.Ok r batch s' ∧ epollDispatch e server F r batch s' = .ok t

def Continues (s t : EpollState) : Prop :=
  ∃ (r : Round) (s' : EpollState) (batch : List (Nat × Readiness)),
    epollTop server maxConns r s = .ok (some s') ∧
    batch.Perm (readyEvents r.ready s'.interest) ∧ epollDispatch e server F r batch s' = .ok t

theorem Step.continues {s t : EpollState} (h : Step e server F maxConns s t) :
    Continues e server F maxConns s t :=
  let ⟨r, s', batch, ht, hb, _, hd⟩ := h
  ⟨r, s', batch, ht, hb, hd⟩

end

section
variable {e : Endian} {server : FileshareServer} {F : List UInt8}

theorem atAccept_of_ne {p : List Int → Prop} {r : Round} {batch : List (Nat × Readiness)}
    {s : EpollState} (h : ∀ ev ∈ batch, ev.1 ≠ 0) : AtAccept e server F p r batch s :=
  fun pre ev _ _ hb _ =>
    absurd rfl (h (0, ev) (hb ▸ List.mem_append_right pre (List.mem_cons_self _ _)))

theorem atAccept_singleton {p : List Int → Prop} {r : Round} {ev : Readiness} {s : EpollState}
    (h : p s.openFds) : AtAccept e server F p r [(0, ev)] s := by
  rintro (_ | ⟨x, pre⟩) ev' rest u hb hu
  · cases hu
    exact h
  · simp at hb

end

/-- The failed-`accept` race under epoll: a SIGINT lands between the listening socket turning
readable and `accept` failing, `server_accept_connection_request` returns `false`, and the
loop goes on to register slot 0's descriptor `-1`. `epoll_ctl(EPOLL_CTL_ADD)` refuses it and
the server exits. -/
theorem epoll_registers_failed_accept :
    let srv : FileshareServer := ⟨3, 1, 4⟩
    let r : Round := ⟨false, false, fun fd => if fd = 4 then ⟨true, false, false⟩ else .none,
      ⟨-1, true, 0, 0, 0⟩, fun _ => ⟨0, 0, 0⟩⟩
    r.accept.Ok (EpollState.init srv).openFds ∧
    readyEvents r.ready (EpollState.init srv).interest = [(0, ⟨true, false, false⟩)] ∧
    epollIteration .little srv [7] 1 r [(0, ⟨true, false, false⟩)] (EpollState.init srv) =
      .error "[EPOLL WAIT ON SOCKET] Unable to call epoll_ctl()\n" :=
  ⟨.inl rfl, rfl, rfl⟩

/-- On the same race the two loops part ways from the same table, the same readiness and the
same `accept` result: the poll loop goes on, with slot 0 holding descriptor `-1`, while the
epoll loop exits in `epoll_ctl`. -/
theorem loops_diverge_on_failed_accept :
    let srv : FileshareServer := ⟨3, 1, 4⟩
    let r : Round := ⟨false, false, fun fd => if fd = 4 then ⟨true, false, false⟩ else .none,
      ⟨-1, true, 0, 0, 0⟩, fun _ => ⟨0, 0, 0⟩⟩
    (Poll.PollState.init srv).toLoopState = (EpollState.init srv).toLoopState ∧
    (∃ s1 : Poll.PollState, Poll.pollIteration .little srv [7] 1 r (Poll.PollState.init srv) =
      .ok (some s1) ∧ s1.conns 0 = ⟨-1, 0, .sendFileSize⟩) ∧
    epollIteration .little srv [7] 1 r (readyEvents r.ready (EpollState.init srv).interest)
      (EpollState.init srv) = .error "[EPOLL WAIT ON SOCKET] Unable to call epoll_ctl()\n" :=
  ⟨rfl, ⟨_, rfl, rfl⟩, rfl⟩

theorem epollTop_accepting (server : FileshareServer) {maxConns : Nat} {r : Round}
    {s : EpollState} (hr : r.sigint = false) (hs : s.receivedSigint = false)
    (hn : s.numConnectedClients ≠ maxConns) :
    epollTop server maxConns r s = .ok (some s) := by
  obtain ⟨⟨c, nc, na, sig, fds, w⟩, interest, prev⟩ := s
  subst hs
  simp [epollTop, hr, hn]

/-! ### Slot `2^32 - 1` is tagged like the listening socket

With `max_conns = 2^32` (which `strtol` accepts), `1U + conn_i` wraps to `0` for the last
slot. The runs below admit and hang up `2^32 - 1` clients one after another on descriptor 5,
admit a last one with tag 0, and then take its `EPOLLOUT` for a connection request. -/

def wrapServer : FileshareServer := ⟨3, 1, 4⟩

def finishedUpTo (n : Nat) : Nat → FileshareConnection :=
  fun i => if i < n then ⟨5, 0, .transferFinished⟩ else .zero

theorem update_finishedUpTo (n : Nat) :
    Function.update (finishedUpTo n) n ⟨5, 0, .transferFinished⟩ = finishedUpTo (n + 1) := by
  funext i
  by_cases h : i = n
  · subst h; simp [finishedUpTo]
  · simp only [Function.update_noteq h, finishedUpTo]
    congr 1
    exact propext (by omega)

/-- Between clients: `n` admitted and finished, none active, the listening socket alone in
the interest list. -/
def idle (n : Nat) : EpollState :=
  { conns := finishedUpTo n, numConnectedClients := n, numActiveClients := 0,
    receivedSigint := false, openFds := [3, 4], wire := fun _ => [],
    interest := [⟨4, .inOnly, 0⟩], acceptNewConnectionsPrev := true }

def serving (n : Nat) : EpollState :=
  { idle n with
    conns := Function.update (finishedUpTo n) n ⟨5, 0, .sendFileSize⟩
    numConnectedClients := n + 1
    numActiveClients := 1
    openFds := [5, 3, 4]
    interest := [⟨4, .inOnly, 0⟩, ⟨5, .outHup, (1 + n) % 2^32⟩] }

theorem idle_zero : idle 0 = EpollState.init wrapServer := by
  have h : finishedUpTo 0 = fun _ => .zero := by funext i; simp [finishedUpTo]
  simp only [idle, h]
  rfl

def wrapRound (ready : Int → Readiness) (fd : Int) : Round :=
  ⟨false, false, ready, ⟨fd, false, 0, 0, 0⟩, fun _ => ⟨0, 0, 0⟩⟩

section
variable {maxConns : Nat}

theorem step_idle_serving {n : Nat} (hn : n ≠ maxConns) :
    Step .little wrapServer [7] maxConns (idle n) (serving n) := by
  refine ⟨wrapRound (fun d => if d = 4 then .inOnly else .none) 5, idle n, [(0, .inOnly)],
    epollTop_accepting _ rfl rfl hn, .refl _, atAccept_singleton (.inr (by simp [wrapRound, idle])), ?_⟩
  simp [epollDispatch, epollServeEvent, epollAdmit, serverAcceptConnectionRequest,
    epollConnWaitOnSocket, epollCtlAdd, ctlOrExit, idle, serving, finishedUpTo, wrapRound,
    FileshareConnection.zero, incSize]

theorem step_serving_idle {n : Nat} (hn : n + 1 ≠ maxConns) (hw : n + 1 < 2^32) :
    Step .little wrapServer [7] maxConns (serving n) (idle (n + 1)) := by
  refine ⟨wrapRound (fun d => if d = 5 then ⟨false, false, true⟩ else .none) (-1), serving n,
    [((1 + n) % 2^32, ⟨false, false, true⟩)], epollTop_accepting _ rfl rfl hn, .refl _,
    atAccept_of_ne (by simp; omega), ?_⟩
  have ht : (1 + n) % 4294967296 = n + 1 := by omega
  simp [epollDispatch, epollServeEvent, epollServeSlot, epollFinish, ht,
    epollConnStopWaitingOnSocket, epollCtlDel, ctlOrExit, serverCloseConnSocket, serving, idle,
    wrapRound, ← update_finishedUpTo]
  exact decSize_of_pos (by decide) (by decide)

theorem reachable_idle {n : Nat} (hn : n < maxConns) (hw : n < 2^32) :
    Reachable (· = EpollState.init wrapServer) (Step .little wrapServer [7] maxConns) (idle n) := by
  induction n with
  | zero => exact .init idle_zero
  | succ n ih =>
    exact .step (.step (ih (by omega) (by omega)) (step_idle_serving (by omega)))
      (step_serving_idle (by omega) hw)

end

/-- With `max_conns = 2^32` the loop admits a client past the end of `conns`: slot
`2^32 - 1` is registered with tag 0, and once the listening socket has been deleted that
slot's `EPOLLOUT` is served as a connection request, which accepts into `conns[2^32]`. -/
theorem epoll_tag_wrap_admits_past_max_conns :
    ∃ t : EpollState,
      Reachable (· = EpollState.init wrapServer) (Step .little wrapServer [7] (2^32)) t ∧
      t.numConnectedClients = 2^32 + 1 ∧ (t.conns (2^32)).state = .sendFileSize := by
  have hi : Reachable (· = EpollState.init wrapServer) (Step .little wrapServer [7] (2^32))
      (idle (2^32 - 1)) := reachable_idle (by decide) (by decide)
  have hs := hi.step (step_idle_serving (by decide))
  refine ⟨_, .step hs ⟨wrapRound (fun d => if d = 5 then ⟨false, true, false⟩ else
    if d = 4 then .inOnly else .none) 6, _, _, rfl, .refl _, atAccept_singleton (.inr (by decide)),
    rfl⟩, rfl, rfl⟩

end NetworkingHowto.Server.Epoll
