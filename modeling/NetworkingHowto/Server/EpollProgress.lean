import NetworkingHowto.Server.EpollWire
import NetworkingHowto.Server.Progress

/-! The epoll loop reaches its `break` under a kernel that serves every live socket, whatever
order `epoll_wait` returns the events in. -/
namespace NetworkingHowto.Server.Epoll
open NetworkingHowto.Bytes

theorem mem_readyEvents_iff {ready : Int → Readiness} {l : List Registration}
    {ev : Nat × Readiness} :
    ev ∈ readyEvents ready l ↔ ∃ reg ∈ l, ((ready reg.fd).mask reg.events).any ∧
      ev = (reg.tag, (ready reg.fd).mask reg.events) := by
  simp only [readyEvents, List.mem_filterMap]
  constructor
  · rintro ⟨reg, hreg, hev⟩
    split at hev
    · exact ⟨reg, hreg, ‹_›, (Option.some.inj hev).symm⟩
    · cases hev
  · rintro ⟨reg, hreg, hany, rfl⟩
    exact ⟨reg, hreg, if_pos hany⟩

section
variable {e : Endian} {server : FileshareServer} {F : List UInt8} {maxConns : Nat}

theorem epollTop_stopped {r : Round} {s s' : EpollState}
    (hstop : s.numConnectedClients = maxConns ∨ s.receivedSigint = true)
    (ht : epollTop server maxConns r s = .ok (some s')) :
    s.numActiveClients ≠ 0 ∧ s'.acceptNewConnectionsPrev = false := by
  have hacc : (s.numConnectedClients != maxConns && !(s.receivedSigint || r.sigint)) = false := by
    rcases hstop with h | h <;> simp [h]
  unfold epollTop at ht
  simp only [hacc, Bool.not_false, Bool.and_true, decide_eq_true_eq] at ht
  split_ifs at ht with h0 hprev
  · cases ht
  · obtain ⟨_, -, ht⟩ := ok_of_bind_ok ht
    cases ht
    exact ⟨h0, rfl⟩
  · cases ht
    exact ⟨h0, by simpa using hprev⟩

theorem epollServeSlot_sigint {io : Nat → StepIo} {u u' : EpollState} {i : Nat}
    (hl : (u.conns i).state.live) {ev : Readiness}
    (hs : epollServeSlot e server F io u i ev = .ok u') : u'.receivedSigint = u.receivedSigint := by
  obtain ⟨x, w, -, ⟨-, rfl⟩ | ⟨-, rfl⟩⟩ := epollServeSlot_spec hl hs <;> rfl

theorem epollServeSlot_progress (hS : server.srcFileSize = F.length) {io : Nat → StepIo}
    {u u' : EpollState} {i : Nat} {ev : Readiness} {w : List UInt8}
    (hl : (u.conns i).state.live) (hw : WireOk F (u.conns i) w) (hio : (io i).Full F (u.conns i))
    (hev : ev.pollout = true ∨ ev.pollhup = true)
    (hs : epollServeSlot e server F io u i ev = .ok u') :
    remaining F (u'.conns i) < remaining F (u.conns i) := by
  have hpos : 0 < remaining F (u.conns i) := remaining_pos hl
  unfold epollServeSlot at hs
  split_ifs at hs with hhup hout
  · rw [epollFinish_ok hs]
    simpa [remaining] using hpos
  · obtain ⟨r, hr, hlt, -⟩ := sendOnWritable_progress hS hw hl hio
    rw [hr] at hs
    dsimp only at hs
    split_ifs at hs
    · cases hs
      simpa using hlt
    · rw [epollFinish_ok hs]
      simpa [remaining] using hpos
  · simp [hhup, hout] at hev

variable (server F maxConns) in
/-- The event loop of a serving pass from `s`, with the events `rest` still to come: the
batch invariant; the counters and shutdown flag of `s`; every event still to come reports a
slot, untouched since `s`, writable or hung up; every live slot of `s` has an event still to
come or less left to send; and the other slots are as in `s`. -/
structure ServingBatch (s : EpollState) (rest : List (Nat × Readiness)) (u : EpollState) :
    Prop where
  batch : BatchInv server maxConns rest u
  n : u.numConnectedClients = s.numConnectedClients
  sig : u.receivedSigint = s.receivedSigint
  events : ∀ ev ∈ rest, ev.1 ≠ 0 ∧ (ev.2.pollout = true ∨ ev.2.pollhup = true) ∧
    u.conns (ev.1 - 1) = s.conns (ev.1 - 1)
  covered : ∀ i < s.numConnectedClients, (s.conns i).state.live →
    1 + i ∈ rest.map Prod.fst ∨ remaining F (u.conns i) < remaining F (s.conns i)
  idle : ∀ i, ¬ (s.conns i).state.live → u.conns i = s.conns i

theorem ServingBatch.start {r : Round} {s : EpollState} (h : EpollInv server maxConns s)
    (hp : s.acceptNewConnectionsPrev = false)
    (hready : ∀ i < s.numConnectedClients, (s.conns i).state.live →
      (r.ready (s.conns i).clientSockFd).pollout = true ∨
        (r.ready (s.conns i).clientSockFd).pollhup = true)
    {batch : List (Nat × Readiness)} (hb : batch.Perm (readyEvents r.ready s.interest)) :
    ServingBatch server F maxConns s batch s := by
  refine ⟨BatchInv.start h (by simp [hp]) hb, rfl, rfl, fun ev hev => ?_, fun i hi hl => .inl ?_,
    fun _ _ => rfl⟩
  · obtain ⟨reg, hreg, hany, rfl⟩ := mem_readyEvents_iff.mp (hb.subset hev)
    obtain ⟨hpr, -⟩ | ⟨i, -, -, rfl⟩ := (h.interest reg).mp hreg
    · simp [hp] at hpr
    · refine ⟨by simp [slotReg], by simpa [slotReg, Readiness.any] using hany, rfl⟩
  · have hreg : slotReg s.conns i ∈ s.interest := (h.interest _).mpr (.inr ⟨i, hi, hl, rfl⟩)
    have hev := mem_readyEvents_iff.mpr
      ⟨_, hreg, by simpa [slotReg, Readiness.any] using hready i hi hl, rfl⟩
    exact List.mem_map_of_mem Prod.fst (hb.symm.subset hev)

variable (e) in
theorem ServingBatch.step (hmax : maxConns < 2^32) (hS : server.srcFileSize = F.length)
    {r : Round} {s : EpollState} (hw : WireInv F s.toLoopState)
    (hfull : ∀ i < s.numConnectedClients, (r.io i).Full F (s.conns i)) :
    ∀ x rest u u', ServingBatch server F maxConns s (x :: rest) u →
      epollServeEvent e server F r.accept r.io u x = .ok u' →
      ServingBatch server F maxConns s rest u'
  | ⟨tag, ev⟩, rest, u, u', hu, hs => by
    obtain ⟨h0, hev, hk⟩ := hu.events _ (List.mem_cons_self _ _)
    dsimp only at h0 hev hk
    have hs' : epollServeSlot e server F r.io u (tag - 1) ev = .ok u' := by
      rwa [epollServeEvent, if_neg h0] at hs
    obtain ⟨hlt, hl⟩ := hu.batch.slots _ (List.mem_cons_self _ _) h0
    obtain ⟨-, hn, hc⟩ := hu.batch.inv.serveSlot hmax hlt hl hs'
    have hsl : (s.conns (tag - 1)).state.live := hk ▸ hl
    have hless : remaining F (u'.conns (tag - 1)) < remaining F (s.conns (tag - 1)) := by
      rw [← hk]
      exact epollServeSlot_progress hS hl (hk ▸ (hw _).ok) (hk ▸ hfull _ (hu.n ▸ hlt)) hev hs'
    refine ⟨BatchInv.step hmax _ _ _ _ hu.batch hs, hn.trans hu.n,
      (epollServeSlot_sigint hl hs').trans hu.sig, fun ev' hev' => ?_, fun i hi hli => ?_,
      fun i hli => (hc i fun hik => hli (hik ▸ hsl)).trans (hu.idle i hli)⟩
    · have hne := hu.batch.rest_ne ev' hev'
      obtain ⟨h0', hev'', hk'⟩ := hu.events ev' (List.mem_cons_of_mem _ hev')
      exact ⟨h0', hev'', (hc _ (by dsimp only at hne; omega)).trans hk'⟩
    · by_cases hik : i = tag - 1
      · exact .inr (hik ▸ hless)
      · rw [hc i hik]
        rcases hu.covered i hi hli with hmem | hlt'
        · rcases List.mem_cons.mp hmem with heq | hmem
          · exact absurd (by dsimp only at heq; omega) hik
          · exact .inl hmem
        · exact .inr hlt'

theorem ServingBatch.succeeds (hmax : maxConns < 2^32) (hS : server.srcFileSize = F.length)
    {r : Round} {s : EpollState} (hw : WireInv F s.toLoopState)
    (hfull : ∀ i < s.numConnectedClients, (r.io i).Full F (s.conns i)) :
    ∀ x rest u, ServingBatch server F maxConns s (x :: rest) u →
      ∃ u', epollServeEvent e server F r.accept r.io u x = .ok u' ∧
        ServingBatch server F maxConns s rest u' := fun x rest u hu => by
  have h0 := (hu.events x (List.mem_cons_self _ _)).1
  obtain ⟨hlt, hl⟩ := hu.batch.slots x (List.mem_cons_self _ _) h0
  obtain ⟨u', hu'⟩ : ∃ u', epollServeSlot e server F r.io u (x.1 - 1) x.2 = .ok u' :=
    hu.batch.inv.serveSlot_succeeds hlt hl x.2
  have hs : epollServeEvent e server F r.accept r.io u x = .ok u' := by
    rwa [epollServeEvent, if_neg h0]
  exact ⟨u', hs, ServingBatch.step e hmax hS hw hfull x rest u u' hu hs⟩


theorem epollIteration_serving (hS : server.srcFileSize = F.length) (hmax : maxConns < 2^32)
    {s : EpollState} (hs : Reachable (· = EpollState.init server) (GoodStep e server F maxConns) s)
    (hstop : s.numConnectedClients = maxConns ∨ s.receivedSigint = true)
    {r : Round} (hr : r.Serving F s.toLoopState) :
    epollTop server maxConns r s = .ok none ∨
    ∃ s', epollTop server maxConns r s = .ok (some s') ∧
      ∀ batch : List (Nat × Readiness), batch.Perm (readyEvents r.ready s'.interest) →
      ∃ t, epollDispatch e server F r batch s' = .ok t ∧
        pending F t.toLoopState < pending F s.toLoopState ∧
        (t.numConnectedClients = maxConns ∨ t.receivedSigint = true) ∧
        AtAccept e server F r.accept.Ok r batch s' := by
  obtain ⟨h, hw⟩ := wireInv_reachable hS hmax hs
  obtain ⟨o, ho⟩ : ∃ o, epollTop server maxConns r s = .ok o := h.top_succeeds
  rcases o with _ | s'
  · exact .inl ho
  refine .inr ⟨s', ho, fun batch hb => ?_⟩
  obtain ⟨h0, hp⟩ := epollTop_stopped hstop ho
  obtain ⟨h', -⟩ := h.top ho
  -- The top changes only the shutdown flag and the listening socket's registration.
  obtain ⟨hr', hw', ha, hpend, hstop'⟩ : r.Serving F s'.toLoopState ∧ WireInv F s'.toLoopState ∧
      s'.numActiveClients = s.numActiveClients ∧
      pending F s'.toLoopState = pending F s.toLoopState ∧
      (s'.numConnectedClients = maxConns ∨ s'.receivedSigint = true) := by
    rcases epollTop_some ho with ⟨-, rfl⟩ | ⟨-, rfl⟩ <;>
      exact ⟨⟨hr.wait, hr.accept, hr.good, hr.ready, hr.full⟩, hw, rfl, rfl,
        hstop.imp id fun h => by simp [h]⟩
  have hstart : ServingBatch server F maxConns s' batch s' := ServingBatch.start h' hp hr'.ready hb
  unfold epollDispatch
  rw [if_neg (by simp [hr.wait])]
  obtain ⟨t, ht⟩ := foldlM_ok _ (ServingBatch.succeeds hmax hS hw' hr'.full) hstart
  have hfin := foldlM_invariant _ (ServingBatch.step e hmax hS hw' hr'.full) hstart ht
  refine ⟨t, ht, hpend ▸ pending_lt hfin.n (fun i hi => ?_) ?_, ?_,
    atAccept_of_ne fun ev hev => (hstart.events ev hev).1⟩
  · by_cases hl : (s'.conns i).state.live
    · exact ((hfin.covered i hi hl).resolve_left (List.not_mem_nil _)).le
    · exact le_of_eq (congrArg (remaining F) (hfin.idle i hl))
  · obtain ⟨i, hi, hl⟩ := exists_live_of_liveCount_pos
      (h'.table.active ▸ Nat.pos_of_ne_zero (ha ▸ h0) : 0 < liveCount s'.conns s'.numConnectedClients)
    exact ⟨i, hi, (hfin.covered i hi hl).resolve_left (List.not_mem_nil _)⟩
  · rw [hfin.n, hfin.sig]
    exact hstop'

variable (e server F maxConns) in
/-- `while (true)` of `main` under epoll, for at most `fuel` passes: each pass takes the round
`env` gives in the state it starts from, and gets the events of its `epoll_wait` in the order
`order` puts them. `true` once it reached the `break`, `false` on an `exit` or when the passes
run out. -/
def runUntilBreak (env : EpollState → Round)
    (order : EpollState → List (Nat × Readiness) → List (Nat × Readiness)) :
    Nat → EpollState → Bool
  | 0, _ => false
  | fuel + 1, s =>
    match epollTop server maxConns (env s) s with
    | .ok none => true
    | .ok (some s') =>
      match epollDispatch e server F (env s) (order s' (readyEvents (env s).ready s'.interest)) s' with
      | .ok t => runUntilBreak env order fuel t
      | .error _ => false
    | .error _ => false

/-- Progress of the epoll loop. From every state a run with good answers reaches, once no new
connection is accepted (`max_conns` slots admitted, or SIGINT received), a kernel that at every
pass serves every live slot (reports its socket writable or hung up, moves whole headers and
blocks) brings the loop to its `break` within `pending + 1` passes, none of which exits,
whatever order each `epoll_wait` returns its events in. -/
theorem epoll_loop_breaks (hS : server.srcFileSize = F.length) (hmax : maxConns < 2^32)
    {s : EpollState} (hs : Reachable (· = EpollState.init server) (GoodStep e server F maxConns) s)
    (hstop : s.numConnectedClients = maxConns ∨ s.receivedSigint = true)
    (env : EpollState → Round)
    (henv : ∀ t, Reachable (· = EpollState.init server) (GoodStep e server F maxConns) t →
      (env t).Serving F t.toLoopState)
    (order : EpollState → List (Nat × Readiness) → List (Nat × Readiness))
    (horder : ∀ t l, (order t l).Perm l) :
    runUntilBreak e server F maxConns env order (pending F s.toLoopState + 1) s = true := by
  suffices h : ∀ fuel (s : EpollState),
      Reachable (· = EpollState.init server) (GoodStep e server F maxConns) s →
      (s.numConnectedClients = maxConns ∨ s.receivedSigint = true) →
      pending F s.toLoopState < fuel → runUntilBreak e server F maxConns env order fuel s = true from
    h _ s hs hstop (Nat.lt_succ_self _)
  intro fuel
  induction fuel with
  | zero => exact fun _ _ _ h => absurd h (Nat.not_lt_zero _)
  | succ fuel ih =>
    intro s hs hstop hlt
    have hr := henv s hs
    rcases epollIteration_serving hS hmax hs hstop hr with h | ⟨s', ht, hbatch⟩
    · simp [runUntilBreak, h]
    · have hb := horder s' (readyEvents (env s).ready s'.interest)
      obtain ⟨t, hd, hpt, hstop', hacc⟩ := hbatch _ hb
      simp only [runUntilBreak, ht, hd]
      exact ih t (hs.step ⟨env s, s', _, hr.good, ht, hb, hacc, hd⟩) hstop' (by omega)

end

theorem reachable_admitted :
    ∃ s : EpollState, Reachable (· = EpollState.init ⟨3, 1, 4⟩) (GoodStep .little ⟨3, 1, 4⟩ [7] 1) s ∧
      s.numConnectedClients = 1 ∧ s.conns 0 = ⟨5, 0, .sendFileSize⟩ := by
  have h0 : Reachable (· = EpollState.init ⟨3, 1, 4⟩) (GoodStep .little ⟨3, 1, 4⟩ [7] 1)
      (EpollState.init ⟨3, 1, 4⟩) := .init rfl
  exact ⟨_, h0.step ⟨⟨false, false, fun fd => if fd = 4 then ⟨true, false, false⟩ else .none,
    ⟨5, false, 0, 0, 0⟩, fun _ => ⟨0, 0, 0⟩⟩, _, _,
    fun i hi => absurd hi (Nat.not_lt_zero i), rfl, List.Perm.refl _,
    atAccept_singleton (.inr ⟨by decide, by decide⟩), rfl⟩, rfl, rfl⟩

/-- The client of `reachable_admitted`, with `max_conns = 1` reached: the kernel of
`servingRound`, which serves every reachable state, with its events in the order it returns
them, brings the loop to its `break`. -/
theorem epoll_loop_breaks_one_byte :
    ∃ s : EpollState, (⟨3, 1, 4⟩ : FileshareServer).srcFileSize = ([7] : List UInt8).length ∧
      (1 : Nat) < 2^32 ∧
      Reachable (· = EpollState.init ⟨3, 1, 4⟩) (GoodStep .little ⟨3, 1, 4⟩ [7] 1) s ∧
      (s.numConnectedClients = 1 ∨ s.receivedSigint = true) ∧
      (∀ t, Reachable (· = EpollState.init ⟨3, 1, 4⟩) (GoodStep .little ⟨3, 1, 4⟩ [7] 1) t →
        (servingRound [7] t.toLoopState).Serving [7] t.toLoopState) ∧
      (∀ (_ : EpollState) (l : List (Nat × Readiness)), l.Perm l) ∧
      s.conns 0 = ⟨5, 0, .sendFileSize⟩ ∧
      runUntilBreak .little ⟨3, 1, 4⟩ [7] 1 (fun t => servingRound [7] t.toLoopState)
        (fun _ l => l) (pending [7] s.toLoopState + 1) s = true := by
  obtain ⟨s, hs, hn, hc⟩ := reachable_admitted
  have henv : ∀ t, Reachable (· = EpollState.init ⟨3, 1, 4⟩) (GoodStep .little ⟨3, 1, 4⟩ [7] 1) t →
      (servingRound [7] t.toLoopState).Serving [7] t.toLoopState :=
    fun _ ht => servingRound_serving (wireInv_reachable rfl (by decide) ht).2
  exact ⟨s, rfl, by decide, hs, .inl hn, henv, fun _ l => List.Perm.refl l, hc,
    epoll_loop_breaks rfl (by decide) hs (.inl hn) _ henv _ fun _ l => List.Perm.refl l⟩

end NetworkingHowto.Server.Epoll
