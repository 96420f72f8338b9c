import NetworkingHowto.Server.EpollLoop
import Mathlib.Data.List.Nodup

/-! The epoll loop's invariant when `max_conns < 2^32`: the table invariant, and an interest
list that holds exactly the listening socket and each live slot's socket under its own tag. -/
namespace NetworkingHowto.Server.Epoll
open NetworkingHowto.Bytes

/-! ### The `epoll_ctl` wrappers -/

theorem ctlOrExit_ok {msg : String} {o : Option (List Registration)} {l : List Registration}
    (h : ctlOrExit msg o = .ok l) : o = some l := by
  cases o with
  | none => cases h
  | some l => cases h; rfl

theorem epollCtlAdd_some {fds : List Int} {l l' : List Registration} {reg : Registration}
    (h : epollCtlAdd fds l reg = some l') :
    l' = l ++ [reg] ∧ reg.fd ∈ fds ∧ ∀ r ∈ l, r.fd ≠ reg.fd := by
  unfold epollCtlAdd at h
  split_ifs at h with hc
  cases h
  exact ⟨rfl, hc⟩

theorem epollCtlDel_some {fds : List Int} {l l' : List Registration} {fd : Int}
    (h : epollCtlDel fds l fd = some l') :
    l' = l.filter (fun r => r.fd != fd) ∧ fd ∈ fds ∧ ∃ r ∈ l, r.fd = fd := by
  unfold epollCtlDel at h
  split_ifs at h with hc
  cases h
  exact ⟨rfl, hc⟩

theorem mem_filter_fd {l : List Registration} (hnd : (l.map Registration.fd).Nodup)
    {reg0 : Registration} (h0 : reg0 ∈ l) (reg : Registration) :
    reg ∈ l.filter (fun r => r.fd != reg0.fd) ↔ reg ∈ l ∧ reg ≠ reg0 := by
  simp only [List.mem_filter, bne_iff_ne, ne_eq]
  exact and_congr_right fun hr =>
    ⟨fun hfd heq => hfd (heq ▸ rfl), fun hne hfd => hne (List.inj_on_of_nodup_map hnd hr h0 hfd)⟩

theorem nodup_filter_fd {l : List Registration} (hnd : (l.map Registration.fd).Nodup)
    (p : Registration → Bool) : ((l.filter p).map Registration.fd).Nodup :=
  hnd.sublist ((List.filter_sublist l).map _)

theorem nodup_append_fd {l : List Registration} (hnd : (l.map Registration.fd).Nodup)
    {reg : Registration} (hfresh : ∀ r ∈ l, r.fd ≠ reg.fd) :
    ((l ++ [reg]).map Registration.fd).Nodup := by
  rw [List.map_append, List.map_singleton, List.nodup_append_comm]
  exact List.nodup_cons.mpr ⟨fun hm => by
    obtain ⟨r, hr, hfd⟩ := List.mem_map.mp hm
    exact hfresh r hr hfd, hnd⟩

/-! ### What the interest list should hold -/

def listenReg (server : FileshareServer) : Registration := ⟨server.listenSockFd, .inOnly, 0⟩

def slotReg (conns : Nat → FileshareConnection) (i : Nat) : Registration :=
  ⟨(conns i).clientSockFd, .outHup, 1 + i⟩

theorem slotReg_ne_listenReg (server : FileshareServer) (conns : Nat → FileshareConnection)
    (i : Nat) : slotReg conns i ≠ listenReg server := fun h => by
  have := congrArg Registration.tag h
  simp [slotReg, listenReg] at this

theorem slotReg_inj {c c' : Nat → FileshareConnection} {i j : Nat}
    (h : slotReg c i = slotReg c' j) : i = j := by
  have := congrArg Registration.tag h
  simp only [slotReg] at this
  omega

/-- The registrations the loop means `epollfd` to watch in state `s`. -/
def Registered (server : FileshareServer) (s : EpollState) (reg : Registration) : Prop :=
  (s.acceptNewConnectionsPrev = true ∧ reg = listenReg server) ∨
    ∃ i < s.numConnectedClients, (s.conns i).state.live ∧ reg = slotReg s.conns i

theorem registered_update {server : FileshareServer} {s t : EpollState} {i : Nat}
    (hi : i < s.numConnectedClients) (x : FileshareConnection)
    (hc : t.conns = Function.update s.conns i x) (hn : t.numConnectedClients = s.numConnectedClients)
    (hp : t.acceptNewConnectionsPrev = s.acceptNewConnectionsPrev) (reg : Registration) :
    Registered server t reg ↔ (Registered server s reg ∧ reg ≠ slotReg s.conns i) ∨
      (x.state.live ∧ reg = ⟨x.clientSockFd, .outHup, 1 + i⟩) := by
  have hslot : ∀ j, j ≠ i → slotReg t.conns j = slotReg s.conns j := fun j hj => by
    simp [slotReg, hc, Function.update_noteq hj]
  unfold Registered
  rw [hn, hp]
  constructor
  · rintro (⟨hpr, rfl⟩ | ⟨j, hj, hl, rfl⟩)
    · exact .inl ⟨.inl ⟨hpr, rfl⟩, (slotReg_ne_listenReg server _ i).symm⟩
    · by_cases hji : j = i
      · subst hji
        right
        simp only [hc, Function.update_same] at hl
        exact ⟨hl, by simp [slotReg, hc]⟩
      · rw [hc, Function.update_noteq hji] at hl
        exact .inl ⟨.inr ⟨j, hj, hl, hslot j hji⟩,
          fun h => hji (slotReg_inj ((hslot j hji).symm.trans h))⟩
  · rintro (⟨⟨hpr, rfl⟩ | ⟨j, hj, hl, rfl⟩, hne⟩ | ⟨hl, rfl⟩)
    · exact .inl ⟨hpr, rfl⟩
    · have hji : j ≠ i := fun h => hne (h ▸ rfl)
      exact .inr ⟨j, hj, by rwa [hc, Function.update_noteq hji], (hslot j hji).symm⟩
    · exact .inr ⟨i, hi, by rwa [hc, Function.update_same], by simp [slotReg, hc]⟩

theorem registered_newSlot {server : FileshareServer} {s t : EpollState} (x : FileshareConnection)
    (hx : x.state.live) (hc : t.conns = Function.update s.conns s.numConnectedClients x)
    (hn : t.numConnectedClients = s.numConnectedClients + 1)
    (hp : t.acceptNewConnectionsPrev = s.acceptNewConnectionsPrev) (reg : Registration) :
    Registered server t reg ↔
      Registered server s reg ∨ reg = ⟨x.clientSockFd, .outHup, 1 + s.numConnectedClients⟩ := by
  have hslot : ∀ j < s.numConnectedClients, t.conns j = s.conns j := fun j hj => by
    rw [hc, Function.update_noteq (by omega)]
  unfold Registered
  rw [hn, hp]
  constructor
  · rintro (h | ⟨j, hj, hl, rfl⟩)
    · exact .inl (.inl h)
    · rcases Nat.lt_succ_iff_lt_or_eq.mp hj with hj | rfl
      · rw [hslot j hj] at hl
        exact .inl (.inr ⟨j, hj, hl, by simp [slotReg, hslot j hj]⟩)
      · exact .inr (by simp [slotReg, hc])
  · rintro ((h | ⟨j, hj, hl, rfl⟩) | rfl)
    · exact .inl h
    · exact .inr ⟨j, by omega, by rwa [hslot j hj], by simp [slotReg, hslot j hj]⟩
    · exact .inr ⟨_, Nat.lt_succ_self _, by rwa [hc, Function.update_same],
        by simp [slotReg, hc]⟩

/-! ### The invariant -/

structure EpollInv (server : FileshareServer) (maxConns : Nat) (s : EpollState) : Prop where
  table : TableInv maxConns s.toLoopState
  interest : ∀ reg, reg ∈ s.interest ↔ Registered server s reg
  nodup : (s.interest.map Registration.fd).Nodup
  held : ∀ reg ∈ s.interest, reg.fd ∈ s.openFds

theorem EpollInv.init (server : FileshareServer) (maxConns : Nat) :
    EpollInv server maxConns (EpollState.init server) where
  table := TableInv.init server maxConns
  interest reg := by
    simp [EpollState.init, Registered, LoopState.init, listenReg]
  nodup := List.nodup_singleton _
  held reg h := by
    simp only [EpollState.init, List.mem_singleton] at h
    subst h
    simp [EpollState.init, LoopState.init]

theorem EpollInv.tags_nodup {server : FileshareServer} {maxConns : Nat} {s : EpollState}
    (h : EpollInv server maxConns s) : (s.interest.map Registration.tag).Nodup := by
  refine (List.Nodup.of_map _ h.nodup).map_on fun a ha b hb hab => ?_
  rcases (h.interest a).mp ha with ⟨-, rfl⟩ | ⟨i, -, -, rfl⟩ <;>
    rcases (h.interest b).mp hb with ⟨-, rfl⟩ | ⟨j, -, -, rfl⟩ <;>
    simp only [listenReg, slotReg] at hab ⊢
  · omega
  · omega
  · rw [show i = j by omega]

theorem epollFinish_ok {s t : EpollState} {i : Nat} (h : epollFinish s i = .ok t) :
    t = { s with
      interest := s.interest.filter fun r => r.fd != (s.conns i).clientSockFd
      openFds := s.openFds.erase (s.conns i).clientSockFd
      conns := Function.update s.conns i { s.conns i with state := .transferFinished }
      numActiveClients := decSize s.numActiveClients } := by
  unfold epollFinish at h
  obtain ⟨il, hil, h⟩ := ok_of_bind_ok h
  obtain ⟨fds, hfds, h⟩ := ok_of_bind_ok h
  cases h
  rw [(epollCtlDel_some (ctlOrExit_ok hil)).1, serverCloseConnSocket_ok hfds]

theorem epollServeSlot_spec {e : Endian} {server : FileshareServer} {F : List UInt8}
    {io : Nat → StepIo} {u u' : EpollState} {i : Nat} (hl : (u.conns i).state.live)
    {ev : Readiness} (hs : epollServeSlot e server F io u i ev = .ok u') :
    ∃ (x : FileshareConnection) (w : Nat → List UInt8),
      x.clientSockFd = (u.conns i).clientSockFd ∧
      ((x.state.live ∧ u' = { u with conns := Function.update u.conns i x, wire := w }) ∨
        (x.state = .transferFinished ∧ u' = { u with
          interest := u.interest.filter fun r => r.fd != x.clientSockFd
          openFds := u.openFds.erase x.clientSockFd
          conns := Function.update u.conns i x
          numActiveClients := decSize u.numActiveClients
          wire := w })) := by
  unfold epollServeSlot at hs
  split_ifs at hs with hhup hout
  · exact ⟨{ u.conns i with state := .transferFinished }, u.wire, rfl, .inr ⟨rfl, epollFinish_ok hs⟩⟩
  · obtain ⟨r, hr, hiff, hne, hfd⟩ := sendOnWritable_live e server F (io i) hl
    rw [hr] at hs
    dsimp only at hs
    split_ifs at hs with hsucc
    · cases hs
      have hlive : r.conn.state.live := by
        have hnf : r.conn.state ≠ .transferFinished := fun hf => by simp [hiff.mpr hf] at hsucc
        cases hc : r.conn.state <;> simp_all [TransferState.live]
      exact ⟨r.conn, _, hfd, .inl ⟨hlive, rfl⟩⟩
    · rw [epollFinish_ok hs]
      refine ⟨{ r.conn with state := .transferFinished }, Function.update u.wire i (u.wire i ++ r.sent),
        hfd, .inr ⟨rfl, ?_⟩⟩
      simp only [Function.update_same, Function.update_idem]
  · cases hs
    exact ⟨u.conns i, u.wire, rfl, .inl ⟨hl, by rw [Function.update_eq_self]⟩⟩

theorem EpollInv.replace {server : FileshareServer} {maxConns : Nat} {s : EpollState}
    (h : EpollInv server maxConns s) {i : Nat}
    (hi : i < s.numConnectedClients) (hl : (s.conns i).state.live) {x : FileshareConnection}
    (hx : x.state.live) (hfd : x.clientSockFd = (s.conns i).clientSockFd) (w : Nat → List UInt8) :
    EpollInv server maxConns { s with conns := Function.update s.conns i x, wire := w } := by
  refine ⟨h.table.update hi x (fun he => by simp [he, TransferState.live] at hx) rfl rfl
    (by rw [if_pos hl, if_pos hx]), fun reg => ?_, h.nodup, h.held⟩
  rw [registered_update hi x, h.interest, hfd]
  · constructor
    · intro hr
      by_cases he : reg = slotReg s.conns i
      · exact .inr ⟨hx, he⟩
      · exact .inl ⟨hr, he⟩
    · rintro (⟨hr, -⟩ | ⟨-, rfl⟩)
      · exact hr
      · exact .inr ⟨i, hi, hl, rfl⟩
  all_goals rfl

theorem epollTop_some {server : FileshareServer} {maxConns : Nat} {r : Round}
    {s s' : EpollState} (ht : epollTop server maxConns r s = .ok (some s')) :
    (s.acceptNewConnectionsPrev = true ∧ s' = { s with
        receivedSigint := s.receivedSigint || r.sigint
        acceptNewConnectionsPrev := false
        interest := s.interest.filter fun reg => reg.fd != server.listenSockFd }) ∨
    ((s.acceptNewConnectionsPrev = true → s.numConnectedClients ≠ maxConns) ∧
      s' = { s with receivedSigint := s.receivedSigint || r.sigint }) := by
  unfold epollTop at ht
  dsimp only at ht
  split_ifs at ht with hbrk hdel
  · cases ht
  · obtain ⟨il, hil, ht⟩ := ok_of_bind_ok ht
    cases ht
    obtain ⟨rfl, -, -⟩ := epollCtlDel_some (ctlOrExit_ok hil)
    simp only [Bool.and_eq_true] at hdel
    exact .inl ⟨hdel.1, rfl⟩
  · cases ht
    exact .inr ⟨fun hp heq => hdel (by simp [hp, heq]), rfl⟩

theorem EpollInv.top {server : FileshareServer} {maxConns : Nat} {r : Round} {s s' : EpollState}
    (h : EpollInv server maxConns s)
    (ht : epollTop server maxConns r s = .ok (some s')) :
    EpollInv server maxConns s' ∧
      (s'.acceptNewConnectionsPrev = true → s'.numConnectedClients < maxConns) := by
  rcases epollTop_some ht with ⟨hprev, rfl⟩ | ⟨hne, rfl⟩
  · have hmem : listenReg server ∈ s.interest := (h.interest _).mpr (.inl ⟨hprev, rfl⟩)
    refine ⟨⟨h.table.of_eq rfl rfl rfl, fun reg => ?_, nodup_filter_fd h.nodup _,
      fun reg hr => h.held reg (List.mem_filter.mp hr).1⟩, nofun⟩
    rw [show server.listenSockFd = (listenReg server).fd from rfl, mem_filter_fd h.nodup hmem,
      h.interest]
    unfold Registered
    constructor
    · rintro ⟨⟨-, rfl⟩ | hslot, hne⟩
      · exact absurd rfl hne
      · exact .inr hslot
    · rintro (⟨hf, -⟩ | ⟨i, hi, hl, rfl⟩)
      · cases hf
      · exact ⟨.inr ⟨i, hi, hl, rfl⟩, slotReg_ne_listenReg server _ i⟩
  · exact ⟨⟨h.table.of_eq rfl rfl rfl, h.interest, h.nodup, h.held⟩,
      fun hp => lt_of_le_of_ne h.table.bound (hne hp)⟩

theorem epollTop_openFds {server : FileshareServer} {maxConns : Nat} {r : Round}
    {s s' : EpollState} (ht : epollTop server maxConns r s = .ok (some s')) :
    s'.openFds = s.openFds := by
  rcases epollTop_some ht with ⟨-, rfl⟩ | ⟨-, rfl⟩ <;> rfl

section
variable {server : FileshareServer} {maxConns : Nat} (hmax : maxConns < 2^32)
include hmax

theorem EpollInv.finish {s : EpollState} (h : EpollInv server maxConns s) {i : Nat}
    (hi : i < s.numConnectedClients) (hl : (s.conns i).state.live) (x : FileshareConnection)
    (hx : x.state = .transferFinished) (hfd : x.clientSockFd = (s.conns i).clientSockFd)
    (w : Nat → List UInt8) :
    EpollInv server maxConns { s with
      interest := s.interest.filter fun r => r.fd != x.clientSockFd
      openFds := s.openFds.erase x.clientSockFd
      conns := Function.update s.conns i x
      numActiveClients := decSize s.numActiveClients
      wire := w } := by
  have hmem : slotReg s.conns i ∈ s.interest := (h.interest _).mpr (.inr ⟨i, hi, hl, rfl⟩)
  rw [hfd]
  refine ⟨h.table.finish (by omega) hi hl x hx rfl rfl rfl, fun reg => ?_,
    nodup_filter_fd h.nodup _, fun reg hr => ?_⟩
  · rw [registered_update hi x, hx]
    · simp only [TransferState.live, Bool.false_eq_true, false_and, or_false]
      exact (mem_filter_fd h.nodup hmem reg).trans (and_congr_left' (h.interest reg))
    all_goals rfl
  · obtain ⟨hr, hne⟩ := List.mem_filter.mp hr
    exact (List.mem_erase_of_ne (by simpa using hne)).mpr (h.held reg hr)


theorem EpollInv.newSlot {s t : EpollState} (h : EpollInv server maxConns s)
    (hlt : s.numConnectedClients < maxConns) {acc : AcceptIo} (ha : epollAdmit acc s = .ok t) :
    EpollInv server maxConns t ∧ t.numConnectedClients = s.numConnectedClients + 1 ∧
      ∀ j < s.numConnectedClients, t.conns j = s.conns j := by
  unfold epollAdmit at ha
  obtain ⟨⟨b, conn⟩, -, ha⟩ := ok_of_bind_ok ha
  obtain ⟨il, hil, ha⟩ := ok_of_bind_ok ha
  cases ha
  obtain ⟨rfl, hin, hfresh⟩ := epollCtlAdd_some (ctlOrExit_ok hil)
  have htag : (1 + s.numConnectedClients) % 2^32 = 1 + s.numConnectedClients :=
    Nat.mod_eq_of_lt (by omega)
  refine ⟨⟨h.table.newSlot hlt (by omega) _ rfl rfl rfl rfl, fun reg => ?_,
    nodup_append_fd h.nodup hfresh, fun reg hr => ?_⟩, rfl,
    fun j hj => Function.update_noteq (by omega) _ _⟩
  · rw [registered_newSlot { conn with state := .sendFileSize } rfl, List.mem_append,
      List.mem_singleton, h.interest, htag]
    all_goals rfl
  · rcases List.mem_append.mp hr with hr | hr
    · have := h.held reg hr
      dsimp only
      split <;> simp [this]
    · rw [List.mem_singleton.mp hr]
      exact hin

theorem EpollInv.serveSlot {e : Endian} {F : List UInt8} {io : Nat → StepIo} {u u' : EpollState}
    (h : EpollInv server maxConns u) {i : Nat} (hi : i < u.numConnectedClients)
    (hl : (u.conns i).state.live) {ev : Readiness}
    (hs : epollServeSlot e server F io u i ev = .ok u') :
    EpollInv server maxConns u' ∧ u'.numConnectedClients = u.numConnectedClients ∧
      ∀ j ≠ i, u'.conns j = u.conns j := by
  obtain ⟨x, w, hfd, ⟨hx, rfl⟩ | ⟨hx, rfl⟩⟩ := epollServeSlot_spec hl hs <;>
    refine ⟨?_, rfl, fun j hj => Function.update_noteq hj _ _⟩
  exacts [h.replace hi hl hx hfd w, h.finish hmax hi hl x hx hfd w]

end


/-! ### One batch of events -/

theorem mem_readyEvents {ready : Int → Readiness} {l : List Registration} {ev : Nat × Readiness}
    (h : ev ∈ readyEvents ready l) : ∃ reg ∈ l, ev.1 = reg.tag := by
  obtain ⟨reg, hreg, hev⟩ := List.mem_filterMap.mp h
  split at hev
  · cases hev
    exact ⟨reg, hreg, rfl⟩
  · cases hev

theorem readyEvents_tags (ready : Int → Readiness) (l : List Registration) :
    List.Sublist ((readyEvents ready l).map Prod.fst) (l.map Registration.tag) := by
  induction l with
  | nil => exact List.Sublist.slnil
  | cons reg l ih =>
    by_cases hc : ((ready reg.fd).mask reg.events).any
    · simpa [readyEvents, List.filterMap_cons, hc] using ih.cons₂ reg.tag
    · simpa [readyEvents, List.filterMap_cons, hc] using ih.cons reg.tag

/-- During the event loop, with the events `rest` still to come: the invariant, distinct tags,
tag 0 only while a client may still be admitted, and every other tag naming a live slot. -/
structure BatchInv (server : FileshareServer) (maxConns : Nat) (rest : List (Nat × Readiness))
    (u : EpollState) : Prop where
  inv : EpollInv server maxConns u
  tags : (rest.map Prod.fst).Nodup
  listen : ∀ ev ∈ rest, ev.1 = 0 → u.numConnectedClients < maxConns
  slots : ∀ ev ∈ rest, ev.1 ≠ 0 →
    ev.1 - 1 < u.numConnectedClients ∧ (u.conns (ev.1 - 1)).state.live

theorem BatchInv.rest_ne {server : FileshareServer} {maxConns : Nat} {x : Nat × Readiness}
    {rest : List (Nat × Readiness)} {u : EpollState} (hb : BatchInv server maxConns (x :: rest) u) :
    ∀ ev ∈ rest, ev.1 ≠ x.1 := fun _ hev heq =>
  (List.nodup_cons.mp hb.tags).1 (heq ▸ List.mem_map_of_mem Prod.fst hev)

theorem BatchInv.start {server : FileshareServer} {maxConns : Nat} {s : EpollState}
    (h : EpollInv server maxConns s)
    (hp : s.acceptNewConnectionsPrev = true → s.numConnectedClients < maxConns)
    {ready : Int → Readiness} {batch : List (Nat × Readiness)}
    (hb : batch.Perm (readyEvents ready s.interest)) : BatchInv server maxConns batch s := by
  have hreg : ∀ ev ∈ batch, ∃ reg, Registered server s reg ∧ ev.1 = reg.tag := fun ev hev => by
    obtain ⟨reg, hr, ht⟩ := mem_readyEvents (hb.subset hev)
    exact ⟨reg, (h.interest reg).mp hr, ht⟩
  refine ⟨h, (hb.map Prod.fst).nodup_iff.mpr (h.tags_nodup.sublist (readyEvents_tags ready _)),
    fun ev hev h0 => ?_, fun ev hev h0 => ?_⟩
  · obtain ⟨reg, ⟨hpr, rfl⟩ | ⟨i, -, -, rfl⟩, ht⟩ := hreg ev hev
    · exact hp hpr
    · simp [slotReg] at ht; omega
  · obtain ⟨reg, ⟨-, rfl⟩ | ⟨i, hi, hl, rfl⟩, ht⟩ := hreg ev hev
    · exact absurd ht h0
    · simp only [slotReg] at ht
      rw [ht, Nat.add_sub_cancel_left]
      exact ⟨hi, hl⟩

section
variable {server : FileshareServer} {maxConns : Nat} (hmax : maxConns < 2^32)
include hmax

theorem BatchInv.step {e : Endian} {F : List UInt8} {acc : AcceptIo} {io : Nat → StepIo} :
    ∀ x rest u u', BatchInv server maxConns (x :: rest) u →
      epollServeEvent e server F acc io u x = .ok u' → BatchInv server maxConns rest u'
  | ⟨tag, _⟩, rest, u, u', hb, hs => by
    have htags := (List.nodup_cons.mp hb.tags).2
    have hrest := hb.rest_ne
    unfold epollServeEvent at hs
    split_ifs at hs with h0
    · obtain ⟨hinv, hn, hc⟩ := hb.inv.newSlot hmax (hb.listen _ (List.mem_cons_self _ _) h0) hs
      refine ⟨hinv, htags, fun ev' hev' h0' => absurd (h0'.trans h0.symm) (hrest ev' hev'),
        fun ev' hev' hne => ?_⟩
      obtain ⟨hlt, hl⟩ := hb.slots ev' (List.mem_cons_of_mem _ hev') hne
      rw [hn, hc _ hlt]
      exact ⟨by omega, hl⟩
    · obtain ⟨hlt, hl⟩ := hb.slots _ (List.mem_cons_self _ _) h0
      obtain ⟨hinv, hn, hc⟩ := hb.inv.serveSlot hmax hlt hl hs
      refine ⟨hinv, htags, fun ev' hev' h0' => hn ▸ hb.listen ev' (List.mem_cons_of_mem _ hev') h0',
        fun ev' hev' hne => ?_⟩
      obtain ⟨hlt', hl'⟩ := hb.slots ev' (List.mem_cons_of_mem _ hev') hne
      have := hrest ev' hev'
      rw [hn, hc _ (by dsimp only at h0 ⊢; omega)]
      exact ⟨hlt', hl'⟩

theorem EpollInv.continues {e : Endian} {F : List UInt8} {s t : EpollState}
    (h : EpollInv server maxConns s) (hst : Continues e server F maxConns s t) :
    EpollInv server maxConns t := by
  obtain ⟨r, s', batch, ht, hb, hd⟩ := hst
  obtain ⟨h', hp⟩ := h.top ht
  unfold epollDispatch at hd
  split at hd
  · cases hd
  exact (foldlM_invariant (BatchInv server maxConns) (BatchInv.step hmax)
    (BatchInv.start h' hp hb) hd).inv

theorem EpollInv.reachable {e : Endian} {F : List UInt8} {s : EpollState}
    (hs : Reachable (· = EpollState.init server) (Continues e server F maxConns) s) :
    EpollInv server maxConns s :=
  hs.invariant (fun _ h => h ▸ EpollInv.init server maxConns) fun _ _ h hst => h.continues hmax hst

end


/-! ### Exits -/

theorem ctlOrExit_error {msg m : String} {o : Option (List Registration)}
    (h : ctlOrExit msg o = .error m) : m = msg := by
  cases o <;> cases h
  rfl

theorem EpollInv.top_break {server : FileshareServer} {maxConns : Nat} {r : Round} {s : EpollState}
    (h : EpollInv server maxConns s) (ht : epollTop server maxConns r s = .ok none) :
    ∀ i < s.numConnectedClients, (s.conns i).state = .transferFinished := by
  unfold epollTop at ht
  dsimp only at ht
  split_ifs at ht with hbrk
  · simp only [Bool.and_eq_true, decide_eq_true_eq] at hbrk
    exact h.table.all_finished hbrk.1
  · obtain ⟨_, -, ht⟩ := ok_of_bind_ok ht
    cases ht
  · cases ht

theorem epollAdmit_ne_unexpected {acc : AcceptIo} {s : EpollState} :
    epollAdmit acc s ≠ .error "Unexpected state!\n" := fun h => by
  unfold epollAdmit at h
  rcases error_of_bind_error h with ha | ⟨_, -, h⟩
  · exact serverAcceptConnectionRequest_ne_unexpected ha
  · rcases error_of_bind_error h with hc | ⟨_, -, hc⟩
    · exact absurd (ctlOrExit_error hc) (by decide)
    · cases hc

theorem epollFinish_ne_unexpected {s : EpollState} {i : Nat} :
    epollFinish s i ≠ .error "Unexpected state!\n" := fun h => by
  unfold epollFinish at h
  rcases error_of_bind_error h with hc | ⟨_, -, h⟩
  · exact absurd (ctlOrExit_error hc) (by decide)
  · rcases error_of_bind_error h with hc | ⟨_, -, hc⟩
    · exact absurd (serverCloseConnSocket_error hc) (by decide)
    · cases hc

theorem epollServeSlot_ne_unexpected {e : Endian} {server : FileshareServer} {F : List UInt8}
    {io : Nat → StepIo} {u : EpollState} {i : Nat} (hl : (u.conns i).state.live) {ev : Readiness} :
    epollServeSlot e server F io u i ev ≠ .error "Unexpected state!\n" := fun hs => by
  unfold epollServeSlot at hs
  split_ifs at hs with hhup hout
  · exact epollFinish_ne_unexpected hs
  · obtain ⟨r, hr, -⟩ := sendOnWritable_live e server F (io i) hl
    rw [hr] at hs
    dsimp only at hs
    split_ifs at hs
    · cases hs
    · exact epollFinish_ne_unexpected hs
  · cases hs

theorem BatchInv.dispatch_ne_unexpected {e : Endian} {server : FileshareServer} {F : List UInt8}
    {maxConns : Nat} (hmax : maxConns < 2^32) {r : Round} {batch : List (Nat × Readiness)}
    {s : EpollState} (hb : BatchInv server maxConns batch s) :
    epollDispatch e server F r batch s ≠ .error "Unexpected state!\n" := fun hd => by
  unfold epollDispatch at hd
  split at hd
  · exact absurd (Except.error.inj hd) (by decide)
  obtain ⟨⟨tag, ev⟩, rest, u, hu, hx⟩ := foldlM_error _ (BatchInv.step hmax) hb hd
  unfold epollServeEvent at hx
  split_ifs at hx with h0
  · exact epollAdmit_ne_unexpected hx
  · exact epollServeSlot_ne_unexpected (hu.slots _ (List.mem_cons_self _ _) h0).2 hx


/-! ### Every `epoll_ctl` and `close` succeeds -/

theorem epollFinish_succeeds {s : EpollState} {i : Nat}
    (hfd : (s.conns i).clientSockFd ∈ s.openFds)
    (hreg : ∃ reg ∈ s.interest, reg.fd = (s.conns i).clientSockFd) : ∃ t, epollFinish s i = .ok t := by
  simp [epollFinish, epollConnStopWaitingOnSocket, epollCtlDel, ctlOrExit, serverCloseConnSocket,
    hfd, hreg]

theorem epollServeSlot_openFds {e : Endian} {server : FileshareServer} {F : List UInt8}
    {io : Nat → StepIo} {u u' : EpollState} {i : Nat} (hl : (u.conns i).state.live)
    {ev : Readiness} (hs : epollServeSlot e server F io u i ev = .ok u') :
    ∀ fd ∈ u'.openFds, fd ∈ u.openFds := by
  obtain ⟨x, w, -, ⟨-, rfl⟩ | ⟨-, rfl⟩⟩ := epollServeSlot_spec hl hs
  · exact fun _ => id
  · exact fun _ => List.mem_of_mem_erase

section
variable {server : FileshareServer} {maxConns : Nat}

theorem EpollInv.top_succeeds {r : Round} {s : EpollState} (h : EpollInv server maxConns s) :
    ∃ o, epollTop server maxConns r s = .ok o := by
  unfold epollTop
  dsimp only
  split_ifs with hbrk hdel
  · exact ⟨_, rfl⟩
  · have hprev : s.acceptNewConnectionsPrev = true := by
      simp only [Bool.and_eq_true] at hdel; exact hdel.1
    have hmem : listenReg server ∈ s.interest := (h.interest _).mpr (.inl ⟨hprev, rfl⟩)
    have hfd : server.listenSockFd ∈ s.openFds := h.held _ hmem
    have hreg : ∃ reg ∈ s.interest, reg.fd = server.listenSockFd := ⟨_, hmem, rfl⟩
    simp [epollServerStopWaitingForClient, epollCtlDel, ctlOrExit, hfd, hreg]
  · exact ⟨_, rfl⟩

theorem EpollInv.serveSlot_succeeds {e : Endian} {F : List UInt8} {io : Nat → StepIo}
    {u : EpollState} (h : EpollInv server maxConns u) {i : Nat} (hi : i < u.numConnectedClients)
    (hl : (u.conns i).state.live) (ev : Readiness) :
    ∃ u', epollServeSlot e server F io u i ev = .ok u' := by
  have hmem : slotReg u.conns i ∈ u.interest := (h.interest _).mpr (.inr ⟨i, hi, hl, rfl⟩)
  have hfd : (u.conns i).clientSockFd ∈ u.openFds := h.held _ hmem
  unfold epollServeSlot
  split_ifs with hhup hout
  · exact epollFinish_succeeds hfd ⟨_, hmem, rfl⟩
  · obtain ⟨r, hr, -, -, hfdr⟩ := sendOnWritable_live e server F (io i) hl
    rw [hr]
    dsimp only
    split_ifs
    · exact ⟨_, rfl⟩
    · exact epollFinish_succeeds (by simpa [hfdr] using hfd) ⟨_, hmem, by simp [hfdr, slotReg]⟩
  · exact ⟨_, rfl⟩

theorem EpollInv.admit_succeeds {u : EpollState} (h : EpollInv server maxConns u) {acc : AcceptIo}
    (hacc : acc.Fresh u.openFds) : ∃ u', epollAdmit acc u = .ok u' := by
  obtain ⟨h0, hfresh, h1, h2, h3⟩ := hacc
  have hne : acc.acceptRet ≠ -1 := by omega
  have hnot : ∀ r ∈ u.interest, r.fd ≠ acc.acceptRet := fun r hr he => hfresh (he ▸ h.held r hr)
  simp [epollAdmit, serverAcceptConnectionRequest, epollConnWaitOnSocket, epollCtlAdd, ctlOrExit,
    hne, h1, h2, h3]
  rw [if_pos hnot]
  exact ⟨_, rfl⟩

theorem BatchInv.dispatch_succeeds (hmax : maxConns < 2^32) {e : Endian} {F : List UInt8}
    {r : Round} {batch : List (Nat × Readiness)} {s : EpollState}
    (hb : BatchInv server maxConns batch s) (hw : r.waitFails = false)
    (hacc : AtAccept e server F r.accept.Fresh r batch s) :
    ∃ t, epollDispatch e server F r batch s = .ok t := by
  unfold epollDispatch
  rw [if_neg (by simp [hw])]
  refine foldlM_ok (fun rest u => BatchInv server maxConns rest u ∧ ∃ pre, batch = pre ++ rest ∧
      pre.foldlM (epollServeEvent e server F r.accept r.io) s = .ok u)
    (fun x rest u ⟨hu, pre, hpre, hfold⟩ => ?_) ⟨hb, [], rfl, rfl⟩
  obtain ⟨u', hs⟩ : ∃ u', epollServeEvent e server F r.accept r.io u x = .ok u' := by
    unfold epollServeEvent
    split_ifs with h0
    · exact hu.inv.admit_succeeds (hacc pre x.2 rest u (by rw [hpre, ← h0]) hfold)
    · obtain ⟨hlt, hl⟩ := hu.slots _ (List.mem_cons_self _ _) h0
      exact hu.inv.serveSlot_succeeds hlt hl x.2
  refine ⟨u', hs, BatchInv.step hmax _ _ _ _ hu hs, pre ++ [x], by simp [hpre], ?_⟩
  simp [List.foldlM_append, hfold, hs]

end


/-! ### The loop over whole runs -/

section
variable {e : Endian} {server : FileshareServer} {F : List UInt8} {maxConns : Nat}

/-- Over every run of the epoll loop, for `max_conns < 2^32` (every run of `Step` is one of
`Continues`): the table invariant holds; the interest list registers exactly the listening
socket, while new connections are accepted, and the socket of every live slot, each under its
own descriptor; no iteration, with its batch in any order, ends in `Unexpected state!`; and
the loop breaks only once every admitted slot is `TRANSFER_FINISHED`. -/
theorem epoll_loop_invariant (hmax : maxConns < 2^32) {s : EpollState}
    (hs : Reachable (· = EpollState.init server) (Continues e server F maxConns) s) :
    TableInv maxConns s.toLoopState ∧
    (∀ reg, reg ∈ s.interest ↔ Registered server s reg) ∧
    (s.interest.map Registration.fd).Nodup ∧
    (∀ r s' batch, epollTop server maxConns r s = .ok (some s') →
      batch.Perm (readyEvents r.ready s'.interest) →
      epollDispatch e server F r batch s' ≠ .error "Unexpected state!\n") ∧
    (∀ r, epollTop server maxConns r s = .ok none →
      ∀ i < s.numConnectedClients, (s.conns i).state = .transferFinished) := by
  have h := EpollInv.reachable hmax hs
  refine ⟨h.table, h.interest, h.nodup, fun r s' batch ht hb => ?_, fun _ => h.top_break⟩
  obtain ⟨h', hp⟩ := h.top ht
  exact (BatchInv.start h' hp hb).dispatch_ne_unexpected hmax

/-- After one client came and went, a second one is being served from slot 1. -/
theorem epoll_loop_invariant_second_client :
    (3 : Nat) < 2^32 ∧
    Reachable (· = EpollState.init wrapServer) (Continues .little wrapServer [7] 3) (serving 1) ∧
    (serving 1).conns 1 = ⟨5, 0, .sendFileSize⟩ ∧
    (TableInv 3 (serving 1).toLoopState ∧
      (∀ reg, reg ∈ (serving 1).interest ↔ Registered wrapServer (serving 1) reg) ∧
      ((serving 1).interest.map Registration.fd).Nodup) := by
  have hs : Reachable (· = EpollState.init wrapServer) (Continues .little wrapServer [7] 3)
      (serving 1) :=
    (((reachable_idle (by decide) (by decide)).step (step_idle_serving (by decide))).mono
      fun _ _ h => h.continues)
  have h := epoll_loop_invariant (by decide) hs
  exact ⟨by decide, hs, rfl, h.1, h.2.1, h.2.2.1⟩

/-- Progress: from every state a run of the loop reaches, for `max_conns < 2^32`, an iteration
in which `epoll_wait` succeeds does not exit, whatever order its batch comes in, as long as
`accept`, when it is called, returns a descriptor the process does not hold then and each
`setsockopt` succeeds: every `epoll_ctl` and `close` the loop issues succeeds. -/
theorem epoll_iteration_succeeds (hmax : maxConns < 2^32) {s : EpollState}
    (hs : Reachable (· = EpollState.init server) (Continues e server F maxConns) s) {r : Round}
    (hw : r.waitFails = false) :
    ∃ o, epollTop server maxConns r s = .ok o ∧ ∀ s' ∈ o, ∀ batch : List (Nat × Readiness),
      batch.Perm (readyEvents r.ready s'.interest) →
      AtAccept e server F r.accept.Fresh r batch s' →
      ∃ t, epollDispatch e server F r batch s' = .ok t := by
  have h := EpollInv.reachable hmax hs
  obtain ⟨o, ho⟩ : ∃ o, epollTop server maxConns r s = .ok o := h.top_succeeds
  refine ⟨o, ho, fun s' hs' batch hb hacc => ?_⟩
  rw [Option.mem_def] at hs'
  subst hs'
  obtain ⟨h', hp⟩ := h.top ho
  exact (BatchInv.start h' hp hb).dispatch_succeeds hmax hw hacc

end

/-- After one client came and went, a second one connects: `accept` returns 5, which the
process no longer holds, and the pass does not exit. -/
theorem epoll_iteration_succeeds_second_client :
    (3 : Nat) < 2^32 ∧
    Reachable (· = EpollState.init wrapServer) (Continues .little wrapServer [7] 3) (idle 1) ∧
    (wrapRound (fun d => if d = 4 then .inOnly else .none) 5).waitFails = false ∧
    ∃ t, epollDispatch .little wrapServer [7] (wrapRound (fun d => if d = 4 then .inOnly else .none) 5)
      [(0, .inOnly)] (idle 1) = .ok t := by
  have hs : Reachable (· = EpollState.init wrapServer) (Continues .little wrapServer [7] 3) (idle 1) :=
    (reachable_idle (by decide) (by decide)).mono fun _ _ h => h.continues
  obtain ⟨o, ho, hd⟩ := epoll_iteration_succeeds (r := wrapRound (fun d => if d = 4 then .inOnly else .none) 5)
    (by decide) hs rfl
  rw [epollTop_accepting _ rfl rfl (by decide)] at ho
  cases ho
  exact ⟨by decide, hs, rfl, hd _ rfl _ (List.Perm.refl _)
    (atAccept_singleton (by unfold AcceptIo.Fresh; decide))⟩

end NetworkingHowto.Server.Epoll
