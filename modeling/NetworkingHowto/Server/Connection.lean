import NetworkingHowto.Server.PollSlot
import NetworkingHowto.Server.PollProgress
import NetworkingHowto.Server.EpollSlot

/-! One connection as the three drivers serve it: `thread_func` of the thread-per-connection
server (`ttas-lock.c`, run with `server-poll.c`'s protocol steps since `server-common.h` is not
among the sources), and one slot of the poll or the epoll loop, on blocking sockets. -/
namespace NetworkingHowto.Server
open Bytes

/-- Where `thread_func` is: before `server_send_file_size`, at the test of
`while (src_file_offset < src_file_size)`, or returned. -/
inductive ThreadPc where
  | sendSize | blockLoop | returned
deriving DecidableEq, Repr

/-- `thread_func` between two calls: where it is, its record `args->conn`, and (ghost) the
bytes its socket has received. -/
structure ThreadState where
  pc : ThreadPc
  conn : FileshareConnection
  wire : List UInt8
deriving DecidableEq, Repr

/-- The thread as `main` starts it: the record `calloc` zeroed, holding the socket that
`server_accept_connection_request` stored. -/
def ThreadState.start (fd : Int) : ThreadState := ⟨.sendSize, ⟨fd, 0, .connectionEmpty⟩, []⟩

/-- One call of `thread_func` on the kernel's answers `io`: the header, or one pass of the
block loop. A `false` return, or the end of the loop, closes the socket and returns. -/
def threadStep (e : Endian) (server : FileshareServer) (F : List UInt8) (t : ThreadState)
    (io : StepIo) : ThreadState :=
  match t.pc with
  | .sendSize =>
    let r := serverSendFileSize e server t.conn io
    ⟨if r.success then .blockLoop else .returned, r.conn, t.wire ++ r.sent⟩
  | .blockLoop =>
    if t.conn.srcFileOffset < server.srcFileSize then
      let r := serverSendFileBlock server F t.conn io
      ⟨if r.success then .blockLoop else .returned, r.conn, t.wire ++ r.sent⟩
    else { t with pc := .returned }
  | .returned => t

/-- The answers a blocking socket and the fixed file `F` can give the thread's next call: the
header goes out whole or fails, a block's `pread` and `write` are allowed ones, and a failed
`write` never reports `EAGAIN`. -/
def ThreadState.IoOk (F : List UInt8) (t : ThreadState) (io : StepIo) : Prop :=
  (t.pc = .sendSize → io.HeaderWhole) ∧ (t.pc = .blockLoop → io.Allowed F t.conn) ∧ io.Blocking

def ThreadStep (e : Endian) (server : FileshareServer) (F : List UInt8) (t t' : ThreadState) :
    Prop :=
  ∃ io, t.IoOk F io ∧ t' = threadStep e server F t io

theorem serverSendFileSize_blocking {e : Endian} {server : FileshareServer}
    {conn : FileshareConnection} {io : StepIo} (hw : io.HeaderWhole) (hb : io.Blocking)
    (hs : (serverSendFileSize e server conn io).success = true) :
    (serverSendFileSize e server conn io).conn.state = .sendDataBlock := by
  unfold serverSendFileSize at hs ⊢
  rcases hw with hw | hw
  · simp [hw, sizeT]
  · simp only [hw, sizeT_neg_one, SIZE_MAX] at hs
    simp [hb hw] at hs

/-- What `thread_func` keeps: its socket in step with its record, the record as `calloc` left
it until the header step, and streaming inside the block loop. -/
structure ThreadInv (F : List UInt8) (t : ThreadState) : Prop where
  slot : WireSlot F t.conn t.wire
  start : t.pc = .sendSize → t.conn.state = .connectionEmpty
  loop : t.pc = .blockLoop → t.conn.state = .sendDataBlock

theorem ThreadInv.init (F : List UInt8) (fd : Int) : ThreadInv F (ThreadState.start fd) :=
  ⟨⟨rfl, fun _ => rfl, nofun⟩, fun _ => rfl, nofun⟩

theorem ThreadInv.step {e : Endian} {server : FileshareServer} {F : List UInt8}
    (hS : server.srcFileSize = F.length) {t : ThreadState} {io : StepIo} (h : ThreadInv F t)
    (hio : t.IoOk F io) : ThreadInv F (threadStep e server F t io) := by
  obtain ⟨hhead, hblock, hb⟩ := hio
  obtain ⟨pc, conn, w⟩ := t
  cases pc with
  | sendSize =>
    have hw := hhead rfl
    simp only [threadStep]
    refine ⟨h.slot.sendFileSize hS (.inl (h.start rfl))
      (by rcases hw with hw | hw <;> simp [StepIo.WriteOk, hw]) hw.not_stale,
      fun hp => (by split at hp <;> cases hp), fun hl => ?_⟩
    split at hl
    · exact serverSendFileSize_blocking hw hb ‹_›
    · cases hl
  | blockLoop =>
    have hs : conn.state = .sendDataBlock := h.loop rfl
    simp only [threadStep]
    split
    · have hr : sendOnWritable e server F conn io = some (serverSendFileBlock server F conn io) := by
        simp [sendOnWritable, hs]
      refine ⟨h.slot.send hS ⟨hblock rfl, fun h' => by simp [hs] at h'⟩ hr,
        fun hp => (by split at hp <;> cases hp), fun hl => ?_⟩
      split at hl
      · rename_i hsucc
        refine (serverSendFileBlock_state hs).resolve_right fun h' => ?_
        simp [(serverSendFileBlock_success server F conn io hs).1.mpr h'] at hsucc
      · cases hl
    · exact ⟨h.slot, nofun, nofun⟩
  | returned => exact h

theorem ThreadInv.reachable {e : Endian} {server : FileshareServer} {F : List UInt8}
    (hS : server.srcFileSize = F.length) {fd : Int} {t : ThreadState}
    (ht : Reachable (· = ThreadState.start fd) (ThreadStep e server F) t) : ThreadInv F t := by
  induction ht with
  | init h => exact h ▸ ThreadInv.init F fd
  | step _ hst ih =>
    obtain ⟨io, hio, rfl⟩ := hst
    exact ih.step hS hio

section
variable {e : Endian} {server : FileshareServer} {F : List UInt8}

/-- The size header goes out once, before any data byte, under every driver. Over every run
of the poll loop (`max_conns < 2^64`) or of the epoll loop (`max_conns < 2^32`) in which slot
`i`'s steps get good answers (a `write` moves at most what it is asked for or fails, with any
`errno`, short of a short header `write` meeting a stale `EAGAIN`, which the whole-or-nothing
header write of `HeaderWhole` rules out), whatever the other slots get and in whatever order
their events come, and over every run of `thread_func` answered as a blocking socket can
answer, what the connection's socket has received is a prefix of the header and the file,
exactly the header and the file up to the offset while streaming, and all of it once the
transfer finished at the end of a non-empty file. -/
theorem header_sent_once_before_data (hS : server.srcFileSize = F.length) (i : Nat) :
    (∀ maxConns < 2^64, ∀ s, Reachable (· = Poll.PollState.init server)
        (Poll.SlotStep e server F maxConns (SlotGood F) i) s →
      HeaderOnce F (s.conns i) (s.wire i)) ∧
    (∀ maxConns < 2^32, ∀ s, Reachable (· = Epoll.EpollState.init server)
        (Epoll.SlotStep e server F maxConns (SlotGood F) i) s →
      HeaderOnce F (s.conns i) (s.wire i)) ∧
    (∀ fd t, Reachable (· = ThreadState.start fd) (ThreadStep e server F) t →
      HeaderOnce F t.conn t.wire) :=
  ⟨fun _ hmax _ hs => (Poll.slot_reachable hmax WireSlot.zero (SlotGood.step hS) hs).2.headerOnce,
    fun _ hmax _ hs => (Epoll.slot_reachable hmax WireSlot.zero (SlotGood.step hS) hs).2.headerOnce,
    fun _ _ ht => (ThreadInv.reachable hS ht).slot.headerOnce⟩

end

theorem thread_reachable_one_byte :
    Reachable (· = ThreadState.start 5) (ThreadStep .little ⟨3, 1, 4⟩ [7])
      ⟨.returned, ⟨5, 1, .transferFinished⟩, be64 1 ++ [7]⟩ := by
  have h0 : Reachable (· = ThreadState.start 5) (ThreadStep .little ⟨3, 1, 4⟩ [7])
      (ThreadState.start 5) := .init rfl
  have h1 := h0.step ⟨⟨-1, 8, 0⟩, ⟨fun _ => .inl rfl, nofun, nofun⟩, rfl⟩
  refine h1.step ⟨⟨1, 1, 0⟩, ⟨nofun, fun _ => ?_, nofun⟩, rfl⟩
  unfold StepIo.Allowed StepIo.PreadOk StepIo.WriteOk
  decide

/-- The header-once law on that run of `thread_func`. -/
theorem header_sent_once_before_data_one_byte :
    (⟨3, 1, 4⟩ : FileshareServer).srcFileSize = ([7] : List UInt8).length ∧
    HeaderOnce [7] ⟨5, 1, .transferFinished⟩ (be64 1 ++ [7]) :=
  ⟨rfl, (@header_sent_once_before_data .little ⟨3, 1, 4⟩ [7] rfl 0).2.2 5 _
    thread_reachable_one_byte⟩

section
variable {e : Endian} {server : FileshareServer} {F : List UInt8}

end

end NetworkingHowto.Server
