import NetworkingHowto.Server.Wire
import Mathlib.Algebra.Order.BigOperators.Group.Finset

/-! Progress of the event loops: each protocol step under full answers lowers what is left on
its slot. -/
namespace NetworkingHowto.Server
open Bytes

/-- What is left on slot `conn`, counted so that every step under full answers lowers it:
the header, then the bytes of the file not yet sent. -/
def remaining (F : List UInt8) (conn : FileshareConnection) : Nat :=
  match conn.state with
  | .sendFileSize => F.length + 2
  | .sendDataBlock => F.length - conn.srcFileOffset + 1
  | .connectionEmpty | .transferFinished => 0

def pending (F : List UInt8) (s : LoopState) : Nat :=
  ∑ i ∈ Finset.range s.numConnectedClients, remaining F (s.conns i)

/-- Full answers to a step of slot `conn`: the header goes out whole, and a block is read
whole (`TRANSFER_BLOCK_SIZE` bytes, or what is left of the file) and written whole. -/
def StepIo.Full (io : StepIo) (F : List UInt8) (conn : FileshareConnection) : Prop :=
  match conn.state with
  | .sendFileSize => io.writeRet = 8
  | .sendDataBlock =>
    io.preadRet = ((min TRANSFER_BLOCK_SIZE (F.length - conn.srcFileOffset) : Nat) : Int) ∧
      io.writeRet = io.preadRet
  | .connectionEmpty | .transferFinished => True

def Delivering (F : List UInt8) (conn : FileshareConnection) : Prop :=
  conn.state.live ∨ (conn.state = .transferFinished ∧ conn.srcFileOffset = F.length)

/-- A round in which the kernel serves every live slot of `s`: the wait succeeds, `accept`
fails or returns a fresh descriptor, every live socket is reported writable or hung up, and
every step gets good and full answers. -/
structure Round.Serving (r : Round) (F : List UInt8) (s : LoopState) : Prop where
  wait : r.waitFails = false
  accept : r.accept.Ok s.openFds
  good : r.Good F s
  ready : ∀ i < s.numConnectedClients, (s.conns i).state.live →
    (r.ready (s.conns i).clientSockFd).pollout = true ∨
      (r.ready (s.conns i).clientSockFd).pollhup = true
  full : ∀ i < s.numConnectedClients, (r.io i).Full F (s.conns i)

def Round.NoHangup (r : Round) (s : LoopState) : Prop :=
  ∀ i < s.numConnectedClients, (s.conns i).state.live →
    (r.ready (s.conns i).clientSockFd).pollhup = false

/-- The answers of a kernel that moves all that is asked: no `pread` and a whole header for
the header step, a whole block read and written for a data step, failures for a slot with no
step to take. -/
def fullIo (F : List UInt8) (conn : FileshareConnection) : StepIo :=
  match conn.state with
  | .sendFileSize => ⟨-1, 8, 0⟩
  | .sendDataBlock =>
    ⟨(min TRANSFER_BLOCK_SIZE (F.length - conn.srcFileOffset) : Nat),
      (min TRANSFER_BLOCK_SIZE (F.length - conn.srcFileOffset) : Nat), 0⟩
  | .connectionEmpty | .transferFinished => ⟨-1, -1, 0⟩

/-- A round of that kernel: the wait succeeds, no client connects, every socket is writable. -/
def servingRound (F : List UInt8) (s : LoopState) : Round :=
  ⟨false, false, fun _ => ⟨false, true, false⟩, ⟨-1, false, 0, 0, 0⟩, fun i => fullIo F (s.conns i)⟩

theorem remaining_pos {F : List UInt8} {conn : FileshareConnection} (hl : conn.state.live) :
    0 < remaining F conn := by
  unfold remaining
  cases hs : conn.state <;> simp [hs, TransferState.live] at hl ⊢

theorem remaining_of_not_live {F : List UInt8} {conn : FileshareConnection}
    (hl : ¬ conn.state.live) : remaining F conn = 0 := by
  unfold remaining
  cases hs : conn.state <;> simp [hs, TransferState.live] at hl ⊢

theorem sendOnWritable_progress {e : Endian} {server : FileshareServer} {F : List UInt8}
    {conn : FileshareConnection} {io : StepIo} {w : List UInt8}
    (hS : server.srcFileSize = F.length) (hw : WireOk F conn w) (hl : conn.state.live)
    (hio : io.Full F conn) :
    ∃ r, sendOnWritable e server F conn io = some r ∧ remaining F r.conn < remaining F conn ∧
      (r.conn.state = .transferFinished → r.conn.srcFileOffset = F.length) := by
  unfold sendOnWritable
  cases hs : conn.state with
  | sendFileSize =>
    have h8 : io.writeRet = 8 := by simpa [StepIo.Full, hs] using hio
    refine ⟨_, rfl, ?_⟩
    simp [serverSendFileSize, h8, sizeT, remaining, hs]
  | sendDataBlock =>
    obtain ⟨hp, hwr⟩ : io.preadRet = ((min TRANSFER_BLOCK_SIZE (F.length - conn.srcFileOffset) :
        Nat) : Int) ∧ io.writeRet = io.preadRet := by simpa [StepIo.Full, hs] using hio
    have hoff : conn.srcFileOffset ≤ F.length := by
      simp only [WireOk, hs] at hw
      omega
    have hk : sizeT io.preadRet = min TRANSFER_BLOCK_SIZE (F.length - conn.srcFileOffset) := by
      rw [hp]
      exact sizeT_natCast (by unfold TRANSFER_BLOCK_SIZE; omega)
    refine ⟨_, rfl, ?_⟩
    unfold serverSendFileBlock
    simp only [hwr, hk, hS]
    split_ifs <;> simp only [remaining, hs, reduceCtorEq, false_imp_iff, forall_const, and_true] <;>
      unfold SIZE_MAX TRANSFER_BLOCK_SIZE at * <;> omega
  | connectionEmpty | transferFinished => simp [hs, TransferState.live] at hl

theorem delivering_of_ne_empty {F : List UInt8} {conn : FileshareConnection}
    (hne : conn.state ≠ .connectionEmpty)
    (hend : conn.state = .transferFinished → conn.srcFileOffset = F.length) : Delivering F conn := by
  unfold Delivering
  cases h : conn.state <;> simp_all [TransferState.live]

theorem exists_live_of_liveCount_pos {c : Nat → FileshareConnection} {n : Nat}
    (h : 0 < liveCount c n) : ∃ i < n, (c i).state.live := by
  induction n with
  | zero => exact absurd h (Nat.lt_irrefl 0)
  | succ n ih =>
    by_cases hl : (c n).state.live
    · exact ⟨n, Nat.lt_succ_self n, hl⟩
    · simp only [liveCount, hl, Bool.false_eq_true, if_false, Nat.add_zero] at h
      obtain ⟨i, hi, hli⟩ := ih h
      exact ⟨i, by omega, hli⟩

theorem pending_lt {F : List UInt8} {s t : LoopState}
    (hn : t.numConnectedClients = s.numConnectedClients)
    (hle : ∀ i < s.numConnectedClients, remaining F (t.conns i) ≤ remaining F (s.conns i))
    (hlt : ∃ i < s.numConnectedClients, remaining F (t.conns i) < remaining F (s.conns i)) :
    pending F t < pending F s := by
  obtain ⟨i, hi, hlt⟩ := hlt
  unfold pending
  rw [hn]
  exact Finset.sum_lt_sum (fun j hj => hle j (Finset.mem_range.mp hj))
    ⟨i, Finset.mem_range.mpr hi, hlt⟩

theorem fullIo_good {F : List UInt8} {conn : FileshareConnection} {w : List UInt8}
    (hw : WireOk F conn w) : (fullIo F conn).Good F conn ∧ (fullIo F conn).Full F conn := by
  unfold fullIo
  cases hs : conn.state with
  | sendFileSize =>
    simp [StepIo.Good, StepIo.Allowed, StepIo.PreadOk, StepIo.WriteOk, StaleEagainShortHeader,
      StepIo.Full, hs]
  | sendDataBlock =>
    have hoff : conn.srcFileOffset ≤ F.length := by
      simp only [WireOk, hs] at hw
      omega
    have hk : sizeT ((min TRANSFER_BLOCK_SIZE (F.length - conn.srcFileOffset) : Nat) : Int) =
        min TRANSFER_BLOCK_SIZE (F.length - conn.srcFileOffset) :=
      sizeT_natCast (by unfold TRANSFER_BLOCK_SIZE; omega)
    simp only [StepIo.Good, StepIo.Allowed, StepIo.PreadOk, StepIo.WriteOk, StepIo.Full, hs, hk,
      reduceCtorEq, if_false, false_imp_iff, and_true]
    omega
  | connectionEmpty | transferFinished =>
    simp [StepIo.Good, StepIo.Allowed, StepIo.PreadOk, StepIo.WriteOk, StepIo.Full, hs]

theorem servingRound_serving {F : List UInt8} {s : LoopState} (h : WireInv F s) :
    (servingRound F s).Serving F s :=
  ⟨rfl, .inl rfl, fun i _ => (fullIo_good (h i).ok).1, fun _ _ _ => .inl rfl,
    fun i _ => (fullIo_good (h i).ok).2⟩

theorem servingRound_noHangup (F : List UInt8) (s : LoopState) :
    (servingRound F s).NoHangup s :=
  fun _ _ _ => rfl

end NetworkingHowto.Server
