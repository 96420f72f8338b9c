import NetworkingHowto.Server.Progress

/-! One slot of either event loop through an iteration: what a slot keeps over a run is proved
once here, from its own answers, whatever the kernel answers the other slots. -/
namespace NetworkingHowto.Server
open Bytes

/-- What one iteration of either loop does to one slot, its record `conn` and the bytes `w`
its socket has received, given the answers `io` to the slot's step and what the kernel
reports for its socket, `ready`. -/
inductive SlotMove (e : Endian) (server : FileshareServer) (F : List UInt8) (io : StepIo)
    (ready : Readiness) :
    FileshareConnection → List UInt8 → FileshareConnection → List UInt8 → Prop
  /-- The slot is left as it was. -/
  | stay (conn : FileshareConnection) (w : List UInt8) : SlotMove e server F io ready conn w conn w
  /-- A hangup on its live socket closes it: `TRANSFER_FINISHED` on the offset it had. -/
  | hangup (conn : FileshareConnection) (w : List UInt8) : conn.state.live → ready.pollhup = true →
      SlotMove e server F io ready conn w { conn with state := .transferFinished } w
  /-- Its socket is writable: the step of its state runs on the answers `io`. -/
  | send (conn : FileshareConnection) (w : List UInt8) (res : SendResult) :
      ready.pollout = true → sendOnWritable e server F conn io = some res →
      SlotMove e server F io ready conn w res.conn (w ++ res.sent)
  /-- Empty, it takes a new client: `SEND_FILE_SIZE` on the offset it had. -/
  | newClient (conn conn' : FileshareConnection) (w : List UInt8) : conn.state = .connectionEmpty →
      conn'.state = .sendFileSize → conn'.srcFileOffset = conn.srcFileOffset →
      SlotMove e server F io ready conn w conn' w

theorem sendOnWritable_not_live {e : Endian} {server : FileshareServer} {F : List UInt8}
    {conn : FileshareConnection} {io : StepIo} {res : SendResult} (hl : ¬ conn.state.live)
    (hr : sendOnWritable e server F conn io = some res) : res.conn = conn ∧ res.sent = [] := by
  unfold sendOnWritable at hr
  cases hs : conn.state <;> simp only [hs, reduceCtorEq, Option.some.injEq] at hr hl
  · simp [TransferState.live] at hl
  · simp [TransferState.live] at hl
  · exact hr ▸ ⟨rfl, rfl⟩

theorem FileshareConnection.finish_of_state {conn : FileshareConnection}
    (h : conn.state = .transferFinished) : { conn with state := .transferFinished } = conn := by
  cases conn
  cases h
  rfl

namespace SlotMove

variable {e : Endian} {server : FileshareServer} {F : List UInt8} {io : StepIo}
  {ready : Readiness} {conn conn' : FileshareConnection} {w w' : List UInt8}

theorem mono {rev : Readiness} (hhup : rev.pollhup = true → ready.pollhup = true)
    (hout : rev.pollout = true → ready.pollout = true) :
    SlotMove e server F io rev conn w conn' w' → SlotMove e server F io ready conn w conn' w'
  | .stay _ _ => .stay _ _
  | .hangup _ _ hl h => .hangup _ _ hl (hhup h)
  | .send _ _ _ h hr => .send _ _ _ (hout h) hr
  | .newClient _ _ _ he hs ho => .newClient _ _ _ he hs ho

theorem eq_of_empty (hm : SlotMove e server F io ready conn w conn' w')
    (he : conn.state = .connectionEmpty) (he' : conn'.state = .connectionEmpty) :
    conn' = conn ∧ w' = w := by
  cases hm with
  | stay => exact ⟨rfl, rfl⟩
  | hangup _ hl => simp [he, TransferState.live] at hl
  | send _ _ _ hr => simp [sendOnWritable, he] at hr
  | newClient _ _ _ hs => simp [hs] at he'

theorem eq_of_quiet (hm : SlotMove e server F io ready conn w conn' w')
    (hhup : ready.pollhup = false) (hout : ready.pollout = false)
    (hne : conn.state ≠ .connectionEmpty) : conn' = conn ∧ w' = w := by
  cases hm with
  | stay => exact ⟨rfl, rfl⟩
  | hangup _ _ h => simp [hhup] at h
  | send _ _ h => simp [hout] at h
  | newClient _ _ he => exact absurd he hne

theorem wireSlot (hS : server.srcFileSize = F.length) (h : WireSlot F conn w)
    (hio : conn.state.live → io.Good F conn) (hm : SlotMove e server F io ready conn w conn' w') :
    WireSlot F conn' w' := by
  cases hm with
  | stay => exact h
  | hangup => exact h.finish
  | send _ res _ hr =>
    by_cases hl : conn.state.live
    · exact h.send hS (hio hl) hr
    · obtain ⟨hc, hs⟩ := sendOnWritable_not_live hl hr
      simpa [hc, hs] using h
  | newClient _ _ he hs ho => exact h.newClient he hs ho

theorem finishes_at_end (hS : server.srcFileSize = F.length) (hw : WireOk F conn w)
    (hio : conn.state.live → io.Full F conn ∧ ready.pollhup = false)
    (hend : conn.state = .transferFinished → conn.srcFileOffset = F.length)
    (hm : SlotMove e server F io ready conn w conn' w') :
    conn'.state = .transferFinished → conn'.srcFileOffset = F.length := by
  cases hm with
  | stay => exact hend
  | hangup _ hl h => simp [(hio hl).2] at h
  | send _ res _ hr =>
    by_cases hl : conn.state.live
    · obtain ⟨r, hr', -, hfin⟩ := sendOnWritable_progress hS hw hl (hio hl).1
      obtain rfl : r = res := Option.some.inj (hr'.symm.trans hr)
      exact hfin
    · rw [(sendOnWritable_not_live hl hr).1]
      exact hend
  | newClient _ _ _ hs => simp [hs]

end SlotMove

/-! What the claims let the kernel answer a slot. -/

def StepIo.WouldBlock (io : StepIo) : Prop :=
  io.writeRet = -1 ∧ io.errno = EAGAIN

/-- Answers that move everything or would block: the header `write` moves all 8 bytes, and a
block's `pread` returns the whole block (`TRANSFER_BLOCK_SIZE` bytes, or what is left of the
file) and its `write` moves all of it; either `write` may instead would-block. -/
def StepIo.FullOrWouldBlock (io : StepIo) (F : List UInt8) (conn : FileshareConnection) : Prop :=
  match conn.state with
  | .sendFileSize => io.writeRet = 8 ∨ io.WouldBlock
  | .sendDataBlock =>
    io.preadRet = ((min TRANSFER_BLOCK_SIZE (F.length - conn.srcFileOffset) : Nat) : Int) ∧
      (io.writeRet = io.preadRet ∨ io.WouldBlock)
  | .connectionEmpty | .transferFinished => True

theorem StepIo.FullOrWouldBlock.full {io : StepIo} {F : List UInt8} {conn : FileshareConnection}
    (h : io.FullOrWouldBlock F conn) (hb : io.Blocking) : io.Full F conn := by
  have hnb : ¬ io.WouldBlock := fun ⟨h1, h2⟩ => hb h1 h2
  unfold StepIo.FullOrWouldBlock at h
  unfold StepIo.Full
  split at h <;> simp_all

theorem StepIo.Full.good {io : StepIo} {F : List UInt8} {conn : FileshareConnection}
    {w : List UInt8} (h : io.Full F conn) (hw : WireOk F conn w) (hl : conn.state.live) :
    io.Good F conn := by
  unfold StepIo.Full at h
  cases hs : conn.state with
  | sendFileSize =>
    simp only [hs] at h
    simp [StepIo.Good, StepIo.Allowed, StepIo.WriteOk, StaleEagainShortHeader, hs, h]
  | sendDataBlock =>
    simp only [hs] at h
    have hoff : conn.srcFileOffset ≤ F.length := by
      simp only [WireOk, hs] at hw
      omega
    have hk : sizeT io.preadRet = min TRANSFER_BLOCK_SIZE (F.length - conn.srcFileOffset) := by
      rw [h.1]
      exact sizeT_natCast (by unfold TRANSFER_BLOCK_SIZE; omega)
    simp only [StepIo.Good, StepIo.Allowed, StepIo.PreadOk, StepIo.WriteOk, hs, hk, h.2,
      reduceCtorEq, if_false, false_imp_iff, and_true, ne_eq, not_false_eq_true, forall_const]
    rw [h.1]
    omega
  | connectionEmpty | transferFinished => simp [hs, TransferState.live] at hl

def SlotGood (F : List UInt8) (io : StepIo) (_ : Readiness) (conn : FileshareConnection) : Prop :=
  io.Good F conn

/-- The kernel of the claim on a slot's no-early-finish, for a blocking socket: while the slot
is live, its step gets answers that move everything or would block, from a blocking socket,
and no hangup is reported on its socket. -/
def SlotFull (F : List UInt8) (io : StepIo) (ready : Readiness) (conn : FileshareConnection) :
    Prop :=
  conn.state.live → io.FullOrWouldBlock F conn ∧ io.Blocking ∧ ready.pollhup = false

theorem SlotGood.step {e : Endian} {server : FileshareServer} {F : List UInt8}
    (hS : server.srcFileSize = F.length) {io : StepIo} {ready : Readiness}
    {conn conn' : FileshareConnection} {w w' : List UInt8} (hio : SlotGood F io ready conn)
    (h : WireSlot F conn w) (hm : SlotMove e server F io ready conn w conn' w') :
    WireSlot F conn' w' :=
  hm.wireSlot hS h fun _ => hio

theorem SlotFull.step {e : Endian} {server : FileshareServer} {F : List UInt8}
    (hS : server.srcFileSize = F.length) {io : StepIo} {ready : Readiness}
    {conn conn' : FileshareConnection} {w w' : List UInt8} (hio : SlotFull F io ready conn)
    (h : WireSlot F conn w ∧ (conn.state = .transferFinished → conn.srcFileOffset = F.length))
    (hm : SlotMove e server F io ready conn w conn' w') :
    WireSlot F conn' w' ∧ (conn'.state = .transferFinished → conn'.srcFileOffset = F.length) :=
  have hfull : conn.state.live → io.Full F conn ∧ ready.pollhup = false := fun hl =>
    ⟨(hio hl).1.full (hio hl).2.1, (hio hl).2.2⟩
  ⟨hm.wireSlot hS h.1 fun hl => (hfull hl).1.good h.1.ok hl,
    hm.finishes_at_end hS h.1.ok hfull h.2⟩

end NetworkingHowto.Server
