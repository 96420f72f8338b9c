import NetworkingHowto.Server.Bytes
import Mathlib.Data.List.Infix
import Mathlib.Algebra.Group.Int

/-! One connection of the file-share server: the transfer state machine and its two protocol
steps (`server-common-multiplexing.h`, which `server-poll.c` carries from its line 222 on). -/
namespace NetworkingHowto.Server
open Bytes

/-- `(size_t) -1` on the 64-bit host. -/
def SIZE_MAX : Nat := 2^64 - 1

/-- The `size_t` that a `ssize_t` system-call result is stored in. -/
def sizeT (r : Int) : Nat := (r % 2^64).toNat

def EAGAIN : Int := 11

def TRANSFER_BLOCK_SIZE : Nat := 1024

inductive TransferState where
  | connectionEmpty | sendFileSize | sendDataBlock | transferFinished
deriving DecidableEq, Repr

/-- A slot that still owns a socket and is waiting to write. -/
def TransferState.live : TransferState → Bool
  | .sendFileSize | .sendDataBlock => true
  | _ => false

structure FileshareServer where
  srcFileFd : Int
  srcFileSize : Nat
  listenSockFd : Int
deriving DecidableEq, Repr

structure FileshareConnection where
  clientSockFd : Int
  srcFileOffset : Nat
  state : TransferState
deriving DecidableEq, Repr

/-- What `calloc` leaves in a connection record: descriptor 0, offset 0, state 0. -/
def FileshareConnection.zero : FileshareConnection := ⟨0, 0, .connectionEmpty⟩

/-- The kernel's answers to one protocol step: the `pread` result (read by the data step
only), the `write` result, and the `errno` the code finds after the `write`, which a
successful or short `write` leaves at whatever an earlier call set. -/
structure StepIo where
  preadRet : Int
  writeRet : Int
  errno : Int
deriving DecidableEq, Repr

/-- The kernel's contract for `write(fd, buf, n)` on a stream socket: it returns the number
`k ≤ n` of bytes it moved, or fails with -1. -/
def StepIo.WriteOk (io : StepIo) (n : Nat) : Prop :=
  io.writeRet = -1 ∨ (0 ≤ io.writeRet ∧ io.writeRet ≤ n)

/-- A `write` on a blocking socket (a plain `accept` does not pass `O_NONBLOCK` on to the
socket it returns): a call that fails sets `errno` itself, and never to `EAGAIN`. -/
def StepIo.Blocking (io : StepIo) : Prop :=
  io.writeRet = -1 → io.errno ≠ EAGAIN

/-- The 8-byte header, the first `write` on a new connection, fits its empty send buffer: it
goes out whole or the call fails. -/
def StepIo.HeaderWhole (io : StepIo) : Prop :=
  io.writeRet = 8 ∨ io.writeRet = -1

/-- A `pread` of one block at `offset` of the fixed file `F` returns -1 or at most the
bytes the file holds there. -/
def StepIo.PreadOk (io : StepIo) (F : List UInt8) (offset : Nat) : Prop :=
  io.preadRet = -1 ∨
    (0 ≤ io.preadRet ∧ io.preadRet.toNat ≤ TRANSFER_BLOCK_SIZE ∧ offset + io.preadRet.toNat ≤ F.length)

/-- Bytes a `write(fd, buf, n)` that returned `ret` moved to the socket. -/
def written (buf : List UInt8) (ret : Int) : List UInt8 :=
  if ret < 0 then [] else buf.take ret.toNat

/-- The buffer `pread(src_file_fd, file_block, TRANSFER_BLOCK_SIZE, offset)` fills
from the file `F` when the kernel returns `ret`. -/
def preadBlock (F : List UInt8) (offset : Nat) (ret : Int) : List UInt8 :=
  if ret < 0 then [] else ((F.drop offset).take TRANSFER_BLOCK_SIZE).take ret.toNat

/-- One protocol step: the returned flag, the record after it, the bytes that reached
the socket, and the line printed to `stderr`. -/
structure SendResult where
  success : Bool
  conn : FileshareConnection
  sent : List UInt8
  stderr : Option String
deriving DecidableEq, Repr

def serverSendFileSize (e : Endian) (server : FileshareServer) (conn : FileshareConnection)
    (io : StepIo) : SendResult :=
  let fileSize := storeU64 e (htobe64 e server.srcFileSize)
  let sent := written fileSize io.writeRet
  if sizeT io.writeRet ≠ 8 then
    if io.errno = EAGAIN then ⟨true, conn, sent, none⟩
    else ⟨false, { conn with state := .transferFinished }, sent,
      some "Unable to send file size to client\n"⟩
  else ⟨true, { conn with srcFileOffset := 0, state := .sendDataBlock }, sent, none⟩

def serverSendFileBlock (server : FileshareServer) (F : List UInt8)
    (conn : FileshareConnection) (io : StepIo) : SendResult :=
  let bytesRead := sizeT io.preadRet
  if bytesRead = SIZE_MAX ∨ (bytesRead = 0 ∧ conn.srcFileOffset ≠ server.srcFileSize) then
    ⟨false, { conn with state := .transferFinished }, [], some "Unable to read data from file\n"⟩
  else
    let fileBlock := preadBlock F conn.srcFileOffset io.preadRet
    let bytesWritten := sizeT io.writeRet
    let sent := written fileBlock io.writeRet
    if bytesWritten = SIZE_MAX ∨ bytesWritten ≠ bytesRead then
      ⟨false, { conn with state := .transferFinished }, sent,
        some "Unable to send data block to client\n"⟩
    else
      let offset := conn.srcFileOffset + bytesWritten
      if offset = server.srcFileSize then
        ⟨false, { conn with srcFileOffset := offset, state := .transferFinished }, sent, none⟩
      else ⟨true, { conn with srcFileOffset := offset }, sent, none⟩

/-- The `switch (conns[conn_i].state)` that both event loops run on a writable
connection; `none` is the `Unexpected state!` exit. -/
def sendOnWritable (e : Endian) (server : FileshareServer) (F : List UInt8)
    (conn : FileshareConnection) (io : StepIo) : Option SendResult :=
  match conn.state with
  | .connectionEmpty => none
  | .sendFileSize => some (serverSendFileSize e server conn io)
  | .sendDataBlock => some (serverSendFileBlock server F conn io)
  | .transferFinished => some ⟨false, conn, [], none⟩

@[simp] theorem sizeT_neg_one : sizeT (-1) = SIZE_MAX := rfl

theorem sizeT_of_nonneg {r : Int} (h0 : 0 ≤ r) (h1 : r < 2^64) : sizeT r = r.toNat := by
  rw [sizeT, Int.emod_eq_of_lt h0 h1]

theorem sizeT_natCast {n : Nat} (h : n < 2^64) : sizeT n = n := by
  unfold sizeT
  omega

theorem sizeT_writeRet {io : StepIo} {n : Nat} (h : io.WriteOk n) (hn : n < 2^63) :
    sizeT io.writeRet = if io.writeRet = -1 then SIZE_MAX else io.writeRet.toNat := by
  rcases h with h | ⟨h0, h1⟩
  · simp [h]
  · rw [if_neg (by omega), sizeT_of_nonneg h0 (by omega)]

theorem sizeT_preadRet {io : StepIo} {F : List UInt8} {o : Nat} (h : io.PreadOk F o) :
    sizeT io.preadRet = if io.preadRet = -1 then SIZE_MAX else io.preadRet.toNat := by
  rcases h with h | ⟨h0, h1, -⟩
  · simp [h]
  · rw [if_neg (by omega), sizeT_of_nonneg h0 (by unfold TRANSFER_BLOCK_SIZE at h1; omega)]

theorem written_neg_one (buf : List UInt8) : written buf (-1) = [] := rfl

/-- Both protocol steps keep the socket of the record they advance. -/
@[simp] theorem serverSendFileSize_fd (e : Endian) (server : FileshareServer)
    (conn : FileshareConnection) (io : StepIo) :
    (serverSendFileSize e server conn io).conn.clientSockFd = conn.clientSockFd := by
  unfold serverSendFileSize; split_ifs <;> rfl

@[simp] theorem serverSendFileBlock_fd (server : FileshareServer) (F : List UInt8)
    (conn : FileshareConnection) (io : StepIo) :
    (serverSendFileBlock server F conn io).conn.clientSockFd = conn.clientSockFd := by
  unfold serverSendFileBlock; dsimp only; split_ifs <;> rfl

theorem serverSendFileSize_success (e : Endian) (server : FileshareServer)
    (conn : FileshareConnection) (io : StepIo) (hs : conn.state = .sendFileSize) :
    let r := serverSendFileSize e server conn io
    (r.success = false ↔ r.conn.state = .transferFinished) ∧ r.conn.state ≠ .connectionEmpty := by
  unfold serverSendFileSize; split_ifs <;> simp [hs]

theorem serverSendFileBlock_success (server : FileshareServer) (F : List UInt8)
    (conn : FileshareConnection) (io : StepIo) (hs : conn.state = .sendDataBlock) :
    let r := serverSendFileBlock server F conn io
    (r.success = false ↔ r.conn.state = .transferFinished) ∧ r.conn.state ≠ .connectionEmpty := by
  unfold serverSendFileBlock; dsimp only; split_ifs <;> simp [hs]

theorem sendOnWritable_live (e : Endian) (server : FileshareServer) (F : List UInt8)
    {conn : FileshareConnection} (io : StepIo) (hl : conn.state.live) :
    ∃ r, sendOnWritable e server F conn io = some r ∧
      (r.success = false ↔ r.conn.state = .transferFinished) ∧
      r.conn.state ≠ .connectionEmpty ∧ r.conn.clientSockFd = conn.clientSockFd := by
  unfold sendOnWritable
  cases hs : conn.state with
  | sendFileSize => exact ⟨_, rfl, (serverSendFileSize_success e server conn io hs).1,
      (serverSendFileSize_success e server conn io hs).2, by simp⟩
  | sendDataBlock => exact ⟨_, rfl, (serverSendFileBlock_success server F conn io hs).1,
      (serverSendFileBlock_success server F conn io hs).2, by simp⟩
  | connectionEmpty | transferFinished => simp [hs, TransferState.live] at hl

/-! What reaches the socket. -/

/-- What a connection's socket has received, by the state of its record: nothing before
the header is out; the header and the first `srcFileOffset` file bytes while streaming,
with bytes left to send unless the file is empty; a prefix of the stream once finished. -/
def WireOk (F : List UInt8) (conn : FileshareConnection) (sent : List UInt8) : Prop :=
  match conn.state with
  | .connectionEmpty | .sendFileSize => sent = []
  | .sendDataBlock => sent = be64 F.length ++ F.take conn.srcFileOffset ∧
      (conn.srcFileOffset < F.length ∨ conn.srcFileOffset = 0)
  | .transferFinished => sent <+: be64 F.length ++ F

/-- A short header `write` that finds a stale `EAGAIN` in `errno`: the step keeps the
record in `SEND_FILE_SIZE` although part of the header is already on the wire. -/
def StaleEagainShortHeader (io : StepIo) : Prop :=
  0 < io.writeRet ∧ io.writeRet < 8 ∧ io.errno = EAGAIN

theorem StepIo.HeaderWhole.not_stale {io : StepIo} (h : io.HeaderWhole) :
    ¬ StaleEagainShortHeader io := by
  unfold StaleEagainShortHeader; rcases h with h | h <;> omega

theorem written_isPrefix (buf : List UInt8) (ret : Int) : written buf ret <+: buf := by
  unfold written; split_ifs
  · exact List.nil_prefix
  · exact List.take_prefix _ _

@[simp] theorem written_natCast (buf : List UInt8) (n : Nat) : written buf n = buf.take n := by
  unfold written
  rw [if_neg (by omega)]
  rfl

theorem written_of_nonpos (buf : List UInt8) {ret : Int} (h : ret ≤ 0) : written buf ret = [] := by
  unfold written; split_ifs
  · rfl
  · simp [show ret.toNat = 0 by omega]

theorem sizeT_writeRet_eq {io : StepIo} {n m : Nat} (h : io.WriteOk n) (hn : n < 2^63) (hm : m ≤ n) :
    sizeT io.writeRet = m ↔ io.writeRet = m := by
  rw [sizeT_writeRet h hn]
  rcases h with h | ⟨h0, -⟩
  · simp only [h, if_true, SIZE_MAX]; omega
  · rw [if_neg (by omega)]; omega

theorem stream_isPrefix (F X : List UInt8) (o n : Nat) (hX : X <+: F.drop o) :
    be64 n ++ F.take o ++ X <+: be64 n ++ F := by
  rw [List.append_assoc, List.prefix_append_right_inj]
  have h := (List.prefix_append_right_inj (F.take o)).mpr hX
  rwa [List.take_append_drop] at h

theorem serverSendFileSize_wireOk {e : Endian} {server : FileshareServer} {F : List UInt8}
    {conn : FileshareConnection} {io : StepIo} {sent : List UInt8}
    (hS : server.srcFileSize = F.length)
    (hs : conn.state = .connectionEmpty ∨ conn.state = .sendFileSize)
    (hw : WireOk F conn sent) (hio : io.WriteOk 8) (hgood : ¬ StaleEagainShortHeader io) :
    let r := serverSendFileSize e server conn io
    WireOk F r.conn (sent ++ r.sent) := by
  have h0 : sent = [] := by rcases hs with hs | hs <;> simpa [WireOk, hs] using hw
  subst h0
  have h8 := sizeT_writeRet_eq hio (by omega) (le_refl 8)
  unfold serverSendFileSize
  simp only [storeU64_htobe64, hS, h8, List.nil_append]
  split_ifs with hne hea
  · have hk : io.writeRet ≤ 0 := by
      unfold StaleEagainShortHeader at hgood; rcases hio with h | h <;> omega
    rcases hs with hs | hs <;> simp [WireOk, hs, written_of_nonpos _ hk]
  · exact (written_isPrefix _ _).trans (List.prefix_append _ _)
  · have hk : io.writeRet = 8 := by omega
    simp [WireOk, written, hk, List.take_of_length_le]

theorem preadBlock_isPrefix (F : List UInt8) (o : Nat) (ret : Int) :
    preadBlock F o ret <+: F.drop o := by
  unfold preadBlock; split_ifs
  · exact List.nil_prefix
  · exact (List.take_prefix _ _).trans (List.take_prefix _ _)

theorem serverSendFileBlock_moved {F : List UInt8} {o : Nat} {io : StepIo}
    (hp : io.PreadOk F o) (hio : io.WriteOk (sizeT io.preadRet))
    (hrd : sizeT io.preadRet ≠ SIZE_MAX) (hwr : sizeT io.writeRet = sizeT io.preadRet) :
    o + sizeT io.writeRet ≤ F.length ∧
      written (preadBlock F o io.preadRet) io.writeRet = (F.drop o).take (sizeT io.writeRet) := by
  rw [sizeT_preadRet hp] at hrd hio hwr
  rcases hp with hr | ⟨hr0, hr1, hr2⟩
  · simp [hr] at hrd
  have hr' : io.preadRet ≠ -1 := by omega
  simp only [hr', if_false] at hio hwr
  have hblock : preadBlock F o io.preadRet = (F.drop o).take io.preadRet.toNat := by
    rw [preadBlock, if_neg (by omega), List.take_take, min_eq_left hr1]
  have hk := (sizeT_writeRet_eq hio (by unfold TRANSFER_BLOCK_SIZE at hr1; omega) (le_refl _)).mp hwr
  rw [hwr, hblock, hk, written_natCast, List.take_take, min_self]
  exact ⟨hr2, rfl⟩

theorem serverSendFileBlock_wireOk {server : FileshareServer} {F : List UInt8}
    {conn : FileshareConnection} {io : StepIo} {sent : List UInt8}
    (hS : server.srcFileSize = F.length) (hs : conn.state = .sendDataBlock)
    (hw : WireOk F conn sent) (hp : io.PreadOk F conn.srcFileOffset)
    (hio : io.WriteOk (sizeT io.preadRet)) :
    let r := serverSendFileBlock server F conn io
    WireOk F r.conn (sent ++ r.sent) := by
  obtain ⟨rfl, hoff⟩ : sent = be64 F.length ++ F.take conn.srcFileOffset ∧
      (conn.srcFileOffset < F.length ∨ conn.srcFileOffset = 0) := by simpa [WireOk, hs] using hw
  unfold serverSendFileBlock
  dsimp only
  split_ifs with hrd hwr hfin
  · simpa [WireOk] using stream_isPrefix F [] conn.srcFileOffset F.length List.nil_prefix
  · exact stream_isPrefix F _ _ _ ((written_isPrefix _ _).trans (preadBlock_isPrefix _ _ _))
  all_goals
    obtain ⟨hle, hsent⟩ := serverSendFileBlock_moved hp hio (by tauto) (by tauto)
    simp only [WireOk, hs, hsent, List.append_assoc, ← List.take_add]
  · exact (List.prefix_append_right_inj _).mpr (List.take_prefix _ _)
  · rw [hS] at hfin
    exact ⟨trivial, by omega⟩

theorem serverSendFileBlock_whole {server : FileshareServer} {F : List UInt8}
    {conn : FileshareConnection} {io : StepIo} {sent : List UInt8}
    (hS : server.srcFileSize = F.length) (hs : conn.state = .sendDataBlock)
    (hw : WireOk F conn sent) (hp : io.PreadOk F conn.srcFileOffset)
    (hio : io.WriteOk (sizeT io.preadRet)) :
    let r := serverSendFileBlock server F conn io
    r.conn.state = .transferFinished → r.conn.srcFileOffset = F.length → 0 < F.length →
      sent ++ r.sent = be64 F.length ++ F := by
  obtain ⟨rfl, hoff⟩ : sent = be64 F.length ++ F.take conn.srcFileOffset ∧
      (conn.srcFileOffset < F.length ∨ conn.srcFileOffset = 0) := by simpa [WireOk, hs] using hw
  unfold serverSendFileBlock
  dsimp only
  split_ifs with hrd hwr hfin <;> dsimp only <;> intro hst hend hF
  · omega
  · omega
  · obtain ⟨-, hsent⟩ := serverSendFileBlock_moved hp hio (by tauto) (by tauto)
    rw [hsent, List.append_assoc, ← List.take_add, hend, List.take_length]
  · simp [hs] at hst

theorem serverSendFileBlock_state {server : FileshareServer} {F : List UInt8}
    {conn : FileshareConnection} {io : StepIo} (hs : conn.state = .sendDataBlock) :
    (serverSendFileBlock server F conn io).conn.state = .sendDataBlock ∨
      (serverSendFileBlock server F conn io).conn.state = .transferFinished := by
  unfold serverSendFileBlock; dsimp only; split_ifs <;> simp [hs]

theorem serverSendFileSize_offset {e : Endian} {server : FileshareServer}
    {conn : FileshareConnection} {io : StepIo} (h0 : conn.srcFileOffset = 0) :
    (serverSendFileSize e server conn io).conn.srcFileOffset = 0 := by
  unfold serverSendFileSize; split_ifs <;> simp [h0]

/-- The kernel answers a step may get: a `pread` within the file unless it is the header
step, which reads nothing, and a `write` that moves at most the count the step asks for (8
for the header, `bytes_read` for a block). -/
def StepIo.Allowed (io : StepIo) (F : List UInt8) (conn : FileshareConnection) : Prop :=
  (conn.state ≠ .sendFileSize → io.PreadOk F conn.srcFileOffset) ∧
    io.WriteOk (if conn.state = .sendFileSize then 8 else sizeT io.preadRet)

theorem sendOnWritable_wireOk {e : Endian} {server : FileshareServer} {F : List UInt8}
    {conn : FileshareConnection} {io : StepIo} {sent : List UInt8} {r : SendResult}
    (hS : server.srcFileSize = F.length) (hw : WireOk F conn sent) (hio : io.Allowed F conn)
    (hgood : conn.state = .sendFileSize → ¬ StaleEagainShortHeader io)
    (hr : sendOnWritable e server F conn io = some r) : WireOk F r.conn (sent ++ r.sent) := by
  unfold sendOnWritable at hr
  obtain ⟨hp, hwr⟩ := hio
  cases hs : conn.state <;> simp only [hs, Option.some.injEq, reduceCtorEq] at hr <;> subst hr
  · simpa [hs] using serverSendFileSize_wireOk hS (.inr hs) hw (by simpa [hs] using hwr) (hgood hs)
  · simpa [hs] using serverSendFileBlock_wireOk hS hs hw (hp (by simp [hs])) (by simpa [hs] using hwr)
  · simpa using hw

end NetworkingHowto.Server
