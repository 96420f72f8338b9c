import NetworkingHowto.Reachable
import NetworkingHowto.Copy.Files
import NetworkingHowto.Client.Download

/-! The Linux AIO copier (`linux-aio-cp`, the second program of `server-poll.c`). One step is
one completion, answered as a regular file answers; serving the events one at a time gives every
order of completions. -/
namespace NetworkingHowto.Copy.LinuxAio

def READ_BLOCK_SIZE : Nat := 4096

def QUEUE_SIZE : Nat := 16

inductive IoCmd where
  | pread | pwrite
deriving DecidableEq, Repr

/-- The fields of `struct iocb` the copier reads back: `aio_lio_opcode`, `u.c.offset` and
`u.c.nbytes`. The descriptor follows from the command, and `u.c.buf` is the cell's part of
`buffer`. -/
structure Iocb where
  opcode : IoCmd
  offset : Nat
  nbytes : Nat
deriving DecidableEq, Repr

/-- `io_read_setup` and `io_write_setup`: clear the control block, then set the command, the
offset and the size. -/
def ioSetup (opcode : IoCmd) (offset size : Nat) : Iocb := ⟨opcode, offset, size⟩

def ioReadSetup (offset size : Nat) : Iocb := ioSetup .pread offset size

def ioWriteSetup (offset size : Nat) : Iocb := ioSetup .pwrite offset size

/-- The copy in progress: `src_off`, `src_size` after the rounding, `num_io_reqs`, the control
block of every cell whose request is in flight, the cells' parts of `buffer`, and the
destination file. -/
structure AioState where
  srcOff : Nat
  srcSize : Nat
  numIoReqs : Nat
  iocbs : Nat → Option Iocb
  buffers : Nat → List UInt8
  dst : List UInt8

/-- `src_size = src_size + READ_BLOCK_SIZE - (src_size % READ_BLOCK_SIZE)` on the
`uint32_t`. -/
def roundSrcSize (srcSize : Nat) : Nat :=
  (srcSize + READ_BLOCK_SIZE - srcSize % READ_BLOCK_SIZE) % 2^32

/-- One pass of `for (aio_i = 0U; aio_i < QUEUE_SIZE && src_off < src_size; ++aio_i,
++num_io_reqs)`; once `src_off` has reached `src_size` the test stays false, so a pass that
finds it so does what the ended loop does: nothing. -/
def firstRead (s : AioState) (aioI : Nat) : AioState :=
  if s.srcOff < s.srcSize then
    { s with iocbs := Function.update s.iocbs aioI (some (ioReadSetup s.srcOff READ_BLOCK_SIZE))
             srcOff := s.srcOff + READ_BLOCK_SIZE
             numIoReqs := s.numIoReqs + 1 }
  else s

/-- `main` up to its `while` loop, with the size `open_src_file` reported, the contents
`aligned_alloc` left in `buffer`, and the file `open_dst_file` made. -/
def aioStart (srcSize : Nat) (buffers : Nat → List UInt8) (dst : List UInt8) : AioState :=
  (List.range QUEUE_SIZE).foldl firstRead ⟨0, roundSrcSize srcSize, 0, fun _ => none, buffers, dst⟩

/-- The kernel's completion of the request `cb` of cell `c` on a regular source file `src`:
a read puts what is left of the file at the offset, at most `nbytes` bytes, at the start of
the cell's buffer and returns their number; a write puts the first `nbytes` bytes of the
buffer at the offset of the destination and returns `nbytes`. -/
def kernelComplete (src : List UInt8) (s : AioState) (c : Nat) (cb : Iocb) : AioState × Int :=
  match cb.opcode with
  | .pread =>
    let data := (src.drop cb.offset).take cb.nbytes
    ({ s with buffers := Function.update s.buffers c (data ++ (s.buffers c).drop data.length) },
      data.length)
  | .pwrite =>
    ({ s with dst := Client.pwriteAt s.dst cb.offset ((s.buffers c).take cb.nbytes) }, cb.nbytes)

/-- The body of `for (int ev = 0U; ev < num_events; ++ev)` for the event of cell `c`, whose
`res` is `io_ret`; `bytes_read` goes to `io_write_setup` as a `size_t`, `num_io_reqs` is a
`size_t`, and `.error` is an `exit`. -/
def serveEvent (s : AioState) (c : Nat) (ioRet : Int) : Except String AioState :=
  match s.iocbs c with
  | none => .ok s
  | some cb =>
    match cb.opcode with
    | .pread =>
      let bytesRead := ioRet
      if bytesRead ≠ 0 then
        let write := ioWriteSetup cb.offset (bytesRead % 2^64).toNat
        .ok { s with iocbs := Function.update s.iocbs c (some write) }
      else .error "ERROR: reach unavailible state\n"
    | .pwrite =>
      let bytesWritten := ioRet
      if bytesWritten ≠ 0 ∧ s.srcOff < s.srcSize then
        let read := ioReadSetup s.srcOff READ_BLOCK_SIZE
        .ok { s with iocbs := Function.update s.iocbs c (some read)
                     srcOff := s.srcOff + READ_BLOCK_SIZE }
      else .ok { s with iocbs := Function.update s.iocbs c none
                        numIoReqs := (s.numIoReqs + (2^64 - 1)) % 2^64 }

def completeEvent (src : List UInt8) (s : AioState) (c : Nat) : Except String AioState :=
  match s.iocbs c with
  | none => .ok s
  | some cb => serveEvent (kernelComplete src s c cb).1 c (kernelComplete src s c cb).2

/-- An iteration of `while (num_io_reqs != 0U)` that serves one completion; the requests in
flight complete in any order. -/
def Step (src : List UInt8) (s u : AioState) : Prop :=
  s.numIoReqs ≠ 0 ∧ ∃ c cb, s.iocbs c = some cb ∧ completeEvent src s c = .ok u

theorem completeEvent_pread {src : List UInt8} {s : AioState} {c off n : Nat}
    (hc : s.iocbs c = some ⟨.pread, off, n⟩) (hn : n < 2^64) :
    completeEvent src s c =
      if ((src.drop off).take n).length = 0 then .error "ERROR: reach unavailible state\n"
      else .ok { s with
        buffers := Function.update s.buffers c
          ((src.drop off).take n ++ (s.buffers c).drop ((src.drop off).take n).length)
        iocbs := Function.update s.iocbs c
          (some ⟨.pwrite, off, ((src.drop off).take n).length⟩) } := by
  have hlen : ((src.drop off).take n).length ≤ n := List.length_take_le _ _
  have hmod : (((((src.drop off).take n).length : Nat) : Int) % 2^64).toNat =
      ((src.drop off).take n).length := by omega
  rw [completeEvent, hc]
  dsimp only [kernelComplete, serveEvent]
  rw [hc]
  dsimp only
  rw [hmod]
  by_cases h : ((src.drop off).take n).length = 0
  · rw [if_neg (by rw [h]; decide), if_pos h]
  · rw [if_pos (by exact_mod_cast h), if_neg h]
    rfl

theorem completeEvent_pwrite {src : List UInt8} {s : AioState} {c off n : Nat}
    (hc : s.iocbs c = some ⟨.pwrite, off, n⟩) (hn : n ≠ 0) :
    completeEvent src s c =
      .ok (if s.srcOff < s.srcSize then
        { s with dst := Client.pwriteAt s.dst off ((s.buffers c).take n)
                 iocbs := Function.update s.iocbs c (some ⟨.pread, s.srcOff, READ_BLOCK_SIZE⟩)
                 srcOff := s.srcOff + READ_BLOCK_SIZE }
      else
        { s with dst := Client.pwriteAt s.dst off ((s.buffers c).take n)
                 iocbs := Function.update s.iocbs c none
                 numIoReqs := (s.numIoReqs + (2^64 - 1)) % 2^64 }) := by
  rw [completeEvent, hc]
  dsimp only [kernelComplete, serveEvent]
  rw [hc]
  dsimp only
  by_cases h : s.srcOff < s.srcSize
  · rw [if_pos ⟨by exact_mod_cast hn, h⟩, if_pos h]
    rfl
  · rw [if_neg fun h' => h h'.2, if_neg h]

end NetworkingHowto.Copy.LinuxAio
