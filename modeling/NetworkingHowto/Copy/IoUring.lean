import NetworkingHowto.Reachable
import NetworkingHowto.Copy.Files
import NetworkingHowto.Client.Download

/-! The io_uring copier of `io-uring-cp.c`. One step is one completion, in any order the kernel
chooses, with its result `res`; the log records the requests the program prepares. -/
namespace NetworkingHowto.Copy.IoUring

def READ_BLOCK_SIZE : Nat := 4096

def QUEUE_SIZE : Nat := 16

inductive BlockStage where
  | idle | inRead | inWrite
deriving DecidableEq, Repr

structure BlockStatus where
  stage : BlockStage
  offset : Nat
  size : Nat
deriving DecidableEq, Repr

/-- A request the program prepares: `io_uring_prep_read_fixed` or `io_uring_prep_write_fixed`
of `READ_BLOCK_SIZE` bytes at `offset`, with `user_data = cell`. -/
inductive Request where
  | read (cell offset : Nat)
  | write (cell offset : Nat)
deriving DecidableEq, Repr

/-- `struct CopyStatus` with the contents of the fixed buffers and of the destination file,
and the log of prepared requests. -/
structure CopyStatus where
  srcOff : Nat
  srcSize : Nat
  numBlockInProgress : Nat
  blockStatuses : Nat → BlockStatus
  buffers : Nat → List UInt8
  dst : List UInt8
  log : List Request

/-- `init_copying_status`, with `buffers` the contents `aligned_alloc` leaves and `dst` the
file `open_dst_file` made. -/
def CopyStatus.init (srcSize : Nat) (buffers : Nat → List UInt8) (dst : List UInt8) :
    CopyStatus :=
  ⟨0, srcSize, 0, fun _ => ⟨.idle, 0, 0⟩, buffers, dst, []⟩

/-- `prepare_read_request`: nothing when no byte is left; else the next block, of at most
`READ_BLOCK_SIZE` bytes, goes to `cell`. `bytes_left` is a `uint32_t`, the counter a
`uint16_t`. -/
def prepareReadRequest (s : CopyStatus) (cell : Nat) : CopyStatus :=
  let bytesLeft := (((s.srcSize : Int) - s.srcOff) % 2^32).toNat
  if bytesLeft = 0 then s
  else
    let size := if bytesLeft < READ_BLOCK_SIZE then bytesLeft else READ_BLOCK_SIZE
    { s with blockStatuses := Function.update s.blockStatuses cell ⟨.inRead, s.srcOff, size⟩
             srcOff := s.srcOff + size
             numBlockInProgress := (s.numBlockInProgress + 1) % 2^16
             log := s.log ++ [.read cell s.srcOff] }

theorem prepareReadRequest_cases (s : CopyStatus) (cell : Nat) :
    prepareReadRequest s cell = s ∨ ∃ size,
      prepareReadRequest s cell =
        { s with blockStatuses := Function.update s.blockStatuses cell ⟨.inRead, s.srcOff, size⟩
                 srcOff := s.srcOff + size
                 numBlockInProgress := (s.numBlockInProgress + 1) % 2^16
                 log := s.log ++ [.read cell s.srcOff] } := by
  dsimp only [prepareReadRequest]
  split_ifs <;> first | exact .inl rfl | exact .inr ⟨_, rfl⟩

@[simp] theorem prepareReadRequest_buffers (s : CopyStatus) (cell : Nat) :
    (prepareReadRequest s cell).buffers = s.buffers := by
  rcases prepareReadRequest_cases s cell with h | ⟨_, h⟩ <;> rw [h]

@[simp] theorem prepareReadRequest_dst (s : CopyStatus) (cell : Nat) :
    (prepareReadRequest s cell).dst = s.dst := by
  rcases prepareReadRequest_cases s cell with h | ⟨_, h⟩ <;> rw [h]

@[simp] theorem prepareReadRequest_srcSize (s : CopyStatus) (cell : Nat) :
    (prepareReadRequest s cell).srcSize = s.srcSize := by
  rcases prepareReadRequest_cases s cell with h | ⟨_, h⟩ <;> rw [h]

theorem prepareReadRequest_other (s : CopyStatus) {cell d : Nat} (hd : d ≠ cell) :
    (prepareReadRequest s cell).blockStatuses d = s.blockStatuses d := by
  rcases prepareReadRequest_cases s cell with h | ⟨_, h⟩ <;> rw [h]
  exact Function.update_noteq hd _ _

theorem prepareReadRequest_next {s : CopyStatus} {cell : Nat} (hlt : s.srcOff < s.srcSize)
    (hs : s.srcSize < 2^32) :
    prepareReadRequest s cell =
      { s with blockStatuses := Function.update s.blockStatuses cell
                 ⟨.inRead, s.srcOff, min READ_BLOCK_SIZE (s.srcSize - s.srcOff)⟩
               srcOff := s.srcOff + min READ_BLOCK_SIZE (s.srcSize - s.srcOff)
               numBlockInProgress := (s.numBlockInProgress + 1) % 2^16
               log := s.log ++ [.read cell s.srcOff] } := by
  have hleft : (((s.srcSize : Int) - s.srcOff) % 2^32).toNat = s.srcSize - s.srcOff := by omega
  have hsize : (if s.srcSize - s.srcOff < READ_BLOCK_SIZE then s.srcSize - s.srcOff
      else READ_BLOCK_SIZE) = min READ_BLOCK_SIZE (s.srcSize - s.srcOff) := by
    split_ifs <;> omega
  simp only [prepareReadRequest, hleft, hsize, if_neg (Nat.sub_ne_zero_of_lt hlt)]

theorem prepareReadRequest_done {s : CopyStatus} {cell : Nat} (h : s.srcOff = s.srcSize) :
    prepareReadRequest s cell = s := by
  simp [prepareReadRequest, h]

def prepareWriteRequest (s : CopyStatus) (cell : Nat) : CopyStatus :=
  { s with blockStatuses := Function.update s.blockStatuses cell
             { s.blockStatuses cell with stage := .inWrite }
           log := s.log ++ [.write cell (s.blockStatuses cell).offset] }

/-- `finish_write_request`: `num_block_in_progress -= 1` on a `uint16_t`. -/
def finishWriteRequest (s : CopyStatus) (cell : Nat) : CopyStatus :=
  { s with blockStatuses := Function.update s.blockStatuses cell
             { s.blockStatuses cell with stage := .idle }
           numBlockInProgress := (s.numBlockInProgress + (2^16 - 1)) % 2^16 }

/-- The kernel's read of `READ_BLOCK_SIZE` bytes of `src` at the block's offset that completed
with `res ≥ 0`: the first `res` bytes of the buffer are replaced, the rest keep what was
there. -/
def kernelRead (src : List UInt8) (s : CopyStatus) (cell : Nat) (res : Nat) : CopyStatus :=
  let data := ((src.drop (s.blockStatuses cell).offset).take READ_BLOCK_SIZE).take res
  { s with buffers := Function.update s.buffers cell (data ++ (s.buffers cell).drop data.length) }

/-- The kernel's write of the buffer at the block's offset that completed with `res ≥ 0`:
the first `res` bytes of the buffer reach the destination. -/
def kernelWrite (s : CopyStatus) (cell : Nat) (res : Nat) : CopyStatus :=
  { s with dst := Client.pwriteAt s.dst (s.blockStatuses cell).offset
                    (((s.buffers cell).take READ_BLOCK_SIZE).take res) }

/-- The body of the completion loop for the completion of `cell` with result `res`;
`.error` is an `exit`. -/
def serveCompletion (src : List UInt8) (s : CopyStatus) (cell : Nat) (res : Int) :
    Except String CopyStatus :=
  match (s.blockStatuses cell).stage with
  | .inRead =>
    if res < 0 then .error "Read operation failed at offset: %lu"
    else .ok (prepareWriteRequest (kernelRead src s cell res.toNat) cell)
  | .inWrite =>
    if res < 0 then .error "Write operation failed at offset: %lu"
    else .ok (prepareReadRequest (finishWriteRequest (kernelWrite s cell res.toNat) cell) cell)
  | .idle => .ok s

theorem serveCompletion_ok {src : List UInt8} {s t : CopyStatus} {cell : Nat} {res : Int}
    (h : serveCompletion src s cell res = .ok t) :
    ((s.blockStatuses cell).stage = .inRead ∧
      t = prepareWriteRequest (kernelRead src s cell res.toNat) cell) ∨
    ((s.blockStatuses cell).stage = .inWrite ∧
      t = prepareReadRequest (finishWriteRequest (kernelWrite s cell res.toNat) cell) cell) ∨
    ((s.blockStatuses cell).stage = .idle ∧ t = s) := by
  unfold serveCompletion at h
  split at h <;> rename_i hst
  · split_ifs at h
    cases h
    exact .inl ⟨hst, rfl⟩
  · split_ifs at h
    cases h
    exact .inr (.inl ⟨hst, rfl⟩)
  · cases h
    exact .inr (.inr ⟨hst, rfl⟩)

theorem finishWriteRequest_kernelWrite (s : CopyStatus) (cell res : Nat) :
    (finishWriteRequest (kernelWrite s cell res) cell).srcOff = s.srcOff ∧
    (finishWriteRequest (kernelWrite s cell res) cell).srcSize = s.srcSize ∧
    (finishWriteRequest (kernelWrite s cell res) cell).blockStatuses =
      Function.update s.blockStatuses cell
        ⟨.idle, (s.blockStatuses cell).offset, (s.blockStatuses cell).size⟩ := by
  rw [finishWriteRequest, kernelWrite]
  exact ⟨rfl, rfl, rfl⟩

def initialReads (s : CopyStatus) : CopyStatus :=
  (List.range QUEUE_SIZE).foldl prepareReadRequest s

theorem foldl_prepareReadRequest_frame (cells : List Nat) (s : CopyStatus) :
    (cells.foldl prepareReadRequest s).buffers = s.buffers ∧
      (cells.foldl prepareReadRequest s).dst = s.dst ∧
      (cells.foldl prepareReadRequest s).srcSize = s.srcSize := by
  induction cells generalizing s with
  | nil => exact ⟨rfl, rfl, rfl⟩
  | cons cell cells ih =>
    simpa only [List.foldl_cons, prepareReadRequest_buffers, prepareReadRequest_dst,
      prepareReadRequest_srcSize] using ih (prepareReadRequest s cell)

def loopGoesOn (s : CopyStatus) : Bool :=
  s.srcOff != s.srcSize || s.numBlockInProgress != 0

/-- One completion, in any order the kernel chooses: a cell with an outstanding request, and
the request's result. -/
def Step (src : List UInt8) (s t : CopyStatus) : Prop :=
  loopGoesOn s ∧ ∃ cell < QUEUE_SIZE, ∃ res : Int,
    (s.blockStatuses cell).stage ≠ .idle ∧ serveCompletion src s cell res = .ok t

/-- The start of the copy: `open_src_file`, `open_dst_file` and `init_copying_status`, with
the buffers as `aligned_alloc` leaves them, then the first `QUEUE_SIZE` reads. -/
def copyStart (srcSize : Nat) (buffers : Nat → List UInt8) : CopyStatus :=
  initialReads (CopyStatus.init srcSize buffers (List.replicate srcSize 0))

set_option maxRecDepth 2000 in
/-- A read is checked only for `res < 0`, and `io_uring_prep_write_fixed` always writes the
whole `READ_BLOCK_SIZE`-byte buffer. A read of the 2-byte source `[1, 2]` that completes with
`res = 1` leaves the buffer's old byte behind the first one; the write carries it to the
destination and `ftruncate` keeps it: the copy is `[1, 0]`. -/
theorem short_read_copies_stale_bytes :
    openSrcFile 3 0 [1, 2].length = .ok 2 ∧ openDstFile 2 4 0 = .ok (List.replicate 2 0) ∧
    ∃ s, Reachable (· = copyStart 2 fun _ => List.replicate READ_BLOCK_SIZE 0) (Step [1, 2]) s ∧
      loopGoesOn s = false ∧ s.log = [.read 0 0, .write 0 0] ∧
      closeSrcDstFiles s.srcSize s.dst ⟨0, 0, 0, 0⟩ = .ok [1, 0] := by
  let s0 := copyStart 2 fun _ => List.replicate READ_BLOCK_SIZE 0
  let s1 := prepareWriteRequest (kernelRead [1, 2] s0 0 1) 0
  let s2 := prepareReadRequest (finishWriteRequest (kernelWrite s1 0 4096) 0) 0
  have h1 : Step [1, 2] s0 s1 := ⟨rfl, 0, by decide, 1, by decide, rfl⟩
  have h2 : Step [1, 2] s1 s2 := ⟨rfl, 0, by decide, 4096, by decide, rfl⟩
  have hoff : (s0.blockStatuses 0).offset = 0 := by decide
  obtain ⟨hbuf, hdst0, hsize⟩ := foldl_prepareReadRequest_frame (List.range QUEUE_SIZE)
    (CopyStatus.init 2 (fun _ => List.replicate READ_BLOCK_SIZE 0) (List.replicate 2 0))
  have hlen : (1 :: List.replicate 4095 (0 : UInt8)).length = 4096 := by
    simp only [List.length_cons, List.length_replicate]
  have hbuf1 : s1.buffers 0 = 1 :: List.replicate 4095 0 := by
    have hdata : (([1, 2].drop 0).take READ_BLOCK_SIZE).take 1 = [(1 : UInt8)] := rfl
    simp only [s1, prepareWriteRequest, kernelRead, hoff, Function.update_same, hdata]
    rw [show s0.buffers 0 = List.replicate 4096 0 from congrFun hbuf 0]
    simp only [List.length_singleton, List.drop_replicate, List.singleton_append]
  have hdst : s2.dst = 1 :: List.replicate 4095 0 := by
    have hdst1 : s1.dst = List.replicate 2 0 := hdst0
    simp only [s2, prepareReadRequest_dst, finishWriteRequest, kernelWrite, hbuf1,
      show (s1.blockStatuses 0).offset = 0 from hoff, READ_BLOCK_SIZE,
      List.take_of_length_le (le_of_eq hlen), Client.pwriteAt, List.cons_ne_nil, if_false,
      List.take_zero, List.nil_append, Nat.zero_add, hlen, hdst1, List.drop_replicate,
      show 2 - 4096 = 0 from rfl, List.replicate_zero, List.append_nil]
  refine ⟨rfl, rfl, s2, .step (.step (.init rfl) h1) h2, by decide, by decide, ?_⟩
  have hsize2 : s2.srcSize = 2 := (prepareReadRequest_srcSize _ 0).trans hsize
  rw [hdst, hsize2]
  simp only [closeSrcDstFiles, hlen, List.take_succ_cons, List.take_replicate]
  rfl

end NetworkingHowto.Copy.IoUring
