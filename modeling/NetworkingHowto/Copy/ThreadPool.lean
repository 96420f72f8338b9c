import NetworkingHowto.Copy.Files
import Mathlib.Data.List.Range

/-! `thread_func` of the thread-pool copier (the second program of `io-uring-cp.c`), whose
`uint32_t` counter steps by `READ_BLOCK_SIZE * NUM_THREADS`. -/
namespace NetworkingHowto.Copy.ThreadPool

def READ_BLOCK_SIZE : Nat := 4096

def NUM_THREADS : Nat := 2

structure CopyIo where
  preadRet : Int
  pwriteRet : Int
deriving DecidableEq, Repr

/-- The answers of a regular file of `fileSize` bytes at `offset`: `pread` returns the bytes
left there, at most `READ_BLOCK_SIZE`, and `pwrite` writes all of them. -/
def fileIo (fileSize offset : Nat) : CopyIo :=
  let count : Nat := min READ_BLOCK_SIZE (fileSize - offset)
  ⟨count, count⟩

inductive Pass where
  /-- The loop test `i < src_size` fails, or `offset > src_size` breaks. -/
  | stop
  /-- `count` bytes at `offset` copied, fewer than a block: `break`. -/
  | last (offset count : Nat)
  /-- A whole block at `offset` copied; the loop goes on from counter `i`. -/
  | next (offset count i : Nat)
deriving DecidableEq, Repr

/-- One pass of the loop of `thread_func` for thread `threadI` at counter `i`, with the
answers `io` of its `pread` and `pwrite`; `.error` is an `exit`. -/
def threadFuncPass (srcSize threadI i : Nat) (io : CopyIo) : Except String Pass :=
  if i < srcSize then
    let offset := i + threadI * READ_BLOCK_SIZE
    if offset > srcSize then .ok .stop
    else if io.preadRet = -1 then .error "Unable to read block [%x, %x)\n"
    else if io.pwriteRet = -1 ∨ io.pwriteRet ≠ io.preadRet then
      .error "Unable to write block [%x, %lx)\n"
    else
      let i := (i + READ_BLOCK_SIZE * NUM_THREADS) % 2^32
      if io.preadRet ≠ READ_BLOCK_SIZE then .ok (.last offset io.preadRet.toNat)
      else .ok (.next offset io.preadRet.toNat i)
  else .ok .stop

/-- The first `n` passes of the loop from counter `i`, answered by a regular file of
`fileSize` bytes: the `(offset, count)` of each `pread`/`pwrite` pair, and the counter the
loop goes on from, `none` once it has ended. -/
def threadFuncLoop (fileSize srcSize threadI : Nat) :
    Nat → Nat → Except String (List (Nat × Nat) × Option Nat)
  | 0, i => .ok ([], some i)
  | n + 1, i =>
    match threadFuncPass srcSize threadI i (fileIo fileSize (i + threadI * READ_BLOCK_SIZE)) with
    | .error msg => .error msg
    | .ok .stop => .ok ([], none)
    | .ok (.last offset count) => .ok ([(offset, count)], none)
    | .ok (.next offset count i) =>
      Prod.map ((offset, count) :: ·) id <$> threadFuncLoop fileSize srcSize threadI n i

theorem threadFuncPass_full {fileSize threadI i : Nat}
    (hfull : i + threadI * READ_BLOCK_SIZE + READ_BLOCK_SIZE ≤ fileSize) :
    threadFuncPass fileSize threadI i (fileIo fileSize (i + threadI * READ_BLOCK_SIZE)) =
      .ok (.next (i + threadI * READ_BLOCK_SIZE) READ_BLOCK_SIZE
        ((i + READ_BLOCK_SIZE * NUM_THREADS) % 2^32)) := by
  have hmin : min READ_BLOCK_SIZE (fileSize - (i + threadI * READ_BLOCK_SIZE)) = READ_BLOCK_SIZE :=
    Nat.min_eq_left (by omega)
  unfold threadFuncPass fileIo
  rw [hmin, if_pos (by unfold READ_BLOCK_SIZE at hfull; omega), if_neg (by omega)]
  simp [READ_BLOCK_SIZE]

theorem threadFuncLoop_wraps {fileSize : Nat} (h1 : 2^32 - READ_BLOCK_SIZE ≤ fileSize) :
    ∀ (n k : Nat), k < 2^19 →
      threadFuncLoop fileSize fileSize 0 n (8192 * k) =
        .ok ((List.range n).map (fun j => (8192 * ((k + j) % 2^19), READ_BLOCK_SIZE)),
          some (8192 * ((k + n) % 2^19)))
  | 0, k, hk => by simp only [threadFuncLoop, List.range_zero, List.map_nil, Nat.add_zero,
      Nat.mod_eq_of_lt hk]
  | n + 1, k, hk => by
    have hfull : 8192 * k + 0 * READ_BLOCK_SIZE + READ_BLOCK_SIZE ≤ fileSize := by
      unfold READ_BLOCK_SIZE at *; omega
    have hnext : (8192 * k + READ_BLOCK_SIZE * NUM_THREADS) % 2^32 = 8192 * ((k + 1) % 2^19) := by
      unfold READ_BLOCK_SIZE NUM_THREADS; omega
    rw [threadFuncLoop, threadFuncPass_full hfull, hnext]
    dsimp only
    rw [threadFuncLoop_wraps h1 n ((k + 1) % 2^19) (Nat.mod_lt _ (by decide)),
      show ((k + 1) % 2^19 + n) % 2^19 = (k + (n + 1)) % 2^19 by omega,
      List.range_succ_eq_map, List.map_cons, List.map_map, Nat.add_zero k, Nat.mod_eq_of_lt hk,
      Nat.zero_mul, Nat.add_zero (8192 * k)]
    refine congrArg (fun l => Except.ok (_ :: l, _)) (List.map_congr_left fun j _ => ?_)
    rw [Function.comp_apply, show ((k + 1) % 2^19 + j) % 2^19 = (k + (j + 1)) % 2^19 by omega]

/-- The `uint32_t` counter wraps. On a source of `2^32 - READ_BLOCK_SIZE` bytes or more and
below `2^32`, which `open_src_file` reports as it is, every pass of thread 0 copies a whole
block; the counter reaches `2^32 - 8192` and, `2^19` passes in, `0` again. The loop never
ends, and pass `2^19` copies block 0 a second time. -/
theorem thread_zero_counter_wraps {openRet fstatRet : Int} {fileSize srcSize : Nat}
    (hopen : openSrcFile openRet fstatRet fileSize = .ok srcSize)
    (h1 : 2^32 - READ_BLOCK_SIZE ≤ fileSize) (h2 : fileSize < 2^32) (n : Nat) :
    threadFuncLoop fileSize srcSize 0 n 0 =
      .ok ((List.range n).map (fun j => (8192 * (j % 2^19), READ_BLOCK_SIZE)),
        some (8192 * (n % 2^19))) := by
  rw [openSrcFile_size hopen, Nat.mod_eq_of_lt h2]
  simpa using threadFuncLoop_wraps h1 n 0 (by decide)

theorem thread_zero_counter_wraps_near_four_gib :
    openSrcFile 3 0 (2^32 - 1) = .ok (2^32 - 1) ∧ 2^32 - READ_BLOCK_SIZE ≤ 2^32 - 1 ∧
    2^32 - 1 < 2^32 ∧
    threadFuncLoop (2^32 - 1) (2^32 - 1) 0 (2^19 + 1) 0 =
      .ok ((List.range (2^19 + 1)).map (fun j => (8192 * (j % 2^19), READ_BLOCK_SIZE)),
        some (8192 * ((2^19 + 1) % 2^19))) :=
  have hopen : openSrcFile 3 0 (2^32 - 1) = .ok (2^32 - 1) := rfl
  ⟨hopen, by decide, by decide, thread_zero_counter_wraps hopen (by decide) (by decide) (2^19 + 1)⟩

end NetworkingHowto.Copy.ThreadPool
