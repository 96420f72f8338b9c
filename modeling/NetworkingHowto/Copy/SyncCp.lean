import NetworkingHowto.Copy.Files
import NetworkingHowto.Client.Download

/-! The synchronous copier (`sync-cp`, the second program of `unnamed/part_001`), on a regular
source file, with its `uint32_t` byte counter `i`. -/
namespace NetworkingHowto.Copy.SyncCp

def READ_BLOCK_SIZE : Nat := 4096

structure CopyIo where
  readRet : Int
  writeRet : Int
deriving DecidableEq, Repr

/-- The answers of a regular file of `fileSize` bytes read at `pos`: `read` returns what is
left there, at most a block, and `write` writes all of it. -/
def fileIo (fileSize pos : Nat) : CopyIo :=
  let count : Nat := min READ_BLOCK_SIZE (fileSize - pos)
  ⟨count, count⟩

/-- The copy in progress: the counter `i`, the offsets of `src_fd` and `dst_fd`, and the
destination file. -/
structure SyncState where
  i : Nat
  srcPos : Nat
  dstPos : Nat
  dst : List UInt8

inductive Pass where
  /-- The test `i < src_size` fails, or the `break` after a short read. -/
  | stop (s : SyncState)
  /-- A whole block copied; the loop goes on. -/
  | next (s : SyncState)

/-- One pass of `for (uint32_t i = 0U; i < src_size;)` on the source `src`, with the answers
`io`: a `read` that returns `n` has read the source's `n` bytes at `src_fd`'s offset, and
`.error` is an `exit`. -/
def syncPass (src : List UInt8) (srcSize : Nat) (io : CopyIo) (s : SyncState) :
    Except String Pass :=
  if s.i < srcSize then
    let bytesRead := io.readRet
    if bytesRead = -1 then .error "Unable to read block [%x, %x)\n"
    else
      let bytesWritten := io.writeRet
      if bytesWritten = -1 ∨ bytesWritten ≠ bytesRead then
        .error "Unable to write block [%x, %lx)\n"
      else
        let data := (src.drop s.srcPos).take bytesRead.toNat
        let s : SyncState := ⟨(((s.i : Int) + bytesRead) % 2^32).toNat,
          s.srcPos + bytesRead.toNat, s.dstPos + bytesRead.toNat,
          Client.pwriteAt s.dst s.dstPos data⟩
        if bytesRead ≠ READ_BLOCK_SIZE then .ok (.stop s) else .ok (.next s)
  else .ok (.stop s)

/-- The first `n` passes of the loop on a regular source file: the state it ends in, or the
exit, or `none` if `n` passes do not reach the end. -/
def copyLoop (src : List UInt8) (srcSize : Nat) : Nat → SyncState → Option (Except String SyncState)
  | 0, _ => none
  | n + 1, s =>
    match syncPass src srcSize (fileIo src.length s.srcPos) s with
    | .error msg => some (.error msg)
    | .ok (.stop s) => some (.ok s)
    | .ok (.next s) => copyLoop src srcSize n s

/-- The state after the first `c` bytes of `src` are copied into `m` zero bytes. -/
structure Copied (src : List UInt8) (m c : Nat) (s : SyncState) : Prop where
  i : s.i = c % 2^32
  srcPos : s.srcPos = c
  dstPos : s.dstPos = c
  le : c ≤ src.length
  dst : s.dst = src.take c ++ List.replicate (m - c) 0

theorem pwriteAt_take_append {src : List UInt8} {m c n : Nat} (hc : c ≤ src.length)
    (hm : m ≤ src.length) :
    Client.pwriteAt (src.take c ++ List.replicate (m - c) 0) c ((src.drop c).take n) =
      src.take (c + n) ++ List.replicate (m - (c + n)) 0 := by
  have hd : ((src.drop c).take n).length = min n (src.length - c) := by simp
  have htake : (src.take c).length = c := by simp [hc]
  unfold Client.pwriteAt
  rw [List.take_add]
  split_ifs with hnil
  · -- nothing left to write: `n = 0` or the source ends at `c`
    rw [hnil, List.append_nil]
    rw [hnil, List.length_nil] at hd
    congr 2
    omega
  · have hpad : c - (src.take c ++ List.replicate (m - c) 0).length = 0 := by simp; omega
    rw [hpad, List.replicate_zero, List.append_nil, List.take_left' htake,
      List.drop_append_eq_append_drop,
      List.drop_eq_nil_of_le (show (src.take c).length ≤ c + ((src.drop c).take n).length by omega),
      htake, List.nil_append, List.drop_replicate, hd]
    congr 2
    omega

theorem Copied.pass {src : List UInt8} {m c : Nat} {s : SyncState} (hm : m ≤ src.length)
    (h : Copied src m c s) :
    (∃ c' s', syncPass src m (fileIo src.length s.srcPos) s = .ok (.stop s') ∧
      Copied src m c' s' ∧ m ≤ c') ∨
    (∃ s', syncPass src m (fileIo src.length s.srcPos) s = .ok (.next s') ∧
      Copied src m (c + READ_BLOCK_SIZE) s' ∧ c + READ_BLOCK_SIZE ≤ src.length) := by
  have hR : READ_BLOCK_SIZE = 4096 := rfl
  obtain ⟨hi, hpos, hdpos, hle, hdst⟩ := h
  unfold syncPass fileIo
  by_cases hlt : s.i < m
  · -- a read of `d` bytes, all written
    rw [if_pos hlt, hpos]
    dsimp only
    generalize hd : min READ_BLOCK_SIZE (src.length - c) = d
    have hcopied : Copied src m (c + d) ⟨(((s.i : Int) + (d : Int)) % 2^32).toNat,
        c + (d : Int).toNat, s.dstPos + (d : Int).toNat,
        Client.pwriteAt s.dst s.dstPos ((src.drop c).take (d : Int).toNat)⟩ :=
      ⟨by dsimp only; omega, by dsimp only; omega, by dsimp only; omega, by omega,
        by dsimp only; rw [hdst, hdpos, Int.toNat_ofNat, pwriteAt_take_append hle hm]⟩
    rw [if_neg (by omega), if_neg (by omega)]
    by_cases hfull : (d : Int) ≠ READ_BLOCK_SIZE
    · rw [if_pos hfull]
      exact .inl ⟨c + d, _, rfl, hcopied, by omega⟩
    · rw [if_neg hfull]
      have hdR : d = READ_BLOCK_SIZE := by omega
      exact .inr ⟨_, rfl, hdR ▸ hcopied, by omega⟩
  · -- the test `i < src_size` fails
    rw [if_neg hlt]
    exact .inl ⟨c, s, rfl, ⟨hi, hpos, hdpos, hle, hdst⟩, by
      have := Nat.mod_le c (2^32)
      omega⟩

theorem Copied.loop {src : List UInt8} {m : Nat} (hm : m ≤ src.length) :
    ∀ (n c : Nat) (s : SyncState), Copied src m c s →
      (src.length - c) / READ_BLOCK_SIZE < n →
      ∃ c' s', copyLoop src m n s = some (.ok s') ∧ Copied src m c' s' ∧ m ≤ c'
  | 0, _, _, _, hn => absurd hn (Nat.not_lt_zero _)
  | n + 1, c, s, h, hn => by
    rcases h.pass hm with ⟨c', s', hst, h', hc'⟩ | ⟨s', hst, h', hle⟩
    · exact ⟨c', s', by rw [copyLoop, hst], h', hc'⟩
    · have hR : READ_BLOCK_SIZE = 4096 := rfl
      obtain ⟨c'', s'', hrun, h'', hmc⟩ :=
        Copied.loop hm n (c + READ_BLOCK_SIZE) s' h' (by rw [hR] at hn hle ⊢; omega)
      exact ⟨c'', s'', by rw [copyLoop, hst]; exact hrun, h'', hmc⟩

/-- The synchronous copier copies the first `src_size` bytes of the source: on a regular
source file of any size, once `open_src_file` and `open_dst_file` succeed, one pass more than
the source has whole blocks ends the loop without an exit, and the file `close_src_dst_files`
leaves is the source cut to its size modulo `2^32`; a source below `2^32` bytes is copied
whole. -/
theorem sync_cp_copies_source_prefix {src dst : List UInt8}
    {openRet fstatRet dstOpenRet fallocateRet : Int} {srcSize n : Nat}
    (hsrc : openSrcFile openRet fstatRet src.length = .ok srcSize)
    (hdst : openDstFile srcSize dstOpenRet fallocateRet = .ok dst)
    (hn : src.length / READ_BLOCK_SIZE < n) :
    ∃ s, copyLoop src srcSize n ⟨0, 0, 0, dst⟩ = some (.ok s) ∧
      ∀ io dst', closeSrcDstFiles srcSize s.dst io = .ok dst' →
        dst' = src.take (src.length % 2^32) := by
  have hS := openSrcFile_size hsrc
  have hm : srcSize ≤ src.length := hS ▸ Nat.mod_le _ _
  have h0 : Copied src srcSize 0 ⟨0, 0, 0, dst⟩ :=
    ⟨rfl, rfl, rfl, Nat.zero_le _, by rw [openDstFile_ok hdst]; rfl⟩
  obtain ⟨c, s, hrun, hc, hmc⟩ := Copied.loop hm n 0 _ h0 (by rw [Nat.sub_zero]; exact hn)
  refine ⟨s, hrun, fun io dst' hclose => ?_⟩
  have hlen : srcSize ≤ s.dst.length := by
    rw [hc.dst, List.length_append, List.length_take]
    omega
  rw [closeSrcDstFiles_ok hclose hlen, hc.dst, ← hS, Nat.sub_eq_zero_of_le hmc,
    List.replicate_zero, List.append_nil, List.take_take, Nat.min_eq_left hmc]

theorem sync_cp_copies_source_prefix_three_bytes :
    openSrcFile 3 0 [7, 8, 9].length = .ok 3 ∧ openDstFile 3 4 0 = .ok [0, 0, 0] ∧
    [7, 8, 9].length / READ_BLOCK_SIZE < 1 ∧
    ∃ s, copyLoop [7, 8, 9] 3 1 ⟨0, 0, 0, [0, 0, 0]⟩ = some (.ok s) ∧
      ∀ io dst', closeSrcDstFiles 3 s.dst io = .ok dst' →
        dst' = [7, 8, 9].take ([7, 8, 9].length % 2^32) :=
  have hsrc : openSrcFile 3 0 [7, 8, 9].length = .ok 3 := rfl
  have hdst : openDstFile 3 4 0 = .ok [0, 0, 0] := rfl
  ⟨hsrc, hdst, by decide, sync_cp_copies_source_prefix hsrc hdst (by decide)⟩

end NetworkingHowto.Copy.SyncCp
