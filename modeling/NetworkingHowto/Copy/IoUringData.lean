import NetworkingHowto.Copy.IoUringInvariant

/-! The bytes the io_uring copier moves: when every completion moves its whole block, the
destination left is the source, whatever the completion order. -/
namespace NetworkingHowto.Copy.IoUring

/-- A completion that moves its whole block. A regular source file's `read_fixed` returns the
block's size, and a `write_fixed` to a regular file the `READ_BLOCK_SIZE` bytes it was given. -/
def FullStep (src : List UInt8) (s t : CopyStatus) : Prop :=
  loopGoesOn s ∧ ∃ cell < QUEUE_SIZE, ∃ res : Int, (s.blockStatuses cell).size ≤ res.toNat ∧
    (s.blockStatuses cell).stage ≠ .idle ∧ serveCompletion src s cell res = .ok t

theorem FullStep.step {src : List UInt8} {s t : CopyStatus} (h : FullStep src s t) :
    Step src s t :=
  let ⟨hgo, c, hc, res, _, hbusy, hok⟩ := h
  ⟨hgo, c, hc, res, hbusy, hok⟩

/-- The start of the block byte `i` belongs to. -/
def blockOf (i : Nat) : Nat := i - i % READ_BLOCK_SIZE

/-- The bytes of a state of the copy: the source has `src_size` bytes, the destination at
least that many, each byte below `src_off` whose block no busy cell holds is in the
destination, and a cell in `BLOCK_IN_WRITE` holds its block in its buffer. -/
structure CopyData (src : List UInt8) (s : CopyStatus) : Prop where
  src_len : src.length = s.srcSize
  dst_len : s.srcSize ≤ s.dst.length
  written : ∀ i < s.srcOff, (∀ c, (s.blockStatuses c).stage ≠ .idle →
    (s.blockStatuses c).offset ≠ blockOf i) → s.dst[i]? = src[i]?
  buffered : ∀ c, (s.blockStatuses c).stage = .inWrite → ∀ j < (s.blockStatuses c).size,
    (s.buffers c)[j]? = src[(s.blockStatuses c).offset + j]?

namespace CopyData
variable {src : List UInt8} {s : CopyStatus} {c : Nat}

theorem prepareRead (hd : CopyData src s) (h : CopyCore s)
    (hidle : (s.blockStatuses c).stage = .idle) : CopyData src (prepareReadRequest s c) := by
  rcases Nat.lt_or_ge s.srcOff s.srcSize with hlt | hge
  swap
  · rw [prepareReadRequest_done (Nat.le_antisymm h.off_le hge)]
    exact hd
  have ho : s.srcOff % READ_BLOCK_SIZE = 0 := h.off_aligned.resolve_right hlt.ne
  rw [prepareReadRequest_next hlt h.size_lt]
  refine ⟨hd.src_len, hd.dst_len, fun i hi hfree => ?_, fun d hw j hj => ?_⟩
  · dsimp only at hi hfree ⊢
    rcases Nat.lt_or_ge i s.srcOff with hio | hio
    · refine hd.written i hio fun d hd' => ?_
      have hdc : d ≠ c := fun hdc => hd' (hdc ▸ hidle)
      have := hfree d (by rwa [Function.update_noteq hdc])
      rwa [Function.update_noteq hdc] at this
    · have hb : blockOf i = s.srcOff := by
        unfold blockOf
        unfold READ_BLOCK_SIZE at ho hi ⊢
        omega
      have := hfree c (by rw [Function.update_same]; exact (by decide : BlockStage.inRead ≠ .idle))
      rw [Function.update_same] at this
      exact absurd hb.symm this
  · dsimp only at hw hj ⊢
    have hdc : d ≠ c := by
      rintro rfl
      rw [Function.update_same] at hw
      cases hw
    rw [Function.update_noteq hdc] at hw hj ⊢
    exact hd.buffered d hw j hj

theorem readDone (hd : CopyData src s) (h : CopyCore s) (hr : (s.blockStatuses c).stage = .inRead)
    {res : Nat} (hres : (s.blockStatuses c).size ≤ res) :
    CopyData src (prepareWriteRequest (kernelRead src s c res) c) := by
  have hbusyc : (s.blockStatuses c).stage ≠ .idle := by rw [hr]; decide
  have hoff := h.offset_lt hbusyc
  have hsize := (h.block c hbusyc).2
  have hsrc := hd.src_len
  rw [prepareWriteRequest, kernelRead]
  refine ⟨hd.src_len, hd.dst_len, fun i hi hfree => hd.written i hi fun d hd' => ?_,
    fun d hw j hj => ?_⟩
  · dsimp only at hfree
    have hbusy : (Function.update s.blockStatuses c
        ⟨.inWrite, (s.blockStatuses c).offset, (s.blockStatuses c).size⟩ d).stage ≠ .idle := by
      rw [update_stage_stage]
      split_ifs
      · decide
      · exact hd'
    have := hfree d hbusy
    rwa [(update_stage_block _ _ _ _).1] at this
  · dsimp only at hw hj ⊢
    rw [update_stage_stage] at hw
    rw [(update_stage_block _ _ _ _).1]
    rw [(update_stage_block _ _ _ _).2] at hj
    split_ifs at hw with hdc
    · subst hdc
      rw [Function.update_same]
      have hjres : j < res := by omega
      have hjblock : j < READ_BLOCK_SIZE := by omega
      have hlen : j < (((src.drop (s.blockStatuses d).offset).take READ_BLOCK_SIZE).take res).length := by
        simp only [List.length_take, List.length_drop]
        omega
      rw [List.getElem?_append_left hlen, List.getElem?_take_of_lt hjres,
        List.getElem?_take_of_lt hjblock, List.getElem?_drop]
    · rw [Function.update_noteq hdc]
      exact hd.buffered d hw j hj

theorem writeDone (hd : CopyData src s) (h : CopyCore s) (hw : (s.blockStatuses c).stage = .inWrite)
    {res : Nat} (hres : (s.blockStatuses c).size ≤ res) :
    CopyData src (finishWriteRequest (kernelWrite s c res) c) := by
  have hbusyc : (s.blockStatuses c).stage ≠ .idle := by rw [hw]; decide
  have hoff := h.offset_lt hbusyc
  have hal := (mem_blockOffsets.mp (h.block c hbusyc).1).1
  have hsize := (h.block c hbusyc).2
  have hsrc := hd.src_len
  have hdst := hd.dst_len
  have hoffS := h.off_le
  have hR : READ_BLOCK_SIZE = 4096 := rfl
  -- the buffer holds the block, so it is at least the block long
  have hbuf : (s.blockStatuses c).size ≤ (s.buffers c).length := by
    by_contra hlt
    have := hd.buffered c hw (s.buffers c).length (by omega)
    rw [List.getElem?_eq_none le_rfl, eq_comm, List.getElem?_eq_none_iff] at this
    omega
  rw [finishWriteRequest, kernelWrite]
  refine ⟨hd.src_len, ?_, fun i hi hfree => ?_, fun d hw' j hj => ?_⟩
  · exact hdst.trans (Client.length_pwriteAt_le (by omega))
  · dsimp only at hi hfree ⊢
    rw [Client.getElem?_pwriteAt (by omega)]
    have hwlen : (((s.buffers c).take READ_BLOCK_SIZE).take res).length =
        min res (min READ_BLOCK_SIZE (s.buffers c).length) := by simp only [List.length_take]
    split_ifs with hin
    · rw [List.getElem?_take_of_lt (by omega), List.getElem?_take_of_lt (by omega)]
      rw [hd.buffered c hw (i - (s.blockStatuses c).offset) (by omega)]
      congr 1
      omega
    · refine hd.written i hi fun d hd' heq => ?_
      by_cases hdc : d = c
      · subst hdc
        rw [blockOf, hR] at heq
        omega
      · have := hfree d (by rwa [update_stage_stage, if_neg hdc])
        rw [(update_stage_block _ _ _ _).1] at this
        exact this heq
  · dsimp only at hw' hj ⊢
    rw [update_stage_stage] at hw'
    rw [(update_stage_block _ _ _ _).1]
    rw [(update_stage_block _ _ _ _).2] at hj
    split_ifs at hw' with hdc
    exact hd.buffered d hw' j hj

theorem step {t : CopyStatus} (hd : CopyData src s) (h : CopyInv s) (hst : FullStep src s t) :
    CopyData src t := by
  obtain ⟨-, c, hc, res, hres, hbusy, hok⟩ := hst
  rcases serveCompletion_ok hok with ⟨hr, rfl⟩ | ⟨hw, rfl⟩ | ⟨hi, -⟩
  · exact hd.readDone h.toCopyCore hr hres
  · exact (hd.writeDone h.toCopyCore hw hres).prepareRead (h.toCopyCore.kernelWrite.finishWrite hw)
      (by rw [(finishWriteRequest_kernelWrite s c res.toNat).2.2, Function.update_same])
  · exact absurd hi hbusy

theorem foldl_prepareReadRequest {s0 : CopyStatus} (hd : CopyData src s0) (h0 : CopyCore s0)
    (hidle : ∀ c, (s0.blockStatuses c).stage = .idle) :
    ∀ k ≤ QUEUE_SIZE, CopyData src ((List.range k).foldl prepareReadRequest s0)
  | 0, _ => hd
  | k + 1, hk => by
    obtain ⟨hcore, hid, -⟩ := foldl_prepareReadRequest_core h0 hidle k (by omega)
    rw [List.range_succ, List.foldl_append, List.foldl_cons, List.foldl_nil]
    exact (foldl_prepareReadRequest hd h0 hidle k (by omega)).prepareRead hcore (hid k le_rfl)

end CopyData

theorem copyStart_data {src : List UInt8} (hsize : src.length < 2^32)
    (buffers : Nat → List UInt8) : CopyData src (copyStart src.length buffers) := by
  unfold copyStart initialReads
  have hd : CopyData src (CopyStatus.init src.length buffers (List.replicate src.length 0)) :=
    ⟨rfl, (List.length_replicate _ _).ge, fun i hi => absurd hi (Nat.not_lt_zero i),
      fun _ hw => nomatch hw⟩
  exact CopyData.foldl_prepareReadRequest hd (init_core hsize buffers) (fun _ => rfl)
    QUEUE_SIZE le_rfl

theorem full_run_data {src : List UInt8} {buffers : Nat → List UInt8} {s : CopyStatus}
    (hsize : src.length < 2^32)
    (h : Reachable (· = copyStart src.length buffers) (FullStep src) s) :
    CopyInv s ∧ CopyData src s := by
  induction h with
  | init hs =>
    rw [hs]
    exact ⟨copyStart_inv hsize buffers, copyStart_data hsize buffers⟩
  | step _ hst ih => exact ⟨ih.1.step hst.step, ih.2.step ih.1 hst⟩

/-- When every read and write moves its whole block, the file `close_src_dst_files` leaves
once the loop has ended is the source. -/
theorem full_transfers_copy_source {src : List UInt8} {buffers : Nat → List UInt8}
    {s : CopyStatus} {io : CloseIo} {dst : List UInt8} (hsize : src.length < 2^32)
    (h : Reachable (· = copyStart src.length buffers) (FullStep src) s)
    (hend : loopGoesOn s = false) (hclose : closeSrcDstFiles s.srcSize s.dst io = .ok dst) :
    dst = src := by
  obtain ⟨hinv, hd⟩ := full_run_data hsize h
  obtain ⟨hoff, hidle⟩ := hinv.all_idle hend
  have hlen := hd.src_len
  rw [closeSrcDstFiles_ok hclose hd.dst_len]
  apply List.ext_getElem?
  intro i
  rw [List.getElem?_take]
  split_ifs with hi
  · exact hd.written i (hoff ▸ hi) fun c hc => absurd (hidle c) hc
  · exact (List.getElem?_eq_none (by omega)).symm

set_option maxRecDepth 2000 in
/-- A two-byte source read and written in one block each time is copied whole. -/
theorem full_transfers_copy_source_two_bytes : ∃ s dst,
    ([1, 2] : List UInt8).length < 2^32 ∧
    Reachable (· = copyStart 2 fun _ => List.replicate READ_BLOCK_SIZE 0) (FullStep [1, 2]) s ∧
    loopGoesOn s = false ∧ closeSrcDstFiles s.srcSize s.dst ⟨0, 0, 0, 0⟩ = .ok dst ∧
    dst = [1, 2] := by
  let s0 := copyStart 2 fun _ => List.replicate READ_BLOCK_SIZE 0
  let s1 := prepareWriteRequest (kernelRead [1, 2] s0 0 2) 0
  let s2 := prepareReadRequest (finishWriteRequest (kernelWrite s1 0 4096) 0) 0
  have h1 : FullStep [1, 2] s0 s1 := ⟨rfl, 0, by decide, 2, by decide, by decide, rfl⟩
  have h2 : FullStep [1, 2] s1 s2 := ⟨rfl, 0, by decide, 4096, by decide, by decide, rfl⟩
  have hs : Reachable (· = s0) (FullStep [1, 2]) s2 := .step (.step (.init rfl) h1) h2
  have hend : loopGoesOn s2 = false := by decide
  have hclose : closeSrcDstFiles s2.srcSize s2.dst ⟨0, 0, 0, 0⟩ =
      .ok (s2.dst.take s2.srcSize ++ List.replicate (s2.srcSize - s2.dst.length) 0) := rfl
  exact ⟨s2, _, by decide, hs, hend, hclose, full_transfers_copy_source (by decide) hs hend hclose⟩

end NetworkingHowto.Copy.IoUring
