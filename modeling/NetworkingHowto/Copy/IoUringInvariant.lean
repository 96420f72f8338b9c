import NetworkingHowto.Copy.IoUring
import Mathlib.Data.List.Nodup
import Mathlib.Algebra.BigOperators.Group.List
import Mathlib.Algebra.Order.Ring.Nat

/-! The invariant of every run of the io_uring copier, for any completion order and any
non-negative results: busy cells hold distinct blocks, the log is ordered, and every run ends. -/
namespace NetworkingHowto.Copy.IoUring

/-! ### Counting over the cells -/

def BlockStage.busy : BlockStage → Nat
  | .idle => 0
  | .inRead => 1
  | .inWrite => 1

/-- The completions a cell still waits for: the read and the write, or the write. -/
def BlockStage.toDo : BlockStage → Nat
  | .idle => 0
  | .inRead => 2
  | .inWrite => 1

def cellSum (g : BlockStage → Nat) (blocks : Nat → BlockStatus) : Nat :=
  ((List.range QUEUE_SIZE).map fun c => g (blocks c).stage).sum

theorem sum_range_update (g : BlockStage → Nat) (blocks : Nat → BlockStatus) (c : Nat)
    (b : BlockStatus) : ∀ n, c < n →
      ((List.range n).map fun d => g (Function.update blocks c b d).stage).sum + g (blocks c).stage =
        ((List.range n).map fun d => g (blocks d).stage).sum + g b.stage
  | 0, h => absurd h (Nat.not_lt_zero c)
  | n + 1, h => by
    simp only [List.range_succ, List.map_append, List.sum_append, List.map_singleton,
      List.sum_singleton]
    rcases Nat.lt_succ_iff_lt_or_eq.mp h with h | rfl
    · have := sum_range_update g blocks c b n h
      rw [Function.update_noteq (Nat.ne_of_gt h)]
      omega
    · have hsame : ((List.range c).map fun d => g (Function.update blocks c b d).stage) =
          (List.range c).map fun d => g (blocks d).stage :=
        List.map_congr_left fun d hd => by
          rw [Function.update_noteq (Nat.ne_of_lt (List.mem_range.mp hd))]
      rw [hsame, Function.update_same]
      omega

theorem cellSum_update (g : BlockStage → Nat) (blocks : Nat → BlockStatus) {c : Nat}
    (hc : c < QUEUE_SIZE) (b : BlockStatus) :
    cellSum g (Function.update blocks c b) + g (blocks c).stage = cellSum g blocks + g b.stage :=
  sum_range_update g blocks c b QUEUE_SIZE hc

theorem sum_range_busy_le (blocks : Nat → BlockStatus) :
    ∀ n, ((List.range n).map fun d => (blocks d).stage.busy).sum ≤ n
  | 0 => Nat.le_refl 0
  | n + 1 => by
    have h1 : (blocks n).stage.busy ≤ 1 := by cases (blocks n).stage <;> decide
    have := sum_range_busy_le blocks n
    simp only [List.range_succ, List.map_append, List.sum_append, List.map_singleton,
      List.sum_singleton]
    omega

theorem cellSum_busy_le (blocks : Nat → BlockStatus) :
    cellSum BlockStage.busy blocks ≤ QUEUE_SIZE :=
  sum_range_busy_le blocks QUEUE_SIZE

theorem cellSum_busy_pos {blocks : Nat → BlockStatus} {c : Nat} (hc : c < QUEUE_SIZE)
    (h : (blocks c).stage ≠ .idle) : 1 ≤ cellSum BlockStage.busy blocks := by
  have := cellSum_update BlockStage.busy blocks hc ⟨.idle, 0, 0⟩
  have h1 : (blocks c).stage.busy = 1 := by cases hs : (blocks c).stage <;> simp_all [BlockStage.busy]
  rw [h1] at this
  simp only [BlockStage.busy] at this
  omega

theorem exists_busy_of_cellSum {blocks : Nat → BlockStatus}
    (h : cellSum BlockStage.busy blocks ≠ 0) : ∃ c < QUEUE_SIZE, (blocks c).stage ≠ .idle := by
  by_contra hne
  push_neg at hne
  exact h (List.sum_eq_zero fun x hx => by
    obtain ⟨d, hd, rfl⟩ := List.mem_map.mp hx
    rw [hne d (List.mem_range.mp hd)]
    rfl)

/-! ### Blocks and the request log -/

def blockOffsets (off : Nat) : List Nat :=
  (List.range ((off + READ_BLOCK_SIZE - 1) / READ_BLOCK_SIZE)).map (READ_BLOCK_SIZE * ·)

theorem mem_blockOffsets {o off : Nat} :
    o ∈ blockOffsets off ↔ o % READ_BLOCK_SIZE = 0 ∧ o < off := by
  simp only [blockOffsets, List.mem_map, List.mem_range, READ_BLOCK_SIZE]
  constructor
  · rintro ⟨k, hk, rfl⟩
    omega
  · rintro ⟨h0, h1⟩
    exact ⟨o / 4096, by omega, by omega⟩

theorem blockOffsets_nodup (off : Nat) : (blockOffsets off).Nodup :=
  (List.nodup_range _).map fun a b h => by simp only [READ_BLOCK_SIZE] at h; omega

@[simp] theorem blockOffsets_zero : blockOffsets 0 = [] := by
  simp [blockOffsets, READ_BLOCK_SIZE]

theorem blockOffsets_add {off size : Nat} (ho : off % READ_BLOCK_SIZE = 0) (h0 : 0 < size)
    (h1 : size ≤ READ_BLOCK_SIZE) : blockOffsets (off + size) = blockOffsets off ++ [off] := by
  have e1 : (off + size + READ_BLOCK_SIZE - 1) / READ_BLOCK_SIZE =
      (off + READ_BLOCK_SIZE - 1) / READ_BLOCK_SIZE + 1 := by unfold READ_BLOCK_SIZE at *; omega
  have e2 : READ_BLOCK_SIZE * ((off + READ_BLOCK_SIZE - 1) / READ_BLOCK_SIZE) = off := by
    unfold READ_BLOCK_SIZE at *; omega
  rw [blockOffsets, e1, List.range_succ, List.map_append, List.map_singleton, e2]
  rfl

def Request.readAt : Request → Option Nat
  | .read _ offset => some offset
  | .write _ _ => none

def Request.writeAt : Request → Option Nat
  | .read _ _ => none
  | .write _ offset => some offset

@[simp] theorem filterMap_read_singleton (cell offset : Nat) :
    [Request.read cell offset].filterMap Request.readAt = [offset] ∧
      [Request.read cell offset].filterMap Request.writeAt = [] := ⟨rfl, rfl⟩

@[simp] theorem filterMap_write_singleton (cell offset : Nat) :
    [Request.write cell offset].filterMap Request.readAt = [] ∧
      [Request.write cell offset].filterMap Request.writeAt = [offset] := ⟨rfl, rfl⟩

def ReadFirst (log : List Request) : Prop :=
  ∀ o ∈ log.filterMap Request.writeAt, o ∈ log.filterMap Request.readAt

theorem readFirst_take_append {log : List Request} {e : Request}
    (h : ∀ k, ReadFirst (log.take k)) (he : ReadFirst (log ++ [e])) :
    ∀ k, ReadFirst ((log ++ [e]).take k) := by
  intro k
  rw [List.take_append_eq_append_take]
  rcases Nat.lt_or_ge log.length k with hk | hk
  · rwa [List.take_of_length_le hk.le, List.take_of_length_le (by simp only [List.length_singleton]; omega)]
  · rw [Nat.sub_eq_zero_of_le hk, List.take_zero, List.append_nil]
    exact h k

theorem update_stage_block (blocks : Nat → BlockStatus) (c d : Nat) (st : BlockStage) :
    (Function.update blocks c ⟨st, (blocks c).offset, (blocks c).size⟩ d).offset =
        (blocks d).offset ∧
      (Function.update blocks c ⟨st, (blocks c).offset, (blocks c).size⟩ d).size =
        (blocks d).size := by
  by_cases hd : d = c
  · subst hd
    simp
  · simp [Function.update_noteq hd]

theorem update_stage_stage (blocks : Nat → BlockStatus) (c d : Nat) (st : BlockStage) :
    (Function.update blocks c ⟨st, (blocks c).offset, (blocks c).size⟩ d).stage =
      if d = c then st else (blocks d).stage := by
  rw [Function.update_apply]
  split_ifs <;> rfl

theorem busy_of_update_stage {blocks : Nat → BlockStatus} {c d : Nat} {st : BlockStage}
    (hc : (blocks c).stage ≠ .idle)
    (hd : (Function.update blocks c ⟨st, (blocks c).offset, (blocks c).size⟩ d).stage ≠ .idle) :
    (blocks d).stage ≠ .idle := by
  rw [update_stage_stage] at hd
  split_ifs at hd with hdc
  · exact hdc ▸ hc
  · exact hd

/-! ### The invariant of the completion loop -/

/-- What every completion keeps, and the first reads build up cell by cell. -/
structure CopyCore (s : CopyStatus) : Prop where
  size_lt : s.srcSize < 2^32
  off_le : s.srcOff ≤ s.srcSize
  off_aligned : s.srcOff % READ_BLOCK_SIZE = 0 ∨ s.srcOff = s.srcSize
  busy_lt : ∀ c, (s.blockStatuses c).stage ≠ .idle → c < QUEUE_SIZE
  num_eq : s.numBlockInProgress = cellSum BlockStage.busy s.blockStatuses
  block : ∀ c, (s.blockStatuses c).stage ≠ .idle →
    (s.blockStatuses c).offset ∈ blockOffsets s.srcOff ∧
      (s.blockStatuses c).size = min READ_BLOCK_SIZE (s.srcSize - (s.blockStatuses c).offset)
  offset_inj : ∀ c d, (s.blockStatuses c).stage ≠ .idle → (s.blockStatuses d).stage ≠ .idle →
    (s.blockStatuses c).offset = (s.blockStatuses d).offset → c = d
  reads : s.log.filterMap Request.readAt = blockOffsets s.srcOff
  writes_nodup : (s.log.filterMap Request.writeAt).Nodup
  mem_writes : ∀ o, o ∈ s.log.filterMap Request.writeAt ↔
    o ∈ blockOffsets s.srcOff ∧ ∀ c, (s.blockStatuses c).stage = .inRead → (s.blockStatuses c).offset ≠ o
  read_first : ∀ k, ReadFirst (s.log.take k)

namespace CopyCore
variable {src : List UInt8} {s : CopyStatus} {c : Nat}

theorem readFirst (h : CopyCore s) : ReadFirst s.log :=
  fun o ho => h.reads ▸ ((h.mem_writes o).mp ho).1

theorem offset_lt (h : CopyCore s) {d : Nat} (hd : (s.blockStatuses d).stage ≠ .idle) :
    (s.blockStatuses d).offset < s.srcOff :=
  (mem_blockOffsets.mp (h.block d hd).1).2

theorem kernelRead (h : CopyCore s) {res : Nat} : CopyCore (kernelRead src s c res) := by
  cases h
  constructor <;> assumption

theorem kernelWrite (h : CopyCore s) {res : Nat} : CopyCore (kernelWrite s c res) := by
  cases h
  constructor <;> assumption

theorem prepareRead (h : CopyCore s) (hc : c < QUEUE_SIZE)
    (hidle : (s.blockStatuses c).stage = .idle) : CopyCore (prepareReadRequest s c) := by
  rcases Nat.lt_or_ge s.srcOff s.srcSize with hlt | hge
  swap
  · rw [prepareReadRequest_done (Nat.le_antisymm h.off_le hge)]
    exact h
  have ho : s.srcOff % READ_BLOCK_SIZE = 0 := h.off_aligned.resolve_right hlt.ne
  have hpos : 0 < min READ_BLOCK_SIZE (s.srcSize - s.srcOff) := by unfold READ_BLOCK_SIZE; omega
  have hnew := blockOffsets_add ho hpos (Nat.min_le_left _ _)
  have hcount := cellSum_update BlockStage.busy s.blockStatuses hc
    ⟨.inRead, s.srcOff, min READ_BLOCK_SIZE (s.srcSize - s.srcOff)⟩
  rw [hidle] at hcount
  simp only [BlockStage.busy] at hcount
  have hle := cellSum_busy_le s.blockStatuses
  have hmem : ∀ o, o ∈ (s.log ++ [Request.read c s.srcOff]).filterMap Request.writeAt ↔
      o ∈ blockOffsets (s.srcOff + min READ_BLOCK_SIZE (s.srcSize - s.srcOff)) ∧
        ∀ d, (Function.update s.blockStatuses c
          ⟨.inRead, s.srcOff, min READ_BLOCK_SIZE (s.srcSize - s.srcOff)⟩ d).stage = .inRead →
          (Function.update s.blockStatuses c
            ⟨.inRead, s.srcOff, min READ_BLOCK_SIZE (s.srcSize - s.srcOff)⟩ d).offset ≠ o := by
    intro o
    rw [List.filterMap_append, (filterMap_read_singleton c s.srcOff).2, List.append_nil,
      h.mem_writes o, hnew, List.mem_append, List.mem_singleton]
    constructor
    · rintro ⟨hx, hr⟩
      refine ⟨.inl hx, fun d hd => ?_⟩
      by_cases hdc : d = c
      · subst hdc
        rw [Function.update_same]
        exact (mem_blockOffsets.mp hx).2.ne'
      · rw [Function.update_noteq hdc] at hd ⊢
        exact hr d hd
    · rintro ⟨hx | rfl, hr⟩
      · refine ⟨hx, fun d hd => ?_⟩
        have hd' := hr d
        by_cases hdc : d = c
        · rw [hdc, hidle] at hd
          cases hd
        · rw [Function.update_noteq hdc] at hd'
          exact hd' hd
      · have hc' := hr c
        rw [Function.update_same] at hc'
        exact absurd rfl (hc' rfl)
  rw [prepareReadRequest_next hlt h.size_lt]
  refine ⟨h.size_lt, ?_, ?_, ?_, ?_, ?_, ?_, ?_, ?_, hmem, ?_⟩ <;> dsimp only
  · omega
  · unfold READ_BLOCK_SIZE at ho ⊢
    omega
  · intro d hd
    by_cases hdc : d = c
    · exact hdc ▸ hc
    · rw [Function.update_noteq hdc] at hd
      exact h.busy_lt d hd
  · have := h.num_eq
    unfold QUEUE_SIZE at hle
    omega
  · intro d hd
    by_cases hdc : d = c
    · subst hdc
      rw [Function.update_same]
      exact ⟨mem_blockOffsets.mpr ⟨ho, Nat.lt_add_of_pos_right hpos⟩, rfl⟩
    · rw [Function.update_noteq hdc] at hd ⊢
      exact ⟨hnew ▸ List.mem_append_left _ (h.block d hd).1, (h.block d hd).2⟩
  · intro d e hd he hde
    simp only [Function.update_apply] at hd he hde
    split_ifs at hd he hde with hdc hec hec
    · exact hdc.trans hec.symm
    · exact absurd hde (h.offset_lt he).ne'
    · exact absurd hde (h.offset_lt hd).ne
    · exact h.offset_inj d e hd he hde
  · rw [List.filterMap_append, h.reads, hnew, (filterMap_read_singleton c s.srcOff).1]
  · rw [List.filterMap_append, (filterMap_read_singleton c s.srcOff).2, List.append_nil]
    exact h.writes_nodup
  · refine readFirst_take_append h.read_first fun o ho => ?_
    rw [List.filterMap_append, h.reads, (filterMap_read_singleton c s.srcOff).1, ← hnew]
    exact ((hmem o).mp ho).1

theorem prepareWrite (h : CopyCore s) (hr : (s.blockStatuses c).stage = .inRead) :
    CopyCore (prepareWriteRequest s c) := by
  have hbusyc : (s.blockStatuses c).stage ≠ .idle := by rw [hr]; decide
  have hread : ∀ d, (Function.update s.blockStatuses c
      ⟨.inWrite, (s.blockStatuses c).offset, (s.blockStatuses c).size⟩ d).stage = .inRead ↔
        d ≠ c ∧ (s.blockStatuses d).stage = .inRead := fun d => by
    rw [update_stage_stage]
    split_ifs with hd
    · exact ⟨fun h' => (by cases h'), fun h' => absurd hd h'.1⟩
    · exact ⟨fun h' => ⟨hd, h'⟩, fun h' => h'.2⟩
  have hcount := cellSum_update BlockStage.busy s.blockStatuses (h.busy_lt c hbusyc)
    ⟨.inWrite, (s.blockStatuses c).offset, (s.blockStatuses c).size⟩
  rw [hr] at hcount
  simp only [BlockStage.busy] at hcount
  have hmem : ∀ o, o ∈ (s.log ++ [Request.write c (s.blockStatuses c).offset]).filterMap
      Request.writeAt ↔ o ∈ blockOffsets s.srcOff ∧ ∀ d, (Function.update s.blockStatuses c
        ⟨.inWrite, (s.blockStatuses c).offset, (s.blockStatuses c).size⟩ d).stage = .inRead →
          (Function.update s.blockStatuses c
            ⟨.inWrite, (s.blockStatuses c).offset, (s.blockStatuses c).size⟩ d).offset ≠ o := by
    intro o
    rw [List.filterMap_append, (filterMap_write_singleton _ _).2, List.mem_append,
      List.mem_singleton, h.mem_writes o]
    constructor
    · rintro (⟨hx, hr'⟩ | rfl)
      · refine ⟨hx, fun d hd => ?_⟩
        rw [(update_stage_block _ _ _ _).1]
        exact hr' d ((hread d).mp hd).2
      · refine ⟨(h.block c hbusyc).1, fun d hd heq => ?_⟩
        obtain ⟨hdc, hd⟩ := (hread d).mp hd
        rw [(update_stage_block _ _ _ _).1] at heq
        exact hdc (h.offset_inj d c (by rw [hd]; decide) hbusyc heq)
    · rintro ⟨hx, hr'⟩
      by_cases ho : o = (s.blockStatuses c).offset
      · exact .inr ho
      · refine .inl ⟨hx, fun d hd heq => ?_⟩
        by_cases hdc : d = c
        · exact ho (hdc ▸ heq).symm
        · exact hr' d ((hread d).mpr ⟨hdc, hd⟩) ((update_stage_block _ _ _ _).1.trans heq)
  dsimp only [prepareWriteRequest]
  refine ⟨h.size_lt, h.off_le, h.off_aligned, fun d hd => h.busy_lt d (busy_of_update_stage hbusyc hd),
    ?_, fun d hd => ?_, fun d e hd he hde => ?_, ?_, ?_, hmem, ?_⟩
  · dsimp only
    have := h.num_eq
    omega
  · dsimp only at hd ⊢
    rw [(update_stage_block _ _ _ _).1, (update_stage_block _ _ _ _).2]
    exact h.block d (busy_of_update_stage hbusyc hd)
  · dsimp only at hd he hde
    rw [(update_stage_block _ _ _ _).1, (update_stage_block _ _ _ _).1] at hde
    exact h.offset_inj d e (busy_of_update_stage hbusyc hd) (busy_of_update_stage hbusyc he) hde
  · dsimp only
    rw [List.filterMap_append, h.reads, (filterMap_write_singleton _ _).1, List.append_nil]
  · dsimp only
    rw [List.filterMap_append, (filterMap_write_singleton _ _).2]
    exact h.writes_nodup.append (List.nodup_singleton _)
      (List.disjoint_singleton.mpr fun hin => ((h.mem_writes _).mp hin).2 c hr rfl)
  · dsimp only
    refine readFirst_take_append h.read_first fun o ho => ?_
    rw [List.filterMap_append, h.reads, (filterMap_write_singleton _ _).1, List.append_nil]
    exact ((hmem o).mp ho).1

theorem finishWrite (h : CopyCore s) (hw : (s.blockStatuses c).stage = .inWrite) :
    CopyCore (finishWriteRequest s c) := by
  have hbusyc : (s.blockStatuses c).stage ≠ .idle := by rw [hw]; decide
  have hread : ∀ d, (Function.update s.blockStatuses c
      ⟨.idle, (s.blockStatuses c).offset, (s.blockStatuses c).size⟩ d).stage = .inRead ↔
        (s.blockStatuses d).stage = .inRead := fun d => by
    rw [update_stage_stage]
    split_ifs with hd
    · subst hd
      simp [hw]
    · exact Iff.rfl
  have hcount := cellSum_update BlockStage.busy s.blockStatuses (h.busy_lt c hbusyc)
    ⟨.idle, (s.blockStatuses c).offset, (s.blockStatuses c).size⟩
  rw [hw] at hcount
  simp only [BlockStage.busy] at hcount
  dsimp only [finishWriteRequest]
  refine ⟨h.size_lt, h.off_le, h.off_aligned, fun d hd => h.busy_lt d (busy_of_update_stage hbusyc hd),
    ?_, fun d hd => ?_, fun d e hd he hde => ?_, h.reads, h.writes_nodup, fun o => ?_,
    h.read_first⟩
  · dsimp only
    have := h.num_eq
    have := cellSum_busy_le s.blockStatuses
    unfold QUEUE_SIZE at this
    omega
  · dsimp only at hd ⊢
    rw [(update_stage_block _ _ _ _).1, (update_stage_block _ _ _ _).2]
    exact h.block d (busy_of_update_stage hbusyc hd)
  · dsimp only at hd he hde
    rw [(update_stage_block _ _ _ _).1, (update_stage_block _ _ _ _).1] at hde
    exact h.offset_inj d e (busy_of_update_stage hbusyc hd) (busy_of_update_stage hbusyc he) hde
  · dsimp only
    rw [h.mem_writes o]
    refine and_congr_right fun _ => forall_congr' fun d => ?_
    rw [hread d, (update_stage_block _ _ _ _).1]

theorem fills (h : CopyCore s) (hlt : (prepareReadRequest s c).srcOff < s.srcSize) :
    s.srcOff < s.srcSize ∧ ((prepareReadRequest s c).blockStatuses c).stage = .inRead := by
  rcases Nat.lt_or_ge s.srcOff s.srcSize with hlt' | hge
  · rw [prepareReadRequest_next hlt' h.size_lt]
    exact ⟨hlt', by dsimp only; rw [Function.update_same]⟩
  · rw [prepareReadRequest_done (Nat.le_antisymm h.off_le hge)] at hlt
    exact absurd hlt (Nat.not_lt.mpr hge)

end CopyCore

/-- The invariant of the completion loop: while bytes are left to issue, every cell is busy. -/
structure CopyInv (s : CopyStatus) extends CopyCore s : Prop where
  full : s.srcOff < s.srcSize → ∀ c < QUEUE_SIZE, (s.blockStatuses c).stage ≠ .idle

theorem foldl_prepareReadRequest_core {s0 : CopyStatus} (h0 : CopyCore s0)
    (hidle : ∀ c, (s0.blockStatuses c).stage = .idle) : ∀ k ≤ QUEUE_SIZE,
      CopyCore ((List.range k).foldl prepareReadRequest s0) ∧
      (∀ c, k ≤ c → (((List.range k).foldl prepareReadRequest s0).blockStatuses c).stage = .idle) ∧
      (((List.range k).foldl prepareReadRequest s0).srcOff < s0.srcSize →
        ∀ c < k, (((List.range k).foldl prepareReadRequest s0).blockStatuses c).stage ≠ .idle)
  | 0, _ => ⟨h0, fun c _ => hidle c, fun _ c hc => absurd hc (Nat.not_lt_zero c)⟩
  | k + 1, hk => by
    obtain ⟨hcore, hid, hfull⟩ := foldl_prepareReadRequest_core h0 hidle k (by omega)
    have hsize := (foldl_prepareReadRequest_frame (List.range k) s0).2.2
    rw [List.range_succ, List.foldl_append, List.foldl_cons, List.foldl_nil]
    refine ⟨hcore.prepareRead (by omega) (hid k le_rfl), fun c hc => ?_, fun hlt c hc => ?_⟩
    · rw [prepareReadRequest_other _ (by omega : c ≠ k)]
      exact hid c (by omega)
    · obtain ⟨hlt', hin⟩ := hcore.fills (hlt.trans_eq hsize.symm)
      rcases Nat.lt_succ_iff_lt_or_eq.mp hc with hc | rfl
      · rw [prepareReadRequest_other _ (Nat.ne_of_lt hc)]
        exact hfull (hlt'.trans_eq hsize) c hc
      · rw [hin]
        decide

theorem init_core {srcSize : Nat} (hsize : srcSize < 2^32) (buffers : Nat → List UInt8) :
    CopyCore (CopyStatus.init srcSize buffers (List.replicate srcSize 0)) := by
  refine ⟨hsize, Nat.zero_le _, .inl rfl, fun _ h => absurd rfl h, ?_, fun _ h => absurd rfl h,
    fun _ _ h => absurd rfl h, blockOffsets_zero.symm, List.nodup_nil, fun o => ?_,
    fun k o ho => ?_⟩
  · exact (List.sum_eq_zero fun x hx => by obtain ⟨d, -, rfl⟩ := List.mem_map.mp hx; rfl).symm
  · exact ⟨fun h => absurd h (List.not_mem_nil o),
      fun h => absurd (mem_blockOffsets.mp h.1).2 (Nat.not_lt_zero o)⟩
  · rw [show (CopyStatus.init srcSize buffers (List.replicate srcSize 0)).log = [] from rfl,
      List.take_nil] at ho
    exact absurd ho (List.not_mem_nil o)

theorem copyStart_inv {srcSize : Nat} (hsize : srcSize < 2^32) (buffers : Nat → List UInt8) :
    CopyInv (copyStart srcSize buffers) := by
  unfold copyStart initialReads
  obtain ⟨hcore, -, hfull⟩ :=
    foldl_prepareReadRequest_core (init_core hsize buffers) (fun _ => rfl) QUEUE_SIZE le_rfl
  have hsize := (foldl_prepareReadRequest_frame (List.range QUEUE_SIZE)
    (CopyStatus.init srcSize buffers (List.replicate srcSize 0))).2.2
  exact ⟨hcore, fun hlt => hfull (hlt.trans_eq hsize)⟩

/-- The completions still to come: two for each block not yet issued, and those its cell
waits for for each block in progress. -/
def remaining (s : CopyStatus) : Nat :=
  2 * ((s.srcSize - s.srcOff + READ_BLOCK_SIZE - 1) / READ_BLOCK_SIZE) +
    cellSum BlockStage.toDo s.blockStatuses

namespace CopyInv
variable {src : List UInt8} {s t : CopyStatus}

theorem step (h : CopyInv s) (hst : Step src s t) : CopyInv t := by
  obtain ⟨-, c, hc, res, hbusy, hok⟩ := hst
  rcases serveCompletion_ok hok with ⟨hr, rfl⟩ | ⟨hw, rfl⟩ | ⟨hi, -⟩
  · refine ⟨h.toCopyCore.kernelRead.prepareWrite hr, fun hlt d hd => ?_⟩
    rw [prepareWriteRequest, kernelRead] at hlt ⊢
    dsimp only at hlt ⊢
    rw [update_stage_stage]
    split_ifs
    · decide
    · exact h.full hlt d hd
  · have hcore : CopyCore (finishWriteRequest (kernelWrite s c res.toNat) c) :=
      h.toCopyCore.kernelWrite.finishWrite hw
    obtain ⟨hoff, hsize, hblocks⟩ := finishWriteRequest_kernelWrite s c res.toNat
    refine ⟨hcore.prepareRead hc (by rw [hblocks, Function.update_same]), fun hlt d hd => ?_⟩
    rw [prepareReadRequest_srcSize] at hlt
    obtain ⟨hlt', hin⟩ := hcore.fills hlt
    rw [hoff, hsize] at hlt'
    by_cases hdc : d = c
    · rw [hdc, hin]
      decide
    · rw [prepareReadRequest_other _ hdc, hblocks, update_stage_stage, if_neg hdc]
      exact h.full hlt' d hd
  · exact absurd hi hbusy

theorem reachable {srcSize : Nat} {buffers : Nat → List UInt8} (hsize : srcSize < 2^32)
    (h : Reachable (· = copyStart srcSize buffers) (Step src) s) : CopyInv s :=
  Reachable.invariant (fun _ hs => hs ▸ copyStart_inv hsize buffers) (fun _ _ hs hst => hs.step hst) h

theorem exists_busy (h : CopyInv s) (hgo : loopGoesOn s = true) :
    ∃ c < QUEUE_SIZE, (s.blockStatuses c).stage ≠ .idle := by
  simp only [loopGoesOn, Bool.or_eq_true, bne_iff_ne, ne_eq] at hgo
  rcases hgo with hoff | hnum
  · exact ⟨0, by decide, h.full (lt_of_le_of_ne h.off_le hoff) 0 (by decide)⟩
  · exact exists_busy_of_cellSum (h.num_eq ▸ hnum)

theorem remaining_step (h : CopyInv s) (hst : Step src s t) : remaining t + 1 = remaining s := by
  obtain ⟨-, c, hc, res, hbusy, hok⟩ := hst
  unfold remaining
  rcases serveCompletion_ok hok with ⟨hr, rfl⟩ | ⟨hw, rfl⟩ | ⟨hi, -⟩
  · have hsum := cellSum_update BlockStage.toDo s.blockStatuses hc
      ⟨.inWrite, (s.blockStatuses c).offset, (s.blockStatuses c).size⟩
    rw [hr] at hsum
    simp only [BlockStage.toDo] at hsum
    rw [prepareWriteRequest, kernelRead]
    dsimp only
    omega
  · obtain ⟨hoff, hsize, hblocks⟩ := finishWriteRequest_kernelWrite s c res.toNat
    have hfin := cellSum_update BlockStage.toDo s.blockStatuses hc
      ⟨.idle, (s.blockStatuses c).offset, (s.blockStatuses c).size⟩
    rw [hw] at hfin
    simp only [BlockStage.toDo] at hfin
    rcases Nat.lt_or_ge s.srcOff s.srcSize with hlt | hge
    · have ho : s.srcOff % READ_BLOCK_SIZE = 0 := h.off_aligned.resolve_right hlt.ne
      rw [prepareReadRequest_next (by rwa [hoff, hsize]) (by rw [hsize]; exact h.size_lt)]
      dsimp only
      rw [hoff, hsize, hblocks]
      have hread := cellSum_update BlockStage.toDo (Function.update s.blockStatuses c
        ⟨.idle, (s.blockStatuses c).offset, (s.blockStatuses c).size⟩) hc
        ⟨.inRead, s.srcOff, min READ_BLOCK_SIZE (s.srcSize - s.srcOff)⟩
      rw [Function.update_same] at hread
      simp only [BlockStage.toDo] at hread
      unfold READ_BLOCK_SIZE at *
      omega
    · rw [prepareReadRequest_done (by rw [hoff, hsize]; exact Nat.le_antisymm h.off_le hge),
        hoff, hsize, hblocks]
      omega
  · exact absurd hi hbusy

theorem all_idle (h : CopyInv s) (hend : loopGoesOn s = false) :
    s.srcOff = s.srcSize ∧ ∀ c, (s.blockStatuses c).stage = .idle := by
  simp only [loopGoesOn, Bool.or_eq_false_iff, bne_eq_false_iff_eq] at hend
  refine ⟨hend.1, fun c => ?_⟩
  by_contra hc
  have := cellSum_busy_pos (h.busy_lt c hc) hc
  rw [← h.num_eq, hend.2] at this
  exact absurd this (by decide)

end CopyInv

/-! ### Every run of the copier -/

section
variable {src : List UInt8} {srcSize : Nat} {buffers : Nat → List UInt8}

/-- Over every run from the start of the copy, for every `src_size` a `uint32_t` holds:
`num_block_in_progress` is the number of cells not in `BLOCK_IDLE` (no cell beyond the
`QUEUE_SIZE` ever is), `src_off ≤ src_size`, and the blocks two busy cells hold are
disjoint. -/
theorem copy_loop_invariant (hsize : srcSize < 2^32) {s : CopyStatus}
    (h : Reachable (· = copyStart srcSize buffers) (Step src) s) :
    s.numBlockInProgress = cellSum BlockStage.busy s.blockStatuses ∧
    (∀ c, (s.blockStatuses c).stage ≠ .idle → c < QUEUE_SIZE) ∧
    s.srcOff ≤ s.srcSize ∧
    ∀ c d, c ≠ d → (s.blockStatuses c).stage ≠ .idle → (s.blockStatuses d).stage ≠ .idle →
      (s.blockStatuses c).offset + (s.blockStatuses c).size ≤ (s.blockStatuses d).offset ∨
        (s.blockStatuses d).offset + (s.blockStatuses d).size ≤ (s.blockStatuses c).offset := by
  have hinv := CopyInv.reachable hsize h
  refine ⟨hinv.num_eq, hinv.busy_lt, hinv.off_le, fun c d hcd hc hd => ?_⟩
  have hoc := (mem_blockOffsets.mp (hinv.block c hc).1).1
  have hod := (mem_blockOffsets.mp (hinv.block d hd).1).1
  have hne : (s.blockStatuses c).offset ≠ (s.blockStatuses d).offset :=
    fun he => hcd (hinv.offset_inj c d hc hd he)
  rw [(hinv.block c hc).2, (hinv.block d hd).2]
  unfold READ_BLOCK_SIZE at *
  omega

set_option maxRecDepth 2000 in
/-- The read of the two-byte source has completed and its write is in flight. -/
theorem copy_loop_invariant_read_done :
    ∃ s, (2 : Nat) < 2^32 ∧ Reachable (· = copyStart 2 fun _ => []) (Step [1, 2]) s ∧
      (s.blockStatuses 0).stage = .inWrite ∧
      (s.numBlockInProgress = cellSum BlockStage.busy s.blockStatuses ∧
        (∀ c, (s.blockStatuses c).stage ≠ .idle → c < QUEUE_SIZE) ∧
        s.srcOff ≤ s.srcSize ∧
        ∀ c d, c ≠ d → (s.blockStatuses c).stage ≠ .idle → (s.blockStatuses d).stage ≠ .idle →
          (s.blockStatuses c).offset + (s.blockStatuses c).size ≤ (s.blockStatuses d).offset ∨
            (s.blockStatuses d).offset + (s.blockStatuses d).size ≤ (s.blockStatuses c).offset) := by
  let s1 := prepareWriteRequest (kernelRead [1, 2] (copyStart 2 fun _ => []) 0 2) 0
  have h1 : Step [1, 2] (copyStart 2 fun _ => []) s1 := ⟨rfl, 0, by decide, 2, by decide, rfl⟩
  have hs : Reachable (· = copyStart 2 fun _ => []) (Step [1, 2]) s1 := .step (.init rfl) h1
  exact ⟨s1, by decide, hs, rfl, copy_loop_invariant (by decide) hs⟩

/-- The loop terminates, whatever the completion order and the results: no run from the start
of the copy is infinite, since each completion lowers `remaining` by one, and while the loop
test holds some request is outstanding, so the wait for a completion returns. -/
theorem copy_loop_terminates (hsize : srcSize < 2^32) :
    WellFounded (fun t s => Reachable (· = copyStart srcSize buffers) (Step src) s ∧
      Step src s t) ∧
    ∀ s, Reachable (· = copyStart srcSize buffers) (Step src) s → loopGoesOn s = true →
      ∃ c < QUEUE_SIZE, (s.blockStatuses c).stage ≠ .idle :=
  ⟨Subrelation.wf (fun {t s} hts => show remaining t < remaining s by
      have := (CopyInv.reachable hsize hts.1).remaining_step hts.2
      omega) (measure remaining).wf,
    fun _ hs hgo => (CopyInv.reachable hsize hs).exists_busy hgo⟩

theorem copy_loop_terminates_two_bytes :
    (2 : Nat) < 2^32 ∧
    WellFounded fun t s => Reachable (· = copyStart 2 fun _ => []) (Step [1, 2]) s ∧
      Step [1, 2] s t :=
  ⟨by decide, (copy_loop_terminates (by decide)).1⟩

/-- When the loop test fails, whatever the completion order and the results: every cell is
idle, the log has read each block `[k * READ_BLOCK_SIZE, …)` of the source exactly once, in
order, and written each exactly once, and in every prefix of the log each write follows the
read of its block. -/
theorem copy_log_complete (hsize : srcSize < 2^32) {s : CopyStatus}
    (h : Reachable (· = copyStart srcSize buffers) (Step src) s) (hend : loopGoesOn s = false) :
    (∀ c, (s.blockStatuses c).stage = .idle) ∧
    s.log.filterMap Request.readAt = blockOffsets s.srcSize ∧
    (s.log.filterMap Request.writeAt).Perm (blockOffsets s.srcSize) ∧
    ∀ k, ReadFirst (s.log.take k) := by
  have hinv := CopyInv.reachable hsize h
  obtain ⟨hoff, hidle⟩ := hinv.all_idle hend
  rw [← hoff]
  refine ⟨hidle, hinv.reads, ?_, hinv.read_first⟩
  refine (List.perm_ext_iff_of_nodup hinv.writes_nodup (blockOffsets_nodup _)).mpr fun o => ?_
  rw [hinv.mem_writes o]
  exact ⟨fun ho => ho.1, fun ho => ⟨ho, fun c hc => absurd hc (by rw [hidle c]; decide)⟩⟩

set_option maxRecDepth 2000 in
theorem copy_log_complete_two_bytes :
    ∃ s, (2 : Nat) < 2^32 ∧ Reachable (· = copyStart 2 fun _ => []) (Step [1, 2]) s ∧
      loopGoesOn s = false ∧ s.log.filterMap Request.readAt = blockOffsets s.srcSize := by
  let s0 := copyStart 2 fun _ => []
  let s1 := prepareWriteRequest (kernelRead [1, 2] s0 0 2) 0
  let s2 := prepareReadRequest (finishWriteRequest (kernelWrite s1 0 4096) 0) 0
  have h1 : Step [1, 2] s0 s1 := ⟨rfl, 0, by decide, 2, by decide, rfl⟩
  have h2 : Step [1, 2] s1 s2 := ⟨rfl, 0, by decide, 4096, by decide, rfl⟩
  have hs : Reachable (· = copyStart 2 fun _ => []) (Step [1, 2]) s2 := .step (.step (.init rfl) h1) h2
  have hend : loopGoesOn s2 = false := by decide
  exact ⟨s2, by decide, hs, hend, (copy_log_complete (by decide) hs hend).2.1⟩

end

end NetworkingHowto.Copy.IoUring
