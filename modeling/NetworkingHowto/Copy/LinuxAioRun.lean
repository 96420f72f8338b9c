import NetworkingHowto.Copy.LinuxAio
import Mathlib.Algebra.Order.BigOperators.Group.Finset

/-! Every run of the Linux AIO copier on a source of `S` bytes, `S + READ_BLOCK_SIZE < 2^32`:
it ends, and either pads the source with zeros up to the rounded size or, when `S` is a multiple
of `READ_BLOCK_SIZE`, exits with "ERROR: reach unavailible state". -/
namespace NetworkingHowto.Copy.LinuxAio

def inFlight : Option Iocb → Nat
  | none => 0
  | some _ => 1

@[simp] theorem inFlight_none : inFlight none = 0 := rfl

@[simp] theorem inFlight_some (cb : Iocb) : inFlight (some cb) = 1 := rfl

def numInFlight (iocbs : Nat → Option Iocb) : Nat :=
  ∑ c in Finset.range QUEUE_SIZE, inFlight (iocbs c)

def completionsLeft : Option Iocb → Nat
  | none => 0
  | some ⟨.pread, _, _⟩ => 2
  | some ⟨.pwrite, _, _⟩ => 1

@[simp] theorem completionsLeft_none : completionsLeft none = 0 := rfl

@[simp] theorem completionsLeft_pread (off n : Nat) :
    completionsLeft (some ⟨.pread, off, n⟩) = 2 := rfl

@[simp] theorem completionsLeft_pwrite (off n : Nat) :
    completionsLeft (some ⟨.pwrite, off, n⟩) = 1 := rfl

/-- What is left of the copy: three for every byte below the rounded size not yet asked
for, and the completions the cells wait for. Every completion lowers it. -/
def remaining (s : AioState) : Nat :=
  3 * (s.srcSize - s.srcOff) + ∑ c in Finset.range QUEUE_SIZE, completionsLeft (s.iocbs c)

theorem numInFlight_update_some {iocbs : Nat → Option Iocb} {c : Nat} {cb : Iocb}
    (hc : c < QUEUE_SIZE) (h : iocbs c = some cb) (cb' : Iocb) :
    numInFlight (Function.update iocbs c (some cb')) = numInFlight iocbs := by
  have := sum_update_add inFlight iocbs (Finset.mem_range.mpr hc) (some cb')
  rw [h, inFlight_some, inFlight_some] at this
  unfold numInFlight
  exact Nat.add_right_cancel this

theorem numInFlight_update_none {iocbs : Nat → Option Iocb} {c : Nat} {cb : Iocb}
    (hc : c < QUEUE_SIZE) (h : iocbs c = some cb) :
    numInFlight (Function.update iocbs c none) + 1 = numInFlight iocbs := by
  have := sum_update_add inFlight iocbs (Finset.mem_range.mpr hc) none
  rw [h, inFlight_some, inFlight_none] at this
  unfold numInFlight
  omega

theorem numInFlight_le (iocbs : Nat → Option Iocb) : numInFlight iocbs ≤ QUEUE_SIZE := by
  have := Finset.sum_le_card_nsmul (Finset.range QUEUE_SIZE) (fun c => inFlight (iocbs c)) 1
    fun c _ => show inFlight (iocbs c) ≤ 1 by cases iocbs c <;> simp
  simpa using this

def blockDone (s : AioState) (k : Nat) : Prop :=
  k * READ_BLOCK_SIZE < s.srcOff ∧ ∀ c cb, s.iocbs c = some cb → cb.offset ≠ k * READ_BLOCK_SIZE

/-- What every state of the `while` loop satisfies, for the source `src`: `src_size` is the
rounded size and `src_off` a block offset below it; the destination keeps the source's
length; `num_io_reqs` counts the requests in flight, and is `0` only once `src_off` has
reached `src_size`; each request in flight is for a block already asked for, a read asks for
a whole block, and a write for what the block holds of the source, which is in the cell's
buffer; the bytes of every copied block are the source's; and on a source of whole blocks
the read at its end, once issued, stays in flight. -/
structure AioInv (src : List UInt8) (s : AioState) : Prop where
  size : s.srcSize = src.length + READ_BLOCK_SIZE - src.length % READ_BLOCK_SIZE
  off : s.srcOff % READ_BLOCK_SIZE = 0 ∧ s.srcOff ≤ s.srcSize
  dst_len : s.dst.length = src.length
  num : s.numIoReqs = numInFlight s.iocbs
  idle : numInFlight s.iocbs = 0 → s.srcSize ≤ s.srcOff
  req : ∀ c cb, s.iocbs c = some cb →
    c < QUEUE_SIZE ∧ cb.offset % READ_BLOCK_SIZE = 0 ∧ cb.offset < s.srcOff
  read : ∀ c off n, s.iocbs c = some ⟨.pread, off, n⟩ → n = READ_BLOCK_SIZE
  write : ∀ c off n, s.iocbs c = some ⟨.pwrite, off, n⟩ →
    n = min READ_BLOCK_SIZE (src.length - off) ∧ 0 < n ∧
      (s.buffers c).take n = (src.drop off).take n
  data : ∀ b < src.length, blockDone s (b / READ_BLOCK_SIZE) → s.dst[b]? = src[b]?
  stuck : src.length % READ_BLOCK_SIZE = 0 → src.length < s.srcOff →
    ∃ c, s.iocbs c = some ⟨.pread, src.length, READ_BLOCK_SIZE⟩

/-! ### The first reads -/

structure FirstReads (s0 : AioState) (m : Nat) (s : AioState) : Prop where
  srcSize : s.srcSize = s0.srcSize
  buffers : s.buffers = s0.buffers
  dst : s.dst = s0.dst
  srcOff : s.srcOff = m * READ_BLOCK_SIZE
  num : s.numIoReqs = numInFlight s.iocbs
  iocbs : ∀ c, s.iocbs c =
    if c < m then some ⟨.pread, c * READ_BLOCK_SIZE, READ_BLOCK_SIZE⟩ else none

theorem FirstReads.foldl {s0 : AioState} (h0 : FirstReads s0 0 s0)
    (hR : s0.srcSize % READ_BLOCK_SIZE = 0) :
    ∀ k ≤ QUEUE_SIZE, FirstReads s0 (min k (s0.srcSize / READ_BLOCK_SIZE))
      ((List.range k).foldl firstRead s0)
  | 0, _ => by simpa using h0
  | k + 1, hk => by
    have ih := FirstReads.foldl h0 hR k (by omega)
    have hkQ : k < QUEUE_SIZE := hk
    rw [List.range_succ, List.foldl_append, List.foldl_cons, List.foldl_nil]
    generalize List.foldl firstRead s0 (List.range k) = s at ih ⊢
    have hRB : READ_BLOCK_SIZE = 4096 := rfl
    rw [firstRead, ih.srcOff, ih.srcSize]
    split_ifs with hlt
    · rw [hRB] at hR hlt
      have hm : min (k + 1) (s0.srcSize / READ_BLOCK_SIZE) = k + 1 := by rw [hRB]; omega
      have hkm : min k (s0.srcSize / READ_BLOCK_SIZE) = k := by rw [hRB]; omega
      rw [hkm] at ih ⊢
      have hnone : s.iocbs k = none := by rw [ih.iocbs, if_neg (Nat.lt_irrefl k)]
      refine ⟨rfl, ih.buffers, ih.dst, by rw [hm, Nat.succ_mul], ?_, fun c => ?_⟩
      · have := sum_update_add inFlight s.iocbs (Finset.mem_range.mpr hkQ)
          (some (ioReadSetup (k * READ_BLOCK_SIZE) READ_BLOCK_SIZE))
        rw [hnone, inFlight_none, inFlight_some, Nat.add_zero] at this
        show s.numIoReqs + 1 = numInFlight _
        rw [ih.num]
        exact this.symm
      · show Function.update s.iocbs k _ c = _
        rw [hm, Function.update_apply]
        by_cases hck : c = k
        · rw [if_pos hck, if_pos (by omega), hck]
          rfl
        · rw [if_neg hck, ih.iocbs]
          split_ifs <;> first | rfl | omega
    · have hm : min (k + 1) (s0.srcSize / READ_BLOCK_SIZE) =
          min k (s0.srcSize / READ_BLOCK_SIZE) := by
        rw [hRB] at hR hlt ⊢
        omega
      rw [hm]
      exact ih

theorem roundSrcSize_mod (srcSize : Nat) : roundSrcSize srcSize % READ_BLOCK_SIZE = 0 := by
  unfold roundSrcSize READ_BLOCK_SIZE
  omega

theorem aioStart_firstReads (srcSize : Nat) (buffers : Nat → List UInt8) (dst : List UInt8) :
    FirstReads ⟨0, roundSrcSize srcSize, 0, fun _ => none, buffers, dst⟩
      (min QUEUE_SIZE (roundSrcSize srcSize / READ_BLOCK_SIZE)) (aioStart srcSize buffers dst) :=
  FirstReads.foldl ⟨rfl, rfl, rfl, (Nat.zero_mul _).symm, by simp [numInFlight],
    fun c => (if_neg (Nat.not_lt_zero c)).symm⟩ (roundSrcSize_mod srcSize) QUEUE_SIZE le_rfl

theorem AioInv.start {src dst : List UInt8} {buffers : Nat → List UInt8}
    (hsize : src.length + READ_BLOCK_SIZE < 2^32) (hdst : dst.length = src.length) :
    AioInv src (aioStart src.length buffers dst) := by
  have hRB : READ_BLOCK_SIZE = 4096 := rfl
  have hQ : QUEUE_SIZE = 16 := rfl
  have hround : roundSrcSize src.length =
      src.length + READ_BLOCK_SIZE - src.length % READ_BLOCK_SIZE := by
    unfold roundSrcSize
    rw [hRB] at hsize ⊢
    omega
  have h := aioStart_firstReads src.length buffers dst
  generalize hm : min QUEUE_SIZE (roundSrcSize src.length / READ_BLOCK_SIZE) = m at h
  generalize aioStart src.length buffers dst = s at h ⊢
  have hsize' : s.srcSize = src.length + READ_BLOCK_SIZE - src.length % READ_BLOCK_SIZE :=
    h.srcSize.trans hround
  have hoff : s.srcOff = m * READ_BLOCK_SIZE := h.srcOff
  have hcell : ∀ c, s.iocbs c =
      if c < m then some ⟨.pread, c * READ_BLOCK_SIZE, READ_BLOCK_SIZE⟩ else none := h.iocbs
  have hmR : m * READ_BLOCK_SIZE ≤ s.srcSize ∧ m ≤ QUEUE_SIZE ∧
      (0 < s.srcSize → 0 < m) := by
    rw [← hm, hsize', hround, hRB, hQ]
    omega
  refine ⟨hsize', ⟨by rw [hoff]; exact Nat.mul_mod_left _ _, hoff ▸ hmR.1⟩, by rw [h.dst]; exact hdst,
    h.num, fun h0 => ?_, fun c cb hc => ?_, fun c off n hc => ?_, fun c off n hc => ?_,
    fun b _ hd => ?_, fun hmod hlt => ?_⟩
  · -- with a block to read, cell 0 reads it
    by_contra hlt
    have hm0 : 0 < m := hmR.2.2 (by omega)
    have := numInFlight_update_none (by rw [hQ]; omega : 0 < QUEUE_SIZE)
      (by rw [hcell, if_pos hm0] : s.iocbs 0 = some ⟨.pread, 0 * READ_BLOCK_SIZE, READ_BLOCK_SIZE⟩)
    omega
  · rw [hcell] at hc
    split_ifs at hc with hcm
    cases hc
    refine ⟨by omega, Nat.mul_mod_left _ _, ?_⟩
    rw [hoff]
    exact Nat.mul_lt_mul_of_pos_right hcm (by decide)
  · rw [hcell] at hc
    split_ifs at hc
    cases hc
    rfl
  · rw [hcell] at hc
    split_ifs at hc
    cases hc
  · -- a block below `src_off` is still being read
    obtain ⟨hlt, hfree⟩ := hd
    rw [hoff] at hlt
    have hk : b / READ_BLOCK_SIZE < m := Nat.lt_of_mul_lt_mul_right hlt
    exact (hfree _ _ (by rw [hcell, if_pos hk]) rfl).elim
  · refine ⟨src.length / READ_BLOCK_SIZE, ?_⟩
    have hk : src.length / READ_BLOCK_SIZE < m := by
      rw [hoff, hRB] at hlt
      rw [hRB]
      omega
    rw [hcell, if_pos hk, Nat.div_mul_cancel (Nat.dvd_of_mod_eq_zero hmod)]

/-! ### A completion keeps the invariant -/

theorem blockDone_of_offsets {s u : AioState} {k : Nat} (hd : blockDone u k)
    (hoff : u.srcOff = s.srcOff)
    (hcells : ∀ c cb, s.iocbs c = some cb → ∃ cb', u.iocbs c = some cb' ∧ cb'.offset = cb.offset) :
    blockDone s k :=
  ⟨hoff ▸ hd.1, fun c cb hc => by
    obtain ⟨cb', hc', hoff'⟩ := hcells c cb hc
    exact hoff' ▸ hd.2 c cb' hc'⟩

theorem AioInv.pread {src : List UInt8} {s : AioState} {c off n : Nat} (h : AioInv src s)
    (hc : s.iocbs c = some ⟨.pread, off, n⟩) (hD : ((src.drop off).take n).length ≠ 0) :
    AioInv src { s with
      buffers := Function.update s.buffers c
        ((src.drop off).take n ++ (s.buffers c).drop ((src.drop off).take n).length)
      iocbs := Function.update s.iocbs c (some ⟨.pwrite, off, ((src.drop off).take n).length⟩) } := by
  have hcQ := (h.req c _ hc).1
  have hn := h.read c off n hc
  have hsame := numInFlight_update_some hcQ hc ⟨.pwrite, off, ((src.drop off).take n).length⟩
  refine ⟨h.size, h.off, h.dst_len, h.num.trans hsame.symm, fun h0 => h.idle (hsame ▸ h0),
    forall_update_some h.req fun cb hcb => ?_, fun c' off' n' hc' => ?_, fun c' off' n' hc' => ?_,
    fun b hb hd => h.data b hb (blockDone_of_offsets hd rfl fun c' cb hc' => ?_),
    fun hmod hlt => ?_⟩
  · cases hcb
    exact h.req c ⟨.pread, off, n⟩ hc
  · rcases update_eq_some hc' with ⟨-, hv⟩ | ⟨-, hold⟩
    · cases hv
    · exact h.read c' off' n' hold
  · rcases update_eq_some hc' with ⟨rfl, hv⟩ | ⟨hne, hold⟩
    · -- the bytes read are the block's, and they are at the start of the buffer
      cases hv
      refine ⟨by simp only [List.length_take, List.length_drop, hn], Nat.pos_of_ne_zero hD, ?_⟩
      dsimp only
      rw [Function.update_same, List.take_left]
      symm
      calc (src.drop off).take ((src.drop off).take n).length
          = (src.drop off).take (min ((src.drop off).take n).length n) := by
            rw [Nat.min_eq_left (List.length_take_le _ _)]
        _ = ((src.drop off).take n).take ((src.drop off).take n).length := (List.take_take _ _ _).symm
        _ = (src.drop off).take n := List.take_length _
    · dsimp only
      rw [Function.update_noteq hne]
      exact h.write c' off' n' hold
  · by_cases hcc : c' = c
    · subst hcc
      rw [hc] at hc'
      cases hc'
      exact ⟨_, Function.update_same _ _ _, rfl⟩
    · exact ⟨cb, (Function.update_noteq hcc _ _).trans hc', rfl⟩
  · -- the read at the end of a source of whole blocks returns nothing, so it is another cell's
    obtain ⟨c', hc'⟩ := h.stuck hmod hlt
    by_cases hcc : c' = c
    · subst hcc
      rw [hc] at hc'
      cases hc'
      exact absurd (by simp) hD
    · exact ⟨c', (Function.update_noteq hcc _ _).trans hc'⟩

theorem AioInv.data_pwrite {src : List UInt8} {s u : AioState} {c off n : Nat}
    (h : AioInv src s) (hc : s.iocbs c = some ⟨.pwrite, off, n⟩)
    (hdst : u.dst = Client.pwriteAt s.dst off ((s.buffers c).take n))
    (hnew : ∀ k, blockDone u k → blockDone s k ∨ k * READ_BLOCK_SIZE = off) :
    ∀ b < src.length, blockDone u (b / READ_BLOCK_SIZE) → u.dst[b]? = src[b]? := by
  obtain ⟨hn, -, hbuf⟩ := h.write c off n hc
  have ho : off = off / READ_BLOCK_SIZE * READ_BLOCK_SIZE :=
    (Nat.div_mul_cancel (Nat.dvd_of_mod_eq_zero (h.req c _ hc).2.1)).symm
  have hoff : off ≤ src.length := by
    have := (h.write c off n hc).2.1
    omega
  rw [hdst, hbuf, ho]
  refine Client.pwriteAt_block_eq (by decide) h.dst_len.ge (ho ▸ hoff) (by rw [← ho, hn])
    h.data fun b _ hd => (hnew _ hd).imp_right fun hk => ?_
  rw [← Nat.mul_div_cancel (b / READ_BLOCK_SIZE) (by decide : 0 < READ_BLOCK_SIZE), hk]

theorem AioInv.pwriteNext {src : List UInt8} {s : AioState} {c off n : Nat} (h : AioInv src s)
    (hc : s.iocbs c = some ⟨.pwrite, off, n⟩) (hlt : s.srcOff < s.srcSize) :
    AioInv src { s with dst := Client.pwriteAt s.dst off ((s.buffers c).take n)
                        iocbs := Function.update s.iocbs c (some ⟨.pread, s.srcOff, READ_BLOCK_SIZE⟩)
                        srcOff := s.srcOff + READ_BLOCK_SIZE } := by
  have hRB : READ_BLOCK_SIZE = 4096 := rfl
  obtain ⟨hcQ, -, -⟩ := h.req c _ hc
  obtain ⟨hn, hpos, -⟩ := h.write c off n hc
  have hsame := numInFlight_update_some hcQ hc ⟨.pread, s.srcOff, READ_BLOCK_SIZE⟩
  have hsize := h.size
  have hoff := h.off
  have hlen : off + ((s.buffers c).take n).length ≤ s.dst.length := by
    have := List.length_take_le n (s.buffers c)
    rw [h.dst_len]
    omega
  refine ⟨h.size, ?_, (Client.length_pwriteAt_of_le hlen).trans h.dst_len,
    h.num.trans hsame.symm, fun h0 => (h.idle (hsame ▸ h0)).trans (Nat.le_add_right _ _),
    fun c' cb hc' => ?_,
    fun c' off' n' hc' => ?_, fun c' off' n' hc' => ?_, h.data_pwrite hc rfl fun k hd => ?_,
    fun hS hlt' => ?_⟩
  · show (s.srcOff + READ_BLOCK_SIZE) % READ_BLOCK_SIZE = 0 ∧ s.srcOff + READ_BLOCK_SIZE ≤ s.srcSize
    rw [hRB] at hsize hoff ⊢
    omega
  · rcases update_eq_some hc' with ⟨rfl, hv⟩ | ⟨-, hold⟩
    · cases hv
      exact ⟨hcQ, hoff.1, Nat.lt_add_of_pos_right (by decide)⟩
    · obtain ⟨h1, h2, h3⟩ := h.req c' cb hold
      exact ⟨h1, h2, Nat.lt_add_right _ h3⟩
  · rcases update_eq_some hc' with ⟨-, hv⟩ | ⟨-, hold⟩
    · cases hv
      rfl
    · exact h.read c' off' n' hold
  · rcases update_eq_some hc' with ⟨-, hv⟩ | ⟨-, hold⟩
    · cases hv
    · exact h.write c' off' n' hold
  · -- the next read's block is not copied, and a block other than the written one was before
    have hnext := hd.2 c _ (Function.update_same _ _ _)
    by_cases hk : k * READ_BLOCK_SIZE = off
    · exact .inr hk
    · refine .inl ⟨?_, fun c' cb hc' => ?_⟩
      · have h1 := hd.1
        have h2 := Nat.mul_mod_left k READ_BLOCK_SIZE
        dsimp only at h1 hnext
        rw [hRB] at h1 h2 hnext hoff ⊢
        omega
      · by_cases hcc : c' = c
        · subst hcc
          rw [hc] at hc'
          cases hc'
          exact Ne.symm hk
        · exact hd.2 c' cb ((Function.update_noteq hcc _ _).trans hc')
  · -- on a source of whole blocks, the read at its end is the old one or this new one
    by_cases hS' : src.length < s.srcOff
    · obtain ⟨c', hc'⟩ := h.stuck hS hS'
      have hcc : c' ≠ c := fun hcc => by rw [hcc, hc] at hc'; cases hc'
      exact ⟨c', (Function.update_noteq hcc _ _).trans hc'⟩
    · have heq : s.srcOff = src.length := by
        dsimp only at hlt'
        rw [hRB] at hS hlt' hoff
        omega
      exact ⟨c, (Function.update_same _ _ _).trans (by rw [heq])⟩

theorem AioInv.pwriteRetire {src : List UInt8} {s : AioState} {c off n : Nat} (h : AioInv src s)
    (hc : s.iocbs c = some ⟨.pwrite, off, n⟩) (hge : ¬ s.srcOff < s.srcSize) :
    AioInv src { s with dst := Client.pwriteAt s.dst off ((s.buffers c).take n)
                        iocbs := Function.update s.iocbs c none
                        numIoReqs := (s.numIoReqs + (2^64 - 1)) % 2^64 } := by
  have hcQ := (h.req c _ hc).1
  obtain ⟨hn, hpos, -⟩ := h.write c off n hc
  have hdec := numInFlight_update_none hcQ hc
  have hle := numInFlight_le s.iocbs
  have hnum := h.num
  have hlen : off + ((s.buffers c).take n).length ≤ s.dst.length := by
    have := List.length_take_le n (s.buffers c)
    rw [h.dst_len]
    omega
  refine ⟨h.size, h.off, (Client.length_pwriteAt_of_le hlen).trans h.dst_len, ?_,
    fun _ => Nat.le_of_not_lt hge, forall_update_some h.req (fun _ hv => nomatch hv),
    fun c' off' n' hc' => ?_, fun c' off' n' hc' => ?_, h.data_pwrite hc rfl fun k hd => ?_,
    fun hS hlt => ?_⟩
  · show (s.numIoReqs + (2^64 - 1)) % 2^64 = numInFlight (Function.update s.iocbs c none)
    have : QUEUE_SIZE = 16 := rfl
    omega
  · rcases update_eq_some hc' with ⟨-, hv⟩ | ⟨-, hold⟩
    · cases hv
    · exact h.read c' off' n' hold
  · rcases update_eq_some hc' with ⟨-, hv⟩ | ⟨-, hold⟩
    · cases hv
    · exact h.write c' off' n' hold
  · by_cases hk : k * READ_BLOCK_SIZE = off
    · exact .inr hk
    · refine .inl ⟨hd.1, fun c' cb hc' => ?_⟩
      by_cases hcc : c' = c
      · subst hcc
        rw [hc] at hc'
        cases hc'
        exact Ne.symm hk
      · exact hd.2 c' cb ((Function.update_noteq hcc _ _).trans hc')
  · obtain ⟨c', hc'⟩ := h.stuck hS hlt
    have hcc : c' ≠ c := fun hcc => by rw [hcc, hc] at hc'; cases hc'
    exact ⟨c', (Function.update_noteq hcc _ _).trans hc'⟩

theorem AioInv.step {src : List UInt8} {s u : AioState} (h : AioInv src s)
    (hst : Step src s u) : AioInv src u := by
  obtain ⟨-, c, ⟨op, off, n⟩, hc, hok⟩ := hst
  cases op with
  | pread =>
    rw [completeEvent_pread hc (by rw [h.read c off n hc]; decide)] at hok
    split_ifs at hok with hD
    cases hok
    exact h.pread hc hD
  | pwrite =>
    rw [completeEvent_pwrite hc (h.write c off n hc).2.1.ne'] at hok
    cases hok
    split_ifs with hlt
    · exact h.pwriteNext hc hlt
    · exact h.pwriteRetire hc hlt

theorem AioInv.reachable {src dst : List UInt8} {buffers : Nat → List UInt8} {s : AioState}
    (hsize : src.length + READ_BLOCK_SIZE < 2^32) (hdst : dst.length = src.length)
    (h : Reachable (· = aioStart src.length buffers dst) (Step src) s) : AioInv src s :=
  h.invariant (fun _ hs => hs ▸ AioInv.start hsize hdst) fun _ _ hi hst => hi.step hst

theorem AioInv.reflTransGen {src : List UInt8} {s u : AioState} (h : AioInv src s)
    (ht : Relation.ReflTransGen (Step src) s u) : AioInv src u := by
  induction ht with
  | refl => exact h
  | tail _ hst ih => exact ih.step hst

/-! ### Every run -/

theorem AioInv.remaining_step {src : List UInt8} {s u : AioState} (h : AioInv src s)
    (hst : Step src s u) : remaining u < remaining s := by
  obtain ⟨-, c, ⟨op, off, n⟩, hc, hok⟩ := hst
  have hcQ := Finset.mem_range.mpr (h.req c _ hc).1
  have hR : 0 < READ_BLOCK_SIZE := by decide
  unfold remaining
  cases op with
  | pread =>
    rw [completeEvent_pread hc (by rw [h.read c off n hc]; decide)] at hok
    split_ifs at hok
    cases hok
    have := sum_update_add completionsLeft s.iocbs hcQ
      (some ⟨.pwrite, off, ((src.drop off).take n).length⟩)
    rw [hc, completionsLeft_pread, completionsLeft_pwrite] at this
    dsimp only
    omega
  | pwrite =>
    rw [completeEvent_pwrite hc (h.write c off n hc).2.1.ne'] at hok
    cases hok
    split_ifs with hlt
    · have := sum_update_add completionsLeft s.iocbs hcQ (some ⟨.pread, s.srcOff, READ_BLOCK_SIZE⟩)
      rw [hc, completionsLeft_pread, completionsLeft_pwrite] at this
      dsimp only
      omega
    · have := sum_update_add completionsLeft s.iocbs hcQ none
      rw [hc, completionsLeft_none, completionsLeft_pwrite] at this
      dsimp only
      omega

theorem AioInv.exists_inFlight {src : List UInt8} {s : AioState} (h : AioInv src s)
    (hnum : s.numIoReqs ≠ 0) : ∃ c cb, s.iocbs c = some cb := by
  rw [h.num] at hnum
  obtain ⟨c, -, hc⟩ := Finset.exists_ne_zero_of_sum_ne_zero hnum
  cases hcell : s.iocbs c with
  | none => rw [hcell] at hc; exact absurd rfl hc
  | some cb => exact ⟨c, cb, hcell⟩

theorem AioInv.iocbs_none {src : List UInt8} {s : AioState} (h : AioInv src s)
    (h0 : numInFlight s.iocbs = 0) (c : Nat) : s.iocbs c = none := by
  cases hc : s.iocbs c with
  | none => rfl
  | some cb =>
    have := numInFlight_update_none (h.req c cb hc).1 hc
    omega

theorem AioInv.dst_eq {src : List UInt8} {s : AioState} (h : AioInv src s)
    (h0 : numInFlight s.iocbs = 0) : s.dst = src := by
  have hRB : READ_BLOCK_SIZE = 4096 := rfl
  have hoff := h.idle h0
  have hsize := h.size
  refine List.ext_getElem? fun b => ?_
  by_cases hb : b < src.length
  · refine h.data b hb ⟨?_, fun c cb hc => by rw [h.iocbs_none h0 c] at hc; cases hc⟩
    have := Nat.div_mul_le_self b READ_BLOCK_SIZE
    rw [hRB] at this hsize ⊢
    omega
  · rw [List.getElem?_eq_none (by rw [h.dst_len]; omega), List.getElem?_eq_none (by omega)]

theorem AioInv.closed {src : List UInt8} {s : AioState} (h : AioInv src s)
    (hsize : src.length + READ_BLOCK_SIZE < 2^32) (h0 : s.numIoReqs = 0) {io : CloseIo}
    {dst' : List UInt8} (hclose : closeSrcDstFiles s.srcSize s.dst io = .ok dst') :
    dst' = src ++ List.replicate (READ_BLOCK_SIZE - src.length % READ_BLOCK_SIZE) 0 := by
  have hRB : READ_BLOCK_SIZE = 4096 := rfl
  rw [closeSrcDstFiles_truncate hclose, h.dst_eq (h.num ▸ h0), h.size]
  rw [hRB] at hsize ⊢
  rw [List.take_of_length_le (by omega)]
  congr 2
  omega

theorem AioInv.numIoReqs_ne_zero_of_whole {src : List UInt8} {s : AioState} (h : AioInv src s)
    (hwhole : src.length % READ_BLOCK_SIZE = 0) : s.numIoReqs ≠ 0 := by
  intro h0
  have hRB : READ_BLOCK_SIZE = 4096 := rfl
  have hidle := h.idle (h.num ▸ h0)
  have hsz := h.size
  obtain ⟨c, hc⟩ := h.stuck hwhole (by rw [hRB] at hsz hwhole; omega)
  rw [h.iocbs_none (h.num ▸ h0) c] at hc
  cases hc

theorem AioInv.numIoReqs_ne_zero {src : List UInt8} {s : AioState} (h : AioInv src s) {c : Nat}
    {cb : Iocb} (hc : s.iocbs c = some cb) : s.numIoReqs ≠ 0 := by
  have := numInFlight_update_none (h.req c cb hc).1 hc
  rw [h.num]
  omega

theorem AioInv.remaining_transGen {src : List UInt8} {s u : AioState} (h : AioInv src s)
    (ht : Relation.TransGen (Step src) s u) : remaining u < remaining s := by
  induction ht with
  | single hst => exact h.remaining_step hst
  | tail hsv hvu ih => exact Nat.lt_trans ((h.reflTransGen hsv.to_reflTransGen).remaining_step hvu) ih

/-- The completion loop of the Linux AIO copier ends: on every source below `2^32 -
READ_BLOCK_SIZE` bytes, whatever order the requests complete in, no run of completions from
the start of the loop is infinite, and while the loop test holds a request is in flight, so
`io_getevents` returns. -/
theorem linux_aio_cp_terminates {src dst : List UInt8} {buffers : Nat → List UInt8}
    {openRet fstatRet dstOpenRet fallocateRet : Int} {srcSize : Nat}
    (hsize : src.length + READ_BLOCK_SIZE < 2^32)
    (hsrc : openSrcFile openRet fstatRet src.length = .ok srcSize)
    (hdst : openDstFile srcSize dstOpenRet fallocateRet = .ok dst) :
    WellFounded (fun u s => Reachable (· = aioStart srcSize buffers dst) (Step src) s ∧
      Step src s u) ∧
    ∀ s, Reachable (· = aioStart srcSize buffers dst) (Step src) s → s.numIoReqs ≠ 0 →
      ∃ c cb, s.iocbs c = some cb := by
  obtain ⟨rfl, rfl⟩ := openSrcDstFiles_ok (by omega) hsrc hdst
  have hlen := List.length_replicate src.length (0 : UInt8)
  exact ⟨Subrelation.wf (fun {_ _} h => (AioInv.reachable hsize hlen h.1).remaining_step h.2)
    (measure remaining).wf, fun _ hs => (AioInv.reachable hsize hlen hs).exists_inFlight⟩

theorem linux_aio_cp_terminates_three_bytes :
    [7, 8, 9].length + READ_BLOCK_SIZE < 2^32 ∧
    openSrcFile 3 0 [7, 8, 9].length = .ok 3 ∧ openDstFile 3 4 0 = .ok [0, 0, 0] ∧
    WellFounded (fun u s => Reachable (· = aioStart 3 (fun _ => []) [0, 0, 0]) (Step [7, 8, 9]) s ∧
      Step [7, 8, 9] s u) :=
  have hsrc : openSrcFile 3 0 [7, 8, 9].length = .ok 3 := rfl
  have hdst : openDstFile 3 4 0 = .ok [0, 0, 0] := rfl
  ⟨by decide, hsrc, hdst, (linux_aio_cp_terminates (by decide) hsrc hdst).1⟩

/-- On a source whose size is not a multiple of `READ_BLOCK_SIZE`, below `2^32 -
READ_BLOCK_SIZE` bytes, whatever order the requests complete in: no completion exits, and once
`num_io_reqs` is `0` the file `close_src_dst_files` leaves, cut to the rounded `src_size`, is
the source followed by `READ_BLOCK_SIZE - src_size % READ_BLOCK_SIZE` zero bytes, not the
source. -/
theorem linux_aio_cp_pads_source {src dst : List UInt8} {buffers : Nat → List UInt8}
    {openRet fstatRet dstOpenRet fallocateRet : Int} {srcSize : Nat}
    (hsize : src.length + READ_BLOCK_SIZE < 2^32)
    (hsrc : openSrcFile openRet fstatRet src.length = .ok srcSize)
    (hdst : openDstFile srcSize dstOpenRet fallocateRet = .ok dst)
    (hpart : src.length % READ_BLOCK_SIZE ≠ 0) :
    ∀ s, Reachable (· = aioStart srcSize buffers dst) (Step src) s →
      (∀ c cb, s.iocbs c = some cb → ∃ u, completeEvent src s c = .ok u) ∧
      (s.numIoReqs = 0 → ∀ io dst', closeSrcDstFiles s.srcSize s.dst io = .ok dst' →
        dst' = src ++ List.replicate (READ_BLOCK_SIZE - src.length % READ_BLOCK_SIZE) 0) := by
  obtain ⟨rfl, rfl⟩ := openSrcDstFiles_ok (by omega) hsrc hdst
  intro s hs
  have h := AioInv.reachable hsize (List.length_replicate _ _) hs
  refine ⟨fun c ⟨op, off, n⟩ hc => ?_, fun h0 _ _ hclose => h.closed hsize h0 hclose⟩
  cases op with
  | pread =>
    -- below the rounded size every block starts inside the source
    obtain ⟨-, hmod, hlt⟩ : c < QUEUE_SIZE ∧ off % READ_BLOCK_SIZE = 0 ∧ off < s.srcOff :=
      h.req c _ hc
    have hRB : READ_BLOCK_SIZE = 4096 := rfl
    have hsz := h.size
    have hn := h.read c off n hc
    have hoff := h.off
    rw [completeEvent_pread hc (by rw [hn]; decide), if_neg]
    · exact ⟨_, rfl⟩
    · simp only [List.length_take, List.length_drop, hn]
      rw [hRB] at hsz hmod hoff hpart ⊢
      omega
  | pwrite => exact ⟨_, completeEvent_pwrite hc (h.write c off n hc).2.1.ne'⟩

theorem linux_aio_cp_pads_source_three_bytes :
    [7, 8, 9].length + READ_BLOCK_SIZE < 2^32 ∧
    openSrcFile 3 0 [7, 8, 9].length = .ok 3 ∧ openDstFile 3 4 0 = .ok [0, 0, 0] ∧
    [7, 8, 9].length % READ_BLOCK_SIZE ≠ 0 ∧
    ∀ s, Reachable (· = aioStart 3 (fun _ => []) [0, 0, 0]) (Step [7, 8, 9]) s →
      s.numIoReqs = 0 → ∀ io dst', closeSrcDstFiles s.srcSize s.dst io = .ok dst' →
        dst' = [7, 8, 9] ++ List.replicate (READ_BLOCK_SIZE - 3 % READ_BLOCK_SIZE) 0 :=
  have hsrc : openSrcFile 3 0 [7, 8, 9].length = .ok 3 := rfl
  have hdst : openDstFile 3 4 0 = .ok [0, 0, 0] := rfl
  ⟨by decide, hsrc, hdst, by decide,
    fun s hs => (linux_aio_cp_pads_source (by decide) hsrc hdst (by decide) s hs).2⟩

/-- On a source whose size is a multiple of `READ_BLOCK_SIZE`, below `2^32 - READ_BLOCK_SIZE`
bytes, whatever order the requests complete in: the loop test never fails, since the read at
the source's end returns nothing and so stays in flight, and each completion either goes on or
exits with "ERROR: reach unavailible state". With `linux_aio_cp_terminates`, every run ends in
that exit. (The empty source does not get here: `open_dst_file` exits.) -/
theorem linux_aio_cp_exits_on_whole_blocks {src dst : List UInt8} {buffers : Nat → List UInt8}
    {openRet fstatRet dstOpenRet fallocateRet : Int} {srcSize : Nat}
    (hsize : src.length + READ_BLOCK_SIZE < 2^32)
    (hsrc : openSrcFile openRet fstatRet src.length = .ok srcSize)
    (hdst : openDstFile srcSize dstOpenRet fallocateRet = .ok dst)
    (hwhole : src.length % READ_BLOCK_SIZE = 0) :
    ∀ s, Reachable (· = aioStart srcSize buffers dst) (Step src) s →
      s.numIoReqs ≠ 0 ∧ ∀ c cb, s.iocbs c = some cb →
        (∃ u, completeEvent src s c = .ok u) ∨
          completeEvent src s c = .error "ERROR: reach unavailible state\n" := by
  obtain ⟨rfl, rfl⟩ := openSrcDstFiles_ok (by omega) hsrc hdst
  intro s hs
  have h := AioInv.reachable hsize (List.length_replicate _ _) hs
  refine ⟨h.numIoReqs_ne_zero_of_whole hwhole, fun c ⟨op, off, n⟩ hc => ?_⟩
  cases op with
  | pread =>
    rw [completeEvent_pread hc (by rw [h.read c off n hc]; decide)]
    split_ifs
    · exact .inr rfl
    · exact .inl ⟨_, rfl⟩
  | pwrite => exact .inl ⟨_, completeEvent_pwrite hc (h.write c off n hc).2.1.ne'⟩

/-- A one-block source: every run ends in the exit. -/
theorem linux_aio_cp_exits_on_whole_blocks_one_block :
    (List.replicate 4096 (7 : UInt8)).length + READ_BLOCK_SIZE < 2^32 ∧
    openSrcFile 3 0 (List.replicate 4096 (7 : UInt8)).length = .ok 4096 ∧
    openDstFile 4096 4 0 = .ok (List.replicate 4096 0) ∧
    (List.replicate 4096 (7 : UInt8)).length % READ_BLOCK_SIZE = 0 ∧
    ∀ s, Reachable (· = aioStart 4096 (fun _ => []) (List.replicate 4096 0))
      (Step (List.replicate 4096 7)) s →
      s.numIoReqs ≠ 0 ∧ ∀ c cb, s.iocbs c = some cb →
        (∃ u, completeEvent (List.replicate 4096 7) s c = .ok u) ∨
          completeEvent (List.replicate 4096 7) s c = .error "ERROR: reach unavailible state\n" := by
  have hl : (List.replicate 4096 (7 : UInt8)).length = 4096 := List.length_replicate _ _
  have hsrc : openSrcFile 3 0 (List.replicate 4096 (7 : UInt8)).length = .ok 4096 := by
    rw [hl]; rfl
  have hdst : openDstFile 4096 4 0 = .ok (List.replicate 4096 0) := rfl
  have hsize : (List.replicate 4096 (7 : UInt8)).length + READ_BLOCK_SIZE < 2^32 := by
    rw [hl]; decide
  have hwhole : (List.replicate 4096 (7 : UInt8)).length % READ_BLOCK_SIZE = 0 := by
    rw [hl]; decide
  exact ⟨hsize, hsrc, hdst, hwhole, linux_aio_cp_exits_on_whole_blocks hsize hsrc hdst hwhole⟩

/-- A source of `2^32 - READ_BLOCK_SIZE` bytes or more (modulo `2^32`, as `open_src_file`
keeps it): the rounding wraps `src_size` to `0`, so no read is issued, the loop does not run,
and `close_src_dst_files` cuts the destination to nothing. -/
theorem linux_aio_cp_empties_near_four_gib {openRet fstatRet : Int} {stSize srcSize : Nat}
    {buffers : Nat → List UInt8} {dst : List UInt8}
    (hsrc : openSrcFile openRet fstatRet stSize = .ok srcSize)
    (hbig : 2^32 - READ_BLOCK_SIZE ≤ stSize % 2^32) :
    (aioStart srcSize buffers dst).numIoReqs = 0 ∧
    ∀ io dst', closeSrcDstFiles (aioStart srcSize buffers dst).srcSize
      (aioStart srcSize buffers dst).dst io = .ok dst' → dst' = [] := by
  have hR : roundSrcSize srcSize = 0 := by
    rw [openSrcFile_size hsrc]
    unfold roundSrcSize READ_BLOCK_SIZE at *
    omega
  have h := aioStart_firstReads srcSize buffers dst
  rw [hR, Nat.zero_div, Nat.min_zero] at h
  refine ⟨h.num.trans (Finset.sum_eq_zero fun c _ => by rw [h.iocbs, if_neg (Nat.not_lt_zero c)]; rfl),
    fun io dst' hclose => ?_⟩
  rw [closeSrcDstFiles_truncate hclose, h.srcSize]
  simp only [List.take_zero, Nat.zero_sub, List.replicate_zero, List.append_nil]

theorem linux_aio_cp_empties_near_four_gib_last_byte :
    openSrcFile 3 0 (2^32 - 1) = .ok (2^32 - 1) ∧ 2^32 - READ_BLOCK_SIZE ≤ (2^32 - 1) % 2^32 ∧
    (aioStart (2^32 - 1) (fun _ => []) []).numIoReqs = 0 :=
  have hsrc : openSrcFile 3 0 (2^32 - 1) = .ok (2^32 - 1) := rfl
  ⟨hsrc, by decide, (linux_aio_cp_empties_near_four_gib hsrc (by decide)).1⟩

end NetworkingHowto.Copy.LinuxAio
