import NetworkingHowto.Copy.ThreadPool
import NetworkingHowto.Client.Download
import Mathlib.Algebra.Order.BigOperators.Group.Finset
import Mathlib.Algebra.Order.Ring.Nat

/-! The whole thread-pool copier, the passes of its threads interleaved in every order: while
no counter wraps, every run ends and leaves the source. -/
namespace NetworkingHowto.Copy.ThreadPool

theorem threadFuncPass_fileIo (srcSize threadI i : Nat) :
    threadFuncPass srcSize threadI i (fileIo srcSize (i + threadI * READ_BLOCK_SIZE)) =
      if i < srcSize ∧ i + threadI * READ_BLOCK_SIZE ≤ srcSize then
        if i + threadI * READ_BLOCK_SIZE + READ_BLOCK_SIZE ≤ srcSize then
          .ok (.next (i + threadI * READ_BLOCK_SIZE) READ_BLOCK_SIZE
            ((i + READ_BLOCK_SIZE * NUM_THREADS) % 2^32))
        else .ok (.last (i + threadI * READ_BLOCK_SIZE) (srcSize - (i + threadI * READ_BLOCK_SIZE)))
      else .ok .stop := by
  unfold threadFuncPass fileIo
  dsimp only
  by_cases h1 : i < srcSize ∧ i + threadI * READ_BLOCK_SIZE ≤ srcSize
  · -- `pread` and `pwrite` both return the bytes left at the offset, at most a block
    have hc : ((min READ_BLOCK_SIZE (srcSize - (i + threadI * READ_BLOCK_SIZE)) : Nat) : Int) ≠ -1 :=
      by omega
    rw [if_pos h1, if_pos h1.1, if_neg (by omega), if_neg hc, if_neg (by omega)]
    by_cases h2 : i + threadI * READ_BLOCK_SIZE + READ_BLOCK_SIZE ≤ srcSize
    · rw [if_pos h2, Nat.min_eq_left (by omega), if_neg (not_not.mpr rfl)]
      rfl
    · rw [if_neg h2, Nat.min_eq_right (by omega), if_pos (by omega)]
      rfl
  · rw [if_neg h1]
    by_cases h0 : i < srcSize
    · rw [if_pos h0, if_pos (by omega)]
    · rw [if_neg h0]

/-- The copy in progress: the `uint32_t` counter `i` of each thread still in its loop, and
the destination file. -/
structure PoolState where
  counter : Fin NUM_THREADS → Option Nat
  dst : List UInt8

/-- One pass of thread `t` over the source file `src`, of which `open_src_file` reported
`srcSize` bytes: `pread` returns what the file holds at the offset, and `pwrite` puts those
bytes at the same offset of the destination. -/
def poolStep (src : List UInt8) (srcSize : Nat) (s : PoolState) (t : Fin NUM_THREADS) :
    Except String PoolState :=
  match s.counter t with
  | none => .ok s
  | some i =>
    match threadFuncPass srcSize t i (fileIo src.length (i + t * READ_BLOCK_SIZE)) with
    | .error msg => .error msg
    | .ok .stop => .ok ⟨Function.update s.counter t none, s.dst⟩
    | .ok (.last offset count) =>
      .ok ⟨Function.update s.counter t none,
        Client.pwriteAt s.dst offset ((src.drop offset).take count)⟩
    | .ok (.next offset count i) =>
      .ok ⟨Function.update s.counter t (some i),
        Client.pwriteAt s.dst offset ((src.drop offset).take count)⟩

def PoolStep (src : List UInt8) (srcSize : Nat) (s u : PoolState) : Prop :=
  ∃ t i, s.counter t = some i ∧ poolStep src srcSize s t = .ok u

/-- Before the threads start, with the destination `open_dst_file` left: every counter is
`0`. -/
def poolStart (dst : List UInt8) : PoolState := ⟨fun _ => some 0, dst⟩

theorem poolStep_some {src : List UInt8} {s : PoolState} {t : Fin NUM_THREADS} {i : Nat}
    (hc : s.counter t = some i) :
    poolStep src src.length s t =
      if i < src.length ∧ i + t * READ_BLOCK_SIZE ≤ src.length then
        if i + t * READ_BLOCK_SIZE + READ_BLOCK_SIZE ≤ src.length then
          .ok ⟨Function.update s.counter t (some ((i + READ_BLOCK_SIZE * NUM_THREADS) % 2^32)),
            Client.pwriteAt s.dst (i + t * READ_BLOCK_SIZE)
              ((src.drop (i + t * READ_BLOCK_SIZE)).take READ_BLOCK_SIZE)⟩
        else .ok ⟨Function.update s.counter t none,
          Client.pwriteAt s.dst (i + t * READ_BLOCK_SIZE)
            ((src.drop (i + t * READ_BLOCK_SIZE)).take (src.length - (i + t * READ_BLOCK_SIZE)))⟩
      else .ok ⟨Function.update s.counter t none, s.dst⟩ := by
  rw [poolStep, hc]
  dsimp only
  rw [threadFuncPass_fileIo]
  split_ifs <;> rfl

/-- Block `k`, the bytes `[k * READ_BLOCK_SIZE, (k + 1) * READ_BLOCK_SIZE)`, belongs to
thread `k % NUM_THREADS`; it is done once that thread's counter has passed it or the thread
has left its loop. -/
def blockDone (s : PoolState) (k : Nat) : Prop :=
  ∀ i, s.counter ⟨k % NUM_THREADS, Nat.mod_lt _ (by decide)⟩ = some i →
    k * READ_BLOCK_SIZE < i + k % NUM_THREADS * READ_BLOCK_SIZE

/-- What every state of the copy satisfies: the destination holds at least `src_size`
bytes, each counter is a multiple of `READ_BLOCK_SIZE * NUM_THREADS` at most a block past
the end, and every byte of a done block is the source's. -/
structure PoolInv (src : List UInt8) (s : PoolState) : Prop where
  dst_len : src.length ≤ s.dst.length
  counter : ∀ t i, s.counter t = some i →
    i % (READ_BLOCK_SIZE * NUM_THREADS) = 0 ∧ i ≤ src.length + READ_BLOCK_SIZE
  data : ∀ b < src.length, blockDone s (b / READ_BLOCK_SIZE) → s.dst[b]? = src[b]?

theorem blockDone_update {s : PoolState} {t : Fin NUM_THREADS} {c : Option Nat}
    {dst : List UInt8} {k : Nat} (hk : blockDone ⟨Function.update s.counter t c, dst⟩ k) :
    blockDone s k ∨ (k % NUM_THREADS = t ∧
      ∀ i, c = some i → k * READ_BLOCK_SIZE < i + k % NUM_THREADS * READ_BLOCK_SIZE) := by
  by_cases hkt : (⟨k % NUM_THREADS, Nat.mod_lt _ (by decide)⟩ : Fin NUM_THREADS) = t
  · exact .inr ⟨congrArg Fin.val hkt,
      fun i hi => hk i (by dsimp only; rw [hkt, Function.update_same]; exact hi)⟩
  · exact .inl fun i hi => hk i (by dsimp only; rw [Function.update_noteq hkt]; exact hi)

theorem blockDone_of_lt {s : PoolState} {t : Fin NUM_THREADS} {i k : Nat}
    (hc : s.counter t = some i) (hkt : k % NUM_THREADS = t)
    (hlt : k * READ_BLOCK_SIZE < i + k % NUM_THREADS * READ_BLOCK_SIZE) : blockDone s k :=
  fun i' hi' => by
    rw [show (⟨k % NUM_THREADS, Nat.mod_lt _ (by decide)⟩ : Fin NUM_THREADS) = t from Fin.ext hkt,
      hc] at hi'
    cases hi'
    exact hlt

theorem PoolInv.start {src dst : List UInt8} (hlen : src.length ≤ dst.length) :
    PoolInv src (poolStart dst) where
  dst_len := hlen
  counter _ _ h := by cases h; exact ⟨rfl, Nat.zero_le _⟩
  data b _ hd := by
    have := hd 0 rfl
    have hR : READ_BLOCK_SIZE = 4096 := rfl
    have hT : NUM_THREADS = 2 := rfl
    rw [hR, hT] at this
    omega

theorem PoolInv.data_pass {src : List UInt8} {s : PoolState} {t : Fin NUM_THREADS}
    {i cnt : Nat} {c : Option Nat} (h : PoolInv src s) (hc : s.counter t = some i)
    (hmod : i % (READ_BLOCK_SIZE * NUM_THREADS) = 0) (hoff : i + t * READ_BLOCK_SIZE ≤ src.length)
    (hcnt : min READ_BLOCK_SIZE (src.length - (i + t * READ_BLOCK_SIZE)) ≤ cnt)
    (hnew : ∀ b < src.length, b / READ_BLOCK_SIZE % NUM_THREADS = t →
      ¬ b / READ_BLOCK_SIZE * READ_BLOCK_SIZE < i + t * READ_BLOCK_SIZE →
      (∀ i', c = some i' → b / READ_BLOCK_SIZE * READ_BLOCK_SIZE < i' + t * READ_BLOCK_SIZE) →
      b / READ_BLOCK_SIZE = i / READ_BLOCK_SIZE + t) :
    ∀ b < src.length, blockDone ⟨Function.update s.counter t c,
        Client.pwriteAt s.dst (i + t * READ_BLOCK_SIZE)
          ((src.drop (i + t * READ_BLOCK_SIZE)).take cnt)⟩ (b / READ_BLOCK_SIZE) →
      (Client.pwriteAt s.dst (i + t * READ_BLOCK_SIZE)
          ((src.drop (i + t * READ_BLOCK_SIZE)).take cnt))[b]? = src[b]? := by
  have ho : i + t * READ_BLOCK_SIZE = (i / READ_BLOCK_SIZE + t) * READ_BLOCK_SIZE := by
    have hR : READ_BLOCK_SIZE = 4096 := rfl
    have hT : NUM_THREADS = 2 := rfl
    simp only [hR, hT] at hmod ⊢
    omega
  rw [ho] at hoff hcnt ⊢
  refine Client.pwriteAt_block_eq (by decide) h.dst_len hoff hcnt h.data fun b hb hd => ?_
  rcases blockDone_update hd with hd | ⟨hkt, hlt⟩
  · exact .inl hd
  · rw [hkt] at hlt
    by_cases hold : b / READ_BLOCK_SIZE * READ_BLOCK_SIZE <
        i + b / READ_BLOCK_SIZE % NUM_THREADS * READ_BLOCK_SIZE
    · exact .inl (blockDone_of_lt hc hkt hold)
    · rw [hkt] at hold
      exact .inr (hnew b hb hkt hold hlt)

theorem PoolInv.step {src : List UInt8} {s u : PoolState}
    (hsize : src.length + READ_BLOCK_SIZE < 2^32) (h : PoolInv src s)
    (hst : PoolStep src src.length s u) : PoolInv src u := by
  obtain ⟨t, i, hc, hok⟩ := hst
  obtain ⟨hmod, hle⟩ := h.counter t i hc
  have hR : READ_BLOCK_SIZE = 4096 := rfl
  have hT : NUM_THREADS = 2 := rfl
  have ht : (t : Nat) < 2 := t.isLt
  rw [poolStep_some hc] at hok
  split_ifs at hok with hrun hfull <;> cases hok
  · -- a whole block: the counter moves on by `READ_BLOCK_SIZE * NUM_THREADS`
    refine ⟨h.dst_len.trans (Client.length_pwriteAt_le (hrun.2.trans h.dst_len)),
      forall_update_some h.counter ?_, h.data_pass hc hmod hrun.2 (min_le_left _ _) ?_⟩
    · intro _ hi'
      obtain rfl := Option.some.inj hi'
      simp only [hR, hT] at hmod hfull hsize ⊢
      omega
    · intro b _ hkt hold hlt
      have := hlt _ rfl
      simp only [hR, hT] at hmod hkt hold this ⊢
      omega
  · -- the last, shorter block: the thread breaks
    refine ⟨h.dst_len.trans (Client.length_pwriteAt_le (hrun.2.trans h.dst_len)),
      forall_update_some h.counter (fun _ h => nomatch h),
      h.data_pass hc hmod hrun.2 (min_le_right _ _) fun b hb _ hold _ => ?_⟩
    simp only [hR, hT] at hmod hold hfull ⊢
    omega
  · -- past the end: the thread leaves its loop without a write
    refine ⟨h.dst_len, forall_update_some h.counter (fun _ h => nomatch h),
      fun b hb hd => h.data b hb ?_⟩
    rcases blockDone_update hd with hd | ⟨hkt, -⟩
    · exact hd
    · refine blockDone_of_lt hc hkt ?_
      rw [hkt]
      simp only [hR, hT] at hmod hrun ⊢
      omega

theorem PoolInv.reachable {src dst : List UInt8} {s : PoolState}
    (hsize : src.length + READ_BLOCK_SIZE < 2^32) (hlen : src.length ≤ dst.length)
    (h : Reachable (· = poolStart dst) (PoolStep src src.length) s) : PoolInv src s :=
  h.invariant (fun _ hs => hs ▸ PoolInv.start hlen) fun _ _ hi hst => hi.step hsize hst

/-- What is left of a thread's loop: nothing once it has ended, and otherwise less the
further its counter, which stays at most a block past the end, has gone. -/
def counterRemaining (srcSize : Nat) : Option Nat → Nat
  | none => 0
  | some i => srcSize + READ_BLOCK_SIZE + 1 - i

def poolRemaining (srcSize : Nat) (s : PoolState) : Nat :=
  ∑ t, counterRemaining srcSize (s.counter t)

theorem poolRemaining_update_lt {srcSize : Nat} {s : PoolState} {t : Fin NUM_THREADS}
    {c : Option Nat} {dst : List UInt8}
    (hlt : counterRemaining srcSize c < counterRemaining srcSize (s.counter t)) :
    poolRemaining srcSize ⟨Function.update s.counter t c, dst⟩ < poolRemaining srcSize s := by
  refine Finset.sum_lt_sum (fun j _ => ?_) ⟨t, Finset.mem_univ t, ?_⟩ <;> dsimp only
  · rcases eq_or_ne j t with rfl | hj
    · rw [Function.update_same]
      exact hlt.le
    · rw [Function.update_noteq hj]
  · rw [Function.update_same]
    exact hlt

theorem PoolInv.remaining_step {src : List UInt8} {s u : PoolState}
    (hsize : src.length + READ_BLOCK_SIZE < 2^32) (h : PoolInv src s)
    (hst : PoolStep src src.length s u) : poolRemaining src.length u < poolRemaining src.length s := by
  obtain ⟨t, i, hc, hok⟩ := hst
  obtain ⟨hmod, hle⟩ := h.counter t i hc
  have hR : READ_BLOCK_SIZE = 4096 := rfl
  have hT : NUM_THREADS = 2 := rfl
  rw [poolStep_some hc] at hok
  split_ifs at hok with hrun hfull <;> cases hok <;> refine poolRemaining_update_lt ?_ <;>
    rw [hc] <;> simp only [counterRemaining, hR, hT] at * <;> omega

theorem poolStep_ok {src : List UInt8} {s : PoolState} {t : Fin NUM_THREADS} {i : Nat}
    (hc : s.counter t = some i) : ∃ u, poolStep src src.length s t = .ok u := by
  rw [poolStep_some hc]
  split_ifs <;> exact ⟨_, rfl⟩

/-- The threads of the copier finish: no run of passes, in any order, is infinite, and no
pass exits, so a thread is only ever stopped by having left its loop, and `pthread_join`
returns for both. This holds while no counter can wrap, below `2^32 - READ_BLOCK_SIZE`
bytes. -/
theorem thread_pool_cp_terminates {src dst : List UInt8}
    {openRet fstatRet dstOpenRet fallocateRet : Int} {srcSize : Nat}
    (hsize : src.length + READ_BLOCK_SIZE < 2^32)
    (hsrc : openSrcFile openRet fstatRet src.length = .ok srcSize)
    (hdst : openDstFile srcSize dstOpenRet fallocateRet = .ok dst) :
    WellFounded (fun u s => Reachable (· = poolStart dst) (PoolStep src srcSize) s ∧
      PoolStep src srcSize s u) ∧
    ∀ s t i, s.counter t = some i → ∃ u, poolStep src srcSize s t = .ok u := by
  obtain ⟨rfl, rfl⟩ := openSrcDstFiles_ok (by omega) hsrc hdst
  have hlen := (List.length_replicate src.length (0 : UInt8)).ge
  exact ⟨Subrelation.wf (fun {_ _} h => (PoolInv.reachable hsize hlen h.1).remaining_step hsize h.2)
    (measure (poolRemaining src.length)).wf, fun _ _ _ => poolStep_ok⟩

theorem thread_pool_cp_terminates_three_bytes :
    [7, 8, 9].length + READ_BLOCK_SIZE < 2^32 ∧
    openSrcFile 3 0 [7, 8, 9].length = .ok 3 ∧ openDstFile 3 4 0 = .ok [0, 0, 0] ∧
    WellFounded (fun u s => Reachable (· = poolStart [0, 0, 0]) (PoolStep [7, 8, 9] 3) s ∧
      PoolStep [7, 8, 9] 3 s u) :=
  have hsrc : openSrcFile 3 0 [7, 8, 9].length = .ok 3 := rfl
  have hdst : openDstFile 3 4 0 = .ok [0, 0, 0] := rfl
  ⟨by decide, hsrc, hdst, (thread_pool_cp_terminates (by decide) hsrc hdst).1⟩

theorem PoolInv.joined {src : List UInt8} {s : PoolState} (h : PoolInv src s)
    (hjoin : ∀ t, s.counter t = none) : s.dst.take src.length = src := by
  refine List.ext_getElem? fun b => ?_
  rw [List.getElem?_take]
  split_ifs with hb
  · exact h.data b hb fun i hi => by rw [hjoin] at hi; cases hi
  · rw [List.getElem?_eq_none (by omega)]

/-- The thread-pool copier copies: in every order of the passes, once `pthread_join` has
returned for both threads, the file `close_src_dst_files` leaves is the source, byte for
byte, for every source below `2^32 - READ_BLOCK_SIZE` bytes. -/
theorem thread_pool_cp_copies_source {src dst : List UInt8}
    {openRet fstatRet dstOpenRet fallocateRet : Int} {srcSize : Nat}
    (hsize : src.length + READ_BLOCK_SIZE < 2^32)
    (hsrc : openSrcFile openRet fstatRet src.length = .ok srcSize)
    (hdst : openDstFile srcSize dstOpenRet fallocateRet = .ok dst) {s : PoolState}
    (h : Reachable (· = poolStart dst) (PoolStep src srcSize) s)
    (hjoin : ∀ t, s.counter t = none) {io : CloseIo} {dst' : List UInt8}
    (hclose : closeSrcDstFiles srcSize s.dst io = .ok dst') : dst' = src := by
  obtain ⟨rfl, rfl⟩ := openSrcDstFiles_ok (by omega) hsrc hdst
  have hinv := PoolInv.reachable hsize (List.length_replicate src.length 0).ge h
  rw [closeSrcDstFiles_ok hclose hinv.dst_len, hinv.joined hjoin]

theorem thread_pool_cp_copies_source_three_bytes :
    ∃ s : PoolState, Reachable (· = poolStart [0, 0, 0]) (PoolStep [7, 8, 9] 3) s ∧
      (∀ t, s.counter t = none) ∧
      ∀ dst', closeSrcDstFiles 3 s.dst ⟨0, 0, 0, 0⟩ = .ok dst' → dst' = [7, 8, 9] := by
  have hsrc : openSrcFile 3 0 [7, 8, 9].length = .ok 3 := rfl
  have hdst : openDstFile 3 4 0 = .ok [0, 0, 0] := rfl
  have h1 : PoolStep [7, 8, 9] 3 (poolStart [0, 0, 0])
      ⟨Function.update (fun _ => some 0) ⟨0, by decide⟩ none, [7, 8, 9]⟩ :=
    ⟨⟨0, by decide⟩, 0, rfl, (poolStep_some rfl).trans
      (by rw [if_pos (by decide), if_neg (by decide)]; rfl)⟩
  have h2 : PoolStep [7, 8, 9] 3 ⟨Function.update (fun _ => some 0) ⟨0, by decide⟩ none, [7, 8, 9]⟩
      ⟨Function.update (Function.update (fun _ => some 0) ⟨0, by decide⟩ none) ⟨1, by decide⟩
        none, [7, 8, 9]⟩ :=
    ⟨⟨1, by decide⟩, 0, rfl, (poolStep_some rfl).trans (by rw [if_neg (by decide)])⟩
  have hrun : Reachable (· = poolStart [0, 0, 0]) (PoolStep [7, 8, 9] 3) _ :=
    .step (.step (.init rfl) h1) h2
  have hjoin : ∀ t, (Function.update (Function.update (fun _ => some 0) ⟨0, by decide⟩ none)
      (⟨1, by decide⟩ : Fin NUM_THREADS) none) t = none := by decide
  exact ⟨_, hrun, hjoin,
    fun _ hclose => thread_pool_cp_copies_source (by decide) hsrc hdst hrun hjoin hclose⟩

end NetworkingHowto.Copy.ThreadPool
