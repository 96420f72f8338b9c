import NetworkingHowto.Copy.LinuxAioRun

/-! The POSIX AIO copier (`posix-aio-cp`, the third program of `server-poll.c`), which refines
the Linux AIO copier: each iteration of its `while` loop is one or more of that copier's
completions. -/
namespace NetworkingHowto.Copy.PosixAio
open LinuxAio

/-- `aio_read_setup` and `aio_write_setup`: clear the control block, fill it in, and submit it;
`aioRet` is what `aio_read` or `aio_write` returns, and `-1` is the `exit` after `perror`. The
command kept is the `LIO_READ` or `LIO_WRITE` that glibc's `aio_read` and `aio_write` record in
`aio_lio_opcode`. -/
def aioSetup (opcode : IoCmd) (err : String) (aioRet : Int) (offset size : Nat) :
    Except String Iocb :=
  if aioRet = -1 then .error err else .ok ⟨opcode, offset, size⟩

def aioReadSetup (aioRet : Int) (offset size : Nat) : Except String Iocb :=
  aioSetup .pread "Unable to request read" aioRet offset size

def aioWriteSetup (aioRet : Int) (offset size : Nat) : Except String Iocb :=
  aioSetup .pwrite "Unable to request write" aioRet offset size

/-- A `ssize_t` kept in an `int`. -/
def toCInt (r : Int) : Int := (r + 2^31) % 2^32 - 2^31

theorem toCInt_of_lt {r : Int} (h0 : 0 ≤ r) (h1 : r < 2^31) : toCInt r = r := by
  unfold toCInt
  omega

/-- The service of a finished request `cb` of cell `aioI`, whose `aio_return` is `ret`;
`submitRet` is what the `aio_read` or `aio_write` it calls returns. -/
def serveDone (submitRet : Int) (s : AioState) (aioI : Nat) (cb : Iocb) (ret : Int) :
    Except String AioState :=
  match cb.opcode with
  | .pread =>
    let bytesRead := toCInt ret
    if bytesRead ≠ 0 then do
      let write ← aioWriteSetup submitRet cb.offset (bytesRead % 2^64).toNat
      pure { s with iocbs := Function.update s.iocbs aioI (some write) }
    else .error "ERROR: reach unavailible state\n"
  | .pwrite =>
    let bytesWritten := toCInt ret
    if bytesWritten ≠ 0 ∧ s.srcOff < s.srcSize then do
      let read ← aioReadSetup submitRet s.srcOff READ_BLOCK_SIZE
      pure { s with iocbs := Function.update s.iocbs aioI (some read)
                    srcOff := s.srcOff + READ_BLOCK_SIZE }
    else .ok { s with iocbs := Function.update s.iocbs aioI none
                      numIoReqs := (s.numIoReqs + (2^64 - 1)) % 2^64 }

/-- What the system answers in one iteration of the `while` loop: `aio_suspend`'s result, the
cells whose request `aio_error` finds finished, and what `aio_read` or `aio_write` returns in
each cell. -/
structure PassIo where
  suspendRet : Int
  finished : Nat → Bool
  submitRet : Nat → Int

/-- The body of `for (size_t aio_i = 0U; aio_i < QUEUE_SIZE; ++aio_i)`: a cell with no request
in `wait_list`, or whose request is `EINPROGRESS`, is skipped; a finished one is served. -/
def serveCell (src : List UInt8) (io : PassIo) (s : AioState) (aioI : Nat) :
    Except String AioState :=
  match s.iocbs aioI with
  | none => .ok s
  | some cb =>
    if io.finished aioI = false then .ok s
    else serveDone (io.submitRet aioI) (kernelComplete src s aioI cb).1 aioI cb
      (kernelComplete src s aioI cb).2

def whilePass (src : List UInt8) (io : PassIo) (s : AioState) : Except String AioState :=
  if io.suspendRet = -1 then .error "Unable to suspend-wait for AIOs\n"
  else (List.range QUEUE_SIZE).foldlM (serveCell src io) s

/-- An iteration of the loop that does not exit. `aio_suspend` returns once a request of
`wait_list` has finished, so the scan finds one. -/
def PosixStep (src : List UInt8) (s u : AioState) : Prop :=
  s.numIoReqs ≠ 0 ∧ ∃ io : PassIo, (∃ c cb, s.iocbs c = some cb ∧ io.finished c = true) ∧
    whilePass src io s = .ok u

def firstReadSetup (submit : Nat → Int) (s : AioState) (aioI : Nat) : Except String AioState :=
  if s.srcOff < s.srcSize then do
    let read ← aioReadSetup (submit aioI) s.srcOff READ_BLOCK_SIZE
    pure { s with iocbs := Function.update s.iocbs aioI (some read)
                  srcOff := s.srcOff + READ_BLOCK_SIZE
                  numIoReqs := s.numIoReqs + 1 }
  else .ok s

def posixStart (submit : Nat → Int) (srcSize : Nat) (buffers : Nat → List UInt8)
    (dst : List UInt8) : Except String AioState :=
  (List.range QUEUE_SIZE).foldlM (firstReadSetup submit)
    ⟨0, roundSrcSize srcSize, 0, fun _ => none, buffers, dst⟩

/-! ### The start -/

theorem firstReadSetup_ok {submit : Nat → Int} {s u : AioState} {i : Nat}
    (h : firstReadSetup submit s i = .ok u) : u = firstRead s i := by
  unfold firstReadSetup aioReadSetup aioSetup at h
  unfold firstRead
  by_cases hlt : s.srcOff < s.srcSize
  · rw [if_pos hlt] at h ⊢
    by_cases hsub : submit i = -1
    · rw [if_pos hsub] at h
      cases h
    · rw [if_neg hsub] at h
      cases h
      rfl
  · rw [if_neg hlt] at h ⊢
    cases h
    rfl

theorem posixStart_eq {submit : Nat → Int} {srcSize : Nat} {buffers : Nat → List UInt8}
    {dst : List UInt8} {s : AioState} (h : posixStart submit srcSize buffers dst = .ok s) :
    s = aioStart srcSize buffers dst := by
  have key : ∀ (l : List Nat) (s0 u : AioState), l.foldlM (firstReadSetup submit) s0 = .ok u →
      u = l.foldl firstRead s0 := by
    intro l
    induction l with
    | nil => intro s0 u hu; cases hu; rfl
    | cons i l ih =>
      intro s0 u hu
      rw [List.foldlM_cons] at hu
      obtain ⟨v, hv, hf⟩ := ok_of_bind_ok hu
      rw [List.foldl_cons, ← firstReadSetup_ok hv]
      exact ih v u hf
  exact key _ _ _ h

theorem firstReadSetup_of_submit {submit : Nat → Int} {i : Nat} (hsub : submit i ≠ -1)
    (s : AioState) : firstReadSetup submit s i = .ok (firstRead s i) := by
  unfold firstReadSetup aioReadSetup aioSetup firstRead
  by_cases hlt : s.srcOff < s.srcSize
  · rw [if_pos hlt, if_neg hsub, if_pos hlt]
    rfl
  · rw [if_neg hlt, if_neg hlt]

theorem posixStart_of_submit {submit : Nat → Int} (hsub : ∀ i, submit i ≠ -1) (srcSize : Nat)
    (buffers : Nat → List UInt8) (dst : List UInt8) :
    posixStart submit srcSize buffers dst = .ok (aioStart srcSize buffers dst) := by
  unfold posixStart aioStart
  generalize (⟨0, roundSrcSize srcSize, 0, fun _ => none, buffers, dst⟩ : AioState) = s0
  induction List.range QUEUE_SIZE generalizing s0 with
  | nil => rfl
  | cons i l ih =>
    rw [List.foldlM_cons, firstReadSetup_of_submit (hsub i), ok_bind, List.foldl_cons]
    exact ih _

/-! ### One cell -/

theorem serveDone_ok {sub ret : Int} {s u : AioState} {c : Nat} {cb : Iocb}
    (hc : s.iocbs c = some cb) (h0 : 0 ≤ ret) (h1 : ret < 2^31)
    (h : serveDone sub s c cb ret = .ok u) : serveEvent s c ret = .ok u := by
  obtain ⟨op, off, n⟩ := cb
  unfold serveDone aioWriteSetup aioReadSetup aioSetup at h
  unfold serveEvent ioWriteSetup ioReadSetup ioSetup
  rw [hc]
  rw [toCInt_of_lt h0 h1] at h
  cases op with
  | pread =>
    dsimp only at h ⊢
    by_cases hr : ret ≠ 0
    · rw [if_pos hr] at h ⊢
      by_cases hsub : sub = -1
      · rw [if_pos hsub] at h
        cases h
      · rw [if_neg hsub] at h
        exact h
    · rw [if_neg hr] at h
      cases h
  | pwrite =>
    dsimp only at h ⊢
    by_cases hw : ret ≠ 0 ∧ s.srcOff < s.srcSize
    · rw [if_pos hw] at h ⊢
      by_cases hsub : sub = -1
      · rw [if_pos hsub] at h
        cases h
      · rw [if_neg hsub] at h
        exact h
    · rw [if_neg hw] at h ⊢
      exact h

theorem kernelComplete_iocbs (src : List UInt8) (s : AioState) (c : Nat) (cb : Iocb) :
    (kernelComplete src s c cb).1.iocbs = s.iocbs := by
  unfold kernelComplete
  split <;> rfl

theorem kernelComplete_ret {src : List UInt8} {s : AioState} {c : Nat} {cb : Iocb}
    (h : AioInv src s) (hc : s.iocbs c = some cb) :
    0 ≤ (kernelComplete src s c cb).2 ∧ (kernelComplete src s c cb).2 < 2^31 := by
  obtain ⟨op, off, n⟩ := cb
  have hR : READ_BLOCK_SIZE = 4096 := rfl
  cases op with
  | pread =>
    have hn := h.read c off n hc
    have hle : ((src.drop off).take n).length ≤ n := List.length_take_le _ _
    dsimp only [kernelComplete]
    omega
  | pwrite =>
    have hn := (h.write c off n hc).1
    have hle : n ≤ READ_BLOCK_SIZE := hn ▸ Nat.min_le_left _ _
    dsimp only [kernelComplete]
    omega

theorem serveCell_ok {src : List UInt8} {io : PassIo} {s u : AioState} {c : Nat}
    (h : AioInv src s) (hok : serveCell src io s c = .ok u) :
    (u = s ∧ ∀ cb, s.iocbs c = some cb → io.finished c = false) ∨
      ∃ cb, s.iocbs c = some cb ∧ completeEvent src s c = .ok u := by
  unfold serveCell at hok
  cases hc : s.iocbs c with
  | none =>
    rw [hc] at hok
    cases hok
    exact .inl ⟨rfl, fun _ h => nomatch h⟩
  | some cb =>
    rw [hc] at hok
    dsimp only at hok
    by_cases hfin : io.finished c = false
    · rw [if_pos hfin] at hok
      cases hok
      exact .inl ⟨rfl, fun _ _ => hfin⟩
    · rw [if_neg hfin] at hok
      have hret := kernelComplete_ret h hc
      refine .inr ⟨cb, rfl, ?_⟩
      rw [completeEvent, hc]
      exact serveDone_ok (by rw [kernelComplete_iocbs]; exact hc) hret.1 hret.2 hok

/-! ### One iteration of the loop -/

theorem foldlM_serveCell {src : List UInt8} {io : PassIo} :
    ∀ {l : List Nat}, l.Nodup → ∀ {s u : AioState}, AioInv src s →
      l.foldlM (serveCell src io) s = .ok u →
      Relation.ReflTransGen (Step src) s u ∧
        ((∃ c ∈ l, ∃ cb, s.iocbs c = some cb ∧ io.finished c = true) →
          Relation.TransGen (Step src) s u)
  | [], _, s, u, _, hok => by
    cases hok
    exact ⟨.refl, fun ⟨_, hc, _⟩ => absurd hc (List.not_mem_nil _)⟩
  | a :: l, hnd, s, u, h, hok => by
    rw [List.foldlM_cons] at hok
    obtain ⟨v, hv, hf⟩ := ok_of_bind_ok hok
    have hnd' := List.nodup_cons.mp hnd
    rcases serveCell_ok h hv with ⟨rfl, hskip⟩ | ⟨cb, hc, hce⟩
    · -- cell `a` skipped: a finished request is further on
      obtain ⟨hr, ht⟩ := foldlM_serveCell hnd'.2 h hf
      refine ⟨hr, fun ⟨c, hcl, cb, hc, hfin⟩ => ?_⟩
      rcases List.mem_cons.mp hcl with rfl | hcl
      · rw [hskip cb hc] at hfin
        cases hfin
      · exact ht ⟨c, hcl, cb, hc, hfin⟩
    · -- cell `a` served: one completion, then the rest of the scan
      have hst : Step src s v := ⟨h.numIoReqs_ne_zero hc, a, cb, hc, hce⟩
      have hr := (foldlM_serveCell hnd'.2 (h.step hst) hf).1
      exact ⟨.head hst hr, fun _ => .head' hst hr⟩

theorem PosixStep.transGen {src : List UInt8} {s u : AioState} (h : AioInv src s)
    (hst : PosixStep src s u) : Relation.TransGen (Step src) s u := by
  obtain ⟨-, io, ⟨c, cb, hc, hfin⟩, hpass⟩ := hst
  unfold whilePass at hpass
  by_cases hsus : io.suspendRet = -1
  · rw [if_pos hsus] at hpass
    cases hpass
  · rw [if_neg hsus] at hpass
    exact (foldlM_serveCell (List.nodup_range _) h hpass).2
      ⟨c, List.mem_range.mpr (h.req c cb hc).1, cb, hc, hfin⟩

theorem reachable_of_posix {src dst : List UInt8} {buffers : Nat → List UInt8}
    {submit : Nat → Int} (hsize : src.length + READ_BLOCK_SIZE < 2^32)
    (hdst : dst.length = src.length) {s : AioState}
    (h : Reachable (fun s => posixStart submit src.length buffers dst = .ok s) (PosixStep src) s) :
    Reachable (· = aioStart src.length buffers dst) (Step src) s := by
  induction h with
  | init h0 => exact .init (posixStart_eq h0)
  | step _ hst ih =>
    exact ih.reflTransGen (PosixStep.transGen (AioInv.reachable hsize hdst ih) hst).to_reflTransGen

/-! ### Every run -/

/-- The POSIX AIO copier refines the Linux AIO copier: on every source below `2^32 -
READ_BLOCK_SIZE` bytes, whatever `aio_read`, `aio_write` and `aio_suspend` return and whichever
requests each iteration finds finished, every state its loop reaches is one the Linux AIO
copier's loop reaches, and every iteration of its loop is one or more completions of that
copier. -/
theorem posix_aio_cp_refines_linux_aio_cp {src dst : List UInt8} {buffers : Nat → List UInt8}
    {openRet fstatRet dstOpenRet fallocateRet : Int} {srcSize : Nat} {submit : Nat → Int}
    (hsize : src.length + READ_BLOCK_SIZE < 2^32)
    (hsrc : openSrcFile openRet fstatRet src.length = .ok srcSize)
    (hdst : openDstFile srcSize dstOpenRet fallocateRet = .ok dst) :
    ∀ s, Reachable (fun s => posixStart submit srcSize buffers dst = .ok s) (PosixStep src) s →
      Reachable (· = aioStart srcSize buffers dst) (Step src) s ∧
        ∀ u, PosixStep src s u → Relation.TransGen (Step src) s u := by
  obtain ⟨rfl, rfl⟩ := openSrcDstFiles_ok (by omega) hsrc hdst
  intro s hs
  have hlen := List.length_replicate src.length (0 : UInt8)
  have hR := reachable_of_posix hsize hlen hs
  exact ⟨hR, fun _ => PosixStep.transGen (AioInv.reachable hsize hlen hR)⟩

/-- A three-byte source: one iteration of the POSIX loop finds the first read finished and
issues its write, which is a completion of the Linux AIO copier. -/
theorem posix_aio_cp_refines_linux_aio_cp_three_bytes :
    ∃ s, [7, 8, 9].length + READ_BLOCK_SIZE < 2^32 ∧
      openSrcFile 3 0 [7, 8, 9].length = .ok 3 ∧ openDstFile 3 4 0 = .ok [0, 0, 0] ∧
      Reachable (fun s => posixStart (fun _ => 0) 3 (fun _ => []) [0, 0, 0] = .ok s)
        (PosixStep [7, 8, 9]) s ∧ s.iocbs 0 = some ⟨.pwrite, 0, 3⟩ ∧
      (Reachable (· = aioStart 3 (fun _ => []) [0, 0, 0]) (Step [7, 8, 9]) s ∧
        ∀ u, PosixStep [7, 8, 9] s u → Relation.TransGen (Step [7, 8, 9]) s u) := by
  have hsrc : openSrcFile 3 0 [7, 8, 9].length = .ok 3 := rfl
  have hdst : openDstFile 3 4 0 = .ok [0, 0, 0] := rfl
  have h0 : posixStart (fun _ => 0) 3 (fun _ => []) [0, 0, 0] =
      .ok (aioStart 3 (fun _ => []) [0, 0, 0]) :=
    posixStart_of_submit (fun _ => by decide) _ _ _
  have h1 : Reachable (fun s => posixStart (fun _ => 0) 3 (fun _ => []) [0, 0, 0] = .ok s)
      (PosixStep [7, 8, 9]) _ :=
    .step (.init h0) ⟨by decide, ⟨0, fun c => decide (c = 0), fun _ => 0⟩, ⟨0, _, rfl, rfl⟩, rfl⟩
  exact ⟨_, by decide, hsrc, hdst, h1, rfl, posix_aio_cp_refines_linux_aio_cp (by decide) hsrc hdst _ h1⟩

/-- The POSIX AIO copier on a source below `2^32 - READ_BLOCK_SIZE` bytes, whatever `aio_read`,
`aio_write` and `aio_suspend` return and whichever requests each iteration finds finished: its
loop has no infinite run; once `num_io_reqs` is `0`, the file `close_src_dst_files` leaves is
the source followed by `READ_BLOCK_SIZE - src_size % READ_BLOCK_SIZE` zero bytes, not the
source; and on a source of whole blocks `num_io_reqs` is never `0`, so the loop ends only in
an exit. -/
theorem posix_aio_cp_terminates_pads_source {src dst : List UInt8} {buffers : Nat → List UInt8}
    {openRet fstatRet dstOpenRet fallocateRet : Int} {srcSize : Nat} {submit : Nat → Int}
    (hsize : src.length + READ_BLOCK_SIZE < 2^32)
    (hsrc : openSrcFile openRet fstatRet src.length = .ok srcSize)
    (hdst : openDstFile srcSize dstOpenRet fallocateRet = .ok dst) :
    WellFounded (fun u s => Reachable (fun s => posixStart submit srcSize buffers dst = .ok s)
      (PosixStep src) s ∧ PosixStep src s u) ∧
    ∀ s, Reachable (fun s => posixStart submit srcSize buffers dst = .ok s) (PosixStep src) s →
      (s.numIoReqs = 0 → ∀ io dst', closeSrcDstFiles s.srcSize s.dst io = .ok dst' →
        dst' = src ++ List.replicate (READ_BLOCK_SIZE - src.length % READ_BLOCK_SIZE) 0) ∧
      (src.length % READ_BLOCK_SIZE = 0 → s.numIoReqs ≠ 0) := by
  obtain ⟨rfl, rfl⟩ := openSrcDstFiles_ok (by omega) hsrc hdst
  have hlen := List.length_replicate src.length (0 : UInt8)
  have hinv : ∀ s, Reachable (fun s => posixStart submit src.length buffers _ = .ok s)
      (PosixStep src) s → AioInv src s :=
    fun _ hs => AioInv.reachable hsize hlen (reachable_of_posix hsize hlen hs)
  refine ⟨Subrelation.wf (fun {_ _} h => ?_) (measure remaining).wf, fun s hs =>
    ⟨fun h0 _ _ hclose => (hinv s hs).closed hsize h0 hclose,
      (hinv s hs).numIoReqs_ne_zero_of_whole⟩⟩
  exact (hinv _ h.1).remaining_transGen (PosixStep.transGen (hinv _ h.1) h.2)

theorem posix_aio_cp_terminates_pads_source_three_bytes :
    [7, 8, 9].length + READ_BLOCK_SIZE < 2^32 ∧
    openSrcFile 3 0 [7, 8, 9].length = .ok 3 ∧ openDstFile 3 4 0 = .ok [0, 0, 0] ∧
    WellFounded (fun u s => Reachable
      (fun s => posixStart (fun _ => 0) 3 (fun _ => []) [0, 0, 0] = .ok s) (PosixStep [7, 8, 9]) s ∧
        PosixStep [7, 8, 9] s u) :=
  have hsrc : openSrcFile 3 0 [7, 8, 9].length = .ok 3 := rfl
  have hdst : openDstFile 3 4 0 = .ok [0, 0, 0] := rfl
  ⟨by decide, hsrc, hdst, (posix_aio_cp_terminates_pads_source (by decide) hsrc hdst).1⟩

end NetworkingHowto.Copy.PosixAio
