import Mathlib.Algebra.Group.Nat.Basic
import Mathlib.Tactic.SplitIfs

/-! The file helpers of `common.h` (`unnamed/part_001`) that the copiers of `04_async_io` call;
files are byte lists. -/
namespace NetworkingHowto.Copy

/-- `open_src_file` with the results of `open` and `fstat` and the size `fstat` reports:
`*file_size = statbuf.st_size` keeps the low 32 bits. -/
def openSrcFile (openRet fstatRet : Int) (stSize : Nat) : Except String Nat :=
  if openRet = -1 then .error "Unable to open source file \x27%s\x27: errno=%i (%s)"
  else if fstatRet = -1 then .error "Unable to determine source file size: errno=%i (%s)"
  else .ok (stSize % 2^32)

/-- `open_dst_file`: `O_TRUNC` empties the file and `fallocate` gives it `src_size` zero
bytes; `fallocate` of length 0 fails with `EINVAL`. -/
def openDstFile (srcSize : Nat) (openRet fallocateRet : Int) : Except String (List UInt8) :=
  if openRet = -1 then .error "Unable to open destination file \x27%s\x27: errno=%i (%s)"
  else if srcSize = 0 ∨ fallocateRet = -1 then
    .error "Not enough space for file \x27%s\x27: errno=%i (%s)"
  else .ok (List.replicate srcSize 0)

structure CloseIo where
  ftruncateRet : Int
  fsyncRet : Int
  closeSrcRet : Int
  closeDstRet : Int
deriving DecidableEq, Repr

/-- `close_src_dst_files`: `ftruncate` cuts or zero-extends the destination to `src_size`. -/
def closeSrcDstFiles (srcSize : Nat) (dst : List UInt8) (io : CloseIo) :
    Except String (List UInt8) :=
  if io.ftruncateRet = -1 then .error "Unable to truncate file \x27%s\x27: errno=%i (%s)"
  else if io.fsyncRet = -1 then .error "Unable to sync file \x27%s\x27: errno=%i (%s)"
  else if io.closeSrcRet = -1 then .error "Unable to close file \x27%s\x27: errno=%i (%s)"
  else if io.closeDstRet = -1 then .error "Unable to close file \x27%s\x27: errno=%i (%s)"
  else .ok (dst.take srcSize ++ List.replicate (srcSize - dst.length) 0)

theorem openSrcFile_size {openRet fstatRet : Int} {stSize srcSize : Nat}
    (h : openSrcFile openRet fstatRet stSize = .ok srcSize) : srcSize = stSize % 2^32 := by
  unfold openSrcFile at h
  split_ifs at h
  cases h
  rfl

theorem openDstFile_ok {srcSize : Nat} {openRet fallocateRet : Int} {dst : List UInt8}
    (h : openDstFile srcSize openRet fallocateRet = .ok dst) : dst = List.replicate srcSize 0 := by
  unfold openDstFile at h
  split_ifs at h
  cases h
  rfl

theorem openSrcDstFiles_ok {src dst : List UInt8} {openRet fstatRet dstOpenRet fallocateRet : Int}
    {srcSize : Nat} (hsize : src.length < 2^32)
    (hsrc : openSrcFile openRet fstatRet src.length = .ok srcSize)
    (hdst : openDstFile srcSize dstOpenRet fallocateRet = .ok dst) :
    srcSize = src.length ∧ dst = List.replicate src.length 0 := by
  have hs : srcSize = src.length := by rw [openSrcFile_size hsrc, Nat.mod_eq_of_lt hsize]
  exact ⟨hs, hs ▸ openDstFile_ok hdst⟩

theorem closeSrcDstFiles_truncate {srcSize : Nat} {dst dst' : List UInt8} {io : CloseIo}
    (h : closeSrcDstFiles srcSize dst io = .ok dst') :
    dst' = dst.take srcSize ++ List.replicate (srcSize - dst.length) 0 := by
  unfold closeSrcDstFiles at h
  split_ifs at h
  cases h
  rfl

theorem closeSrcDstFiles_ok {srcSize : Nat} {dst dst' : List UInt8} {io : CloseIo}
    (h : closeSrcDstFiles srcSize dst io = .ok dst') (hlen : srcSize ≤ dst.length) :
    dst' = dst.take srcSize := by
  unfold closeSrcDstFiles at h
  split_ifs at h
  cases h
  rw [Nat.sub_eq_zero_of_le hlen, List.replicate_zero, List.append_nil]

end NetworkingHowto.Copy
