import NetworkingHowto.Reachable
import NetworkingHowto.Server.Protocol

/-! The client of `05_tcp_multiplexing`: `client_recv_file_size`, `client_recv_file_block` and
the connect/receive/reconnect loop of `main`, with the kernel's answers as inputs, one record
per connection attempt. -/
namespace NetworkingHowto.Client
open NetworkingHowto.Bytes NetworkingHowto.Server

def TRANSFER_BLOCK_SIZE : Nat := 1024

/-- What one `recv` returns: bytes of the stream, the end of the stream, or `-1`. -/
inductive RecvResult where
  | data (bytes : List UInt8)
  | eof
  | error
deriving DecidableEq, Repr

namespace RecvResult

def ret : RecvResult → Int
  | data bs => bs.length
  | eof => 0
  | error => -1

def bytes : RecvResult → List UInt8
  | data bs => bs
  | _ => []

end RecvResult

/-- The fields of `FILESHARE_CLIENT` the download reads and writes. -/
structure FileshareClient where
  dstFileSize : Nat
  dstFileOffset : Nat
deriving DecidableEq, Repr

/-- `pwrite(fd, buf, n, off)` of `n = buf.length > 0` bytes: a write past the end first
extends the file with zeros. Writing nothing leaves the file as it is. -/
def pwriteAt (file : List UInt8) (off : Nat) (buf : List UInt8) : List UInt8 :=
  if buf = [] then file
  else (file ++ List.replicate (off - file.length) 0).take off ++ buf ++ file.drop (off + buf.length)

@[simp] theorem pwriteAt_nil (file : List UInt8) (off : Nat) : pwriteAt file off [] = file :=
  if_pos rfl

theorem getElem?_pwriteAt {file buf : List UInt8} {off : Nat} (h : off ≤ file.length) (i : Nat) :
    (pwriteAt file off buf)[i]? =
      if off ≤ i ∧ i < off + buf.length then buf[i - off]? else file[i]? := by
  unfold pwriteAt
  split_ifs with hb hi hi
  · subst hb
    simp only [List.length_nil, Nat.add_zero] at hi
    omega
  · rfl
  · rw [Nat.sub_eq_zero_of_le h, List.replicate_zero, List.append_nil,
      List.getElem?_append_left (by simp; omega), List.getElem?_append_right (by simp; omega)]
    simp only [List.length_take, Nat.min_eq_left h]
  · rw [Nat.sub_eq_zero_of_le h, List.replicate_zero, List.append_nil]
    rcases Nat.lt_or_ge i off with hio | hio
    · rw [List.getElem?_append_left (by simp; omega), List.getElem?_append_left (by simp; omega),
        List.getElem?_take_of_lt hio]
    · rw [List.getElem?_append_right (by simp; omega), List.getElem?_drop]
      simp only [List.length_append, List.length_take, Nat.min_eq_left h]
      congr 1
      omega

theorem length_pwriteAt_le {file buf : List UInt8} {off : Nat} (h : off ≤ file.length) :
    file.length ≤ (pwriteAt file off buf).length := by
  unfold pwriteAt
  split_ifs
  · exact le_rfl
  · simp only [List.length_append, List.length_take, List.length_drop, List.length_replicate]
    omega

theorem length_pwriteAt_of_le {file buf : List UInt8} {off : Nat}
    (h : off + buf.length ≤ file.length) : (pwriteAt file off buf).length = file.length := by
  unfold pwriteAt
  split_ifs
  · rfl
  · simp only [List.length_append, List.length_take, List.length_drop, List.length_replicate]
    omega

theorem pwriteAt_block_eq {src dst : List UInt8} {B k0 n : Nat} {done done' : Nat → Prop}
    (hB : 0 < B) (hlen : src.length ≤ dst.length) (hk0 : k0 * B ≤ src.length)
    (hn : min B (src.length - k0 * B) ≤ n)
    (hold : ∀ b < src.length, done (b / B) → dst[b]? = src[b]?)
    (hnew : ∀ b < src.length, done' (b / B) → done (b / B) ∨ b / B = k0) :
    ∀ b < src.length, done' (b / B) →
      (pwriteAt dst (k0 * B) ((src.drop (k0 * B)).take n))[b]? = src[b]? := by
  intro b hb hdone
  rw [getElem?_pwriteAt (by omega)]
  have hwlen : ((src.drop (k0 * B)).take n).length = min n (src.length - k0 * B) := by
    simp only [List.length_take, List.length_drop]
  split_ifs with hin
  · rw [List.getElem?_take_of_lt (by omega), List.getElem?_drop]
    congr 1
    omega
  · rcases hnew b hb hdone with hd | hk
    · exact hold b hb hd
    · have hlo := Nat.div_mul_le_self b B
      have hhi : b < b / B * B + B := Nat.lt_div_mul_add hB
      rw [hk] at hlo hhi
      omega

/-- `client_recv_file_size`: the header `recv` with `MSG_WAITALL`, read as a `size_t`;
anything but 8 bytes is a failure, and then the client is left as it was. -/
def clientRecvFileSize (e : Endian) (client : FileshareClient) (r : RecvResult) :
    Bool × FileshareClient :=
  if sizeT r.ret ≠ 8 then (false, client)
  else (true, { dstFileSize := htobe64 e (loadU64 e r.bytes), dstFileOffset := 0 })

/-- `client_recv_file_block` with the `recv` answer `r` and the `pwrite` result `pwriteRet`,
both read as `size_t`; `.error` is an `exit`. -/
def clientRecvFileBlock (client : FileshareClient) (file : List UInt8) (r : RecvResult)
    (pwriteRet : Int) : Except String (Bool × FileshareClient × List UInt8) :=
  let bytesRead := sizeT r.ret
  if bytesRead = 0 ∧ client.dstFileOffset ≠ client.dstFileSize then .ok (false, client, file)
  else
    let bytesWritten := sizeT pwriteRet
    if bytesWritten ≠ bytesRead then .error "Unable to write data block to file\n"
    else .ok (true, { client with dstFileOffset := (client.dstFileOffset + bytesWritten) % 2^64 },
      pwriteAt file client.dstFileOffset (r.bytes.take pwriteRet.toNat))

/-- Results of the calls of `client_connect_to_server`; `errno` is read after a failed
`connect`. -/
structure ConnectIo where
  socketRet : Int
  getaddrinfoRet : Int
  ambiguous : Bool
  connectRet : Int
  errno : Int
deriving DecidableEq, Repr

def ECONNREFUSED : Int := 111

/-- `client_connect_to_server`: `false` when the server refused, so that `main` retries. -/
def clientConnectToServer (io : ConnectIo) : Except String Bool :=
  if io.socketRet = -1 then .error "[client_create_socket] Unable to create socket()\n"
  else if io.getaddrinfoRet ≠ 0 then .error "[client_create_socket] Unable to call getaddrinfo()\n"
  else if io.ambiguous then .error "[client_create_socket] Ambigous result of getaddrinfo()\n"
  else if io.connectRet = -1 then
    if io.errno = ECONNREFUSED then .ok false
    else .error "[connect_to_master] Unable to connect() to master"
  else .ok true

def clientCloseSocket (closeRet : Int) : Except String Unit :=
  if closeRet = -1 then .error "[client_close_socket] Unable to close() client socket\n"
  else .ok ()

/-- `client_open_dst_file`: `open` with `O_TRUNC` empties the file and `fallocate` gives it
`dst_file_size` zero bytes; `fallocate` fails with `EINVAL` for a length that is 0, or negative
as the `off_t` it is passed as. -/
def clientOpenDstFile (client : FileshareClient) (openRet fallocateRet : Int) :
    Except String (List UInt8) :=
  if openRet = -1 then .error "Unable to open destination file \x27%s\x27: errno=%i (%s)"
  else if client.dstFileSize = 0 ∨ 2^63 ≤ client.dstFileSize ∨ fallocateRet = -1 then
    .error "Not enough space for file \x27%s\x27: errno=%i (%s)"
  else .ok (List.replicate client.dstFileSize 0)

structure CloseIo where
  ftruncateRet : Int
  fsyncRet : Int
  closeRet : Int
deriving DecidableEq, Repr

/-- `client_close_dst_file`: `ftruncate` cuts or zero-extends the file to `dst_file_size`. -/
def clientCloseDstFile (client : FileshareClient) (file : List UInt8) (io : CloseIo) :
    Except String (List UInt8) :=
  if io.ftruncateRet = -1 then .error "Unable to truncate file: errno=%i (%s)"
  else if io.fsyncRet = -1 then .error "Unable to sync file: errno=%i (%s)"
  else if io.closeRet = -1 then .error "Unable to close file: errno=%i (%s)"
  else .ok (file.take client.dstFileSize ++ List.replicate (client.dstFileSize - file.length) 0)

/-- How a stretch of `main` ends: the receive loop is done (at the top level: `Received file`),
a `goto start_connection` with the client as it is, or the answers ran out first. -/
inductive Ending where
  | done (client : FileshareClient) (file : List UInt8)
  | retry (client : FileshareClient)
  | pending
deriving DecidableEq, Repr

/-- `while (client.dst_file_offset != client.dst_file_size)` over the block answers of one
connection: each `recv` result with the `pwrite` result that follows it. -/
def recvLoop (client : FileshareClient) (file : List UInt8) :
    List (RecvResult × Int) → Except String Ending
  | [] => .ok (if client.dstFileOffset = client.dstFileSize then .done client file else .pending)
  | (r, w) :: rest =>
    if client.dstFileOffset = client.dstFileSize then .ok (.done client file)
    else do
      let (success, client', file') ← clientRecvFileBlock client file r w
      if success then recvLoop client' file' rest else pure (.retry client')

structure ConnectionIo where
  connect : ConnectIo
  header : RecvResult
  openRet : Int
  fallocateRet : Int
  blocks : List (RecvResult × Int)
  closeSockRet : Int
  closeFile : CloseIo

/-- From `client_open_dst_file` to `printf("Received file\n")`, or to the `goto`. -/
def clientDownload (client : FileshareClient) (c : ConnectionIo) : Except String Ending := do
  let file ← clientOpenDstFile client c.openRet c.fallocateRet
  match ← recvLoop client file c.blocks with
  | .done client file => do
    clientCloseSocket c.closeSockRet
    let file ← clientCloseDstFile client file c.closeFile
    pure (.done client file)
  | .retry client => do
    clientCloseSocket c.closeSockRet
    pure (.retry client)
  | .pending => pure .pending

/-- One pass from `start_connection`: a refused `connect` is tried again, a failed header is a
`goto start_connection`. -/
def clientConnection (e : Endian) (client : FileshareClient) (c : ConnectionIo) :
    Except String Ending := do
  if ← clientConnectToServer c.connect then
    match clientRecvFileSize e client c.header with
    | (true, client) => clientDownload client c
    | (false, client) => do
      clientCloseSocket c.closeSockRet
      pure (.retry client)
  else pure (.retry client)

/-- `main` over successive connection attempts; `.done` is `Received file`. -/
def clientMain (e : Endian) (client : FileshareClient) : List ConnectionIo → Except String Ending
  | [] => .ok .pending
  | c :: rest => do
    match ← clientConnection e client c with
    | .retry client => clientMain e client rest
    | r => pure r

/-! ### A finished download holds the file -/

def blockBytes : List (RecvResult × Int) → List UInt8
  | [] => []
  | (r, _) :: rest => r.bytes ++ blockBytes rest

def blockErrors : List (RecvResult × Int) → Nat
  | [] => 0
  | (r, _) :: rest => (if r = .error then 1 else 0) + blockErrors rest

@[simp] theorem blockBytes_append (l l' : List (RecvResult × Int)) :
    blockBytes (l ++ l') = blockBytes l ++ blockBytes l' := by
  induction l with
  | nil => rfl
  | cons b l ih => obtain ⟨r, w⟩ := b; simp [blockBytes, ih]

@[simp] theorem blockErrors_append (l l' : List (RecvResult × Int)) :
    blockErrors (l ++ l') = blockErrors l + blockErrors l' := by
  induction l with
  | nil => simp [blockErrors]
  | cons b l ih => obtain ⟨r, w⟩ := b; rw [List.cons_append, blockErrors, blockErrors, ih, Nat.add_assoc]

theorem blockErrors_eq_zero {l : List (RecvResult × Int)} :
    blockErrors l = 0 ↔ ∀ b ∈ l, b.1 ≠ .error := by
  induction l with
  | nil => simp [blockErrors]
  | cons b l ih => obtain ⟨r, w⟩ := b; by_cases hr : r = .error <;> simp [blockErrors, hr, ih]

/-- What a connection may deliver when the server sends `F` of size `S`: its stream (header,
then chunks) is a prefix of `be64 S ++ F`, the header `recv` returns at most 8 bytes and each
block `recv` at most `TRANSFER_BLOCK_SIZE`, and `pwrite` returns `-1` or a count. -/
structure ConnectionIo.Follows (c : ConnectionIo) (S : Nat) (F : List UInt8) : Prop where
  stream : c.header.bytes ++ blockBytes c.blocks <+: be64 S ++ F
  header_le : c.header.bytes.length ≤ 8
  chunk_le : ∀ b ∈ c.blocks, b.1.bytes.length ≤ TRANSFER_BLOCK_SIZE
  pwrite_ge : ∀ b ∈ c.blocks, -1 ≤ b.2

/-- Such a connection on which fewer than `2^64 - S` block `recv`s fail. -/
structure ConnectionIo.Valid (c : ConnectionIo) (S : Nat) (F : List UInt8)
    extends ConnectionIo.Follows c S F : Prop where
  errors_lt : S + blockErrors c.blocks < 2^64

/-- A failed `recv` ends its connection: every `recv` after it returns 0. -/
def EndsAtError (blocks : List (RecvResult × Int)) : Prop :=
  ∀ pre w post, blocks = pre ++ (.error, w) :: post → ∀ b ∈ post, b.1 = .eof

theorem endsAtError_nil : EndsAtError [] := fun _ _ _ h => by simp at h

theorem EndsAtError.cons {x : RecvResult × Int} {l : List (RecvResult × Int)}
    (hx : x.1 = .error → ∀ b ∈ l, b.1 = .eof) (h : EndsAtError l) : EndsAtError (x :: l) := by
  rintro (_ | ⟨y, pre⟩) w post he
  · obtain ⟨rfl, rfl⟩ := List.cons.inj he
    exact hx rfl
  · exact h pre w post (List.cons.inj he).2

theorem EndsAtError.errors_before {pre post : List (RecvResult × Int)} {x : RecvResult × Int}
    (h : EndsAtError (pre ++ x :: post)) (hx : x.1 ≠ .eof) : blockErrors pre = 0 :=
  blockErrors_eq_zero.mpr fun ⟨r, w⟩ hm hr => by
    obtain ⟨s, t, rfl⟩ := List.append_of_mem hm
    dsimp only at hr
    subst hr
    exact hx (h s w (t ++ x :: post) (by simp) x (by simp))

theorem EndsAtError.errors_le_one {l : List (RecvResult × Int)} (h : EndsAtError l) :
    blockErrors l ≤ 1 := by
  induction l with
  | nil => simp [blockErrors]
  | cons x l ih =>
    obtain ⟨r, w⟩ := x
    by_cases hr : r = .error
    · subst hr
      have hl : blockErrors l = 0 := blockErrors_eq_zero.mpr fun b hb he => by
        rw [h [] w l rfl b hb] at he
        cases he
      simp [blockErrors, hl]
    · simp [blockErrors, hr, ih fun pre w' post he => h ((_, w) :: pre) w' post (by rw [he]; rfl)]

theorem offset_eq_size {p k S : Nat} (hp : p ≤ S) (hk : S + k < 2^64)
    (h : (p + k * SIZE_MAX) % 2^64 = S) : k = 0 ∧ p = S := by
  unfold SIZE_MAX at h
  omega

theorem pwriteAt_fill {F bs more : List UInt8} {S p : Nat} (hF : F.length = S) (hp : p ≤ S)
    (hne : bs ≠ []) (hpre : bs ++ more <+: F.drop p) :
    pwriteAt (F.take p ++ List.replicate (S - p) 0) p bs =
      F.take (p + bs.length) ++ List.replicate (S - (p + bs.length)) 0 := by
  have hb : bs = (F.drop p).take bs.length :=
    List.prefix_iff_eq_take.mp ((List.prefix_append bs more).trans hpre)
  have hL : bs.length ≤ S - p := by
    have := hpre.length_le
    simp only [List.length_append, List.length_drop, hF] at this
    omega
  have hlen : (F.take p).length = p := by simp [hF, hp]
  have hfile : (F.take p ++ List.replicate (S - p) 0).length = S := by simp [hlen]; omega
  rw [pwriteAt, if_neg hne, hfile, Nat.sub_eq_zero_of_le hp, List.replicate_zero, List.append_nil,
    List.take_left' hlen, List.drop_append_eq_append_drop, hlen, List.drop_eq_nil_of_le (by omega),
    List.nil_append, List.drop_replicate, List.take_add, ← hb]
  congr 2
  omega

theorem clientRecvFileBlock_true {client client' : FileshareClient} {file file' : List UInt8}
    {r : RecvResult} {w : Int} (h : clientRecvFileBlock client file r w = .ok (true, client', file')) :
    ¬(sizeT r.ret = 0 ∧ client.dstFileOffset ≠ client.dstFileSize) ∧ sizeT w = sizeT r.ret ∧
    client' = { client with dstFileOffset := (client.dstFileOffset + sizeT r.ret) % 2^64 } ∧
    file' = pwriteAt file client.dstFileOffset (r.bytes.take w.toNat) := by
  unfold clientRecvFileBlock at h
  dsimp only at h
  split_ifs at h with h0 h1 <;> cases h
  exact ⟨h0, not_not.mp h1, by rw [not_not.mp h1], rfl⟩

theorem take_toNat_of_sizeT {bs : List UInt8} {w : Int} (hw : -1 ≤ w)
    (hlen : bs.length ≤ TRANSFER_BLOCK_SIZE) (h : sizeT w = bs.length) : bs.take w.toNat = bs := by
  unfold sizeT at h
  unfold TRANSFER_BLOCK_SIZE at hlen
  exact List.take_of_length_le (by omega)

/-- One pass of the receive loop that goes on: the offset is not yet the size, and
`client_recv_file_block` on the client and file `s` returns `true` with `s'`. -/
def RecvPass (b : RecvResult × Int) (s s' : FileshareClient × List UInt8) : Prop :=
  s.1.dstFileOffset ≠ s.1.dstFileSize ∧ clientRecvFileBlock s.1 s.2 b.1 b.2 = .ok (true, s'.1, s'.2)

/-- The passes of the receive loop over the answers `blocks`, from `s` to `s'`. -/
inductive RecvRun : List (RecvResult × Int) → FileshareClient × List UInt8 →
    FileshareClient × List UInt8 → Prop
  | nil (s : FileshareClient × List UInt8) : RecvRun [] s s
  | cons {b : RecvResult × Int} {blocks : List (RecvResult × Int)}
      {s s' s'' : FileshareClient × List UInt8} :
      RecvPass b s s' → RecvRun blocks s' s'' → RecvRun (b :: blocks) s s''

theorem RecvRun.of_recvLoop_done :
    ∀ {blocks : List (RecvResult × Int)} {client client' : FileshareClient}
      {file file' : List UInt8}, recvLoop client file blocks = .ok (.done client' file') →
    ∃ pre rest, blocks = pre ++ rest ∧ RecvRun pre (client, file) (client', file') ∧
      client'.dstFileOffset = client'.dstFileSize
  | [], _, _, _, _, h => by
    unfold recvLoop at h
    split_ifs at h with hd <;> cases h
    exact ⟨[], [], rfl, .nil _, hd⟩
  | b :: rest, _, _, _, _, h => by
    unfold recvLoop at h
    split_ifs at h with hd
    · cases h
      exact ⟨[], _, rfl, .nil _, hd⟩
    obtain ⟨⟨success, c1, f1⟩, hb, h⟩ := ok_of_bind_ok h
    cases success
    · cases h
    obtain ⟨pre, rest', rfl, hrun, hd'⟩ := of_recvLoop_done h
    exact ⟨b :: pre, rest', rfl, .cons ⟨hd, hb⟩ hrun, hd'⟩

theorem RecvPass.cases {r : RecvResult} {w : Int} {s s' : FileshareClient × List UInt8}
    (hch : r.bytes.length ≤ TRANSFER_BLOCK_SIZE) (hw : -1 ≤ w) (h : RecvPass (r, w) s s') :
    (∃ bs, r = .data bs ∧ bs ≠ [] ∧
      s' = ({ s.1 with dstFileOffset := (s.1.dstFileOffset + bs.length) % 2^64 },
        pwriteAt s.2 s.1.dstFileOffset bs)) ∨
    (r = .error ∧
      s' = ({ s.1 with dstFileOffset := (s.1.dstFileOffset + SIZE_MAX) % 2^64 }, s.2)) := by
  obtain ⟨hd, hb⟩ := h
  obtain ⟨h0, hws, hc, hf⟩ := clientRecvFileBlock_true hb
  cases r with
  | data bs =>
    simp only [RecvResult.ret, RecvResult.bytes] at h0 hws hc hf hch
    have hlen : sizeT bs.length = bs.length :=
      sizeT_natCast (by unfold TRANSFER_BLOCK_SIZE at hch; omega)
    refine .inl ⟨bs, rfl, fun hnil => h0 ⟨by rw [hlen, hnil]; rfl, hd⟩, Prod.ext ?_ ?_⟩
    · rw [hc, hlen]
    · rw [hf, take_toNat_of_sizeT hw hch (hws.trans hlen)]
  | eof => exact absurd ⟨rfl, hd⟩ h0
  | error =>
    simp only [RecvResult.ret, sizeT_neg_one, RecvResult.bytes, List.take_nil, pwriteAt_nil] at hc hf
    exact .inr ⟨rfl, Prod.ext hc hf⟩

/-- The receive loop's invariant after `p` bytes and `k` failed `recv`s of one connection
that announced size `S`: the offset is `p - k` modulo `2^64`, and while no `recv` has failed
the file holds the first `p` bytes of `F` followed by the zeros `fallocate` left. -/
structure LoopInv (S : Nat) (F : List UInt8) (p k : Nat) (client : FileshareClient)
    (file : List UInt8) : Prop where
  size : client.dstFileSize = S
  offset : client.dstFileOffset = (p + k * SIZE_MAX) % 2^64
  received : p ≤ S
  content : k = 0 → file = F.take p ++ List.replicate (S - p) 0

theorem LoopInv.error {S p k : Nat} {F : List UInt8} {client : FileshareClient} {file : List UInt8}
    (h : LoopInv S F p k client file) :
    LoopInv S F p (k + 1) { client with dstFileOffset := (client.dstFileOffset + SIZE_MAX) % 2^64 }
      file := by
  refine ⟨h.size, ?_, h.received, fun hk => absurd hk (Nat.succ_ne_zero k)⟩
  rw [h.offset, Nat.mod_add_mod, Nat.add_mul, Nat.one_mul, Nat.add_assoc]

theorem LoopInv.done {S p k : Nat} {F : List UInt8} {client : FileshareClient} {file : List UInt8}
    (hF : F.length = S) (h : LoopInv S F p k client file) (hk : S + k < 2^64)
    (hd : client.dstFileOffset = client.dstFileSize) : client = ⟨S, S⟩ ∧ file = F := by
  obtain ⟨rfl, rfl⟩ := offset_eq_size h.received hk (by rw [← h.offset, hd, h.size])
  refine ⟨?_, ?_⟩
  · calc client = ⟨client.dstFileSize, client.dstFileOffset⟩ := rfl
      _ = ⟨p, p⟩ := by rw [hd, h.size]
  · rw [h.content rfl, Nat.sub_self, List.replicate_zero, List.append_nil, ← hF, List.take_length]

theorem prefix_drop_of_append {F bs more : List UInt8} {p : Nat} (h : bs ++ more <+: F.drop p) :
    more <+: F.drop (p + bs.length) := by
  obtain ⟨t, ht⟩ := h
  refine ⟨t, ?_⟩
  rw [← List.drop_drop, ← ht, List.append_assoc, List.drop_left]

section
variable {S : Nat} {F : List UInt8} (hS : S < 2^64) (hF : F.length = S)
include hS hF

theorem LoopInv.data {p k : Nat} {client : FileshareClient} {file bs more : List UInt8}
    (h : LoopInv S F p k client file) (hne : bs ≠ []) (hpre : bs ++ more <+: F.drop p) :
    LoopInv S F (p + bs.length) k
      { client with dstFileOffset := (client.dstFileOffset + bs.length) % 2^64 }
      (pwriteAt file client.dstFileOffset bs) := by
  have hL := hpre.length_le
  have hp := h.received
  simp only [List.length_append, List.length_drop] at hL
  refine ⟨h.size, ?_, by omega, fun hk => ?_⟩
  · rw [h.offset, Nat.mod_add_mod, Nat.add_right_comm]
  · have ho : client.dstFileOffset = p := by rw [h.offset, hk]; exact Nat.mod_eq_of_lt (by omega)
    rw [ho, h.content hk, pwriteAt_fill hF h.received hne hpre]

theorem LoopInv.run {blocks : List (RecvResult × Int)} {s s' : FileshareClient × List UInt8}
    (hrun : RecvRun blocks s s') :
    ∀ {p k : Nat}, LoopInv S F p k s.1 s.2 → blockBytes blocks <+: F.drop p →
      (∀ b ∈ blocks, b.1.bytes.length ≤ TRANSFER_BLOCK_SIZE) → (∀ b ∈ blocks, -1 ≤ b.2) →
      LoopInv S F (p + (blockBytes blocks).length) (k + blockErrors blocks) s'.1 s'.2 := by
  induction hrun with
  | nil => exact fun h _ _ _ => h
  | @cons b blocks s s' s'' hp _ ih =>
    intro p k h hpre hch hw
    obtain ⟨r, w⟩ := b
    simp only [blockBytes, blockErrors, List.mem_cons, forall_eq_or_imp] at hpre hch hw ⊢
    have h' : LoopInv S F (p + r.bytes.length) (k + if r = .error then 1 else 0) s'.1 s'.2 := by
      rcases hp.cases hch.1 hw.1 with ⟨bs, rfl, hne, rfl⟩ | ⟨rfl, rfl⟩
      · simpa using h.data hS hF hne hpre
      · simpa using h.error
    have := ih h' (prefix_drop_of_append hpre) hch.2 hw.2
    rwa [List.length_append, ← Nat.add_assoc, ← Nat.add_assoc]

theorem recvLoop_done {blocks : List (RecvResult × Int)} {p k : Nat}
    {client client' : FileshareClient} {file file' : List UInt8} (h : LoopInv S F p k client file)
    (hpre : blockBytes blocks <+: F.drop p)
    (hch : ∀ b ∈ blocks, b.1.bytes.length ≤ TRANSFER_BLOCK_SIZE) (hw : ∀ b ∈ blocks, -1 ≤ b.2)
    (hk : S + k + blockErrors blocks < 2^64)
    (hl : recvLoop client file blocks = .ok (.done client' file')) : client' = ⟨S, S⟩ ∧ file' = F := by
  obtain ⟨pre, rest, rfl, hrun, hd⟩ := RecvRun.of_recvLoop_done hl
  simp only [blockBytes_append, blockErrors_append, List.mem_append] at hpre hk hch hw
  exact (LoopInv.run hS hF hrun h ((List.prefix_append _ _).trans hpre) (fun b hb => hch b (.inl hb))
    (fun b hb => hw b (.inl hb))).done hF (by omega) hd

end

theorem clientRecvFileSize_true {e : Endian} {S : Nat} {F : List UInt8} (hS : S < 2^64)
    {c : ConnectionIo} (hv : c.Follows S F) {client client' : FileshareClient}
    (h : clientRecvFileSize e client c.header = (true, client')) :
    client' = ⟨S, 0⟩ ∧ blockBytes c.blocks <+: F := by
  unfold clientRecvFileSize at h
  split_ifs at h with h8 <;> cases h
  have hlen : c.header.bytes.length = 8 := by
    have hle := hv.header_le
    cases hr : c.header with
    | data bs =>
      rw [hr, RecvResult.ret, sizeT_natCast (by simp only [hr, RecvResult.bytes] at hle; omega)]
        at h8
      simpa [RecvResult.bytes] using not_not.mp h8
    | eof => simp [hr, RecvResult.ret, sizeT] at h8
    | error => simp [hr, RecvResult.ret, SIZE_MAX] at h8
  have hpre := hv.stream
  have hhd : c.header.bytes = be64 S :=
    (List.prefix_of_prefix_length_le ((List.prefix_append _ _).trans hpre)
      (List.prefix_append _ _) (by simp [hlen])).eq_of_length (by simp [hlen])
  rw [hhd] at hpre
  exact ⟨by rw [hhd, htobe64_loadU64_be64, Nat.mod_eq_of_lt hS], (List.prefix_append_right_inj _).mp hpre⟩

theorem clientOpenDstFile_ok {client : FileshareClient} {openRet fallocateRet : Int}
    {file : List UInt8} (h : clientOpenDstFile client openRet fallocateRet = .ok file) :
    file = List.replicate client.dstFileSize 0 ∧ client.dstFileSize < 2^63 := by
  unfold clientOpenDstFile at h
  split_ifs at h with _ hsize
  cases h
  exact ⟨rfl, by omega⟩

theorem clientCloseDstFile_ok {client : FileshareClient} {file file' : List UInt8} {io : CloseIo}
    (h : clientCloseDstFile client file io = .ok file') :
    file' = file.take client.dstFileSize ++ List.replicate (client.dstFileSize - file.length) 0 := by
  unfold clientCloseDstFile at h
  split_ifs at h
  cases h
  rfl

section
variable {e : Endian} {S : Nat} {F : List UInt8} (hS : S < 2^64) (hF : F.length = S)
include hS hF

theorem clientConnection_done {c : ConnectionIo} (hv : c.Follows S F)
    (herr : S < 2^63 → S + blockErrors c.blocks < 2^64) {client client' : FileshareClient}
    {file : List UInt8} (h : clientConnection e client c = .ok (.done client' file)) :
    client' = ⟨S, S⟩ ∧ file = F := by
  unfold clientConnection at h
  obtain ⟨connected, -, h⟩ := ok_of_bind_ok h
  cases connected
  · cases h
  cases hr : clientRecvFileSize e client c.header with
  | mk ok client1 =>
    rw [hr] at h
    cases ok
    · obtain ⟨_, -, h⟩ := ok_of_bind_ok h
      cases h
    obtain ⟨rfl, hpre⟩ := clientRecvFileSize_true hS hv hr
    unfold clientDownload at h
    obtain ⟨file0, hopen, h⟩ := ok_of_bind_ok h
    obtain ⟨rfl, h63⟩ := clientOpenDstFile_ok hopen
    obtain ⟨ending, hloop, h⟩ := ok_of_bind_ok h
    cases ending with
    | done c2 f2 =>
      obtain ⟨_, -, h⟩ := ok_of_bind_ok h
      obtain ⟨f3, hclose, h⟩ := ok_of_bind_ok h
      cases h
      have hinv : LoopInv S F 0 0 ⟨S, 0⟩ (List.replicate S 0) := ⟨rfl, rfl, Nat.zero_le S, by simp⟩
      obtain ⟨rfl, rfl⟩ := recvLoop_done hS hF hinv (by rwa [List.drop_zero]) hv.chunk_le
        hv.pwrite_ge (by simpa using herr h63) hloop
      rw [clientCloseDstFile_ok hclose, hF, Nat.sub_self, List.replicate_zero, List.append_nil,
        ← hF, List.take_length]
      exact ⟨rfl, rfl⟩
    | retry c2 =>
      obtain ⟨_, -, h⟩ := ok_of_bind_ok h
      cases h
    | pending => cases h

theorem clientMain_done :
    ∀ {cs : List ConnectionIo} {client client' : FileshareClient} {file : List UInt8},
    (∀ c ∈ cs, c.Follows S F ∧ (S < 2^63 → S + blockErrors c.blocks < 2^64)) →
    clientMain e client cs = .ok (.done client' file) → client' = ⟨S, S⟩ ∧ file = F
  | [], _, _, _, _, h => by cases h
  | c :: rest, client, _, _, hv, h => by
    unfold clientMain at h
    obtain ⟨r, hr, h⟩ := ok_of_bind_ok h
    cases r with
    | retry client1 => exact clientMain_done (fun c hc => hv c (List.mem_cons_of_mem _ hc)) h
    | done c1 f1 =>
      cases h
      exact clientConnection_done hS hF (hv c (List.mem_cons_self _ _)).1
        (hv c (List.mem_cons_self _ _)).2 hr
    | pending => cases h

/-- Whatever the segmentation of the streams into `recv` results, and wherever `recv` fails
(fewer than `2^64 - S` times on a connection) or the stream ends early, a client that prints
`Received file` has `dst_file_size = S`, its offset at `S`, and exactly `F` in the file. -/
theorem received_file_is_sent_file :
    ∀ {cs : List ConnectionIo} {client client' : FileshareClient} {file : List UInt8},
    (∀ c ∈ cs, c.Valid S F) → clientMain e client cs = .ok (.done client' file) →
    client' = ⟨S, S⟩ ∧ file = F :=
  fun hv => clientMain_done hS hF fun c hc => ⟨(hv c hc).toFollows, fun _ => (hv c hc).errors_lt⟩

/-- Every connection's stream a prefix of the header and `F`, split into `recv` results in any
way (at most 8 bytes for the header, `TRANSFER_BLOCK_SIZE` for a block), with a failed `recv`
ending its connection, and any reconnects: a client that prints `Received file` has
`dst_file_size = S`, its offset at `S`, and exactly `F` in the file. On every connection, the
receive loop that has passed the answers before a chunk is at the offset the chunks before it
add up to, and writes the chunk whole there. -/
theorem chunks_land_at_running_offset :
    (∀ {cs : List ConnectionIo} {client client' : FileshareClient} {file : List UInt8},
      (∀ c ∈ cs, c.Follows S F ∧ EndsAtError c.blocks) →
      clientMain e client cs = .ok (.done client' file) → client' = ⟨S, S⟩ ∧ file = F) ∧
    (∀ (c : ConnectionIo) (client client1 : FileshareClient) (file0 : List UInt8),
      c.Follows S F → EndsAtError c.blocks → clientRecvFileSize e client c.header = (true, client1) →
      clientOpenDstFile client1 c.openRet c.fallocateRet = .ok file0 →
      ∀ pre bs w post, c.blocks = pre ++ (.data bs, w) :: post →
      ∀ s, RecvRun pre (client1, file0) s → s.1.dstFileOffset = (blockBytes pre).length ∧
        ∀ s', RecvPass (.data bs, w) s s' → s'.2 = pwriteAt s.2 s.1.dstFileOffset bs) := by
  refine ⟨fun hv => clientMain_done hS hF fun c hc =>
    ⟨(hv c hc).1, fun _ => by have := (hv c hc).2.errors_le_one; omega⟩, ?_⟩
  intro c client client1 file0 hv he hh ho pre bs w post hb s hrun
  obtain ⟨rfl, hpre⟩ := clientRecvFileSize_true hS hv hh
  obtain ⟨rfl, -⟩ := clientOpenDstFile_ok ho
  have hm : ∀ b ∈ pre, b ∈ c.blocks := fun b hm => by simp [hb, hm]
  rw [hb, blockBytes_append] at hpre
  have hinv := LoopInv.run hS hF hrun (p := 0) (k := 0) ⟨rfl, rfl, Nat.zero_le S, by simp⟩
    (by simpa using (List.prefix_append _ _).trans hpre) (fun b h => hv.chunk_le b (hm b h))
    (fun b h => hv.pwrite_ge b (hm b h))
  have hoff := hinv.offset
  have hL := hinv.received
  rw [hb] at he
  rw [he.errors_before (by simp)] at hoff
  refine ⟨by omega, fun s' hp => ?_⟩
  have hx : (.data bs, w) ∈ c.blocks := by simp [hb]
  rcases hp.cases (hv.chunk_le _ hx) (hv.pwrite_ge _ hx) with ⟨_, ⟨⟩, -, rfl⟩ | ⟨⟨⟩, -⟩
  rfl

end

/-- A failed `recv` returns `-1`, which `client_recv_file_block` stores as `SIZE_MAX`. The
`pwrite` of `SIZE_MAX` bytes that follows passes the check `bytes_written != bytes_read` exactly
when its own result is `SIZE_MAX` as a `size_t`, that is when it fails with `-1` as well: the
call then returns `true`, writes nothing, and adds `SIZE_MAX` to `dst_file_offset`, one byte
back modulo `2^64`. Every other `pwrite` result exits. The receive loop goes on from the moved
offset. -/
theorem recv_error_moves_offset_back (client : FileshareClient) (file : List UInt8) (w : Int)
    (rest : List (RecvResult × Int)) :
    clientRecvFileBlock client file .error w =
      (if sizeT w = SIZE_MAX then
        .ok (true, { client with dstFileOffset := (client.dstFileOffset + SIZE_MAX) % 2^64 }, file)
      else .error "Unable to write data block to file\n") ∧
    recvLoop client file ((.error, -1) :: rest) =
      if client.dstFileOffset = client.dstFileSize then .ok (.done client file)
      else recvLoop { client with dstFileOffset := (client.dstFileOffset + SIZE_MAX) % 2^64 }
        file rest := by
  have hblock : ∀ w, clientRecvFileBlock client file .error w =
      if sizeT w = SIZE_MAX then
        .ok (true, { client with dstFileOffset := (client.dstFileOffset + SIZE_MAX) % 2^64 }, file)
      else .error "Unable to write data block to file\n" := fun w => by
    have hne : SIZE_MAX ≠ 0 := by decide
    simp only [clientRecvFileBlock, RecvResult.ret, sizeT_neg_one, hne, false_and, if_false,
      RecvResult.bytes, List.take_nil, pwriteAt_nil]
    by_cases hw : sizeT w = SIZE_MAX <;> simp [hw]
  refine ⟨hblock w, ?_⟩
  rw [recvLoop]
  split_ifs with hd
  · rfl
  · rw [hblock, if_pos sizeT_neg_one]
    rfl

def okConnection (hdr : List UInt8) (blocks : List (RecvResult × Int)) : ConnectionIo :=
  ⟨⟨3, 0, false, 0, 0⟩, .data hdr, 4, 0, blocks, 0, ⟨0, 0, 0⟩⟩

/-- The file `[1, 2]`: on a first connection `[1]` comes, then `recv` fails and the stream ends,
which forces a reconnect, and a second connection delivers both bytes in one chunk. On a
connection that delivers `[1]` and then `[2]`, the chunk `[2]` lands at offset 1. -/
theorem chunks_land_at_running_offset_two_bytes :
    (2 : Nat) < 2^64 ∧ [(1 : UInt8), 2].length = 2 ∧
    ((∀ c ∈ [okConnection (be64 2) [(.data [1], 1), (.error, -1), (.eof, 0)],
        okConnection (be64 2) [(.data [1, 2], 2)]], c.Follows 2 [1, 2] ∧ EndsAtError c.blocks) ∧
      clientMain .little ⟨0, 0⟩ [okConnection (be64 2) [(.data [1], 1), (.error, -1), (.eof, 0)],
        okConnection (be64 2) [(.data [1, 2], 2)]] = .ok (.done ⟨2, 2⟩ [1, 2]) ∧
      (⟨2, 2⟩ : FileshareClient) = ⟨2, 2⟩ ∧ [(1 : UInt8), 2] = [1, 2]) ∧
    ((okConnection (be64 2) [(.data [1], 1), (.data [2], 1)]).Follows 2 [1, 2] ∧
      EndsAtError [(.data [1], 1), (.data [2], 1)] ∧
      clientRecvFileSize .little ⟨0, 0⟩ (.data (be64 2)) = (true, ⟨2, 0⟩) ∧
      clientOpenDstFile ⟨2, 0⟩ 4 0 = .ok [0, 0] ∧
      RecvRun [(.data [1], 1)] (⟨2, 0⟩, [0, 0]) (⟨2, 1⟩, [1, 0]) ∧
      RecvPass (.data [2], 1) (⟨2, 1⟩, [1, 0]) (⟨2, 2⟩, [1, 2]) ∧
      1 = (blockBytes [(.data [1], 1)]).length ∧ [(1 : UInt8), 2] = pwriteAt [1, 0] 1 [2]) := by
  have hend : EndsAtError [(RecvResult.data [1], (1 : Int)), (.error, -1), (.eof, 0)] :=
    .cons (by decide) (.cons (by decide) (.cons (by decide) endsAtError_nil))
  have hv : ∀ c ∈ [okConnection (be64 2) [(.data [1], 1), (.error, -1), (.eof, 0)],
      okConnection (be64 2) [(.data [1, 2], 2)]], c.Follows 2 [1, 2] ∧ EndsAtError c.blocks := by
    simp only [List.mem_cons, List.mem_singleton, List.not_mem_nil, or_false, forall_eq_or_imp,
      forall_eq]
    exact ⟨⟨⟨by decide, by decide, by decide, by decide⟩, hend⟩,
      ⟨by decide, by decide, by decide, by decide⟩,
      .cons (by decide) endsAtError_nil⟩
  have hmain : clientMain .little ⟨0, 0⟩ [okConnection (be64 2) [(.data [1], 1), (.error, -1),
      (.eof, 0)], okConnection (be64 2) [(.data [1, 2], 2)]] = .ok (.done ⟨2, 2⟩ [1, 2]) := rfl
  have hv2 : (okConnection (be64 2) [(.data [1], 1), (.data [2], 1)]).Follows 2 [1, 2] :=
    ⟨by decide, by decide, by decide, by decide⟩
  have he2 : EndsAtError [(RecvResult.data [1], (1 : Int)), (.data [2], 1)] :=
    .cons (by decide) (.cons (by decide) endsAtError_nil)
  have hpass1 : RecvPass (.data [1], 1) (⟨2, 0⟩, [0, 0]) (⟨2, 1⟩, [1, 0]) := ⟨by decide, rfl⟩
  have hrun : RecvRun [(.data [1], 1)] (⟨2, 0⟩, [0, 0]) (⟨2, 1⟩, [1, 0]) := .cons hpass1 (.nil _)
  have hpass : RecvPass (.data [2], 1) (⟨2, 1⟩, [1, 0]) (⟨2, 2⟩, [1, 2]) := ⟨by decide, rfl⟩
  have h := chunks_land_at_running_offset (e := .little) (S := 2) (F := [1, 2]) (by decide) rfl
  obtain ⟨hoff, hwrite⟩ := h.2 _ ⟨0, 0⟩ _ _ hv2 he2 rfl rfl [(.data [1], 1)] [2] 1 [] rfl _ hrun
  exact ⟨by decide, rfl, ⟨hv, hmain, h.1 hv hmain⟩,
    ⟨hv2, he2, rfl, rfl, hrun, hpass, hoff, hwrite _ hpass⟩⟩

theorem received_file_is_sent_file_one_connection :
    (2 : Nat) < 2^64 ∧ [(1 : UInt8), 2].length = 2 ∧
    (∀ c ∈ [okConnection (be64 2) [(.data [1, 2], 2)]], c.Valid 2 [1, 2]) ∧
    clientMain .little ⟨0, 0⟩ [okConnection (be64 2) [(.data [1, 2], 2)]] =
      .ok (.done ⟨2, 2⟩ [1, 2]) ∧
    (⟨2, 2⟩ : FileshareClient) = ⟨2, 2⟩ ∧ [(1 : UInt8), 2] = [1, 2] := by
  have hv : ∀ c ∈ [okConnection (be64 2) [(.data [1, 2], 2)]], c.Valid 2 [1, 2] := by
    intro c hc
    rw [List.mem_singleton.mp hc]
    exact ⟨⟨List.prefix_refl _, by decide, by decide, by decide⟩, by decide⟩
  have h : clientMain .little ⟨0, 0⟩ [okConnection (be64 2) [(.data [1, 2], 2)]] =
      .ok (.done ⟨2, 2⟩ [1, 2]) := rfl
  exact ⟨by decide, rfl, hv, h, @received_file_is_sent_file .little 2 [1, 2] (by decide) rfl _ _ _ _ hv h⟩

end NetworkingHowto.Client
