import NetworkingHowto.Server.Loop

/-! What each client's socket receives under the event loops: a prefix of the header and the
file, in step with the slot's record. -/
namespace NetworkingHowto.Server
open Bytes

/-- Kernel answers to a slot's step that keep its socket in step with its record: allowed
ones, and no short header `write` that finds `EAGAIN` left in `errno`. -/
def StepIo.Good (io : StepIo) (F : List UInt8) (conn : FileshareConnection) : Prop :=
  io.Allowed F conn ∧ (conn.state = .sendFileSize → ¬ StaleEagainShortHeader io)

def Round.Good (r : Round) (F : List UInt8) (s : LoopState) : Prop :=
  ∀ i < s.numConnectedClients, (r.io i).Good F (s.conns i)

theorem WireOk.isPrefix {F : List UInt8} {conn : FileshareConnection} {w : List UInt8}
    (h : WireOk F conn w) : w <+: be64 F.length ++ F := by
  unfold WireOk at h
  split at h
  · exact h ▸ List.nil_prefix
  · exact h ▸ List.nil_prefix
  · exact h.1 ▸ (List.prefix_append_right_inj _).mpr (List.take_prefix _ _)
  · exact h

/-- What a connection's socket has received, `w`, against its record: a prefix of the header
and the file; while streaming, exactly the header and the file up to the offset, the offset
short of the end unless the file is empty; and once finished at the end of a non-empty file,
all of it: the header went out once, before any data byte. -/
def HeaderOnce (F : List UInt8) (conn : FileshareConnection) (w : List UInt8) : Prop :=
  w <+: be64 F.length ++ F ∧ WireOk F conn w ∧
    (conn.state = .transferFinished → conn.srcFileOffset = F.length → 0 < F.length →
      w = be64 F.length ++ F)

/-- What slot `conn`'s socket has received, `w`: in step with the record, an offset of 0 until
the header is out, and the whole framed file once the transfer finished at the file's end. -/
structure WireSlot (F : List UInt8) (conn : FileshareConnection) (w : List UInt8) : Prop where
  ok : WireOk F conn w
  start : conn.state = .connectionEmpty ∨ conn.state = .sendFileSize → conn.srcFileOffset = 0
  whole : conn.state = .transferFinished → conn.srcFileOffset = F.length → 0 < F.length →
    w = be64 F.length ++ F

namespace WireSlot

variable {F : List UInt8} {conn : FileshareConnection} {w : List UInt8}

theorem zero : WireSlot F .zero [] :=
  ⟨rfl, fun _ => rfl, nofun⟩

theorem newClient (h : WireSlot F conn w) (he : conn.state = .connectionEmpty)
    {x : FileshareConnection} (hx : x.state = .sendFileSize)
    (ho : x.srcFileOffset = conn.srcFileOffset) : WireSlot F x w := by
  have hw : w = [] := by simpa [WireOk, he] using h.ok
  exact ⟨by simp [WireOk, hx, hw], fun _ => ho.trans (h.start (.inl he)), fun hf => by simp [hx] at hf⟩

theorem finish (h : WireSlot F conn w) : WireSlot F { conn with state := .transferFinished } w := by
  refine ⟨h.ok.isPrefix, nofun, fun _ hend hF => ?_⟩
  dsimp only at hend
  have hok := h.ok
  unfold WireOk at hok
  cases hs : conn.state <;> simp only [hs] at hok
  · exact absurd (h.start (.inl hs)) (by omega)
  · exact absurd (h.start (.inr hs)) (by omega)
  · omega
  · exact h.whole hs hend hF

theorem sendFileSize {e : Endian} {server : FileshareServer} {io : StepIo}
    (hS : server.srcFileSize = F.length) (h : WireSlot F conn w)
    (hs : conn.state = .connectionEmpty ∨ conn.state = .sendFileSize) (hio : io.WriteOk 8)
    (hgood : ¬ StaleEagainShortHeader io) :
    WireSlot F (serverSendFileSize e server conn io).conn
      (w ++ (serverSendFileSize e server conn io).sent) := by
  have h0 : (serverSendFileSize e server conn io).conn.srcFileOffset = 0 :=
    serverSendFileSize_offset (h.start hs)
  exact ⟨serverSendFileSize_wireOk hS hs h.ok hio hgood, fun _ => h0, fun _ hend hF => by omega⟩

theorem send {e : Endian} {server : FileshareServer} {io : StepIo} {r : SendResult}
    (hS : server.srcFileSize = F.length) (h : WireSlot F conn w) (hio : io.Good F conn)
    (hr : sendOnWritable e server F conn io = some r) : WireSlot F r.conn (w ++ r.sent) := by
  have hok := sendOnWritable_wireOk hS h.ok hio.1 hio.2 hr
  unfold sendOnWritable at hr
  cases hs : conn.state <;> simp only [hs, Option.some.injEq, reduceCtorEq] at hr <;> subst hr
  case sendFileSize => exact sendFileSize hS h (.inr hs) (by simpa [hs] using hio.1.2) (hio.2 hs)
  case sendDataBlock =>
    refine ⟨hok, fun h' => ?_, serverSendFileBlock_whole hS hs h.ok (hio.1.1 (by simp [hs]))
      (by simpa [hs] using hio.1.2)⟩
    have h1 : (serverSendFileBlock server F conn io).conn.state = .sendDataBlock ∨
        (serverSendFileBlock server F conn io).conn.state = .transferFinished :=
      serverSendFileBlock_state hs
    rcases h1 with h1 | h1 <;> simp [h1] at h'
  case transferFinished => simpa using h

theorem headerOnce (h : WireSlot F conn w) : HeaderOnce F conn w :=
  ⟨h.ok.isPrefix, h.ok, h.whole⟩

end WireSlot

def WireInv (F : List UInt8) (s : LoopState) : Prop :=
  ∀ i, WireSlot F (s.conns i) (s.wire i)

namespace WireInv

variable {F : List UInt8} {s : LoopState}

theorem init (server : FileshareServer) : WireInv F (LoopState.init server) :=
  fun _ => WireSlot.zero

theorem update (h : WireInv F s) {i : Nat} {x : FileshareConnection} {w : List UInt8}
    (hx : WireSlot F x w) {t : LoopState} (hc : t.conns = Function.update s.conns i x)
    (hw : t.wire = Function.update s.wire i w) : WireInv F t := fun j => by
  rw [hc, hw]
  by_cases hj : j = i
  · subst hj; simpa using hx
  · simpa [Function.update_noteq hj] using h j

theorem finish (h : WireInv F s) (i : Nat) {t : LoopState}
    (hc : t.conns = Function.update s.conns i { s.conns i with state := .transferFinished })
    (hw : t.wire = s.wire) : WireInv F t :=
  h.update (h i).finish hc (hw.trans (Function.update_eq_self i s.wire).symm)

end WireInv

theorem serverAcceptConnectionRequest_conn {b b' : Bool} {conn conn' : FileshareConnection}
    {io : AcceptIo} (h : serverAcceptConnectionRequest b conn io = .ok (b', conn')) :
    conn' = { conn with clientSockFd := io.acceptRet } := by
  unfold serverAcceptConnectionRequest at h
  split_ifs at h <;> cases h <;> rfl

end NetworkingHowto.Server
