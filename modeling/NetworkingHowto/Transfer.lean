import NetworkingHowto.Client.Download
import NetworkingHowto.Server.PollWire
import NetworkingHowto.Server.EpollWire

/-! The file-share server and its client together: a client that prints `Received file` holds
the server's file. -/
namespace NetworkingHowto.Transfer
open NetworkingHowto.Bytes NetworkingHowto.Server NetworkingHowto.Client

variable {e : Endian} {server : FileshareServer} {F : List UInt8} {maxConns : Nat}

variable (e server F maxConns) in
/-- The stream a client connection receives is a prefix of what a slot's socket was sent in a
run of the poll server or of the epoll server with good answers. -/
def FromServer (c : ConnectionIo) : Prop :=
  (∃ (s : Poll.PollState) (i : Nat),
      Reachable (· = Poll.PollState.init server) (Poll.GoodStep e server F maxConns) s ∧
      c.header.bytes ++ blockBytes c.blocks <+: s.wire i) ∨
  (∃ (s : Epoll.EpollState) (i : Nat),
      Reachable (· = Epoll.EpollState.init server) (Epoll.GoodStep e server F maxConns) s ∧
      c.header.bytes ++ blockBytes c.blocks <+: s.wire i)

theorem FromServer.stream (hS : server.srcFileSize = F.length) (hmax : maxConns < 2^32)
    {c : ConnectionIo} (h : FromServer e server F maxConns c) :
    c.header.bytes ++ blockBytes c.blocks <+: be64 F.length ++ F := by
  rcases h with ⟨s, i, hs, hp⟩ | ⟨s, i, hs, hp⟩
  · exact hp.trans ((Poll.wireInv_reachable hS (by omega) hs).2 i).ok.isPrefix
  · exact hp.trans ((Epoll.wireInv_reachable hS hmax hs).2 i).ok.isPrefix

/-- The poll or the epoll server with the client, end to end: over any runs of the servers
with good answers, any split of the streams into `recv` results (at most 8 bytes for the
header, `TRANSFER_BLOCK_SIZE` for a block), any failed `recv`s (fewer than `2^64 - S` on a
connection) and any reconnects, a client that prints `Received file` has a file of the
server's size with exactly the server's file in it. The two hosts may differ in byte order. -/
theorem client_receives_server_file (hS : server.srcFileSize = F.length) (hmax : maxConns < 2^32)
    (hF : F.length < 2^64) {e' : Endian} {cs : List ConnectionIo}
    {client client' : FileshareClient} {file : List UInt8}
    (hcs : ∀ c ∈ cs, FromServer e server F maxConns c ∧ c.header.bytes.length ≤ 8 ∧
      (∀ b ∈ c.blocks, b.1.bytes.length ≤ Client.TRANSFER_BLOCK_SIZE) ∧
      (∀ b ∈ c.blocks, -1 ≤ b.2) ∧ F.length + blockErrors c.blocks < 2^64)
    (h : clientMain e' client cs = .ok (.done client' file)) :
    client' = ⟨F.length, F.length⟩ ∧ file = F :=
  clientMain_done hF rfl (fun c hc =>
    let ⟨hfrom, hh, hb, hw, he⟩ := hcs c hc
    ⟨⟨hfrom.stream hS hmax, hh, hb, hw⟩, fun _ => he⟩) h

/-- A big-endian client downloads a one-byte file in one connection, whose stream is what the
little-endian poll server of `Poll.reachable_one_byte` sent to its only client. -/
theorem client_receives_server_file_one_byte :
    (⟨3, 1, 4⟩ : FileshareServer).srcFileSize = ([7] : List UInt8).length ∧ (1 : Nat) < 2^32 ∧
    ([7] : List UInt8).length < 2^64 ∧
    (∀ c ∈ [okConnection (be64 1) [(.data [7], 1)]],
      FromServer .little ⟨3, 1, 4⟩ [7] 1 c ∧ c.header.bytes.length ≤ 8 ∧
      (∀ b ∈ c.blocks, b.1.bytes.length ≤ Client.TRANSFER_BLOCK_SIZE) ∧
      (∀ b ∈ c.blocks, -1 ≤ b.2) ∧ ([7] : List UInt8).length + blockErrors c.blocks < 2^64) ∧
    clientMain .big ⟨0, 0⟩ [okConnection (be64 1) [(.data [7], 1)]] = .ok (.done ⟨1, 1⟩ [7]) ∧
    ((⟨1, 1⟩ : FileshareClient) = ⟨([7] : List UInt8).length, ([7] : List UInt8).length⟩ ∧
      ([7] : List UInt8) = [7]) := by
  have hcs : ∀ c ∈ [okConnection (be64 1) [(.data [7], 1)]],
      FromServer .little ⟨3, 1, 4⟩ [7] 1 c ∧ c.header.bytes.length ≤ 8 ∧
      (∀ b ∈ c.blocks, b.1.bytes.length ≤ Client.TRANSFER_BLOCK_SIZE) ∧
      (∀ b ∈ c.blocks, -1 ≤ b.2) ∧ ([7] : List UInt8).length + blockErrors c.blocks < 2^64 := by
    intro c hc
    rw [List.mem_singleton.mp hc]
    obtain ⟨s, hs, -, hw⟩ := Poll.reachable_one_byte
    exact ⟨.inl ⟨s, 0, hs, hw ▸ List.prefix_refl _⟩, by decide, by decide, by decide, by decide⟩
  have h : clientMain .big ⟨0, 0⟩ [okConnection (be64 1) [(.data [7], 1)]] =
      .ok (.done ⟨1, 1⟩ [7]) := rfl
  exact ⟨rfl, by decide, by decide, hcs, h, client_receives_server_file rfl (by decide) (by decide) hcs h⟩

end NetworkingHowto.Transfer
