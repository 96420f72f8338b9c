import NetworkingHowto.Server.Loop

/-! The sequential `main` of `unnamed/part_002` (run with `server-poll.c`'s protocol steps, since
`server-common.h` is not among the sources), as the system calls it issues per connection. -/
namespace NetworkingHowto.Server.Sequential
open NetworkingHowto.Bytes

inductive ConnCall where
  /-- `write(conn->client_sock_fd, ...)`. -/
  | write (fd : Int)
  /-- `pread(server->src_file_fd, ..., conn->src_file_offset)`. -/
  | pread (offset : Nat)
  /-- `close(conn->client_sock_fd)`. -/
  | close (fd : Int)
deriving DecidableEq, Repr

inductive Outcome where
  /-- `exit(EXIT_FAILURE)` with `msg` on `stderr`. -/
  | exit (msg : String)
  /-- The kernel's answers ran out first. -/
  | cut
  /-- The stretch ran to its end, with the connection record and the held descriptors. -/
  | next (conn : FileshareConnection) (fds : List Int)
deriving DecidableEq, Repr

/-- The calls of `server_send_file_size`: the `write` of the header. -/
def serverSendFileSizeCalls (conn : FileshareConnection) : List ConnCall :=
  [.write conn.clientSockFd]

/-- The calls of `server_send_file_block`: the `pread`, then the `write` unless the read
failed. -/
def serverSendFileBlockCalls (server : FileshareServer) (conn : FileshareConnection)
    (io : StepIo) : List ConnCall :=
  let bytesRead := sizeT io.preadRet
  .pread conn.srcFileOffset ::
    if bytesRead = SIZE_MAX ∨ (bytesRead = 0 ∧ conn.srcFileOffset ≠ server.srcFileSize) then []
    else [.write conn.clientSockFd]

def prepend (calls : List ConnCall) (rest : List ConnCall × Outcome) : List ConnCall × Outcome :=
  (calls ++ rest.1, rest.2)

/-- The calls `calls`, then `server_close_conn_socket`, which is issued whether or not it
succeeds, then the rest of the run `k` from the descriptors left. -/
def closeConn (fds : List Int) (conn : FileshareConnection) (calls : List ConnCall)
    (k : List Int → List ConnCall × Outcome) : List ConnCall × Outcome :=
  match serverCloseConnSocket fds conn with
  | .error msg => (calls ++ [.close conn.clientSockFd], .exit msg)
  | .ok fds => prepend (calls ++ [.close conn.clientSockFd]) (k fds)

/-! ### The sequential `main` -/

section
variable (e : Endian) (server : FileshareServer) (F : List UInt8)

/-- `while (conn.src_file_offset < server.src_file_size)` of `main`, one answer per
`server_send_file_block`: a failed step closes the socket and `continue`s, back to the loop
test. -/
def mainBlocks : FileshareConnection → List Int → List StepIo → List ConnCall × Outcome
  | conn, fds, ios =>
    if conn.srcFileOffset < server.srcFileSize then
      match ios with
      | [] => ([], .cut)
      | io :: ios =>
        let r := serverSendFileBlock server F conn io
        let calls := serverSendFileBlockCalls server conn io
        if r.success then prepend calls (mainBlocks r.conn fds ios)
        else closeConn fds r.conn calls fun fds => mainBlocks r.conn fds ios
    else ([], .next conn fds)

/-- The body of `main`'s `for` loop once `accept` succeeded: the header (a failure closes
the socket and goes on to the next client), the block loop, and the close after it. -/
def mainClient (conn : FileshareConnection) (fds : List Int) :
    List StepIo → List ConnCall × Outcome
  | [] => ([], .cut)
  | io :: ios =>
    let r := serverSendFileSize e server conn io
    let calls := serverSendFileSizeCalls conn
    if r.success then
      match mainBlocks server F r.conn fds ios with
      | (blockCalls, .next conn fds) =>
        closeConn fds conn (calls ++ blockCalls) fun fds => ([], .next conn fds)
      | (blockCalls, out) => (calls ++ blockCalls, out)
    else closeConn fds r.conn calls fun fds => ([], .next r.conn fds)

/-- `for (client_i = 0; !program_in_shutdown() && client_i < num_clients; ++client_i)` of
`main`, with each client's `accept` answers and the answers of its protocol steps: the calls
issued for each accepted connection, and how the loop ends. `sigint` is the shutdown flag;
a SIGINT that arrives during an `accept` sets it. -/
def mainLoop (numClients : Int) :
    Nat → Bool → FileshareConnection → List Int → List (AcceptIo × List StepIo) →
      List (List ConnCall) × Outcome
  | clientI, sigint, conn, fds, clients =>
    if sigint = false ∧ (clientI : Int) < numClients then
      match clients with
      | [] => ([], .cut)
      | (acc, ios) :: clients =>
        let sigint := sigint || acc.sigint
        match serverAcceptConnectionRequest sigint conn acc with
        | .error msg => ([], .exit msg)
        | .ok (false, conn) => ([], .next conn fds)
        | .ok (true, conn) =>
          match mainClient e server F conn (acc.acceptRet :: fds) ios with
          | (calls, .next conn fds) =>
            let rest := mainLoop numClients (clientI + 1) sigint conn fds clients
            (calls :: rest.1, rest.2)
          | (calls, out) => ([calls], out)
    else ([], .next conn fds)

end

/-- The `continue` of the block loop goes back to the loop test, not to the next client.
When the last block completes the file, `server_send_file_block` returns `false`, the socket
is closed, the test fails, and the close after the loop closes it again: `close` fails with
`EBADF` and the server exits after its first client. When a block `write` fails, the socket
is closed and the test still holds, so the loop `pread`s and `write`s for the closed
connection, fails, and closes it again. Here the first client of `num_clients = 1` gets a
1-byte file in one block, and on a 2-byte file the block `write` fails with `EPIPE` and the
next one, on the closed socket, with `EBADF`. -/
theorem sequential_main_closes_twice :
    mainLoop .little ⟨3, 1, 4⟩ [7] 1 0 false .zero [3, 4]
        [(⟨5, false, 0, 0, 0⟩, [⟨0, 8, 0⟩, ⟨1, 1, 0⟩])] =
      ([[.write 5, .pread 0, .write 5, .close 5, .close 5]],
        .exit "[server_close_conn_socket] Unable to close() connection socket\n") ∧
    mainLoop .little ⟨3, 2, 4⟩ [7, 8] 1 0 false .zero [3, 4]
        [(⟨5, false, 0, 0, 0⟩, [⟨0, 8, 0⟩, ⟨2, -1, 32⟩, ⟨2, -1, 9⟩])] =
      ([[.write 5, .pread 0, .write 5, .close 5, .pread 0, .write 5, .close 5]],
        .exit "[server_close_conn_socket] Unable to close() connection socket\n") :=
  ⟨rfl, rfl⟩

end NetworkingHowto.Server.Sequential
