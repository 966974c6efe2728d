/-
**Clients and their sockets (`server.c`).**

A client holds the bytes received and not yet parsed, and the bytes to send, of which `outSent` have
already been handed to `send()`. `readClient` parses and dispatches what arrives, `writeClient`
hands over what is pending; both event loops serve one ready client after another (`Net.serve`).

The results of `recv()` and `send()` come from outside, in the order of the calls; a list of them
that runs out stands for `EAGAIN`. A connection is known by its number in the order of acceptance.
What went through its socket, and who was answered what, is kept as history: no function of the
source reads it.
-/

import Miniredis.Model.Server

namespace Miniredis

/-- `READ_CHUNK`. -/
def readChunk : Nat := 65536

structure Client where
  inBuf : Bytes
  out : Bytes
  outSent : Nat
  closing : Bool
  subscribed : Int

/-- `client_init`: the subscription count is whatever the memory held. -/
def clientInit (subscribed : Int) : Client := ⟨[], [], 0, false, subscribed⟩

/-! ### Reading -/

/-- What `recv()` fills its buffer with. -/
structure Chunk where
  bytes : Bytes
  filled : bytes ≠ []
  fits : bytes.length ≤ readChunk

inductive Recv where
  | data (chunk : Chunk)
  | closed
  | again
  | interrupted
  | failed

/-- The ways out of `read_client`. -/
inductive Exit where
  | blocked
  | quit
  | overflow
  | protocol
  | closed
  | failed
deriving DecidableEq

/-- The value `read_client` returns. -/
def Exit.code : Exit → Int
  | .blocked | .quit => 0
  | .overflow | .protocol | .closed | .failed => -1

/-- What one command draws from outside. -/
structure World where
  env : Env
  io : Io

/-- A call of `read_client` under way: the bytes it received and the commands it dispatched, each
with its reply. -/
structure Session where
  server : Server
  client : Client
  received : Bytes
  answered : List (Command × Bytes)

/-- The command at the front of the buffer is dispatched and its bytes are shifted out. -/
def Session.dispatch (worlds : Nat → World) (x : Session) (cmd : Command) (consumed : Nat) :
    Session :=
  let world := worlds x.answered.length
  let (server, reply) := dispatchCommand world.env world.io x.server cmd
  { x with
    server := server
    client := { x.client with
      inBuf := x.client.inBuf.drop consumed
      out := x.client.out ++ reply.out
      closing := x.client.closing || reply.closing }
    answered := x.answered ++ [(cmd, reply.out)] }

/-- The inner loop of `read_client`: every command takes a byte at least, so the length of the
buffer is enough fuel. Without an exit more data is needed. -/
def drainLoop (worlds : Nat → World) : Nat → Session → Session × Option Exit
  | 0, x => (x, none)
  | fuel + 1, x =>
    let (consumed, cmd) := respParseCommand x.client.inBuf
    if consumed > 0 then
      let x := x.dispatch worlds cmd consumed.toNat
      if x.client.closing then (x, some .quit) else drainLoop worlds fuel x
    else if consumed < 0 then (x, some .protocol)
    else (x, none)

/-- `dynbuf_append` to the input buffer. -/
def Session.receive (x : Session) (bytes : Bytes) : Session :=
  { x with
    client := { x.client with inBuf := x.client.inBuf ++ bytes }
    received := x.received ++ bytes }

/-- `read_client`. -/
def readClient (worlds : Nat → World) : List Recv → Session → Session × Exit
  | [], x => (x, .blocked)
  | .again :: _, x => (x, .blocked)
  | .interrupted :: recvs, x => readClient worlds recvs x
  | .closed :: _, x => (x, .closed)
  | .failed :: _, x => (x, .failed)
  | .data chunk :: recvs, x =>
    let x := x.receive chunk.bytes
    if x.client.inBuf.length > maxQueryBuf then (x, .overflow)
    else
      match drainLoop worlds x.client.inBuf.length x with
      | (x, some exit) => (x, exit)
      | (x, none) => readClient worlds recvs x

/-! ### Writing -/

/-- A result of `send()`; `sent k` hands over `k + 1` bytes, or all there are. -/
inductive Send where
  | sent (k : Nat)
  | nothing
  | again
  | interrupted
  | failed

/-- The end of `write_client`: what is flushed is forgotten. -/
def Client.flushed (c : Client) : Client × Bytes × Bool :=
  ({ c with out := [], outSent := 0 }, [], true)

/-- `write_client`: the client, the bytes handed over and whether it returned `0`. -/
def writeClient (c : Client) : List Send → Client × Bytes × Bool
  | [] => if c.outSent < c.out.length then (c, [], true) else c.flushed
  | send :: sends =>
    if c.outSent < c.out.length then
      match send with
      | .sent k =>
        let pending := c.out.drop c.outSent
        let n := min (k + 1) pending.length
        let (c, handed, ok) := writeClient { c with outSent := c.outSent + n } sends
        (c, pending.take n ++ handed, ok)
      | .again => (c, [], true)
      | .interrupted => writeClient c sends
      | .nothing | .failed => (c, [], false)
    else c.flushed

/-! ### The event loops -/

/-- What went through a socket, and how `read_client` ended the connection, if it did. -/
structure Socket where
  received : Bytes
  handed : Bytes
  exit : Option Exit

/-- A command that was executed: for which client, and with what reply. -/
structure Exchange where
  id : Nat
  cmd : Command
  reply : Bytes

/-- The server and its clients. -/
structure Net where
  server : Server
  clients : Nat → Option Client
  accepted : Nat
  sockets : Nat → Socket
  history : List Exchange

def Net.start (server : Server) : Net :=
  ⟨server, fun _ => none, 0, fun _ => ⟨[], [], none⟩, []⟩

def Net.put (net : Net) (id : Nat) (c : Client) : Net :=
  { net with clients := Function.update net.clients id (some c) }

/-- `accept_clients` takes one connection; one that `epoll_ctl` does not take is closing from the
start, and one that is refused never becomes a client. -/
def Net.accept (net : Net) (subscribed : Int) (registered : Bool) : Net :=
  { net.put net.accepted { clientInit subscribed with closing := !registered } with
    accepted := net.accepted + 1 }

/-- The loop calls `read_client` and marks the client for closing on an error. -/
def Net.read (net : Net) (id : Nat) (c : Client) (worlds : Nat → World) (recvs : List Recv) :
    Net :=
  let (x, exit) := readClient worlds recvs ⟨net.server, c, [], []⟩
  let socket := net.sockets id
  { net.put id (if exit.code < 0 then { x.client with closing := true } else x.client) with
    server := x.server
    sockets := Function.update net.sockets id
      { socket with
        received := socket.received ++ x.received
        exit := if exit = .blocked then socket.exit else some exit }
    history := net.history ++ x.answered.map fun (cmd, reply) => ⟨id, cmd, reply⟩ }

/-- The loop calls `write_client`; `strict` is whether an error counts. -/
def Net.write (net : Net) (id : Nat) (c : Client) (sends : List Send) (strict : Bool) : Net :=
  let (c, handed, ok) := writeClient c sends
  let socket := net.sockets id
  { net.put id (if strict && !ok then { c with closing := true } else c) with
    sockets := Function.update net.sockets id { socket with handed := socket.handed ++ handed } }

/-- What `epoll_wait` or `select` reports of a client; `broken` is an error or a hangup. -/
structure Ready where
  readable : Bool
  writable : Bool
  broken : Bool

/-- The results of the calls made for one ready client. -/
structure Calls where
  worlds : Nat → World
  recvs : List Recv
  sends : List Send
  flush : List Send

/-- A step on the client of a number, if there is one and it passes a test. -/
def Net.when (net : Net) (id : Nat) (test : Client → Bool) (act : Client → Net) : Net :=
  match net.clients id with
  | none => net
  | some c => if test c then act c else net

/-- The body of the event loops for one ready client. -/
def Net.serve (net : Net) (id : Nat) (ready : Ready) (calls : Calls) : Net :=
  net.when id (fun c => !c.closing) fun c =>
    if ready.broken && !ready.readable then net.put id { c with closing := true }
    else
      let net := if ready.readable then net.read id c calls.worlds calls.recvs else net
      let net := net.when id (fun c => !c.closing && ready.writable) fun c =>
        net.write id c calls.sends true
      net.when id (fun c => c.closing && c.outSent < c.out.length) fun c =>
        net.write id c calls.flush false

/-- `compact_clients`. -/
def Net.compact (net : Net) : Net :=
  { net with clients := fun id => (net.clients id).filter fun c => !c.closing }

/-- What can happen next. -/
inductive NetEvent where
  | accept (subscribed : Int) (registered : Bool)
  | serve (id : Nat) (ready : Ready) (calls : Calls)
  | child (i : Nat) (move : FileSystem.Move)
  | signal
  /-- The end of a turn of the event loop. -/
  | turn (now : Nat → Int) (io : Io)

def Net.step (net : Net) : NetEvent → Net
  | .accept subscribed registered => net.accept subscribed registered
  | .serve id ready calls => net.serve id ready calls
  | .child i move => { net with server := Miniredis.step net.server (.child i move) }
  | .signal => { net with server := Miniredis.step net.server .signal }
  | .turn now io => { net.compact with server := Miniredis.step net.server (.cron now io) }

def Net.run (net : Net) (events : List NetEvent) : Net := events.foldl Net.step net

/-- The exchanges of one client, in the order of execution. -/
def Net.exchanges (net : Net) (id : Nat) : List Exchange := net.history.filter (·.id = id)

/-- The commands dispatched for one client. -/
def Net.dispatched (net : Net) (id : Nat) : List Command := (net.exchanges id).map (·.cmd)

/-- The replies to one client's own commands. -/
def Net.replies (net : Net) (id : Nat) : Bytes := (net.exchanges id).flatMap (·.reply)

end Miniredis
