/-
**The event loops, with the client array, its memory and its descriptors (`server.c`).**

Clients are objects on the heap; the loops keep an array of pointers to them, and the kernel keeps
the descriptors that are open and, for `epoll`, a pointer for each descriptor it watches. Reading a
pointer to freed memory, freeing it again, writing past the end of the array, a system call on a
descriptor that is not open and an `FD_SET` past `FD_SETSIZE` are failures: there is no state then.

The kernel may return any descriptor that is not open, and the allocator any address that is not in
use. Allocations succeed (`xmalloc` ends the process otherwise). The numbers of the connections,
what went through their sockets and who was answered what are history, as in `Net`.
-/

import Miniredis.Lib.Memory
import Miniredis.Model.Client

namespace Miniredis

/-- `MAX_CLIENTS`. -/
def maxClients : Nat := 1024

/-- `EPOLL_MAX_EVENTS`. -/
def epollMaxEvents : Nat := 1024

/-- `FD_SETSIZE`. -/
def fdSetsize : Nat := 1024

/-- The events a descriptor is watched for: `EPOLLIN` and `EPOLLOUT`. -/
structure Interest where
  input : Bool
  output : Bool
deriving DecidableEq

/-- `struct client`, with its number in the order of acceptance. -/
structure Conn where
  fd : Nat
  client : Client
  events : Interest
  id : Nat

structure Loop where
  server : Server
  heap : Heap Conn
  /-- The array up to `nclients`. -/
  clients : List Nat
  cap : Nat
  opened : List Nat
  /-- The descriptors that `epoll` watches, each with the pointer registered for it; `none` is the
  `NULL` of the listening socket. -/
  watch : Nat → Option (Interest × Option Nat)
  accepted : Nat
  sockets : Nat → Socket
  history : List Exchange

/-- The state before the first turn: the listening socket is open, and registered in the `epoll`
loop; `others` are the other descriptors of the process itself. -/
def Loop.start (epoll : Bool) (server : Server) (listen : Nat) (others : List Nat) : Loop where
  server := server
  heap := .empty
  clients := []
  cap := 0
  opened := listen :: others
  watch fd := if epoll = true ∧ fd = listen then some (⟨true, false⟩, none) else none
  accepted := 0
  sockets _ := ⟨[], [], none⟩
  history := []

namespace Loop

/-! ### System calls -/

/-- `close()`: the kernel stops watching the descriptor. -/
def close (l : Loop) (fd : Nat) : Option Loop :=
  if fd ∈ l.opened then
    some { l with opened := l.opened.erase fd, watch := Function.update l.watch fd none }
  else none

/-- `EPOLL_CTL_ADD` and `EPOLL_CTL_MOD`, when they succeed. -/
def register (l : Loop) (fd : Nat) (events : Interest) (p : Nat) : Loop :=
  { l with watch := Function.update l.watch fd (some (events, some p)) }

/-- `EPOLL_CTL_DEL`; its result is not looked at. -/
def unregister (l : Loop) (fd : Nat) : Loop :=
  { l with watch := Function.update l.watch fd none }

/-- Write to the client at an address. -/
def put (l : Loop) (p : Nat) (c : Conn) : Option Loop :=
  (l.heap.put p c).map fun heap => { l with heap := heap }

/-! ### Connections come -/

inductive Accept where
  | again
  | interrupted
  | failed
  /-- The descriptor, the address for its client, what is left in that memory, and whether
  `epoll_ctl` succeeds. -/
  | conn (fd addr : Fresh) (subscribed : Int) (registered : Bool)

/-- The array is doubled when it is full. -/
def grow (l : Loop) : Loop :=
  if l.clients.length = l.cap then { l with cap := if l.cap = 0 then 16 else l.cap * 2 } else l

/-- `(*clients)[(*n)++] = c`. -/
def push (l : Loop) (p : Nat) : Option Loop :=
  if l.clients.length < l.cap then some { l with clients := l.clients ++ [p] } else none

/-- A new client for a descriptor that `accept()` returned. -/
def acceptOne (l : Loop) (epoll : Bool) (fd : Nat) (addr : Fresh) (subscribed : Int)
    (registered : Bool) : Option Loop := do
  let l := l.grow
  let p := addr.pick l.heap.addresses
  let c : Conn := ⟨fd, clientInit subscribed, ⟨false, false⟩, l.accepted⟩
  let l ← { l with heap := l.heap.set p c, accepted := l.accepted + 1 }.push p
  if !epoll then some l
  else if registered then
    (l.register fd ⟨true, false⟩ p).put p { c with events := ⟨true, false⟩ }
  else l.put p { c with client := { c.client with closing := true } }

/-- `accept_clients`. -/
def acceptClients (epoll : Bool) : List Accept → Loop → Option Loop
  | [], l => some l
  | .again :: _, l => some l
  | .interrupted :: rest, l => acceptClients epoll rest l
  | .failed :: _, l => some l
  | .conn fd addr subscribed registered :: rest, l => do
    let fd := fd.pick l.opened
    let l := { l with opened := fd :: l.opened }
    -- select() cannot watch the descriptor, or there is no room
    let l ← (if (!epoll && fd ≥ fdSetsize) || l.clients.length ≥ maxClients then l.close fd
      else l.acceptOne epoll fd addr subscribed registered)
    acceptClients epoll rest l

/-! ### One client is served -/

/-- `read_client`; the client is marked for closing on an error. -/
def read (l : Loop) (p : Nat) (calls : Calls) : Option (Loop × Bool) := do
  let c ← l.heap.get p
  if c.fd ∉ l.opened then none
  else
    let (x, exit) := readClient calls.worlds calls.recvs ⟨l.server, c.client, [], []⟩
    let socket := l.sockets c.id
    let l : Loop := { l with
      server := x.server
      sockets := Function.update l.sockets c.id
        { socket with
          received := socket.received ++ x.received
          exit := if exit = .blocked then socket.exit else some exit }
      history := l.history ++ x.answered.map fun (cmd, reply) => ⟨c.id, cmd, reply⟩ }
    let l ← l.put p
      { c with client := if exit.code < 0 then { x.client with closing := true } else x.client }
    some (l, 0 ≤ exit.code)

/-- `write_client`; `strict` is whether an error marks the client for closing. -/
def write (l : Loop) (p : Nat) (sends : List Send) (strict : Bool) : Option (Loop × Bool) := do
  let c ← l.heap.get p
  if c.fd ∉ l.opened then none
  else
    let (client, handed, ok) := writeClient c.client sends
    let socket := l.sockets c.id
    let l : Loop := { l with
      sockets := Function.update l.sockets c.id { socket with handed := socket.handed ++ handed } }
    let l ← l.put p
      { c with client := if strict && !ok then { client with closing := true } else client }
    some (l, ok)

/-- What `client_update_epoll` wants watched. -/
def want (c : Client) : Interest := ⟨true, c.outSent < c.out.length⟩

/-- `client_update_epoll`; `ok` is whether `epoll_ctl` can succeed. -/
def clientUpdateEpoll (l : Loop) (p : Nat) (ok : Bool) : Option Loop := do
  let c ← l.heap.get p
  if want c.client = c.events then some l
  else if c.fd ∉ l.opened then none
  else if ok && (l.watch c.fd).isSome then
    (l.register c.fd (want c.client) p).put p { c with events := want c.client }
  else some l

/-- A step on a client that passes a test. -/
def when (l : Loop) (p : Nat) (test : Client → Bool) (act : Option Loop) : Option Loop := do
  let c ← l.heap.get p
  if test c.client then act else some l

/-- The best-effort flush of a final reply. -/
def flush (l : Loop) (p : Nat) (calls : Calls) : Option Loop :=
  l.when p (fun c => c.closing && c.outSent < c.out.length)
    ((l.write p calls.flush false).map Prod.fst)

/-- The reading part of the `epoll` loop; `ok` is for `epoll_ctl`. -/
def readEpoll (l : Loop) (p : Nat) (calls : Calls) (ok : Bool) : Option Loop := do
  let (l, returned) ← l.read p calls
  if returned then l.clientUpdateEpoll p ok else some l

/-- The writing part of the `epoll` loop. -/
def writeEpoll (l : Loop) (p : Nat) (calls : Calls) (ok : Bool) : Option Loop := do
  let (l, returned) ← l.write p calls.sends true
  if returned then l.clientUpdateEpoll p ok else some l

/-- The body of `run_loop_epoll` for one client. -/
def serveEpoll (l : Loop) (p : Nat) (ready : Ready) (calls : Calls) (oks : Bool × Bool) :
    Option Loop :=
  l.when p (fun c => !c.closing)
    (if ready.broken && !ready.readable then do
      let c ← l.heap.get p
      l.put p { c with client := { c.client with closing := true } }
    else do
      let l ← (if ready.readable then l.readEpoll p calls oks.1 else some l)
      let l ← l.when p (fun c => !c.closing && ready.writable) (l.writeEpoll p calls oks.2)
      l.flush p calls)

/-- The body of `run_loop_select` for one client, with the sets that `select()` left. -/
def serveSelect (rset wset : List Nat) (calls : Nat → Calls) (l : Loop) (p : Nat) : Option Loop :=
  l.when p (fun c => !c.closing) do
    let c ← l.heap.get p
    if c.fd ≥ fdSetsize then none
    else
      let l ← (if c.fd ∈ rset then (l.read p (calls p)).map Prod.fst else some l)
      let l ← l.when p (fun client => !client.closing && c.fd ∈ wset)
        ((l.write p (calls p).sends true).map Prod.fst)
      l.flush p (calls p)

/-! ### Connections go -/

/-- `client_free`. -/
def clientFree (l : Loop) (p : Nat) : Option Loop := do
  let c ← l.heap.get p
  let l ← l.close c.fd
  let heap ← l.heap.free p
  some { l with heap := heap }

/-- The loop of `compact_clients` over the rest of the array; the pointers kept come back. -/
def compactLoop (epoll : Bool) : List Nat → Loop → Option (List Nat × Loop)
  | [], l => some ([], l)
  | p :: rest, l => do
    let c ← l.heap.get p
    if c.client.closing then
      let l ← (if epoll then l.unregister c.fd else l).clientFree p
      compactLoop epoll rest l
    else
      let (kept, l) ← compactLoop epoll rest l
      some (p :: kept, l)

/-- `compact_clients`. -/
def compactClients (l : Loop) (epoll : Bool) : Option Loop := do
  let (kept, l) ← compactLoop epoll l.clients l
  some { l with clients := kept }

/-- The end of a turn: compaction, expire cycle, reaping. -/
def endTurn (l : Loop) (epoll : Bool) (now : Nat → Int) (io : Io) : Option Loop := do
  let l ← l.compactClients epoll
  some { l with server := Miniredis.step l.server (.cron now io) }

/-- After the loop, every client is freed. -/
def finish (l : Loop) : Option Loop := do
  let l ← l.clients.foldlM clientFree l
  some { l with clients := [], cap := 0 }

/-! ### Turns of the loops -/

/-- A ready descriptor; of a client, `data` is first its descriptor and, once the kernel has
delivered the report, its pointer. -/
inductive Report where
  | listener (fd : Nat) (accepts : List Accept)
  | client (data : Nat) (ready : Ready) (calls : Calls) (oks : Bool × Bool)

/-- The kernel delivers the pointer of a descriptor it watches, with the events watched for. -/
def deliver (l : Loop) : Report → Option Report
  | .listener fd accepts =>
    match l.watch fd with
    | some (_, none) => some (.listener fd accepts)
    | _ => none
  | .client fd ready calls oks =>
    match l.watch fd with
    | some (events, some p) =>
      some (.client p ⟨ready.readable && events.input, ready.writable && events.output,
        ready.broken⟩ calls oks)
    | _ => none

def serveReport (l : Loop) : Report → Option Loop
  | .listener _ accepts => acceptClients true accepts l
  | .client p ready calls oks => l.serveEpoll p ready calls oks

/-- A turn of `run_loop_epoll`. -/
def turnEpoll (l : Loop) (reports : List Report) (now : Nat → Int) (io : Io) : Option Loop := do
  let l ← ((reports.filterMap l.deliver).take epollMaxEvents).foldlM serveReport l
  l.endTurn true now io

/-- The descriptors that `run_loop_select` puts into its two sets. -/
def fdSets : List Nat → Loop → Option (List Nat × List Nat)
  | [], _ => some ([], [])
  | p :: rest, l => do
    let c ← l.heap.get p
    if c.client.closing then fdSets rest l
    else if c.fd ≥ fdSetsize then none
    else
      let (rset, wset) ← fdSets rest l
      some (c.fd :: rset, if c.client.outSent < c.client.out.length then c.fd :: wset else wset)

/-- A turn of `run_loop_select`: of the descriptors in the sets, `readable` and `writable` hold of
those that are ready; `accepts` is empty if the listener is not. -/
def turnSelect (l : Loop) (readable writable : Nat → Bool) (accepts : List Accept)
    (calls : Nat → Calls) (now : Nat → Int) (io : Io) : Option Loop := do
  let (rset, wset) ← fdSets l.clients l
  let l ← acceptClients false accepts l
  let l ← l.clients.foldlM (serveSelect (rset.filter readable) (wset.filter writable) calls) l
  l.endTurn false now io

/-- What can happen next to a loop. -/
inductive Happening where
  | epoll (reports : List Report) (now : Nat → Int) (io : Io)
  | select (readable writable : Nat → Bool) (accepts : List Accept)
      (calls : Nat → Calls) (now : Nat → Int) (io : Io)
  | child (i : Nat) (move : FileSystem.Move)
  | signal

/-- The loop a happening is of. -/
def Happening.Of (epoll : Bool) : Happening → Prop
  | .epoll .. => epoll = true
  | .select .. => epoll = false
  | .child .. | .signal => True

def step (l : Loop) : Happening → Option Loop
  | .epoll reports now io => l.turnEpoll reports now io
  | .select readable writable accepts calls now io =>
    l.turnSelect readable writable accepts calls now io
  | .child i move => some { l with server := Miniredis.step l.server (.child i move) }
  | .signal => some { l with server := Miniredis.step l.server .signal }

def run (l : Loop) (happenings : List Happening) : Option Loop := happenings.foldlM step l

end Loop

end Miniredis
