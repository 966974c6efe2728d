/-
**The event loops, one connection at a time (`server.c`).**

* `run_view` — whatever the server and the other clients do, a connection only moves by being
  accepted, read, written, marked for closing or dropped; an invariant of these moves holds of every
  connection at every point of every run (`run_keeps`).
-/

import Miniredis.Model.Client
import Mathlib.Logic.Relation

namespace Miniredis

open Relation (ReflTransGen)

/-! ### Moves of a connection -/

section Moves

/-- What there is of one connection. -/
structure View where
  client : Option Client
  socket : Socket
  answered : List (Command × Bytes)

/-- A connection that was not accepted yet. -/
def View.unborn : View := ⟨none, ⟨[], [], none⟩, []⟩

def Net.view (net : Net) (id : Nat) : View :=
  ⟨net.clients id, net.sockets id, (net.exchanges id).map fun x => (x.cmd, x.reply)⟩

theorem Net.dispatched_view (net : Net) (id : Nat) :
    net.dispatched id = (net.view id).answered.map Prod.fst := by
  simp [dispatched, view]

theorem Net.replies_view (net : Net) (id : Nat) :
    net.replies id = (net.view id).answered.flatMap Prod.snd := by
  simp [replies, view, List.flatMap_map]

/-- A connection after `read_client`. -/
def View.afterRead (socket : Socket) (answered : List (Command × Bytes)) :
    Session × Exit → View
  | (x, exit) =>
    { client := some (if exit.code < 0 then { x.client with closing := true } else x.client)
      socket := { socket with
        received := socket.received ++ x.received
        exit := if exit = .blocked then socket.exit else some exit }
      answered := answered ++ x.answered }

/-- A connection after `write_client`. -/
def View.afterWrite (socket : Socket) (answered : List (Command × Bytes)) (strict : Bool) :
    Client × Bytes × Bool → View
  | (c, handed, ok) =>
    { client := some (if strict && !ok then { c with closing := true } else c)
      socket := { socket with handed := socket.handed ++ handed }
      answered := answered }

/-- One move of a connection. -/
inductive Moves : View → View → Prop
  | accept (subscribed : Int) (registered : Bool) : Moves .unborn
      ⟨some { clientInit subscribed with closing := !registered }, ⟨[], [], none⟩, []⟩
  | read {c : Client} {socket : Socket} {answered : List (Command × Bytes)} (server : Server)
      (worlds : Nat → World) (recvs : List Recv) (opened : c.closing = false) :
      Moves ⟨some c, socket, answered⟩
        (.afterRead socket answered (readClient worlds recvs ⟨server, c, [], []⟩))
  | write {c : Client} {socket : Socket} {answered : List (Command × Bytes)} (sends : List Send)
      (strict : Bool) :
      Moves ⟨some c, socket, answered⟩
        (.afterWrite socket answered strict (writeClient c sends))
  | close {c : Client} {socket : Socket} {answered : List (Command × Bytes)} :
      Moves ⟨some c, socket, answered⟩ ⟨some { c with closing := true }, socket, answered⟩
  | drop {c : Client} {socket : Socket} {answered : List (Command × Bytes)}
      (closing : c.closing = true) : Moves ⟨some c, socket, answered⟩ ⟨none, socket, answered⟩

/-- `write_client` leaves the input side alone. -/
theorem writeClient_input (c : Client) (sends : List Send) :
    (writeClient c sends).1.inBuf = c.inBuf ∧ (writeClient c sends).1.closing = c.closing := by
  fun_induction writeClient c sends with
  | case3 c sends pending k left n c' handed ok wrote ih =>
    rw [wrote] at ih
    exact ih
  | case5 c sends pending ih => exact ih
  | _ => exact ⟨rfl, rfl⟩

end Moves

/-! ### Steps of the loop -/

section Steps

variable {net net' net'' : Net} {id : Nat} {c : Client}

/-- What is done for one client moves its connection and no other. -/
structure Net.Serves (id : Nat) (net net' : Net) : Prop where
  accepted : net'.accepted = net.accepted
  others : ∀ other, other ≠ id → net'.view other = net.view other
  moves : ReflTransGen Moves (net.view id) (net'.view id)

theorem Net.Serves.refl (id : Nat) (net : Net) : net.Serves id net :=
  ⟨rfl, fun _ _ => rfl, .refl⟩

theorem Net.Serves.trans (first : net.Serves id net') (second : net'.Serves id net'') :
    net.Serves id net'' :=
  ⟨second.accepted.trans first.accepted,
    fun other apart => (second.others other apart).trans (first.others other apart),
    first.moves.trans second.moves⟩

theorem Net.view_some (found : net.clients id = some c) :
    net.view id = ⟨some c, net.sockets id, (net.exchanges id).map fun x => (x.cmd, x.reply)⟩ := by
  rw [view, found]

theorem Net.serves_close (found : net.clients id = some c) :
    net.Serves id (net.put id { c with closing := true }) := by
  refine ⟨rfl, ?_, .single ?_⟩
  · intro other apart
    simp [view, put, exchanges, apart]
  · rw [view_some found]
    simp only [view, put, exchanges, Function.update_self]
    exact .close

theorem Net.exchanges_read (net : Net) (id : Nat) (c : Client) (worlds : Nat → World)
    (recvs : List Recv) :
    (net.read id c worlds recvs).exchanges id = net.exchanges id ++
      (readClient worlds recvs ⟨net.server, c, [], []⟩).1.answered.map
        fun (cmd, reply) => ⟨id, cmd, reply⟩ := by
  rw [exchanges, read, List.filter_append, List.filter_map, exchanges]
  simp [Function.comp_def]

theorem Net.exchanges_read_other {other : Nat} (apart : id ≠ other) (c : Client)
    (worlds : Nat → World) (recvs : List Recv) :
    (net.read id c worlds recvs).exchanges other = net.exchanges other := by
  rw [exchanges, read, List.filter_append, List.filter_map, exchanges]
  simp [Function.comp_def, apart]

theorem Net.serves_read (found : net.clients id = some c) (opened : c.closing = false)
    (worlds : Nat → World) (recvs : List Recv) :
    net.Serves id (net.read id c worlds recvs) := by
  refine ⟨rfl, ?_, .single ?_⟩
  · intro other apart
    rw [view, exchanges_read_other apart.symm]
    simp [view, read, put, apart]
  · have view : (net.read id c worlds recvs).view id =
        .afterRead (net.sockets id) ((net.exchanges id).map fun x => (x.cmd, x.reply))
          (readClient worlds recvs ⟨net.server, c, [], []⟩) := by
      rw [Net.view, exchanges_read]
      simp [read, put, View.afterRead, Function.comp_def]
    rw [view_some found, view]
    exact .read net.server worlds recvs opened

theorem Net.serves_write (found : net.clients id = some c) (sends : List Send) (strict : Bool) :
    net.Serves id (net.write id c sends strict) := by
  refine ⟨rfl, ?_, .single ?_⟩
  · intro other apart
    simp [view, write, put, exchanges, apart]
  · have view : (net.write id c sends strict).view id =
        .afterWrite (net.sockets id) ((net.exchanges id).map fun x => (x.cmd, x.reply)) strict
          (writeClient c sends) := by
      simp [Net.view, write, put, exchanges, View.afterWrite]
    rw [view_some found, view]
    exact .write sends strict

theorem Net.serves_when {test : Client → Bool} {act : Client → Net}
    (acts : ∀ c, net.clients id = some c → test c = true → net.Serves id (act c)) :
    net.Serves id (net.when id test act) := by
  unfold Net.when
  split
  · exact .refl id net
  · rename_i c found
    split_ifs with passes
    · exact acts c found passes
    · exact .refl id net

theorem Net.serves_flush {net : Net} (id : Nat) (test : Client → Bool) (sends : List Send)
    (strict : Bool) : net.Serves id (net.when id test fun c => net.write id c sends strict) :=
  serves_when fun _ found _ => serves_write found sends strict

/-- **The body of the loop serves one client.** -/
theorem Net.serves_serve (net : Net) (id : Nat) (ready : Ready) (calls : Calls) :
    net.Serves id (net.serve id ready calls) := by
  refine serves_when fun c found opened => ?_
  rw [Bool.not_eq_true'] at opened
  dsimp only
  split
  · exact serves_close found
  · have reads : net.Serves id
        (if ready.readable then net.read id c calls.worlds calls.recvs else net) := by
      split_ifs
      · exact serves_read found opened _ _
      · exact .refl id net
    exact reads.trans ((serves_flush id _ calls.sends true).trans (serves_flush id _ _ false))

/-- A connection is reached from nothing by its own moves. -/
structure Net.Traced (net : Net) (id : Nat) : Prop where
  fresh : net.accepted ≤ id → net.view id = .unborn
  moves : ReflTransGen Moves .unborn (net.view id)

theorem Net.Serves.traced (serves : net.Serves id net') {other : Nat}
    (traced : net.Traced other) (known : net.accepted ≤ id → net' = net) : net'.Traced other := by
  by_cases same : other = id
  · subst same
    refine ⟨fun late => ?_, traced.moves.trans serves.moves⟩
    rw [serves.accepted] at late
    rw [known late, traced.fresh late]
  · have kept := serves.others other same
    exact ⟨fun late => by rw [kept, traced.fresh (serves.accepted ▸ late)], kept ▸ traced.moves⟩

theorem Net.serve_absent (absent : net.clients id = none) (ready : Ready) (calls : Calls) :
    net.serve id ready calls = net := by
  rw [serve, Net.when, absent]

theorem Net.Traced.accept (traced : net.Traced id) (subscribed : Int) (registered : Bool) :
    (net.accept subscribed registered).Traced id := by
  by_cases new : id = net.accepted
  · have born : net.view id = .unborn := traced.fresh new.ge
    obtain ⟨_, socket, answered⟩ := View.mk.inj born
    have view : (net.accept subscribed registered).view id =
        ⟨some { clientInit subscribed with closing := !registered }, ⟨[], [], none⟩, []⟩ := by
      rw [Net.view]
      congr 1
      simp [Net.accept, put, new]
    refine ⟨fun late => absurd late (by simp [Net.accept, new]), ?_⟩
    rw [view]
    exact .single (.accept subscribed registered)
  · have kept : (net.accept subscribed registered).view id = net.view id := by
      simp [Net.view, Net.accept, put, exchanges, new]
    refine ⟨fun late => ?_, kept ▸ traced.moves⟩
    have late : net.accepted + 1 ≤ id := late
    rw [kept, traced.fresh (by omega)]

theorem Net.Traced.compact (traced : net.Traced id) : net.compact.Traced id := by
  cases found : net.clients id with
  | none =>
    have kept : net.compact.view id = net.view id := by simp [view, Net.compact, exchanges, found]
    exact ⟨fun late => kept.trans (traced.fresh late), kept ▸ traced.moves⟩
  | some c =>
    have view := view_some found
    refine ⟨fun late => ?_, traced.moves.trans ?_⟩
    · have born := traced.fresh late
      rw [view] at born
      cases born
    · by_cases closing : c.closing = true
      · rw [view]
        refine .single ?_
        simp only [Net.view, Net.compact, exchanges, found, Option.filter_some, closing]
        exact .drop closing
      · have kept : net.compact.view id = net.view id := by
          simp [Net.view, Net.compact, exchanges, found, closing]
        rw [kept]

theorem Net.Traced.step (traced : ∀ id, net.Traced id) (event : NetEvent) (id : Nat) :
    (net.step event).Traced id := by
  cases event with
  | accept subscribed registered => exact (traced id).accept subscribed registered
  | serve served ready calls =>
    refine (serves_serve net served ready calls).traced (traced id) fun late => ?_
    exact serve_absent (congrArg View.client ((traced served).fresh late)) ready calls
  | child i move => exact ⟨(traced id).fresh, (traced id).moves⟩
  | signal => exact ⟨(traced id).fresh, (traced id).moves⟩
  | turn now io =>
    have done := (traced id).compact
    exact ⟨done.fresh, done.moves⟩

theorem Net.run_append (net : Net) (front back : List NetEvent) :
    net.run (front ++ back) = (net.run front).run back :=
  List.foldl_append

/-- **A connection is reached by its own moves, whatever else the server does.** -/
theorem run_view (s : Server) (events : List NetEvent) (id : Nat) :
    ReflTransGen Moves .unborn (((Net.start s).run events).view id) := by
  have all : ∀ id, ((Net.start s).run events).Traced id := by
    induction events using List.reverseRecOn with
    | nil => exact fun id => ⟨fun _ => rfl, .refl⟩
    | append_singleton events event ih =>
      rw [Net.run_append]
      exact Net.Traced.step ih event
  exact (all id).moves

/-- **What the moves keep holds of every connection at every point of a run.** -/
theorem run_keeps {P : View → Prop} (start : P .unborn)
    (keeps : ∀ {before later}, Moves before later → P before → P later) (s : Server)
    (events : List NetEvent) (id : Nat) : P (((Net.start s).run events).view id) := by
  generalize ((Net.start s).run events).view id = view, run_view s events id = reached
  induction reached with
  | refl => exact start
  | tail _ move ih => exact keeps move ih

end Steps

end Miniredis
