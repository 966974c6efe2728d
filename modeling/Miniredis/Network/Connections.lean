/-
**Clients, their memory and their descriptors (`server.c`).**

Descriptors and addresses are used again once they are free, so the loops rely on what they have
forgotten by then: the array, the memory of the clients, the open descriptors and the table of
`epoll` have to describe the same connections whenever the loop waits.

* `Placed` — the array holds every client that is allocated, each with a descriptor of its own that
  is open; `Linked` — `epoll` watches the listening socket and the clients that are not closing,
  under their own pointers.
* `Shows` — the server and its clients are those of a `Net`, which knows no memory and no
  descriptors.
* `Amends`, `Adds`, `Removes` — all that is done to a connection, and what each keeps.
* `serveEpoll_sound`, `serveSelect_sound`, `acceptClients_sound`, `clientFree_ends` — the parts of
  the loops do not fail and keep all of it.
-/

import Miniredis.Model.EventLoops
import Miniredis.Network.Loop

namespace Miniredis

open Function (update update_eq_self_iff update_of_ne update_self)

theorem Net.when_some {net : Net} {id : Nat} {c : Client} (found : net.clients id = some c)
    (test : Client → Bool) (act : Client → Net) :
    net.when id test act = if test c then act c else net := by
  rw [Net.when, found]

namespace Loop

/-! ### Invariants -/

section Invariants

/-- The descriptor of the client at an address. -/
def descriptor (l : Loop) (p : Nat) : Option Nat := (l.heap.get p).map Conn.fd

/-- The number of the client at an address. -/
def number (l : Loop) (p : Nat) : Option Nat := (l.heap.get p).map Conn.id

/-- The array, the memory and the open descriptors describe the same connections. -/
structure Placed (epoll : Bool) (base : List Nat) (l : Loop) (arr : List Nat) : Prop where
  distinct : arr.Nodup
  allocated : ∀ p, (l.heap.get p).isSome ↔ p ∈ arr
  unique : l.opened.Nodup
  opened : ∀ fd, fd ∈ l.opened ↔ fd ∈ base ∨ ∃ p, l.descriptor p = some fd
  apart : ∀ {p fd}, l.descriptor p = some fd → fd ∉ base
  own : ∀ {p q fd}, l.descriptor p = some fd → l.descriptor q = some fd → p = q
  selectable : epoll = false → ∀ {p fd}, l.descriptor p = some fd → fd < fdSetsize
  numbered : ∀ {p id}, l.number p = some id → id < l.accepted
  single : ∀ {p q id}, l.number p = some id → l.number q = some id → p = q
  room : arr.length ≤ l.cap
  few : arr.length ≤ maxClients

/-- Under no pointer `epoll` watches the listening socket, the first of the process's own
descriptors, for input; `select()` watches nothing beyond a call. -/
def Listens (epoll : Bool) (base : List Nat) (watch : Nat → Option (Interest × Option Nat)) :
    Prop :=
  ∀ fd events, watch fd = some (events, none) ↔
    epoll = true ∧ base.head? = some fd ∧ events = ⟨true, false⟩

/-- `epoll` watches descriptors of clients under their pointers, those of all clients that are not
closing, and the listening socket. -/
structure Linked (epoll : Bool) (base : List Nat) (l : Loop) : Prop where
  watched : ∀ {fd events p}, l.watch fd = some (events, some p) →
    ∃ c, l.heap.get p = some c ∧ c.fd = fd ∧ c.events = events
  registered : epoll = true → ∀ {p c}, l.heap.get p = some c → c.client.closing = false →
    l.watch c.fd = some (c.events, some p)
  listens : Listens epoll base l.watch

/-- The server and the clients are those of `net`. -/
structure Shows (l : Loop) (net : Net) : Prop where
  server : net.server = l.server
  accepted : net.accepted = l.accepted
  sockets : net.sockets = l.sockets
  history : net.history = l.history
  clients : ∀ {p c}, l.heap.get p = some c → net.clients c.id = some c.client
  only : ∀ {id client}, net.clients id = some client → ∃ p, l.number p = some id

/-- Everything the loops rely on. -/
structure Sound (epoll : Bool) (base : List Nat) (net : Net) (l : Loop) (arr : List Nat) :
    Prop where
  placed : l.Placed epoll base arr
  linked : l.Linked epoll base
  shows : l.Shows net

variable {epoll : Bool} {base arr : List Nat} {net net' : Net} {l l' : Loop} {p : Nat} {c c' : Conn}

theorem Placed.get (placed : l.Placed epoll base arr) (member : p ∈ arr) :
    ∃ c, l.heap.get p = some c := Option.isSome_iff_exists.mp ((placed.allocated p).mpr member)

theorem Placed.open (placed : l.Placed epoll base arr) (found : l.heap.get p = some c) :
    c.fd ∈ l.opened := by
  refine (placed.opened c.fd).mpr (.inr ⟨p, ?_⟩)
  rw [descriptor, found]
  rfl

theorem start_sound (epoll : Bool) (s : Server) {listen : Nat} {others : List Nat}
    (distinct : (listen :: others).Nodup) :
    (Loop.start epoll s listen others).Sound epoll (listen :: others) (Net.start s) [] where
  placed :=
    { distinct := .nil
      allocated := fun p => by simp [Loop.start]
      unique := distinct
      opened := fun fd => by simp [Loop.start, descriptor]
      apart := by simp [Loop.start, descriptor]
      own := by simp [Loop.start, descriptor]
      selectable := by simp [Loop.start, descriptor]
      numbered := by simp [Loop.start, number]
      single := by simp [Loop.start, number]
      room := Nat.zero_le _
      few := Nat.zero_le _ }
  linked := ⟨by simp [Loop.start], by simp [Loop.start], fun fd events => by
    simp [Loop.start, and_assoc, eq_comm]⟩
  shows := ⟨rfl, rfl, rfl, rfl, by simp [Loop.start], by simp [Net.start]⟩

end Invariants

/-! ### A client changes -/

section Change

variable {epoll : Bool} {base arr : List Nat} {net net' : Net} {l : Loop} {p : Nat} {c c' : Conn}

/-- Descriptors and numbers stay where they are. -/
theorem projection_set {β : Type} (f : Conn → β) (found : l.heap.get p = some c)
    (same : f c' = f c) (q : Nat) :
    ((l.heap.set p c').get q).map f = (l.heap.get q).map f := by
  rw [Heap.get_set]
  split_ifs with here
  · rw [here, found, Option.map_some, Option.map_some, same]
  · rfl

/-- What places a client is its descriptor and its number. -/
theorem Placed.congr (placed : l.Placed epoll base arr) {l' : Loop}
    (descriptors : l'.descriptor = l.descriptor) (numbers : l'.number = l.number)
    (opened : l'.opened = l.opened) (accepted : l'.accepted = l.accepted) (cap : l'.cap = l.cap) :
    l'.Placed epoll base arr where
  distinct := placed.distinct
  allocated q := by
    have same : (l'.descriptor q).isSome = (l.descriptor q).isSome := by rw [descriptors]
    rw [descriptor, descriptor, Option.isSome_map, Option.isSome_map] at same
    rw [same]
    exact placed.allocated q
  unique := opened ▸ placed.unique
  opened := by rw [opened, descriptors]; exact placed.opened
  apart := by rw [descriptors]; exact placed.apart
  own := by rw [descriptors]; exact placed.own
  selectable := by rw [descriptors]; exact placed.selectable
  numbered := by rw [numbers, accepted]; exact placed.numbered
  single := by rw [numbers]; exact placed.single
  room := cap ▸ placed.room
  few := placed.few

/-- `l'` is `l` with another client at one address, which keeps its descriptor and its number. -/
structure Amends (p : Nat) (c c' : Conn) (l l' : Loop) : Prop where
  found : l.heap.get p = some c
  heap : l'.heap = l.heap.set p c'
  fd : c'.fd = c.fd
  id : c'.id = c.id
  clients : l'.clients = l.clients
  opened : l'.opened = l.opened
  accepted : l'.accepted = l.accepted
  cap : l'.cap = l.cap

variable {l' : Loop}

theorem Amends.get (amends : Amends p c c' l l') (q : Nat) :
    l'.heap.get q = if q = p then some c' else l.heap.get q := by
  rw [amends.heap, Heap.get_set]

theorem Amends.here (amends : Amends p c c' l l') : l'.heap.get p = some c' := by
  rw [amends.get, if_pos rfl]

theorem Amends.numbers (amends : Amends p c c' l l') : l'.number = l.number := by
  funext q
  rw [number, amends.heap]
  exact projection_set Conn.id amends.found amends.id q

theorem Placed.amend (placed : l.Placed epoll base arr) (amends : Amends p c c' l l') :
    l'.Placed epoll base arr := by
  refine placed.congr ?_ amends.numbers amends.opened amends.accepted amends.cap
  funext q
  rw [descriptor, amends.heap]
  exact projection_set Conn.fd amends.found amends.fd q

/-- What is watched under a pointer does not matter to the listening socket. -/
theorem Listens.update {watch : Nat → Option (Interest × Option Nat)}
    (listens : Listens epoll base watch) {fd : Nat} (foreign : fd ∉ base)
    {entry : Option (Interest × Option Nat)} (pointer : ∀ events, entry ≠ some (events, none)) :
    Listens epoll base (update watch fd entry) := by
  intro other events
  by_cases same : other = fd
  · rw [same, update_self, iff_false_left (pointer events)]
    exact fun ⟨_, first, _⟩ => foreign (List.mem_of_mem_head? first)
  · rw [update_of_ne same]
    exact listens other events

theorem Placed.foreign (placed : l.Placed epoll base arr) (found : l.heap.get p = some c) :
    c.fd ∉ base := by
  refine placed.apart (p := p) ?_
  rw [descriptor, found]
  rfl

/-- What is watched stays as it is. -/
theorem Linked.amend (linked : l.Linked epoll base) (amends : Amends p c c' l l')
    (watch : l'.watch = l.watch) (events : c'.events = c.events)
    (closes : c'.client.closing = false → c.client.closing = false) : l'.Linked epoll base where
  watched {fd events' q} there := by
    rw [watch] at there
    obtain ⟨d, got, here, same⟩ := linked.watched there
    by_cases at' : q = p
    · subst at'
      obtain rfl := Option.some.inj (amends.found.symm.trans got)
      exact ⟨c', amends.here, amends.fd.trans here, events.trans same⟩
    · exact ⟨d, by rw [amends.get, if_neg at', got], here, same⟩
  registered on {q d} got opened := by
    rw [amends.get] at got
    rw [watch]
    split_ifs at got with here
    · obtain rfl := Option.some.inj got
      rw [amends.fd, events, here]
      exact linked.registered on amends.found (closes opened)
    · exact linked.registered on got opened
  listens := watch ▸ linked.listens

/-- What is watched of the client changes with its record of it. -/
theorem Linked.rewatch (linked : l.Linked epoll base) (placed : l.Placed epoll base arr)
    (amends : Amends p c c' l l')
    (watch : l'.watch = update l.watch c.fd (some (c'.events, some p))) :
    l'.Linked epoll base where
  watched {fd events' q} there := by
    rw [watch] at there
    by_cases same : fd = c.fd
    · rw [same, update_self] at there
      cases there
      exact ⟨c', amends.here, amends.fd.trans same.symm, rfl⟩
    · rw [update_of_ne same] at there
      obtain ⟨d, got, here, events⟩ := linked.watched there
      have away : q ≠ p := by
        rintro rfl
        obtain rfl := Option.some.inj (amends.found.symm.trans got)
        exact same here.symm
      exact ⟨d, by rw [amends.get, if_neg away, got], here, events⟩
  registered on {q d} got opened := by
    rw [amends.get] at got
    rw [watch]
    split_ifs at got with here
    · obtain rfl := Option.some.inj got
      rw [amends.fd, update_self, here]
    · have away : d.fd ≠ c.fd := by
        intro same
        have first : l.descriptor q = some d.fd := by rw [descriptor, got]; rfl
        have second : l.descriptor p = some d.fd := by rw [descriptor, amends.found, same]; rfl
        exact here (placed.own first second)
      rw [update_of_ne away]
      exact linked.registered on got opened
  listens := by
    rw [watch]
    exact linked.listens.update (placed.foreign amends.found) fun _ same => nomatch same

theorem Shows.amend (shows : l.Shows net) (placed : l.Placed epoll base arr)
    (amends : Amends p c c' l l') (server : net'.server = l'.server)
    (accepted : net'.accepted = net.accepted) (sockets : net'.sockets = l'.sockets)
    (history : net'.history = l'.history)
    (clients : net'.clients = update net.clients c.id (some c'.client)) :
    l'.Shows net' where
  server := server
  accepted := accepted.trans (shows.accepted.trans amends.accepted.symm)
  sockets := sockets
  history := history
  clients {q d} got := by
    rw [amends.get] at got
    rw [clients]
    split_ifs at got with here
    · obtain rfl := Option.some.inj got
      rw [amends.id, update_self]
    · have apart : d.id ≠ c.id := by
        intro same
        have first : l.number q = some d.id := by rw [number, got]; rfl
        have second : l.number p = some d.id := by rw [number, amends.found, same]; rfl
        exact here (placed.single first second)
      rw [update_of_ne apart]
      exact shows.clients got
  only {id client} there := by
    rw [amends.numbers]
    rw [clients] at there
    by_cases same : id = c.id
    · exact ⟨p, by rw [number, amends.found, same]; rfl⟩
    · rw [update_of_ne same] at there
      exact shows.only there

/-- The connections are still those of `net` when a client changes that `net` does not know of. -/
theorem Shows.keep (shows : l.Shows net) (placed : l.Placed epoll base arr)
    (amends : Amends p c c' l l') (client : c'.client = c.client) (server : l'.server = l.server)
    (sockets : l'.sockets = l.sockets) (history : l'.history = l.history) : l'.Shows net := by
  refine shows.amend placed amends (shows.server.trans server.symm) rfl
    (shows.sockets.trans sockets.symm) (shows.history.trans history.symm) ?_
  rw [client, eq_comm, update_eq_self_iff]
  exact (shows.clients amends.found).symm

end Change

/-! ### A client is served -/

section Serve

variable {epoll : Bool} {base arr : List Nat} {net net' : Net} {l l' l'' : Loop} {p : Nat}
  {c : Conn}

/-- The events recorded for a client are those wanted, unless it is closing. -/
def PromptAt (p : Nat) (l : Loop) : Prop :=
  ∀ {c}, l.heap.get p = some c → c.client.closing = false → c.events = want c.client

/-- What serving the client at `p` leaves as it was. -/
structure Serves (p : Nat) (l l' : Loop) : Prop where
  clients : l'.clients = l.clients
  numbers : l'.number = l.number
  others : ∀ q, q ≠ p → l'.heap.get q = l.heap.get q

theorem Serves.refl (p : Nat) (l : Loop) : Serves p l l := ⟨rfl, rfl, fun _ _ => rfl⟩

theorem Serves.trans (first : Serves p l l') (second : Serves p l' l'') : Serves p l l'' :=
  ⟨second.clients.trans first.clients, second.numbers.trans first.numbers,
    fun q apart => (second.others q apart).trans (first.others q apart)⟩

theorem Amends.serves {c' : Conn} (amends : Amends p c c' l l') : Serves p l l' :=
  ⟨amends.clients, amends.numbers, fun q apart => by rw [amends.get, if_neg apart]⟩

/-- The client is still there, under the same number. -/
theorem Serves.get (serves : Serves p l l') (found : l.heap.get p = some c) :
    ∃ c', l'.heap.get p = some c' ∧ c'.id = c.id := by
  have same := congrFun serves.numbers p
  rw [number, number, found, Option.map_some] at same
  exact Option.map_eq_some_iff.mp same

theorem put_ends (found : l.heap.get p = some c) (c' : Conn) :
    Ends (l.put p c') (· = { l with heap := l.heap.set p c' }) := by
  rw [put, Heap.put_of_get found]
  exact .some rfl

/-- **The client at `p` changes as that of `net` does**, and what is watched does not. -/
theorem Sound.amend {c' : Conn} (sound : l.Sound epoll base net arr) (amends : Amends p c c' l l')
    (watch : l'.watch = l.watch) (events : c'.events = c.events)
    (closes : c'.client.closing = false → c.client.closing = false)
    (server : net'.server = l'.server) (accepted : net'.accepted = net.accepted)
    (sockets : net'.sockets = l'.sockets) (history : net'.history = l'.history)
    (clients : net'.clients = update net.clients c.id (some c'.client)) :
    l'.Sound epoll base net' arr :=
  ⟨sound.placed.amend amends, sound.linked.amend amends watch events closes,
    sound.shows.amend sound.placed amends server accepted sockets history clients⟩

/-- **`read_client` in the loop.** -/
theorem read_sound (sound : l.Sound epoll base net arr) (found : l.heap.get p = some c)
    (opened : c.client.closing = false) (calls : Calls) :
    Ends (l.read p calls) fun result =>
      result.1.Sound epoll base (net.read c.id c.client calls.worlds calls.recvs) arr ∧
        Serves p l result.1 ∧ (result.2 = false → PromptAt p result.1) := by
  have server := sound.shows.server
  have sockets := sound.shows.sockets
  have history := sound.shows.history
  unfold read Net.read
  rw [found, server, sockets, history]
  show Ends (if c.fd ∉ l.opened then none else _) _
  rw [if_neg (not_not.mpr (sound.placed.open found))]
  generalize readClient calls.worlds calls.recvs ⟨l.server, c.client, [], []⟩ = result
  obtain ⟨x, exit⟩ := result
  refine .bind (put_ends (c := c) (by exact found) _) ?_
  rintro _ rfl
  refine .some ⟨?_, ?_, ?_⟩
  · refine sound.amend ⟨found, rfl, rfl, rfl, rfl, rfl, rfl, rfl⟩ rfl rfl (fun _ => opened) rfl
      rfl rfl rfl rfl
  · exact Amends.serves ⟨found, rfl, rfl, rfl, rfl, rfl, rfl, rfl⟩
  · intro failed d got open'
    dsimp only at got
    rw [Heap.get_set_self] at got
    obtain rfl := Option.some.inj got
    rw [decide_eq_false_iff_not, not_le] at failed
    rw [if_pos failed] at open'
    cases open'

/-- **`write_client` in the loop.** -/
theorem write_sound (sound : l.Sound epoll base net arr) (found : l.heap.get p = some c)
    (sends : List Send) (strict : Bool) :
    Ends (l.write p sends strict) fun result =>
      result.1.Sound epoll base (net.write c.id c.client sends strict) arr ∧
        Serves p l result.1 ∧
        (strict = true ∧ result.2 = false ∨ c.client.closing = true → PromptAt p result.1) := by
  have server := sound.shows.server
  have sockets := sound.shows.sockets
  have history := sound.shows.history
  have closing := (writeClient_input c.client sends).2
  unfold write Net.write
  rw [found, sockets]
  show Ends (if c.fd ∉ l.opened then none else _) _
  rw [if_neg (not_not.mpr (sound.placed.open found))]
  generalize writeClient c.client sends = result at closing
  obtain ⟨client, handed, ok⟩ := result
  refine .bind (put_ends (c := c) (by exact found) _) ?_
  rintro _ rfl
  refine .some ⟨?_, ?_, ?_⟩
  · refine sound.amend ⟨found, rfl, rfl, rfl, rfl, rfl, rfl, rfl⟩ rfl rfl ?_ server
      rfl rfl history rfl
    intro open'
    dsimp only at open'
    split_ifs at open'
    rw [← closing, open']
  · exact Amends.serves ⟨found, rfl, rfl, rfl, rfl, rfl, rfl, rfl⟩
  · intro failed d got open'
    dsimp only at got
    rw [Heap.get_set_self] at got
    obtain rfl := Option.some.inj got
    dsimp only at open'
    split_ifs at open' with erred
    rcases failed with ⟨rfl, rfl⟩ | closed
    · exact absurd rfl erred
    · rw [closing, closed] at open'
      cases open'

/-- **`client_update_epoll`.** -/
theorem clientUpdateEpoll_sound (sound : l.Sound true base net arr)
    (found : l.heap.get p = some c) (ok : Bool) :
    Ends (l.clientUpdateEpoll p ok) fun l' =>
      l'.Sound true base net arr ∧ Serves p l l' ∧ (ok = true → PromptAt p l') := by
  unfold clientUpdateEpoll
  rw [found]
  show Ends (if want c.client = c.events then _ else _) _
  refine .ite (fun same => ?_) fun differs => ?_
  · refine .some ⟨sound, .refl p l, fun _ d got _ => ?_⟩
    obtain rfl := Option.some.inj (found.symm.trans got)
    exact same.symm
  rw [if_neg (not_not.mpr (sound.placed.open found))]
  refine .ite (fun accepted => ?_) fun refused => ?_
  · have amends : Amends p c { c with events := want c.client } l
        { l.register c.fd (want c.client) p with
          heap := l.heap.set p { c with events := want c.client } } :=
      ⟨found, rfl, rfl, rfl, rfl, rfl, rfl, rfl⟩
    refine Ends.mono (put_ends (c := c) (by exact found) _) ?_
    rintro _ rfl
    refine ⟨⟨sound.placed.amend amends, sound.linked.rewatch sound.placed amends rfl,
      sound.shows.keep sound.placed amends rfl rfl rfl rfl⟩, amends.serves, fun _ d got _ => ?_⟩
    obtain rfl := Option.some.inj (amends.here.symm.trans got)
    rfl
  · refine .some ⟨sound, .refl p l, fun agreed d got open' => ?_⟩
    obtain rfl := Option.some.inj (found.symm.trans got)
    rw [agreed, Bool.true_and, sound.linked.registered rfl found open'] at refused
    exact absurd rfl refused

theorem when_ends {test : Client → Bool} {act : Option Loop} {P : Loop → Prop}
    (found : l.heap.get p = some c) (yes : test c.client = true → Ends act P)
    (no : test c.client = false → P l) : Ends (l.when p test act) P := by
  unfold Loop.when
  rw [found]
  refine Ends.ite yes fun fails => .some (no ?_)
  rwa [Bool.not_eq_true] at fails

/-- **The final flush.** -/
theorem flush_sound (sound : l.Sound epoll base net arr) (found : l.heap.get p = some c)
    (calls : Calls) :
    Ends (l.flush p calls) fun l' =>
      l'.Sound epoll base
        (net.when c.id (fun d => d.closing && d.outSent < d.out.length)
          fun d => net.write c.id d calls.flush false) arr ∧
        Serves p l l' ∧ (PromptAt p l → PromptAt p l') := by
  refine when_ends found (fun passes => ?_) fun fails => ?_
  · rw [Net.when_some (sound.shows.clients found), if_pos passes]
    refine .map ((write_sound sound found calls.flush false).mono ?_)
    rintro result ⟨keeps, serves, prompt⟩
    rw [Bool.and_eq_true] at passes
    exact ⟨keeps, serves, fun _ => prompt (.inr passes.1)⟩
  · rw [Net.when_some (sound.shows.clients found), fails]
    exact ⟨sound, .refl p l, id⟩

theorem readEpoll_sound (sound : l.Sound true base net arr) (found : l.heap.get p = some c)
    (opened : c.client.closing = false) (calls : Calls) (ok : Bool) :
    Ends (l.readEpoll p calls ok) fun l' =>
      l'.Sound true base (net.read c.id c.client calls.worlds calls.recvs) arr ∧
        Serves p l l' ∧ (ok = true → PromptAt p l') := by
  refine (read_sound sound found opened calls).bind ?_
  rintro ⟨l', returned⟩ ⟨keeps, serves, failed⟩
  obtain ⟨c', found', _⟩ := serves.get found
  refine .ite (fun _ => ?_) fun erred => ?_
  · refine (clientUpdateEpoll_sound keeps found' ok).mono ?_
    rintro l'' ⟨keeps, later, prompt⟩
    exact ⟨keeps, serves.trans later, prompt⟩
  · exact .some ⟨keeps, serves, fun _ => failed (by simpa using erred)⟩

theorem writeEpoll_sound (sound : l.Sound true base net arr) (found : l.heap.get p = some c)
    (calls : Calls) (ok : Bool) :
    Ends (l.writeEpoll p calls ok) fun l' =>
      l'.Sound true base (net.write c.id c.client calls.sends true) arr ∧
        Serves p l l' ∧ (ok = true → PromptAt p l') := by
  refine (write_sound sound found calls.sends true).bind ?_
  rintro ⟨l', returned⟩ ⟨keeps, serves, failed⟩
  obtain ⟨c', found', _⟩ := serves.get found
  refine .ite (fun _ => ?_) fun erred => ?_
  · refine (clientUpdateEpoll_sound keeps found' ok).mono ?_
    rintro l'' ⟨keeps, later, prompt⟩
    exact ⟨keeps, serves.trans later, prompt⟩
  · exact .some ⟨keeps, serves, fun _ => failed (.inl ⟨rfl, by simpa using erred⟩)⟩

/-- Writing, if the client is not closing by now, and the final flush. -/
theorem finish_sound {write : Option Loop} (prompts : Prop) {writable : Bool} {calls : Calls}
    (sound : l.Sound epoll base net arr) (found : l.heap.get p = some c)
    (writes : Ends write fun l' =>
      l'.Sound epoll base (net.write c.id c.client calls.sends true) arr ∧
        Serves p l l' ∧ (prompts → PromptAt p l')) :
    Ends ((l.when p (fun d => !d.closing && writable) write).bind fun l' => l'.flush p calls)
      fun l' =>
        l'.Sound epoll base
          (let net := net.when c.id (fun d => !d.closing && writable) fun d =>
            net.write c.id d calls.sends true
          net.when c.id (fun d => d.closing && d.outSent < d.out.length) fun d =>
            net.write c.id d calls.flush false) arr ∧
          Serves p l l' ∧ (prompts → PromptAt p l → PromptAt p l') := by
  have written : Ends (l.when p (fun d => !d.closing && writable) write) fun l' =>
      l'.Sound epoll base (net.when c.id (fun d => !d.closing && writable) fun d =>
        net.write c.id d calls.sends true) arr ∧
        Serves p l l' ∧ (prompts → PromptAt p l → PromptAt p l') := by
    rw [Net.when_some (sound.shows.clients found)]
    refine when_ends found (fun passes => ?_) fun fails => ?_
    · rw [if_pos passes]
      refine writes.mono ?_
      rintro l' ⟨keeps, serves, prompt⟩
      exact ⟨keeps, serves, fun all _ => prompt all⟩
    · rw [fails]
      exact ⟨sound, .refl p l, fun _ => id⟩
  refine Ends.bind written ?_
  rintro l' ⟨keeps, serves, prompt⟩
  obtain ⟨c', found', same⟩ := serves.get found
  refine (flush_sound keeps found' calls).mono ?_
  rintro l'' ⟨keeps', serves', prompt'⟩
  rw [same] at keeps'
  exact ⟨keeps', serves.trans serves', fun all before => prompt' (prompt all before)⟩

/-- **One client in the `epoll` loop.** -/
theorem serveEpoll_sound (sound : l.Sound true base net arr) (found : l.heap.get p = some c)
    (ready : Ready) (calls : Calls) (oks : Bool × Bool) :
    Ends (l.serveEpoll p ready calls oks) fun l' =>
      l'.Sound true base (net.serve c.id ready calls) arr ∧ Serves p l l' ∧
        (oks = (true, true) → PromptAt p l → PromptAt p l') := by
  unfold serveEpoll Net.serve
  rw [Net.when_some (sound.shows.clients found)]
  refine when_ends found (fun opened => ?_) fun closed => ?_
  · rw [if_pos opened]
    rw [Bool.not_eq_true'] at opened
    refine .ite (fun broken => ?_) fun works => ?_
    · rw [if_pos broken, found]
      refine Ends.mono (put_ends (c := c) (by exact found) _) ?_
      rintro _ rfl
      have amends : Amends p c { c with client := { c.client with closing := true } } l
          { l with heap := l.heap.set p { c with client := { c.client with closing := true } } } :=
        ⟨found, rfl, rfl, rfl, rfl, rfl, rfl, rfl⟩
      refine ⟨sound.amend amends rfl rfl (fun _ => opened) sound.shows.server rfl
        sound.shows.sockets sound.shows.history rfl, amends.serves, fun _ _ d got open' => ?_⟩
      obtain rfl := Option.some.inj (amends.here.symm.trans got)
      cases open'
    · rw [if_neg works]
      have reads : Ends (if ready.readable then l.readEpoll p calls oks.1 else some l) fun l' =>
          l'.Sound true base (if ready.readable then
            net.read c.id c.client calls.worlds calls.recvs else net) arr ∧
            Serves p l l' ∧ (oks = (true, true) → PromptAt p l → PromptAt p l') := by
        split_ifs
        · refine (readEpoll_sound sound found opened calls oks.1).mono ?_
          rintro l' ⟨keeps, serves, prompt⟩
          exact ⟨keeps, serves, fun all _ => prompt (by rw [all])⟩
        · exact .some ⟨sound, .refl p l, fun _ => id⟩
      refine Ends.bind reads ?_
      rintro l₁ ⟨sound₁, serves₁, prompt₁⟩
      obtain ⟨c₁, found₁, same₁⟩ := serves₁.get found
      rw [← same₁] at sound₁ ⊢
      refine (finish_sound (oks = (true, true)) sound₁ found₁
        ((writeEpoll_sound sound₁ found₁ calls oks.2).mono ?_)).mono ?_
      · rintro l' ⟨keeps, serves, prompt⟩
        exact ⟨keeps, serves, fun all => prompt (by rw [all])⟩
      · rintro l' ⟨keeps, serves, prompt⟩
        exact ⟨keeps, serves₁.trans serves, fun all before => prompt all (prompt₁ all before)⟩
  · rw [closed]
    exact ⟨sound, .refl p l, fun _ => id⟩

/-- **One client in the `select` loop**, whatever is in the sets. -/
theorem serveSelect_sound (sound : l.Sound false base net arr) (found : l.heap.get p = some c)
    (rset wset : List Nat) (calls : Nat → Calls) :
    Ends (serveSelect rset wset calls l p) fun l' =>
      l'.Sound false base (net.serve c.id ⟨c.fd ∈ rset, c.fd ∈ wset, false⟩ (calls p)) arr ∧
        Serves p l l' := by
  unfold serveSelect Net.serve
  rw [Net.when_some (sound.shows.clients found)]
  refine when_ends found (fun opened => ?_) fun closed => ?_
  · rw [if_pos opened]
    rw [Bool.not_eq_true'] at opened
    have small : c.fd < fdSetsize := by
      refine sound.placed.selectable rfl (p := p) ?_
      rw [descriptor, found]
      rfl
    rw [found]
    show Ends (if c.fd ≥ fdSetsize then none else _) _
    rw [if_neg (not_le.mpr small)]
    have reads : Ends (if c.fd ∈ rset then (l.read p (calls p)).map Prod.fst else some l) fun l' =>
        l'.Sound false base (if decide (c.fd ∈ rset) then
          net.read c.id c.client (calls p).worlds (calls p).recvs else net) arr ∧
          Serves p l l' := by
      simp only [decide_eq_true_eq]
      split_ifs
      · refine .map ((read_sound sound found opened (calls p)).mono ?_)
        rintro result ⟨keeps, serves, _⟩
        exact ⟨keeps, serves⟩
      · exact .some ⟨sound, .refl p l⟩
    refine Ends.bind reads ?_
    rintro l₁ ⟨sound₁, serves₁⟩
    obtain ⟨c₁, found₁, same₁⟩ := serves₁.get found
    rw [← same₁] at sound₁ ⊢
    refine (finish_sound False sound₁ found₁
      (.map ((write_sound sound₁ found₁ (calls p).sends true).mono ?_))).mono ?_
    · rintro result ⟨keeps, serves, _⟩
      exact ⟨keeps, serves, False.elim⟩
    · rintro l' ⟨keeps, serves, _⟩
      exact ⟨keeps, serves₁.trans serves⟩
  · rw [closed]
    exact ⟨sound, .refl p l⟩

end Serve

/-! ### Connections come and go -/

section Connections

variable {epoll : Bool} {base arr front back : List Nat} {net net' : Net} {l l' : Loop} {p : Nat}
  {c : Conn}

/-- `l'` is `l` with a new client at an address that was free, on a descriptor that was closed. -/
structure Adds (p : Nat) (c : Conn) (l l' : Loop) : Prop where
  free : l.heap.get p = none
  closed : c.fd ∉ l.opened
  get : ∀ q, l'.heap.get q = if q = p then some c else l.heap.get q
  id : c.id = l.accepted
  opened : l'.opened = c.fd :: l.opened
  accepted : l'.accepted = l.accepted + 1

theorem Adds.project {β : Type} (adds : Adds p c l l') (f : Conn → β) (q : Nat) :
    (l'.heap.get q).map f = if q = p then some (f c) else (l.heap.get q).map f := by
  rw [adds.get]
  split_ifs <;> rfl

theorem Placed.add (placed : l.Placed epoll base arr) (adds : Adds p c l l')
    (selectable : epoll = false → c.fd < fdSetsize) (room : arr.length < l'.cap)
    (few : arr.length < maxClients) : l'.Placed epoll base (arr ++ [p]) := by
  have fresh : p ∉ arr := by
    rw [← placed.allocated, adds.free]
    exact Bool.false_ne_true
  have descriptors : ∀ q, l'.descriptor q = if q = p then some c.fd else l.descriptor q :=
    adds.project Conn.fd
  have numbers : ∀ q, l'.number q = if q = p then some c.id else l.number q :=
    adds.project Conn.id
  have unused : ∀ {q}, l.descriptor q ≠ some c.fd := fun {q} same =>
    adds.closed ((placed.opened c.fd).mpr (.inr ⟨q, same⟩))
  have later : ∀ {q}, l.number q ≠ some c.id := fun {q} same => by
    have below := placed.numbered same
    rw [adds.id] at below
    exact below.false
  have gone : l.descriptor p = none := by rw [descriptor, adds.free]; rfl
  exact {
    distinct := by
      rw [List.nodup_append_comm, List.singleton_append, List.nodup_cons]
      exact ⟨fresh, placed.distinct⟩
    allocated := by
      intro q
      have known := placed.allocated q
      rw [adds.get, List.mem_append, List.mem_singleton]
      split_ifs with here
      · simp [here]
      · rw [known, or_iff_left here]
    unique := by
      rw [adds.opened]
      exact placed.unique.cons adds.closed
    opened := by
      intro fd
      rw [adds.opened, List.mem_cons, placed.opened fd]
      constructor
      · rintro (rfl | inside | ⟨q, there⟩)
        · exact .inr ⟨p, by rw [descriptors, if_pos rfl]⟩
        · exact .inl inside
        · refine .inr ⟨q, ?_⟩
          rw [descriptors, if_neg (by rintro rfl; rw [gone] at there; cases there), there]
      · rintro (inside | ⟨q, there⟩)
        · exact .inr (.inl inside)
        · rw [descriptors] at there
          split_ifs at there with here
          · exact .inl (Option.some.inj there).symm
          · exact .inr (.inr ⟨q, there⟩)
    apart := by
      intro q fd there
      rw [descriptors] at there
      split_ifs at there with here
      · obtain rfl := Option.some.inj there
        exact fun inside => adds.closed ((placed.opened _).mpr (.inl inside))
      · exact placed.apart there
    own := by
      intro q r fd first second
      rw [descriptors] at first second
      split_ifs at first second with here there there
      · exact here.trans there.symm
      · exact absurd (second.trans first.symm) unused
      · exact absurd (first.trans second.symm) unused
      · exact placed.own first second
    selectable := by
      intro off q fd there
      rw [descriptors] at there
      split_ifs at there with here
      · exact Option.some.inj there ▸ selectable off
      · exact placed.selectable off there
    numbered := by
      intro q id there
      rw [numbers] at there
      rw [adds.accepted]
      split_ifs at there with here
      · rw [← Option.some.inj there, adds.id]
        exact Nat.lt_succ_self _
      · exact (placed.numbered there).trans (Nat.lt_succ_self _)
    single := by
      intro q r id first second
      rw [numbers] at first second
      split_ifs at first second with here there there
      · exact here.trans there.symm
      · exact absurd (second.trans first.symm) later
      · exact absurd (first.trans second.symm) later
      · exact placed.single first second
    room := by simpa using room
    few := by simpa using few }

/-- What is watched is the same, and the new client closing, or its descriptor is new. -/
theorem Linked.add (linked : l.Linked epoll base) (placed : l.Placed epoll base arr)
    (adds : Adds p c l l')
    (watch : l'.watch = l.watch ∧ (epoll = true → c.client.closing = true) ∨
      l'.watch = update l.watch c.fd (some (c.events, some p))) :
    l'.Linked epoll base := by
  have elsewhere : ∀ {q d}, l.heap.get q = some d → q ≠ p ∧ d.fd ≠ c.fd := by
    intro q d got
    refine ⟨?_, fun same => adds.closed (same ▸ placed.open got)⟩
    rintro rfl
    rw [adds.free] at got
    cases got
  constructor
  · intro fd events q there
    have old : l.watch fd = some (events, some q) →
        ∃ d, l'.heap.get q = some d ∧ d.fd = fd ∧ d.events = events := by
      intro before
      obtain ⟨d, got, here, same⟩ := linked.watched before
      exact ⟨d, by rw [adds.get, if_neg (elsewhere got).1, got], here, same⟩
    rcases watch with ⟨kept, _⟩ | new
    · exact old (kept ▸ there)
    · rw [new] at there
      by_cases same : fd = c.fd
      · rw [same, update_self] at there
        cases there
        exact ⟨c, by rw [adds.get, if_pos rfl], same.symm, rfl⟩
      · rw [update_of_ne same] at there
        exact old there
  · intro on q d got open'
    rw [adds.get] at got
    split_ifs at got with here
    · obtain rfl := Option.some.inj got
      rcases watch with ⟨_, closing⟩ | new
      · rw [closing on] at open'
        cases open'
      · rw [new, here, update_self]
    · have before := linked.registered on got open'
      rcases watch with ⟨kept, _⟩ | new
      · rw [kept, before]
      · rw [new, update_of_ne (elsewhere got).2, before]
  · rcases watch with ⟨kept, _⟩ | new
    · rw [kept]
      exact linked.listens
    · rw [new]
      exact linked.listens.update (fun own => adds.closed ((placed.opened _).mpr (.inl own)))
        fun _ same => nomatch same

theorem Shows.add (shows : l.Shows net) (placed : l.Placed epoll base arr) (adds : Adds p c l l')
    (server : l'.server = l.server) (sockets : l'.sockets = l.sockets)
    (history : l'.history = l.history) {subscribed : Int} {registered : Bool}
    (client : c.client = { clientInit subscribed with closing := !registered }) :
    l'.Shows (net.accept subscribed registered) := by
  have clients : (net.accept subscribed registered).clients =
      update net.clients c.id (some c.client) := by
    rw [client, adds.id, ← shows.accepted]
    rfl
  refine ⟨shows.server.trans server.symm, ?_, shows.sockets.trans sockets.symm,
    shows.history.trans history.symm, ?_, ?_⟩
  · rw [adds.accepted, ← shows.accepted]
    rfl
  · intro q d got
    rw [adds.get] at got
    rw [clients]
    split_ifs at got with here
    · obtain rfl := Option.some.inj got
      rw [update_self]
    · have below : d.id < l.accepted := placed.numbered (p := q) (by rw [number, got]; rfl)
      rw [update_of_ne (by rw [adds.id]; exact below.ne)]
      exact shows.clients got
  · intro id there found
    rw [clients] at found
    have numbers := adds.project Conn.id
    by_cases same : id = c.id
    · exact ⟨p, by rw [number, numbers, if_pos rfl, same]⟩
    · rw [update_of_ne same] at found
      obtain ⟨q, known⟩ := shows.only found
      refine ⟨q, ?_⟩
      rw [number, numbers, if_neg ?_]
      · exact known
      · rintro rfl
        rw [number, adds.free] at known
        cases known

/-- The events recorded for each client are those wanted. -/
def Prompt (l : Loop) : Prop := ∀ p, PromptAt p l

/-- What a new connection leaves as it was. -/
structure Extends (epoll : Bool) (l l' : Loop) : Prop where
  clients : ∀ q ∈ l.clients, q ∈ l'.clients
  others : ∀ q ∈ l.clients, l'.heap.get q = l.heap.get q
  prompt : epoll = true → Prompt l → Prompt l'

theorem Extends.refl (epoll : Bool) (l : Loop) : Extends epoll l l :=
  ⟨fun _ => id, fun _ _ => rfl, fun _ => id⟩

theorem Extends.trans {l'' : Loop} (first : Extends epoll l l') (second : Extends epoll l' l'') :
    Extends epoll l l'' :=
  ⟨fun q inside => second.clients q (first.clients q inside),
    fun q inside => (second.others q (first.clients q inside)).trans (first.others q inside),
    fun on before => second.prompt on (first.prompt on before)⟩

/-- **A new client**, appended to the array. -/
theorem Sound.add (sound : l.Sound epoll base net l.clients) (adds : Adds p c l l')
    (clients : l'.clients = l.clients ++ [p]) (selectable : epoll = false → c.fd < fdSetsize)
    (room : l.clients.length < l'.cap) (few : l.clients.length < maxClients)
    (watch : l'.watch = l.watch ∧ (epoll = true → c.client.closing = true) ∨
      l'.watch = update l.watch c.fd (some (c.events, some p)))
    (server : l'.server = l.server) (sockets : l'.sockets = l.sockets)
    (history : l'.history = l.history) {subscribed : Int} {registered : Bool}
    (client : c.client = { clientInit subscribed with closing := !registered })
    (prompt : epoll = true → c.client.closing = false → c.events = want c.client) :
    l'.Sound epoll base (net.accept subscribed registered) l'.clients ∧ Extends epoll l l' := by
  refine ⟨⟨?_, sound.linked.add sound.placed adds watch,
    sound.shows.add sound.placed adds server sockets history client⟩, ?_, ?_, ?_⟩
  · rw [clients]
    exact sound.placed.add adds selectable room few
  · intro q inside
    rw [clients]
    exact List.mem_append_left _ inside
  · intro q inside
    rw [adds.get, if_neg]
    rintro rfl
    rw [← sound.placed.allocated, adds.free] at inside
    cases inside
  · intro on before q d got open'
    rw [adds.get] at got
    split_ifs at got with here
    · obtain rfl := Option.some.inj got
      exact prompt on open'
    · exact before q got open'

theorem grow_spec (room : l.clients.length ≤ l.cap) :
    ∃ cap, l.grow = { l with cap := cap } ∧ l.clients.length < cap := by
  unfold grow
  split_ifs with full empty
  · exact ⟨16, rfl, by omega⟩
  · exact ⟨l.cap * 2, rfl, by omega⟩
  · exact ⟨l.cap, rfl, by omega⟩

theorem push_ends (room : l.clients.length < l.cap) (p : Nat) :
    Ends (l.push p) (· = { l with clients := l.clients ++ [p] }) := by
  rw [push, if_pos room]
  exact .some rfl

/-- **A connection becomes a client.** -/
theorem acceptOne_sound (sound : l.Sound epoll base net l.clients) {fd : Nat}
    (closed : fd ∉ l.opened) (selectable : epoll = false → fd < fdSetsize)
    (few : l.clients.length < maxClients)
    (addr : Fresh) (subscribed : Int) (registered : Bool) :
    Ends (Loop.acceptOne { l with opened := fd :: l.opened } epoll fd addr subscribed registered)
      fun l' => l'.Sound epoll base (net.accept subscribed (registered || !epoll)) l'.clients ∧
        Extends epoll l l' := by
  obtain ⟨cap, grown, room⟩ := @grow_spec { l with opened := fd :: l.opened } sound.placed.room
  have free := l.heap.get_fresh addr
  unfold acceptOne
  rw [grown]
  refine .bind (push_ends (by exact room) _) ?_
  rintro _ rfl
  dsimp only
  generalize addr.pick l.heap.addresses = p at free
  refine .ite (fun off => ?_) fun on => ?_
  · have off : epoll = false := by simpa using off
    subst off
    rw [Bool.not_false, Bool.or_true]
    refine (Ends.some rfl : Ends _ (· = _)).mono fun l' same => ?_
    refine sound.add (c := ⟨fd, clientInit subscribed, ⟨false, false⟩, l.accepted⟩)
      ⟨free, closed, fun q => ?_, rfl, by rw [same], by rw [same]⟩ (by rw [same]) selectable
      (by rw [same]; exact room) few (.inl ⟨by rw [same], by simp⟩) (by rw [same]) (by rw [same])
      (by rw [same]) rfl (by simp)
    rw [same]
    exact Heap.get_set _ _ _ _
  · have on : epoll = true := by simpa using on
    subst on
    rw [Bool.not_true, Bool.or_false]
    refine .ite (fun agreed => ?_) fun refused => ?_
    · refine Ends.mono (put_ends (Heap.get_set_self _ _ _) _) fun l' same => ?_
      refine sound.add (c := ⟨fd, clientInit subscribed, ⟨true, false⟩, l.accepted⟩)
        ⟨free, closed, fun q => ?_, rfl, by rw [same]; rfl, by rw [same]; rfl⟩ (by rw [same]; rfl)
        selectable (by rw [same]; exact room) few (.inr (by rw [same]; rfl)) (by rw [same]; rfl)
        (by rw [same]; rfl) (by rw [same]; rfl) (by rw [agreed]; rfl) fun _ _ => rfl
      rw [same]
      exact Heap.get_set_set _ _ _ _ _
    · refine Ends.mono (put_ends (Heap.get_set_self _ _ _) _) fun l' same => ?_
      rw [Bool.not_eq_true] at refused
      refine sound.add
        (c := ⟨fd, { clientInit subscribed with closing := true }, ⟨false, false⟩, l.accepted⟩)
        ⟨free, closed, fun q => ?_, rfl, by rw [same], by rw [same]⟩ (by rw [same]) selectable
        (by rw [same]; exact room) few (.inl ⟨by rw [same], fun _ => rfl⟩) (by rw [same])
        (by rw [same]) (by rw [same]) (by rw [refused]; rfl) (by simp)
      rw [same]
      exact Heap.get_set_set _ _ _ _ _

/-- A descriptor that is not open is not watched. -/
theorem Sound.unwatched (sound : l.Sound epoll base net arr) {fd : Nat} (closed : fd ∉ l.opened) :
    l.watch fd = none := by
  cases watched : l.watch fd with
  | none => rfl
  | some entry =>
    obtain ⟨events, _ | p⟩ := entry
    · obtain ⟨_, first, _⟩ := (sound.linked.listens fd events).mp watched
      exact absurd ((sound.placed.opened fd).mpr (.inl (List.mem_of_mem_head? first))) closed
    · obtain ⟨c, found, same, _⟩ := sound.linked.watched watched
      exact absurd (same ▸ sound.placed.open found) closed

/-- **`accept_clients`.** -/
theorem acceptClients_sound (sound : l.Sound epoll base net l.clients) (accepts : List Accept) :
    Ends (acceptClients epoll accepts l) fun l' => ∃ events : List NetEvent,
      l'.Sound epoll base (net.run events) l'.clients ∧ Extends epoll l l' := by
  induction accepts generalizing l net with
  | nil => exact .some ⟨[], sound, .refl epoll l⟩
  | cons accept rest ih =>
    cases accept with
    | again => exact .some ⟨[], sound, .refl epoll l⟩
    | interrupted => exact ih sound
    | failed => exact .some ⟨[], sound, .refl epoll l⟩
    | conn choice addr subscribed registered =>
      have closed := choice.fresh l.opened
      unfold acceptClients
      dsimp only
      generalize choice.pick l.opened = fd at closed
      refine .bind (P := fun l' : Loop => ∃ events : List NetEvent,
        l'.Sound epoll base (net.run events) l'.clients ∧ Extends epoll l l') ?_ ?_
      · refine .ite (fun refused => ?_) fun taken => ?_
        · rw [close, if_pos List.mem_cons_self, List.erase_cons_head,
            update_eq_self_iff.mpr (sound.unwatched closed).symm]
          exact .some ⟨[], sound, .refl epoll l⟩
        · rw [Bool.or_eq_true, not_or] at taken
          refine (acceptOne_sound sound closed (fun off => ?_) ?_ addr subscribed
            registered).mono ?_
          · simpa [off] using taken.1
          · simpa using taken.2
          · rintro l' ⟨sound', grows⟩
            exact ⟨[.accept subscribed (registered || !epoll)], sound', grows⟩
      · rintro l' ⟨events, sound', grows⟩
        refine (ih sound').mono ?_
        rintro l'' ⟨later, sound'', grows'⟩
        exact ⟨events ++ later, by rwa [Net.run, List.foldl_append], grows.trans grows'⟩

/-- `l'` is `l` without the client at an address. -/
structure Removes (p : Nat) (c : Conn) (l l' : Loop) : Prop where
  found : l.heap.get p = some c
  get : ∀ q, l'.heap.get q = if q = p then none else l.heap.get q
  opened : l'.opened = l.opened.erase c.fd
  watch : l'.watch = update l.watch c.fd none
  accepted : l'.accepted = l.accepted
  cap : l'.cap = l.cap

theorem Placed.remove (placed : l.Placed epoll base (front ++ p :: back))
    (removes : Removes p c l l') : l'.Placed epoll base (front ++ back) := by
  have project {β : Type} (f : Conn → β) (q : Nat) :
      (l'.heap.get q).map f = if q = p then none else (l.heap.get q).map f := by
    rw [removes.get]
    split_ifs <;> rfl
  have descriptors : ∀ q, l'.descriptor q = if q = p then none else l.descriptor q :=
    project Conn.fd
  have numbers : ∀ q, l'.number q = if q = p then none else l.number q := project Conn.id
  have here : l.descriptor p = some c.fd := by rw [descriptor, removes.found]; rfl
  have before : ∀ {q fd}, l'.descriptor q = some fd → q ≠ p ∧ l.descriptor q = some fd := by
    intro q fd there
    rw [descriptors] at there
    split_ifs at there with same
    exact ⟨same, there⟩
  have known : ∀ {q id}, l'.number q = some id → l.number q = some id := by
    intro q id there
    rw [numbers] at there
    split_ifs at there
    exact there
  have distinct := placed.distinct
  rw [List.nodup_middle, List.nodup_cons] at distinct
  have shorter : (front ++ back).length ≤ (front ++ p :: back).length := by simp
  exact {
    distinct := distinct.2
    allocated := by
      intro q
      have there := placed.allocated q
      rw [removes.get]
      split_ifs with same
      · subst same
        simpa using distinct.1
      · rw [there]
        simp [same]
    unique := by
      rw [removes.opened]
      exact placed.unique.erase _
    opened := by
      intro fd
      rw [removes.opened, placed.unique.mem_erase_iff, placed.opened fd]
      constructor
      · rintro ⟨other, inside | ⟨q, there⟩⟩
        · exact .inl inside
        · refine .inr ⟨q, ?_⟩
          rw [descriptors, if_neg, there]
          rintro rfl
          exact other (Option.some.inj (there.symm.trans here))
      · rintro (inside | ⟨q, there⟩)
        · refine ⟨?_, .inl inside⟩
          rintro rfl
          exact placed.apart here inside
        · obtain ⟨away, there⟩ := before there
          refine ⟨?_, .inr ⟨q, there⟩⟩
          rintro rfl
          exact away (placed.own there here)
    apart := fun there => placed.apart (before there).2
    own := fun first second => placed.own (before first).2 (before second).2
    selectable := fun off _ _ there => placed.selectable off (before there).2
    numbered := fun there => removes.accepted ▸ placed.numbered (known there)
    single := fun first second => placed.single (known first) (known second)
    room := removes.cap ▸ shorter.trans placed.room
    few := shorter.trans placed.few }

theorem Linked.remove (linked : l.Linked epoll base) (placed : l.Placed epoll base arr)
    (removes : Removes p c l l') : l'.Linked epoll base := by
  constructor
  · intro fd events q there
    rw [removes.watch] at there
    have other : fd ≠ c.fd := by
      rintro rfl
      rw [update_self] at there
      cases there
    rw [update_of_ne other] at there
    obtain ⟨d, got, here, same⟩ := linked.watched there
    refine ⟨d, ?_, here, same⟩
    rw [removes.get, if_neg, got]
    rintro rfl
    obtain rfl := Option.some.inj (removes.found.symm.trans got)
    exact other here.symm
  · intro on q d got open'
    rw [removes.get] at got
    split_ifs at got with here
    have away : d.fd ≠ c.fd := by
      intro same
      have first : l.descriptor q = some d.fd := by rw [descriptor, got]; rfl
      have second : l.descriptor p = some d.fd := by rw [descriptor, removes.found, same]; rfl
      exact here (placed.own first second)
    rw [removes.watch, update_of_ne away]
    exact linked.registered on got open'
  · rw [removes.watch]
    exact linked.listens.update (placed.foreign removes.found) fun _ same => nomatch same

/-- **`client_free`**, after `epoll` has stopped watching or not. -/
theorem clientFree_ends (placed : l.Placed epoll base arr) (found : l.heap.get p = some c)
    {watch : Nat → Option (Interest × Option Nat)}
    (watched : update watch c.fd none = update l.watch c.fd none) :
    Ends (Loop.clientFree { l with watch := watch } p) fun l' =>
      Removes p c l l' ∧ l'.server = l.server ∧ l'.sockets = l.sockets ∧ l'.history = l.history ∧
        l'.clients = l.clients := by
  unfold clientFree
  dsimp only
  rw [found]
  show Ends (Option.bind (Loop.close _ c.fd) _) _
  rw [close, if_pos (by exact placed.open found)]
  show Ends (Option.bind (l.heap.free p) _) _
  rw [Heap.free_of_get found]
  exact .some ⟨⟨found, l.heap.get_drop p, rfl, watched, rfl, rfl⟩, rfl, rfl, rfl, rfl⟩

end Connections

end Loop

end Miniredis
