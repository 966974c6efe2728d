/-
**Whole runs of the event loops (`server.c`).**

* `turnEpoll_sound`, `turnSelect_sound` — a turn of either loop, over any reports of the kernel.
* `loop_safe` — no run of either loop fails, and when it ends nothing is left open or allocated.
* `loop_refines` — what a run does to the server and its clients is a run of `Net`.
* `epoll_watches` — as long as `epoll_ctl` succeeds, what `epoll` watches is what `select()` would
  be given: the listening socket and every client.
-/

import Miniredis.Network.Connections

namespace Miniredis

namespace Loop

/-! ### Turns -/

section Turns

variable {epoll : Bool} {base front rest : List Nat} {net : Net} {l l' : Loop} {p : Nat} {c : Conn}

/-- The clients that stay: those of `places` that are not closing, and all others. -/
def Sifts (places : List Nat) (l l' : Loop) : Prop :=
  ∀ q, l'.heap.get q =
    if q ∈ places then (l.heap.get q).filter fun c => !c.client.closing else l.heap.get q

/-- The server and its history are as before. -/
structure SameServer (l l' : Loop) : Prop where
  server : l'.server = l.server
  accepted : l'.accepted = l.accepted
  sockets : l'.sockets = l.sockets
  history : l'.history = l.history

theorem compactLoop_sound (placed : l.Placed epoll base (front ++ rest))
    (linked : l.Linked epoll base) :
    Ends (compactLoop epoll rest l) fun result =>
      result.2.Placed epoll base (front ++ result.1) ∧ result.2.Linked epoll base ∧
        SameServer l result.2 ∧ Sifts rest l result.2 := by
  induction rest generalizing front l with
  | nil => exact .some ⟨placed, linked, ⟨rfl, rfl, rfl, rfl⟩, fun q => rfl⟩
  | cons p rest ih =>
    obtain ⟨c, found⟩ := placed.get (List.mem_append_right front List.mem_cons_self)
    have distinct := placed.distinct
    rw [List.nodup_middle, List.nodup_cons, List.mem_append, not_or] at distinct
    have once : p ∉ rest := distinct.1.2
    unfold compactLoop
    rw [found]
    refine Ends.ite (fun closing => ?_) fun open' => ?_
    · have freed : Ends ((if epoll then l.unregister c.fd else l).clientFree p) fun l' =>
          Removes p c l l' ∧ l'.server = l.server ∧ l'.sockets = l.sockets ∧
            l'.history = l.history ∧ l'.clients = l.clients := by
        split_ifs
        · exact clientFree_ends placed found (Function.update_idem ..)
        · exact clientFree_ends placed found rfl
      refine Ends.bind freed ?_
      rintro l₁ ⟨removes, server, sockets, history, _⟩
      refine (ih (placed.remove removes) (linked.remove placed removes)).mono ?_
      rintro ⟨kept, l₂⟩ ⟨placed₂, linked₂, same, sifts⟩
      refine ⟨placed₂, linked₂, ⟨same.server.trans server, same.accepted.trans removes.accepted,
        same.sockets.trans sockets, same.history.trans history⟩, fun q => ?_⟩
      rw [sifts, removes.get]
      by_cases here : q = p
      · subst here
        rw [if_neg once, if_pos rfl, if_pos List.mem_cons_self, found, Option.filter_some, closing]
        rfl
      · simp [here]
    · have later := @ih (front ++ [p]) l (by simpa using placed) linked
      refine Ends.bind later ?_
      rintro ⟨kept, l₂⟩ ⟨placed₂, linked₂, same, sifts⟩
      refine .some ⟨by simpa using placed₂, linked₂, same, fun q => ?_⟩
      rw [sifts]
      by_cases here : q = p
      · subst here
        rw [if_neg once, if_pos List.mem_cons_self, found, Option.filter_some, if_pos]
        simpa using open'
      · simp [here]

/-- No client is closing. -/
def AllOpen (l : Loop) : Prop := ∀ {p c}, l.heap.get p = some c → c.client.closing = false

/-- **`compact_clients`.** -/
theorem compactClients_sound (sound : l.Sound epoll base net l.clients) :
    Ends (l.compactClients epoll) fun l' =>
      l'.Sound epoll base net.compact l'.clients ∧ l'.server = l.server ∧ AllOpen l' ∧
        (Prompt l → Prompt l') := by
  refine Ends.bind (@compactLoop_sound epoll base [] _ l sound.placed sound.linked) ?_
  rintro ⟨kept, l₁⟩ ⟨placed, linked, same, sifts⟩
  have get (q : Nat) : l₁.heap.get q = (l.heap.get q).filter fun c => !c.client.closing := by
    rw [sifts]
    split_ifs with inside
    · rfl
    · have gone : l.heap.get q = none := by
        rw [← sound.placed.allocated] at inside
        simpa using inside
      rw [gone]
      rfl
  have stays {q : Nat} {d : Conn} (got : l₁.heap.get q = some d) :
      l.heap.get q = some d ∧ d.client.closing = false := by
    rw [get, Option.filter_eq_some_iff] at got
    exact ⟨got.1, by simpa using got.2⟩
  refine .some ⟨⟨placed.congr rfl rfl rfl rfl rfl,
    ⟨linked.watched, linked.registered, linked.listens⟩, ?_⟩, same.server,
    fun got => (stays got).2, ?_⟩
  · refine ⟨sound.shows.server.trans same.server.symm,
      sound.shows.accepted.trans same.accepted.symm, sound.shows.sockets.trans same.sockets.symm,
      sound.shows.history.trans same.history.symm, ?_, ?_⟩
    · intro q d got
      obtain ⟨before, open'⟩ := stays got
      have known := sound.shows.clients before
      simp [Net.compact, known, open']
    · intro id client there
      obtain ⟨known, open'⟩ := Option.filter_eq_some_iff.mp there
      obtain ⟨q, numbered⟩ := sound.shows.only known
      obtain ⟨d, got, rfl⟩ := Option.map_eq_some_iff.mp numbered
      obtain rfl := Option.some.inj (known.symm.trans (sound.shows.clients got))
      have kept : l₁.heap.get q = some d := by
        rw [get, got, Option.filter_eq_some_iff]
        exact ⟨rfl, open'⟩
      exact ⟨q, by rw [number]; exact congrArg _ kept⟩
  · intro before q d got open'
    exact before q (stays got).1 open'

/-- The server alone takes a step. -/
theorem Sound.serve {arr : List Nat} {server : Server} (sound : l.Sound epoll base net arr) :
    Sound epoll base { net with server := server } { l with server := server } arr :=
  ⟨sound.placed.congr rfl rfl rfl rfl rfl,
    ⟨sound.linked.watched, sound.linked.registered, sound.linked.listens⟩,
    ⟨rfl, sound.shows.accepted, sound.shows.sockets, sound.shows.history, sound.shows.clients,
      sound.shows.only⟩⟩

/-- **The end of a turn.** -/
theorem endTurn_sound (sound : l.Sound epoll base net l.clients) (now : Nat → Int) (io : Io) :
    Ends (l.endTurn epoll now io) fun l' =>
      l'.Sound epoll base (net.step (.turn now io)) l'.clients ∧ AllOpen l' ∧
        (Prompt l → Prompt l') := by
  refine Ends.bind (compactClients_sound sound) ?_
  rintro l₁ ⟨sound₁, server, opened, prompt⟩
  refine .some ⟨?_, opened, prompt⟩
  rw [server, ← sound.shows.server]
  exact sound₁.serve

/-- The calls of `epoll_ctl` that follow a report succeed. -/
def Report.Willing : Report → Prop
  | .listener .. => True
  | .client _ _ _ oks => oks = (true, true)

/-- A pointer that the kernel delivers is one of the array. -/
def Report.Within (clients : List Nat) : Report → Prop
  | .listener .. => True
  | .client p _ _ _ => p ∈ clients

theorem deliver_within {arr : List Nat} (sound : l.Sound epoll base net arr)
    {report delivered : Report} (delivers : l.deliver report = some delivered) :
    delivered.Within arr ∧ (report.Willing → delivered.Willing) := by
  cases report with
  | listener fd accepts =>
    unfold deliver at delivers
    dsimp only at delivers
    split at delivers
    · cases delivers
      exact ⟨trivial, fun _ => trivial⟩
    · cases delivers
  | client fd ready calls oks =>
    unfold deliver at delivers
    dsimp only at delivers
    split at delivers
    · rename_i events p watched
      cases delivers
      obtain ⟨c, found, _⟩ := sound.linked.watched watched
      exact ⟨(sound.placed.allocated p).mp (by rw [found]; rfl), id⟩
    · cases delivers

/-- **One report in the `epoll` loop.** -/
theorem serveReport_sound (sound : l.Sound true base net l.clients) {report : Report}
    (within : report.Within l.clients) :
    Ends (l.serveReport report) fun l' => ∃ events : List NetEvent,
      l'.Sound true base (net.run events) l'.clients ∧ (∀ q ∈ l.clients, q ∈ l'.clients) ∧
        (report.Willing → Prompt l → Prompt l') := by
  cases report with
  | listener fd accepts =>
    refine (acceptClients_sound sound accepts).mono ?_
    rintro l' ⟨events, sound', extends'⟩
    exact ⟨events, sound', extends'.clients, fun _ => extends'.prompt rfl⟩
  | client p ready calls oks =>
    obtain ⟨c, found⟩ := sound.placed.get within
    refine (serveEpoll_sound sound found ready calls oks).mono ?_
    rintro l' ⟨sound', serves, prompt⟩
    refine ⟨[.serve c.id ready calls], ?_, ?_, fun willing before q d got open' => ?_⟩
    · rw [serves.clients]
      exact sound'
    · rw [serves.clients]
      exact fun _ => id
    · by_cases here : q = p
      · subst here
        exact prompt willing (before q) got open'
      · rw [serves.others q here] at got
        exact before q got open'

theorem Report.Within.mono {clients clients' : List Nat} {report : Report}
    (within : report.Within clients) (grows : ∀ q ∈ clients, q ∈ clients') :
    report.Within clients' := by
  cases report with
  | listener fd accepts => trivial
  | client p ready calls oks => exact grows p within

/-- **A turn of the `epoll` loop.** -/
theorem turnEpoll_sound (sound : l.Sound true base net l.clients) (reports : List Report)
    (now : Nat → Int) (io : Io) :
    Ends (l.turnEpoll reports now io) fun l' => ∃ events : List NetEvent,
      l'.Sound true base (net.run events) l'.clients ∧ AllOpen l' ∧
        ((∀ report ∈ reports, report.Willing) → Prompt l → Prompt l') := by
  have batch : ∀ report ∈ (reports.filterMap l.deliver).take epollMaxEvents,
      report.Within l.clients ∧ ((∀ report ∈ reports, report.Willing) → report.Willing) := by
    intro report inside
    obtain ⟨source, member, delivers⟩ := List.mem_filterMap.mp (List.mem_of_mem_take inside)
    obtain ⟨within, willing⟩ := deliver_within sound delivers
    exact ⟨within, fun all => willing (all source member)⟩
  refine Ends.bind (P := fun l' : Loop => ∃ events : List NetEvent,
    l'.Sound true base (net.run events) l'.clients ∧ (∀ q ∈ l.clients, q ∈ l'.clients) ∧
      ((∀ report ∈ reports, report.Willing) → Prompt l → Prompt l')) ?_ ?_
  · refine Ends.foldlM ?_ ⟨[], sound, fun _ => id, fun _ => id⟩
    rintro l₁ report inside ⟨events, sound₁, grows₁, prompt₁⟩
    obtain ⟨within, willing⟩ := batch report inside
    refine (serveReport_sound sound₁ (within.mono grows₁)).mono ?_
    rintro l₂ ⟨later, sound₂, grows₂, prompt₂⟩
    refine ⟨events ++ later, ?_, fun q known => grows₂ q (grows₁ q known),
      fun all before => prompt₂ (willing all) (prompt₁ all before)⟩
    rwa [Net.run_append]
  · rintro l₁ ⟨events, sound₁, _, prompt₁⟩
    refine (endTurn_sound sound₁ now io).mono ?_
    rintro l₂ ⟨sound₂, opened, prompt₂⟩
    refine ⟨events ++ [.turn now io], ?_, opened, fun all before => prompt₂ (prompt₁ all before)⟩
    rwa [Net.run_append]

theorem fdSets_ends {arr : List Nat} (placed : l.Placed false base arr) {places : List Nat}
    (inside : ∀ q ∈ places, q ∈ arr) : Ends (fdSets places l) fun _ => True := by
  induction places with
  | nil => exact .some trivial
  | cons p rest ih =>
    obtain ⟨c, found⟩ := placed.get (inside p List.mem_cons_self)
    have small : c.fd < fdSetsize := by
      refine placed.selectable rfl (p := p) ?_
      rw [descriptor, found]
      rfl
    have later := ih (List.forall_mem_cons.mp inside).2
    unfold fdSets
    rw [found]
    refine Ends.ite (fun _ => later) fun _ => ?_
    rw [if_neg (not_le.mpr small)]
    exact later.bind fun _ _ => .some trivial

/-- **A turn of the `select` loop.** -/
theorem turnSelect_sound (sound : l.Sound false base net l.clients) (readable writable : Nat → Bool)
    (accepts : List Accept) (calls : Nat → Calls) (now : Nat → Int) (io : Io) :
    Ends (l.turnSelect readable writable accepts calls now io) fun l' =>
      ∃ events : List NetEvent, l'.Sound false base (net.run events) l'.clients := by
  refine Ends.bind (fdSets_ends sound.placed fun _ => id) ?_
  rintro ⟨rset, wset⟩ -
  refine Ends.bind (acceptClients_sound sound accepts) ?_
  rintro l₁ ⟨events, sound₁, _⟩
  refine Ends.bind (P := fun l' : Loop => l'.clients = l₁.clients ∧ ∃ events : List NetEvent,
    l'.Sound false base (net.run events) l'.clients) ?_ ?_
  · refine Ends.foldlM ?_ ⟨rfl, events, sound₁⟩
    rintro l₂ p inside ⟨same, events, sound₂⟩
    obtain ⟨c, found⟩ := sound₂.placed.get (same ▸ inside)
    refine (serveSelect_sound sound₂ found _ _ calls).mono ?_
    rintro l₃ ⟨sound₃, serves⟩
    refine ⟨serves.clients.trans same, events ++ [.serve c.id ⟨c.fd ∈ rset.filter readable,
      c.fd ∈ wset.filter writable, false⟩ (calls p)], ?_⟩
    rw [Net.run_append, serves.clients]
    exact sound₃
  · rintro l₂ ⟨_, events, sound₂⟩
    refine (endTurn_sound sound₂ now io).mono ?_
    rintro l₃ ⟨sound₃, _⟩
    refine ⟨events ++ [.turn now io], ?_⟩
    rwa [Net.run_append]

end Turns

/-! ### Runs -/

section Runs

variable {epoll : Bool} {listen : Nat} {base others : List Nat} {s : Server} {l : Loop}

/-- Between two turns: sound, and the state of some run of `Net`. -/
def Between (epoll : Bool) (base : List Nat) (s : Server) (l : Loop) : Prop :=
  ∃ events : List NetEvent, l.Sound epoll base ((Net.start s).run events) l.clients

theorem step_between (between : Between epoll base s l) {happening : Happening}
    (mine : happening.Of epoll) : Ends (l.step happening) (Between epoll base s) := by
  obtain ⟨events, sound⟩ := between
  cases happening with
  | epoll reports now io =>
    obtain rfl := mine
    refine (turnEpoll_sound sound reports now io).mono ?_
    rintro l' ⟨later, sound', _⟩
    exact ⟨events ++ later, by rwa [Net.run_append]⟩
  | select readable writable accepts calls now io =>
    obtain rfl := mine
    refine (turnSelect_sound sound readable writable accepts calls now io).mono ?_
    rintro l' ⟨later, sound'⟩
    exact ⟨events ++ later, by rwa [Net.run_append]⟩
  | child i move =>
    refine .some ⟨events ++ [.child i move], ?_⟩
    rw [Net.run_append, ← sound.shows.server]
    exact sound.serve
  | signal =>
    refine .some ⟨events ++ [.signal], ?_⟩
    rw [Net.run_append, ← sound.shows.server]
    exact sound.serve

theorem run_between (distinct : (listen :: others).Nodup) (s : Server)
    {happenings : List Happening} (mine : ∀ happening ∈ happenings, happening.Of epoll) :
    Ends ((Loop.start epoll s listen others).run happenings) (Between epoll (listen :: others) s) :=
  Ends.foldlM (fun _ happening inside between => step_between between (mine happening inside))
    ⟨[], start_sound epoll s distinct⟩

/-- After the loop, the array is freed from its front. -/
theorem finish_ends {arr : List Nat} (placed : l.Placed epoll base arr)
    (linked : l.Linked epoll base) :
    Ends (arr.foldlM clientFree l) fun l' => l'.Placed epoll base [] := by
  induction arr generalizing l with
  | nil => exact .some placed
  | cons p rest ih =>
    obtain ⟨c, found⟩ := placed.get List.mem_cons_self
    rw [List.foldlM_cons]
    refine (clientFree_ends placed found rfl).bind ?_
    rintro l₁ ⟨removes, _⟩
    exact ih (@Placed.remove epoll base [] rest l l₁ p c placed removes)
      (linked.remove placed removes)

/-- **The loops are safe.** Whatever the kernel, the allocator and the clients do, no run of either
loop reads or frees memory that is not allocated, writes past its array or uses a descriptor that is
not open; there are never too many clients, and once the loop has ended every client is freed and
every descriptor it accepted is closed, and no other. -/
theorem loop_safe (epoll : Bool) (distinct : (listen :: others).Nodup) (s : Server)
    (happenings : List Happening) (mine : ∀ happening ∈ happenings, happening.Of epoll) :
    Ends ((Loop.start epoll s listen others).run happenings) fun l =>
      l.clients.length ≤ maxClients ∧ Ends l.finish fun l' =>
        (∀ p, l'.heap.get p = none) ∧ l'.opened.Perm (listen :: others) := by
  refine (run_between distinct s mine).mono ?_
  rintro l ⟨events, sound⟩
  refine ⟨sound.placed.few, (finish_ends sound.placed sound.linked).bind fun l' placed => ?_⟩
  refine .some ⟨fun p => ?_, ?_⟩
  · have gone : ¬ (l'.heap.get p).isSome := fun there => by
      cases (placed.allocated p).mp there
    simpa using gone
  · refine (List.perm_ext_iff_of_nodup placed.unique distinct).mpr fun fd => ?_
    rw [placed.opened fd, or_iff_left]
    rintro ⟨p, there⟩
    obtain ⟨c, found, _⟩ := Option.map_eq_some_iff.mp there
    cases (placed.allocated p).mp (by rw [found]; rfl)

/-- A server without files, for examples. -/
def sampleIdle : Server := serverInit (Vector.replicate 16 0) false false ⟨.empty, .empty⟩

/-- One turn in which a connection is accepted. -/
def sampleAccepting : List Happening :=
  [.epoll [.listener 3 [.conn (.above 5) (.above 1) 0 true]] (fun _ => 0) .smooth]

theorem accepting_loop_safe :
    Ends ((Loop.start true sampleIdle 3 [4]).run sampleAccepting) fun l =>
      l.clients.length ≤ 1024 ∧
        Ends l.finish fun l' => (∀ p, l'.heap.get p = none) ∧ l'.opened.Perm [3, 4] :=
  loop_safe true (by decide) sampleIdle sampleAccepting (by simp [sampleAccepting, Happening.Of])

/-- **The loops refine the network.** What a run of either loop does to the server, its clients and
their sockets is a run of `Net`. -/
theorem loop_refines (epoll : Bool) (distinct : (listen :: others).Nodup) (s : Server)
    (happenings : List Happening) (mine : ∀ happening ∈ happenings, happening.Of epoll) :
    Ends ((Loop.start epoll s listen others).run happenings) fun l =>
      ∃ events : List NetEvent, l.Shows ((Net.start s).run events) := by
  refine (run_between distinct s mine).mono ?_
  rintro l ⟨events, sound⟩
  exact ⟨events, sound.shows⟩

theorem accepting_loop_refines :
    Ends ((Loop.start true sampleIdle 3 [4]).run sampleAccepting) fun l =>
      ∃ events : List NetEvent, l.Shows ((Net.start sampleIdle).run events) :=
  loop_refines true (by decide) sampleIdle sampleAccepting (by simp [sampleAccepting, Happening.Of])

/-- The calls of `epoll_ctl` that change what is watched succeed. -/
def Happening.Willing : Happening → Prop
  | .epoll reports _ _ => ∀ report ∈ reports, report.Willing
  | .select .. => False
  | .child .. | .signal => True

/-- **`epoll` watches for what is pending.** As long as `epoll_ctl` succeeds, whenever the loop
waits, the listening socket is watched for input, and each client for input and, exactly if a part
of its replies is pending, for output; nothing else is watched. -/
theorem epoll_watches (distinct : (listen :: others).Nodup) (s : Server)
    (happenings : List Happening) (willing : ∀ happening ∈ happenings, happening.Willing) :
    Ends ((Loop.start true s listen others).run happenings) fun l =>
      ∀ fd events data, l.watch fd = some (events, data) ↔
        (data = none ∧ fd = listen ∧ events = ⟨true, false⟩) ∨
        ∃ p c, data = some p ∧ p ∈ l.clients ∧ l.heap.get p = some c ∧ c.fd = fd ∧
          events = ⟨true, c.client.outSent < c.client.out.length⟩ := by
  have kept : Ends ((Loop.start true s listen others).run happenings) fun l =>
      Between true (listen :: others) s l ∧ AllOpen l ∧ Prompt l := by
    refine Ends.foldlM ?_ ⟨⟨[], start_sound true s distinct⟩, fun got => ?_, fun _ _ got => ?_⟩
    · rintro l happening inside ⟨⟨events, sound⟩, opened, prompt⟩
      have agreed := willing happening inside
      cases happening with
      | epoll reports now io =>
        refine (turnEpoll_sound sound reports now io).mono ?_
        rintro l' ⟨later, sound', opened', prompt'⟩
        exact ⟨⟨events ++ later, by rwa [Net.run_append]⟩, opened', prompt' agreed prompt⟩
      | select => cases agreed
      | child i move =>
        refine .some ⟨⟨events ++ [.child i move], ?_⟩, opened, prompt⟩
        rw [Net.run_append, ← sound.shows.server]
        exact sound.serve
      | signal =>
        refine .some ⟨⟨events ++ [.signal], ?_⟩, opened, prompt⟩
        rw [Net.run_append, ← sound.shows.server]
        exact sound.serve
    · cases got
    · cases got
  refine kept.mono ?_
  rintro l ⟨⟨_, sound⟩, opened, prompt⟩ fd events data
  cases data with
  | none =>
    have listens := sound.linked.listens fd events
    simpa [eq_comm] using listens
  | some p =>
    constructor
    · intro watched
      obtain ⟨c, found, same, recorded⟩ := sound.linked.watched watched
      refine .inr ⟨p, c, rfl, (sound.placed.allocated p).mp (by rw [found]; rfl), found, same, ?_⟩
      rw [← recorded, prompt p found (opened found)]
      rfl
    · rintro (⟨absurdly, _⟩ | ⟨_, c, ⟨⟩, _, found, rfl, rfl⟩)
      · cases absurdly
      · rw [sound.linked.registered rfl found (opened found), prompt p found (opened found)]
        rfl

theorem accepting_epoll_watches :
    Ends ((Loop.start true sampleIdle 3 [4]).run sampleAccepting) fun l =>
      ∀ fd events data, l.watch fd = some (events, data) ↔
        (data = none ∧ fd = 3 ∧ events = ⟨true, false⟩) ∨
        ∃ p c, data = some p ∧ p ∈ l.clients ∧ l.heap.get p = some c ∧ c.fd = fd ∧
          events = ⟨true, c.client.outSent < c.client.out.length⟩ :=
  epoll_watches (by decide) sampleIdle sampleAccepting
    (by simp [sampleAccepting, Happening.Willing, Report.Willing])

end Runs

end Loop

end Miniredis
