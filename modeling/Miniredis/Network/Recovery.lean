/-
**Crashes and restarts under a network of clients (`server.c`, `aof.c`).**

A server with a log serves any number of clients, is killed between two events or between the
append of a frame and the handler of its command, starts again on the same disk with other hash
seeds, serves other clients, and so on. As long as no command sets an expiry, pops at random or asks
for a rewrite, and the appends to the log succeed, nothing of this shows in the data.

* `run_under` — the server under a run of the network executes the commands of its history, each of
  which the parser delivered.
* `Mirror.commands` — commands one after another against their frames.
* `lives_recover` — after any number of crashes the dataset is that of one store that executes every
  command that any client was ever answered, in order, and those that a crash left in the log.
-/

import Miniredis.Network.Requests
import Miniredis.Replay.Refinement
import Miniredis.Replay.Torn

namespace Miniredis

/-! ### The commands of a network run -/

section Under

/-- The commands of an event. -/
def Event.commands : Event → List Command
  | .command _ _ cmd => [cmd]
  | .child _ _ | .signal | .cron _ _ => []

/-- A command was delivered by the parser, and the outcomes of its system calls are allowed. -/
def Event.Served (ios : Io → Prop) : Event → Prop
  | .command _ io cmd => ios io ∧ Deliverable cmd
  | .child _ _ | .signal | .cron _ _ => True

/-- The server goes from `s` to `s'` by executing `cmds`, and whatever else happens. -/
def Underlies (ios : Io → Prop) (s s' : Server) (cmds : List Command) : Prop :=
  ∃ events : List Event, s' = run s events ∧ events.flatMap Event.commands = cmds ∧
    ∀ e ∈ events, e.Served ios

variable {ios : Io → Prop} {s s' s'' : Server} {cmds cmds' : List Command}

theorem Underlies.refl (s : Server) : Underlies ios s s [] := ⟨[], rfl, rfl, by simp⟩

theorem Underlies.trans (first : Underlies ios s s' cmds) (second : Underlies ios s' s'' cmds') :
    Underlies ios s s'' (cmds ++ cmds') := by
  obtain ⟨front, rfl, here, served⟩ := first
  obtain ⟨back, rfl, there, served'⟩ := second
  refine ⟨front ++ back, ?_, ?_, ?_⟩
  · rw [run, run, run, List.foldl_append]
  · rw [List.flatMap_append, here, there]
  · exact fun e member => (List.mem_append.mp member).elim (served e) (served' e)

/-- One event by itself. -/
theorem underlies_step {e : Event} (served : e.Served ios) :
    Underlies ios s (step s e) e.commands :=
  ⟨[e], rfl, List.flatMap_singleton .., by simpa using served⟩

/-- A call of `read_client` goes on: replies are added for the commands executed. -/
def Session.Reads (ios : Io → Prop) (x x' : Session) : Prop :=
  ∃ new : List (Command × Bytes), x'.answered = x.answered ++ new ∧
    Underlies ios x.server x'.server (new.map Prod.fst)

theorem Session.Reads.refl (x : Session) : x.Reads ios x := ⟨[], by simp, .refl _⟩

theorem Session.Reads.trans {x x' x'' : Session} (first : x.Reads ios x')
    (second : x'.Reads ios x'') : x.Reads ios x'' := by
  obtain ⟨front, answered, under⟩ := first
  obtain ⟨back, answered', under'⟩ := second
  refine ⟨front ++ back, by rw [answered', answered, List.append_assoc], ?_⟩
  rw [List.map_append]
  exact under.trans under'

variable {worlds : Nat → World}

/-- The command at the front of a buffer of moderate length. -/
theorem Session.reads_dispatch (allowed : ∀ i, ios (worlds i).io) {x : Session}
    (short : x.client.inBuf.length ≤ maxQueryBuf) {consumed : Int} {cmd : Command}
    (parsed : respParseCommand x.client.inBuf = (consumed, cmd)) (whole : consumed > 0) :
    x.Reads ios (x.dispatch worlds cmd consumed.toNat) := by
  refine ⟨[_], rfl, ?_⟩
  have frame : respDecode x.client.inBuf = .frame cmd consumed.toNat := by
    unfold respDecode
    rw [parsed]
    exact if_pos whole
  exact underlies_step (e := .command (worlds x.answered.length).env
    (worlds x.answered.length).io cmd) ⟨allowed _, _, _, short, frame⟩

theorem drainLoop_reads (allowed : ∀ i, ios (worlds i).io) (fuel : Nat) (x : Session)
    (short : x.client.inBuf.length ≤ maxQueryBuf) :
    x.Reads ios (drainLoop worlds fuel x).1 := by
  induction fuel generalizing x with
  | zero => exact .refl x
  | succ fuel ih =>
    unfold drainLoop
    cases parsed : respParseCommand x.client.inBuf with
    | mk consumed cmd =>
      dsimp only
      split_ifs with whole closing
      · exact x.reads_dispatch allowed short parsed whole
      · refine (x.reads_dispatch allowed short parsed whole).trans (ih _ ?_)
        refine le_trans ?_ short
        show (x.client.inBuf.drop consumed.toNat).length ≤ _
        rw [List.length_drop]
        omega
      · exact .refl x
      · exact .refl x

theorem readClient_reads (allowed : ∀ i, ios (worlds i).io) (recvs : List Recv) (x : Session) :
    x.Reads ios (readClient worlds recvs x).1 := by
  fun_induction readClient worlds recvs x with
  | case1 | case2 | case4 | case5 => exact .refl _
  | case3 recvs x ih => exact ih
  | case6 chunk recvs x received exceeds => exact ⟨[], by simp [received, Session.receive], .refl _⟩
  | case7 chunk recvs x received within x' exit drained =>
    have reads := drainLoop_reads allowed received.client.inBuf.length received (not_lt.mp within)
    rw [drained] at reads
    exact reads
  | case8 chunk recvs x received within x' drained ih =>
    have reads := drainLoop_reads allowed received.client.inBuf.length received (not_lt.mp within)
    rw [drained] at reads
    exact Session.Reads.trans reads ih

/-- The network goes on: the server executes the commands that the history gains. -/
def Net.Goes (ios : Io → Prop) (net net' : Net) : Prop :=
  ∃ new : List Exchange, net'.history = net.history ++ new ∧
    Underlies ios net.server net'.server (new.map (·.cmd))

variable {net net' net'' : Net}

theorem Net.Goes.refl (net : Net) : net.Goes ios net := ⟨[], by simp, .refl _⟩

theorem Net.Goes.trans (first : net.Goes ios net') (second : net'.Goes ios net'') :
    net.Goes ios net'' := by
  obtain ⟨front, history, under⟩ := first
  obtain ⟨back, history', under'⟩ := second
  refine ⟨front ++ back, by rw [history', history, List.append_assoc], ?_⟩
  rw [List.map_append]
  exact under.trans under'

theorem Net.goes_read {calls : Calls} (allowed : ∀ i, ios (calls.worlds i).io) (net : Net)
    (id : Nat) (c : Client) : net.Goes ios (net.read id c calls.worlds calls.recvs) := by
  obtain ⟨new, answered, under⟩ := readClient_reads allowed calls.recvs ⟨net.server, c, [], []⟩
  rw [List.nil_append] at answered
  refine ⟨_, rfl, ?_⟩
  rw [answered, List.map_map]
  exact under

theorem Net.goes_when {id : Nat} {test : Client → Bool} {act : Client → Net}
    (acts : ∀ c, net.Goes ios (act c)) : net.Goes ios (net.when id test act) := by
  unfold Net.when
  split
  · exact .refl net
  · split_ifs
    · exact acts _
    · exact .refl net

theorem Net.goes_write (net : Net) (id : Nat) (c : Client) (sends : List Send) (strict : Bool) :
    net.Goes ios (net.write id c sends strict) := by
  refine ⟨[], ?_, .refl _⟩
  rw [List.append_nil]
  rfl

/-- The outcomes of the system calls made for commands. -/
def NetEvent.Allows (ios : Io → Prop) : NetEvent → Prop
  | .serve _ _ calls => ∀ i, ios (calls.worlds i).io
  | .accept .. | .child .. | .signal | .turn .. => True

theorem Net.goes_step (net : Net) {event : NetEvent} (allows : event.Allows ios) :
    net.Goes ios (net.step event) := by
  cases event with
  | accept subscribed registered => exact ⟨[], (List.append_nil _).symm, .refl _⟩
  | serve id ready calls =>
    refine Net.goes_when fun c => ?_
    dsimp only
    split
    · exact ⟨[], (List.append_nil _).symm, .refl _⟩
    · have reads : net.Goes ios
          (if ready.readable then net.read id c calls.worlds calls.recvs else net) := by
        split_ifs
        · exact net.goes_read allows id c
        · exact .refl net
      exact reads.trans ((Net.goes_when fun c => Net.goes_write _ id c _ _).trans
        (Net.goes_when fun c => Net.goes_write _ id c _ _))
  | child i move =>
    exact ⟨[], (List.append_nil _).symm, underlies_step (e := .child i move) trivial⟩
  | signal => exact ⟨[], (List.append_nil _).symm, underlies_step (e := .signal) trivial⟩
  | turn now io =>
    exact ⟨[], (List.append_nil _).symm, underlies_step (e := .cron now io) trivial⟩

/-- **The server under a network run executes the commands of its history.** -/
theorem run_under (s : Server) {events : List NetEvent}
    (allows : ∀ event ∈ events, event.Allows ios) :
    Underlies ios s ((Net.start s).run events).server
      (((Net.start s).run events).history.map (·.cmd)) := by
  have goes : ∀ (net : Net) (events : List NetEvent), (∀ event ∈ events, event.Allows ios) →
      net.Goes ios (net.run events) := by
    intro net events
    induction events generalizing net with
    | nil => exact fun _ => .refl net
    | cons event rest ih =>
      intro allows
      exact (net.goes_step (allows event List.mem_cons_self)).trans
        (ih _ fun other member => allows other (List.mem_cons_of_mem _ member))
  obtain ⟨new, history, under⟩ := goes (Net.start s) events allows
  rw [history]
  exact under

end Under

/-! ### Commands and their frames -/

section Frames

/-- The command sets no expiry, is no `SPOP` and asks for no rewrite. -/
def ordinary (cmd : Command) : Bool := timeless cmd && !isSpop cmd && !asksRewrite cmd

variable {cmd : Command} {cmds : List Command} {db db' : Db} {s : Server}

theorem ordinary_parts (plain : ordinary cmd = true) :
    timeless cmd = true ∧ isSpop cmd = false ∧ asksRewrite cmd = false := by
  unfold ordinary at plain
  rw [Bool.and_eq_true, Bool.and_eq_true, Bool.not_eq_true', Bool.not_eq_true'] at plain
  exact ⟨plain.1.1, plain.1.2, plain.2⟩

theorem Mirror.symm (mirror : Mirror Set.univ db db') : Mirror Set.univ db' db where
  sim := simOn_of_dataset fun key _ => congrFun (dataset_eq mirror.sim).symm key
  live := fun key => mirror.replayed key (Set.mem_univ key)
  replayed := fun key _ => mirror.live key

theorem Mirror.self (none : NoExpiry db) : Mirror Set.univ db db :=
  ⟨simOn_of_dataset fun _ _ => rfl, none, fun key _ => none key⟩

theorem Mirror.created (seed seed' : Seed) : Mirror Set.univ (dbCreate seed) (dbCreate seed') :=
  .of_empty (fun _ => rfl) fun _ => rfl

/-- **Commands one after another, and their frames in another environment.** -/
theorem Mirror.commands (mirror : Mirror Set.univ db db') (envs envs' : Nat → Env) (i j : Nat)
    (plain : ∀ cmd ∈ cmds, ordinary cmd = true) (delivered : ∀ cmd ∈ cmds, Deliverable cmd) :
    Mirror Set.univ (executeAll envs i db cmds) (executeAll envs' j db' (cmds.flatMap logged)) := by
  induction cmds generalizing i j db db' with
  | nil => exact mirror
  | cons cmd rest ih =>
    obtain ⟨untimed, noSpop, noRewrite⟩ := ordinary_parts (plain cmd List.mem_cons_self)
    have here : Plain { sampleStart false with db := db } .smooth cmd :=
      ⟨delivered cmd List.mem_cons_self, rfl, noRewrite,
        fun env => noExpiry_execute mirror.live untimed⟩
    have next := @Mirror.command { sampleStart false with db := db } db' Set.univ (envs i) _ cmd
      mirror envs' here j
    have whole : popsWhole db cmd := fun spop => by
      rw [noSpop] at spop
      cases spop
    have all : (if logged cmd = [] then Set.univ else synced (popsWhole db cmd) Set.univ db cmd) =
        Set.univ := by
      split_ifs
      · rfl
      · exact Set.eq_univ_of_forall fun key =>
          .inr ⟨whole, .inr ⟨Set.mem_univ _, .inl (Set.mem_univ _)⟩⟩
    dsimp only at next
    rw [all] at next
    rw [List.flatMap_cons, executeAll_append]
    exact ih next _ _ (List.forall_mem_cons.mp plain).2
      (List.forall_mem_cons.mp delivered).2

theorem flatMap_logged (events : List Event) :
    events.flatMap Event.logged = (events.flatMap Event.commands).flatMap logged := by
  rw [List.flatMap_assoc]
  congr 1
  funext e
  cases e with
  | command env io cmd => exact (List.flatMap_singleton ..).symm
  | _ => rfl

theorem deliverable_of_served {ios : Io → Prop} {events : List Event}
    (served : ∀ e ∈ events, e.Served ios) :
    ∀ cmd ∈ events.flatMap Event.commands, Deliverable cmd := by
  intro cmd member
  obtain ⟨e, inside, made⟩ := List.mem_flatMap.mp member
  have good := served e inside
  cases e with
  | command env io other =>
    obtain rfl := List.mem_singleton.mp made
    exact good.2
  | _ => cases made

/-- Ordinary commands with successful appends make a plain run. -/
theorem plain_along {events : List Event} (none : NoExpiry s.db)
    (served : ∀ e ∈ events, e.Served fun io => io.append = Option.none)
    (plain : ∀ cmd ∈ events.flatMap Event.commands, ordinary cmd = true) :
    Along PlainEvent s events := by
  induction events generalizing s with
  | nil => trivial
  | cons e rest ih =>
    have here : PlainEvent s e := by
      cases e with
      | command env io cmd =>
        obtain ⟨appends, delivered⟩ := served _ List.mem_cons_self
        obtain ⟨untimed, _, noRewrite⟩ := ordinary_parts (plain cmd (by simp [Event.commands]))
        exact ⟨delivered, appends, noRewrite, fun env => noExpiry_execute none untimed⟩
      | _ => trivial
    refine ⟨here, ih ((Mirror.self none).step (fun _ => sampleEnv) here 0).live
      (List.forall_mem_cons.mp served).2 fun cmd member => ?_⟩
    exact plain cmd (by rw [List.flatMap_cons]; exact List.mem_append_right _ member)

/-- A run of ordinary commands and the frames it logs. -/
theorem Mirror.served {events : List Event} (mirror : Mirror Set.univ s.db db)
    (served : ∀ e ∈ events, e.Served fun io => io.append = Option.none)
    (plain : ∀ cmd ∈ events.flatMap Event.commands, ordinary cmd = true) (envs : Nat → Env)
    (i : Nat) :
    Mirror Set.univ (Miniredis.run s events).db
      (executeAll envs i db ((events.flatMap Event.commands).flatMap logged)) := by
  have along := plain_along mirror.live served plain
  have whole : Along WholePop s events := by
    refine Along.of_forall (fun e member => WholePop.of_other ?_) s
    cases e with
    | command env io cmd =>
      exact (ordinary_parts (plain cmd (List.mem_flatMap_of_mem member
        (List.mem_singleton.mpr rfl)))).2.1
    | _ => rfl
  have final := mirror.run envs along i
  rwa [follow_univ mirror.live along whole, flatMap_logged] at final

end Frames

/-! ### Lives of a server -/

section Lives

/-- From a start of the process to its crash: what the start draws, what happens then, and the
command whose frame has been appended but whose handler has not run, if the crash is there. -/
structure Life where
  boot : Boot
  events : List NetEvent
  pending : Option Command

/-- The network after the last event of a life that began with a disk. -/
def Life.net (life : Life) (disk : Disk) : Net :=
  (Net.start (serverStart life.boot true false disk)).run life.events

/-- The server when it is killed. -/
def Life.server (life : Life) (disk : Disk) : Server :=
  life.pending.elim (life.net disk).server (logCommand .smooth (life.net disk).server)

/-- The commands of a life: those that were answered, and then the pending one. -/
def Life.commands (life : Life) (disk : Disk) : List Command :=
  (life.net disk).history.map (·.cmd) ++ life.pending.toList

/-- The disk after some lives. -/
def diskAfter (disk : Disk) : List Life → Disk
  | [] => disk
  | life :: rest => diskAfter (life.server disk).disk rest

/-- The commands of some lives, in order. -/
def commandsOf (disk : Disk) : List Life → List Command
  | [] => []
  | life :: rest => life.commands disk ++ commandsOf (life.server disk).disk rest

variable {disk : Disk} {cmds : List Command}

/-- The log on the disk is that of these commands; before the first start there is none. -/
def Logs (disk : Disk) (cmds : List Command) : Prop :=
  (disk.aof.contents .file).getD [] = respCodec.log (cmds.flatMap logged) ∧
    (∀ cmd ∈ cmds, ordinary cmd = true) ∧ ∀ cmd ∈ cmds, Deliverable cmd

theorem create_contents (files : FileSystem Path) :
    (files.create .file).2.contents .file = some ((files.contents .file).getD []) := by
  unfold FileSystem.create
  split
  · rename_i inode entry
    rw [FileSystem.contents, entry]
    rfl
  · rename_i missing
    rw [FileSystem.contents, FileSystem.contents, missing]
    simp [FileSystem.link]

/-- A start makes no difference between no log and an empty one. -/
theorem serverStart_create (boot : Boot) (disk : Disk) :
    serverStart boot true false disk =
      serverStart boot true false { disk with aof := (disk.aof.create .file).2 } := by
  have again : (disk.aof.create .file).2.create .file =
      ((disk.aof.create .file).1, (disk.aof.create .file).2) := by
    rw [FileSystem.create, FileSystem.create_entry]
  rw [serverStart_eq, serverStart_eq, serverOpened, serverOpened, again]
  rfl

theorem logged_mem {cmd frame : Command} (member : frame ∈ logged cmd) : frame = cmd.map cstr := by
  rcases logged_eq cmd with none | one
  · rw [none] at member
    cases member
  · rwa [one, List.mem_singleton] at member

/-- **A start on the log of some commands**, and the log from there on. -/
theorem Logs.start (logs : Logs disk cmds) (boot : Boot) :
    Quiet (serverStart boot true false disk) (respCodec.log (cmds.flatMap logged)) ∧
      (serverStart boot true false disk).db =
        executeAll boot.envs 0 (dbCreate boot.seed) (cmds.flatMap logged) := by
  obtain ⟨log, plain, delivered⟩ := logs
  have contents : (disk.aof.create .file).2.contents .file =
      some (respCodec.log (cmds.flatMap logged)) := by rw [create_contents, log]
  have fits : ∀ frame ∈ cmds.flatMap logged, Fits frame := by
    intro frame member
    obtain ⟨cmd, inside, here⟩ := List.mem_flatMap.mp member
    rw [logged_mem here]
    exact fits_of_deliverable (delivered cmd inside)
  have read : FrameLog.read respDecode (respCodec.log (cmds.flatMap logged)) =
      (cmds.flatMap logged, .clean) := respCodec.read_log fits
  rw [serverStart_create]
  constructor
  · refine serverStart_quiet contents fun frame member => ?_
    rw [read] at member
    obtain ⟨cmd, inside, here⟩ := List.mem_flatMap.mp member
    have logs : logged cmd ≠ [] := List.ne_nil_of_mem here
    have keeps := asksRewrite_logged logs
    obtain ⟨_, _, found, _⟩ := logged_inv logs
    rw [logged_mem here]
    simp [asksRewrite, entryOf_cstr, found]
  · rw [serverStart_db contents, read]
    rfl

/-- **One life.** It adds the commands it answers to the log, and its dataset is that of all
commands in order, in any environment. -/
theorem Logs.life (logs : Logs disk cmds) {life : Life}
    (smooth : ∀ event ∈ life.events, event.Allows fun io => io.append = Option.none)
    (plain : ∀ exchange ∈ (life.net disk).history, ordinary exchange.cmd = true) :
    Quiet (life.net disk).server
        (respCodec.log ((cmds ++ (life.net disk).history.map (·.cmd)).flatMap logged)) ∧
      (∀ exchange ∈ (life.net disk).history, Deliverable exchange.cmd) ∧
      ∀ (envs : Nat → Env) (seed : Seed), dataset (life.net disk).server.db =
        dataset (executeAll envs 0 (dbCreate seed)
          (cmds ++ (life.net disk).history.map (·.cmd))) := by
  obtain ⟨quiet, started⟩ := logs.start life.boot
  obtain ⟨_, before, delivered⟩ := logs
  obtain ⟨events, same, executed, served⟩ :=
    run_under (serverStart life.boot true false disk) smooth
  change (life.net disk).server = _ at same
  change _ = (life.net disk).history.map (·.cmd) at executed
  have here : ∀ cmd ∈ events.flatMap Event.commands, ordinary cmd = true := by
    rw [executed]
    intro cmd member
    obtain ⟨exchange, inside, rfl⟩ := List.mem_map.mp member
    exact plain exchange inside
  have delivered' := deliverable_of_served served
  have recorded : ∀ e ∈ events, e.Recorded := by
    have blank : NoExpiry (serverStart life.boot true false disk).db := by
      rw [started]
      exact ((Mirror.created life.boot.seed life.boot.seed).commands life.boot.envs life.boot.envs 0
        0 before delivered).symm.live
    exact (plain_along blank served here).forall fun _ _ good => good.recorded
  refine ⟨?_, fun exchange inside => ?_, fun envs seed => ?_⟩
  · rw [← executed, same, List.flatMap_append, FrameLog.Codec.log_append, ← flatMap_logged]
    exact run_quiet quiet fun e member => (recorded e member).smooth
  · exact delivered' _ (executed ▸ List.mem_map_of_mem inside)
  · rw [← executed]
    -- the uninterrupted store against the one that was rebuilt from the log
    have rebuilt : Mirror Set.univ (executeAll envs 0 (dbCreate seed) cmds)
        (serverStart life.boot true false disk).db := by
      rw [started]
      exact (Mirror.created seed life.boot.seed).commands envs life.boot.envs 0 0 before delivered
    have live := rebuilt.symm.served served here envs cmds.length
    have sequel := (Mirror.self rebuilt.live).commands envs envs cmds.length cmds.length here
      delivered'
    rw [same, executeAll_append, Nat.zero_add, dataset_eq live.sim, dataset_eq sequel.sim]

/-- The log after a crash is that of the commands of the life, the pending one included. -/
theorem Logs.crash (logs : Logs disk cmds) {life : Life}
    (smooth : ∀ event ∈ life.events, event.Allows fun io => io.append = Option.none)
    (received : ∀ cmd ∈ life.pending, Deliverable cmd)
    (plain : ∀ cmd ∈ life.commands disk, ordinary cmd = true) :
    Logs (life.server disk).disk (cmds ++ life.commands disk) := by
  obtain ⟨quiet, delivered, -⟩ := logs.life smooth fun exchange inside =>
    plain _ (List.mem_append_left _ (List.mem_map_of_mem inside))
  have closed : Quiet (life.server disk)
      (respCodec.log ((cmds ++ life.commands disk).flatMap logged)) := by
    unfold Life.server Life.commands
    cases life.pending with
    | none => simpa using quiet
    | some cmd =>
      have appended : Quiet (logCommand .smooth _ cmd) _ := quiet.logCommand rfl
      rwa [← FrameLog.Codec.log_append, ← List.flatMap_singleton logged cmd,
        ← List.flatMap_append, List.append_assoc] at appended
  refine ⟨by rw [closed.fd.contents]; rfl, fun cmd member => ?_, fun cmd member => ?_⟩
  · exact (List.mem_append.mp member).elim (logs.2.1 cmd) (plain cmd)
  · rcases List.mem_append.mp member with before | here
    · exact logs.2.2 cmd before
    rcases List.mem_append.mp here with answered | pending
    · obtain ⟨exchange, inside, rfl⟩ := List.mem_map.mp answered
      exact delivered exchange inside
    · exact received cmd (Option.mem_toList.mp pending)

/-- **Nothing that was answered is lost.** A server with a log, killed and started again any number
of times on the same disk: as long as the commands are ordinary and the appends succeed, the dataset
after any event of the last life is that of one store that executes all commands of the lives, in
order, whatever the seeds, the clocks and the clients. -/
theorem lives_recover (fresh : disk.aof.contents .file = none) (lives : List Life) (last : Life)
    (smooth : ∀ life ∈ lives ++ [last], ∀ event ∈ life.events,
      event.Allows fun io => io.append = Option.none)
    (received : ∀ life ∈ lives, ∀ cmd ∈ life.pending, Deliverable cmd)
    (plain : ∀ cmd ∈ commandsOf disk lives ++
      (last.net (diskAfter disk lives)).history.map (·.cmd), ordinary cmd = true)
    (envs : Nat → Env) (seed : Seed) :
    dataset (last.net (diskAfter disk lives)).server.db =
      dataset (executeAll envs 0 (dbCreate seed) (commandsOf disk lives ++
        (last.net (diskAfter disk lives)).history.map (·.cmd))) := by
  rw [List.forall_mem_append, List.forall_mem_singleton] at smooth
  rw [List.forall_mem_append, List.forall_mem_map] at plain
  -- the induction is over the lives before the last, from any log that is there already
  have logs : ∀ (cmds : List Command) (disk : Disk), Logs disk cmds →
      (∀ cmd ∈ commandsOf disk lives, ordinary cmd = true) →
      Logs (diskAfter disk lives) (cmds ++ commandsOf disk lives) := by
    clear fresh plain
    induction lives with
    | nil =>
      intro cmds disk logs _
      rwa [commandsOf, List.append_nil]
    | cons life rest ih =>
      intro cmds disk logs plain
      rw [commandsOf, List.forall_mem_append] at plain
      rw [List.forall_mem_cons] at received
      obtain ⟨⟨here, later⟩, only⟩ := smooth.imp_left List.forall_mem_cons.mp
      rw [commandsOf, ← List.append_assoc]
      exact ih ⟨later, only⟩ received.2 _ _ (logs.crash here received.1 plain.1) plain.2
  have none : Logs disk [] := ⟨by rw [fresh]; rfl, by simp, by simp⟩
  exact ((logs [] disk none plain.1).life smooth.2 plain.2).2.2 envs seed

/-- A life in which one client sends one request. -/
def sampleLife (chunk : Chunk) (pending : Option Command) : Life :=
  ⟨sampleBoot, sampleFeed [chunk], pending⟩

/-- A `SET` before a crash, an `INCR` that is in the log but was not executed, and one after it. -/
theorem set_survives_crash :
    let first := sampleLife ⟨text "*3\r\n$3\r\nSET\r\n$1\r\nk\r\n$1\r\nv\r\n", by decide, by decide⟩
      (some (["INCR", "n"].map text))
    let second := sampleLife ⟨text "*2\r\n$4\r\nINCR\r\n$1\r\nn\r\n", by decide, by decide⟩ none
    dataset (second.net (diskAfter ⟨.empty, .empty⟩ [first])).server.db =
      dataset (executeAll (fun _ => sampleEnv) 0 (dbCreate sampleSeed)
        ([["SET", "k", "v"], ["INCR", "n"], ["INCR", "n"]].map (·.map text))) := by
  intro first second
  have all : commandsOf ⟨.empty, .empty⟩ [first] ++
      (second.net (diskAfter ⟨.empty, .empty⟩ [first])).history.map (·.cmd) =
        [["SET", "k", "v"], ["INCR", "n"], ["INCR", "n"]].map (·.map text) := by decide
  have recovers := @lives_recover ⟨.empty, .empty⟩ rfl [first] second
    (by simp [first, second, sampleLife, sampleFeed, NetEvent.Allows, Io.smooth])
    (by simpa [first, sampleLife] using deliverable_of_short (by decide) (by decide))
    (by rw [all]; decide) (fun _ => sampleEnv) sampleSeed
  rwa [all] at recovers

end Lives

end Miniredis
