/-
**What a run leaves in the store and in the log.**

`execute` is the effect of a command on the store; the files, the children and the log have no
part in it (`dispatchCommand_db`). A run of commands in which no rewrite is started appends the
frames of its write commands to the log, in order (`run_quiet`), and replaying a log executes the
commands that its frames encode (`aofReplay_db`).
-/

import Miniredis.Replay.Table

namespace Miniredis

open FileSystem (Phase Move)

/-! ### Effects of a command -/

/-- The table entry of a command. -/
def entryOf (cmd : Command) : Option CmdEntry :=
  match cmd.map cstr with
  | [] => none
  | name :: _ => lookupCommand name

theorem entryOf_eq {name : Bytes} {e : CmdEntry} (member : e ∈ commands)
    (same : strcaseEq e.name (cstr name) = true) (args : List Bytes) :
    entryOf (name :: args) = some e :=
  lookupCommand_eq member same

theorem entryOf_mem {cmd : Command} {e : CmdEntry} (found : entryOf cmd = some e) :
    e ∈ commands := by
  unfold entryOf at found
  split at found
  · cases found
  · exact List.mem_of_find?_eq_some found

/-- A name of the table has one entry. -/
theorem commands_unique {e e' : CmdEntry} (member : e ∈ commands) (there : e' ∈ commands)
    (same : e.name = e'.name) : e = e' :=
  List.inj_on_of_nodup_map commands_distinct member there (congrArg (List.map toLower) same)

/-- The effect of a command on the store. -/
def execute (env : Env) (db : Db) (cmd : Command) : Db :=
  match entryOf cmd with
  | some ⟨_, _, .data h⟩ => (h env db (cmd.map cstr)).1
  | _ => db

/-- The effects of commands one after another; command number `i` runs in environment `i`. -/
def executeAll (envs : Nat → Env) : Nat → Db → List Command → Db
  | _, db, [] => db
  | i, db, cmd :: rest => executeAll envs (i + 1) (execute (envs i) db cmd) rest

theorem executeAll_append (envs : Nat → Env) (i : Nat) (db : Db) (front back : List Command) :
    executeAll envs i db (front ++ back) =
      executeAll envs (i + front.length) (executeAll envs i db front) back := by
  induction front generalizing i db with
  | nil => rfl
  | cons cmd front ih =>
    rw [List.cons_append, executeAll, ih, List.length_cons, executeAll]
    congr 1
    omega

/-- The frame a command leaves in the log. -/
def logged (cmd : Command) : List Command :=
  match entryOf cmd with
  | some e => if e.isWrite then [cmd.map cstr] else []
  | none => []

/-- The log part of `dispatch_command`. -/
def logCommand (io : Io) (s : Server) (cmd : Command) : Server :=
  if decide (logged cmd ≠ []) && s.aofFd.isSome && !s.aofReplaying then aofAppendCommand io s cmd
  else s

/-- The command asks for a rewrite of the log. -/
def asksRewrite (cmd : Command) : Bool :=
  match entryOf cmd with
  | some ⟨_, _, .rewriteaof⟩ => cmd.length = 1
  | some ⟨_, _, .bgrewriteaof⟩ => cmd.length = 1
  | _ => false

theorem logged_eq (cmd : Command) : logged cmd = [] ∨ logged cmd = [cmd.map cstr] := by
  unfold logged
  split
  · split
    · exact .inr rfl
    · exact .inl rfl
  · exact .inl rfl

section Dispatch

variable {env : Env} {io : Io} {s : Server} {cmd : Command}

theorem logged_ne {e : CmdEntry} (found : entryOf cmd = some e) :
    decide (logged cmd ≠ []) = e.isWrite := by
  rw [logged, found]
  cases write : e.isWrite <;> simp [write]

theorem logged_found {e : CmdEntry} (found : entryOf cmd = some e) (writes : e.isWrite = true) :
    logged cmd = [cmd.map cstr] := by
  simp [logged, found, writes]

/-- A known command is logged and run. -/
theorem dispatchCommand_found {e : CmdEntry} (found : entryOf cmd = some e) :
    dispatchCommand env io s cmd = e.fn.run env io (logCommand io s cmd) (cmd.map cstr) := by
  unfold dispatchCommand
  cases words : cmd.map cstr with
  | nil => simp [entryOf, words] at found
  | cons name args =>
    have there : lookupCommand name = some e := by rw [← found, entryOf, words]
    simp only [there, logCommand, logged_ne found]

theorem dispatchCommand_eq :
    (dispatchCommand env io s cmd).1 =
      match entryOf cmd with
      | none => s
      | some e => (e.fn.run env io (logCommand io s cmd) (cmd.map cstr)).1 := by
  cases found : entryOf cmd with
  | some e => rw [dispatchCommand_found found]
  | none =>
    unfold dispatchCommand
    cases words : cmd.map cstr with
    | nil => rfl
    | cons name args =>
      have absent : lookupCommand name = none := by rw [← found, entryOf, words]
      simp only [absent]

/-- A command that is not logged. -/
theorem dispatchCommand_unlogged {e : CmdEntry} (found : entryOf cmd = some e)
    (reads : e.isWrite = false) :
    dispatchCommand env io s cmd = e.fn.run env io s (cmd.map cstr) := by
  rw [dispatchCommand_found found, logCommand, logged_ne found, reads]
  rfl

/-- A move of a child changes the disk, the children and the posted signal only. -/
theorem childMove_parent (i : Nat) (move : Move) : childMove s i move =
    { s with
      disk := (childMove s i move).disk
      children := (childMove s i move).children
      posted := (childMove s i move).posted } := by
  unfold childMove
  split <;> rfl

@[simp]
theorem childMove_db (i : Nat) (move : Move) : (childMove s i move).db = s.db := by
  rw [childMove_parent]

@[simp]
theorem replaceLoop_db (kind : ChildKind) (content : Bytes) (slots : List Slot) (phase : Phase) :
    (replaceLoop kind content slots (s, phase)).1.db = s.db := by
  induction slots generalizing s phase with
  | nil => rfl
  | cons slot rest ih =>
    cases slot with
    | own move => exact ih _
    | child i move => exact (ih phase).trans (childMove_db i move)

@[simp]
theorem replaceFile_db (kind : ChildKind) (content : Bytes) :
    (replaceFile kind io s content).1.db = s.db := by
  unfold replaceFile
  dsimp only
  rw [replaceLoop_db, replaceLoop_db]

@[simp]
theorem aofReopen_db : (aofReopen io s).1.db = s.db := by
  unfold aofReopen
  split
  · rfl
  · dsimp only
    split <;> rfl

@[simp]
theorem aofAppendCommand_db : (aofAppendCommand io s cmd).db = s.db := by
  unfold aofAppendCommand
  split
  · rfl
  · dsimp only
    split <;> rfl

@[simp]
theorem logCommand_db : (logCommand io s cmd).db = s.db := by
  unfold logCommand
  split
  · exact aofAppendCommand_db
  · rfl

theorem cmdSave_db (argv : Argv) : (cmdSave io s argv).1.db = s.db := by
  have saved : (replaceFile .save io s (rdbSaveBytes s.db)).1.db = s.db := replaceFile_db _ _
  unfold cmdSave
  split
  · rfl
  split
  · rfl
  split <;> rename_i found <;> rw [rdbSave] at found <;> rwa [found] at saved

theorem cmdBgsave_db (argv : Argv) : (cmdBgsave io s argv).1.db = s.db := by
  unfold cmdBgsave
  split_ifs <;> rfl

theorem cmdRewriteaof_db (argv : Argv) : (cmdRewriteaof io s argv).1.db = s.db := by
  have rewritten : (replaceFile .rewrite io s (aofRewriteBytes s.db)).1.db = s.db :=
    replaceFile_db _ _
  unfold cmdRewriteaof
  split
  · rfl
  split
  · rfl
  split
  · rename_i found
    rw [aofRewrite] at found
    rwa [found] at rewritten
  · rename_i between found
    rw [aofRewrite] at found
    rw [found] at rewritten
    have reopened : (aofReopen io between).1.db = between.db := aofReopen_db
    split <;> rename_i again <;> rw [again] at reopened <;> exact reopened.trans rewritten

theorem cmdBgrewriteaof_db (argv : Argv) : (cmdBgrewriteaof io s argv).1.db = s.db := by
  unfold cmdBgrewriteaof
  split_ifs <;> rfl

/-- **The store after a command is its effect on the store before.** -/
theorem dispatchCommand_db : (dispatchCommand env io s cmd).1.db = execute env s.db cmd := by
  rw [dispatchCommand_eq]
  unfold execute
  cases found : entryOf cmd with
  | none => rfl
  | some e =>
    obtain ⟨name, isWrite, fn⟩ := e
    have kept : (logCommand io s cmd).db = s.db := logCommand_db
    cases fn with
    | data h => simp only [Action.run, kept]
    | quit => exact kept
    | save => exact (cmdSave_db _).trans kept
    | bgsave => exact (cmdBgsave_db _).trans kept
    | rewriteaof => exact (cmdRewriteaof_db _).trans kept
    | bgrewriteaof => exact (cmdBgrewriteaof_db _).trans kept

end Dispatch

/-! ### Options -/

/-- The options of the server. -/
def Server.options (s : Server) : Bool × Bool := (s.aofPath, s.rdbPath)

section Options

variable {env : Env} {io : Io} {s : Server} {cmd : Command}

theorem childMove_options (i : Nat) (move : Move) : (childMove s i move).options = s.options := by
  rw [childMove_parent]
  rfl

theorem replaceFile_options (kind : ChildKind) (content : Bytes) :
    (replaceFile kind io s content).1.options = s.options := by
  have loop : ∀ slots t phase,
      (replaceLoop kind content slots (t, phase)).1.options = t.options := by
    intro slots
    induction slots with
    | nil => exact fun _ _ => rfl
    | cons slot rest ih =>
      intro t phase
      cases slot with
      | own move => exact ih _ _
      | child i move => exact (ih _ phase).trans (childMove_options i move)
  exact (loop _ _ _).trans (loop _ _ _)

theorem aofReopen_options : (aofReopen io s).1.options = s.options := by
  unfold aofReopen
  split
  · rfl
  · dsimp only
    split <;> rfl

theorem aofAppendCommand_options : (aofAppendCommand io s cmd).options = s.options := by
  unfold aofAppendCommand
  split
  · rfl
  · dsimp only
    split <;> rfl

theorem logCommand_options : (logCommand io s cmd).options = s.options := by
  unfold logCommand
  split
  · exact aofAppendCommand_options
  · rfl

theorem cmdSave_options (argv : Argv) : (cmdSave io s argv).1.options = s.options := by
  have saved : (rdbSave io s).1.options = s.options := replaceFile_options _ _
  unfold cmdSave
  split
  · rfl
  split
  · rfl
  split <;> rename_i found <;> rwa [found] at saved

theorem cmdRewriteaof_options (argv : Argv) :
    (cmdRewriteaof io s argv).1.options = s.options := by
  have rewritten : (aofRewrite io s).1.options = s.options := replaceFile_options _ _
  unfold cmdRewriteaof
  split
  · rfl
  split
  · rfl
  split
  · rename_i found
    rwa [found] at rewritten
  · rename_i between found
    rw [found] at rewritten
    have reopened : (aofReopen io between).1.options = between.options := aofReopen_options
    split <;> rename_i again <;> rw [again] at reopened <;> exact reopened.trans rewritten

theorem dispatchCommand_options : (dispatchCommand env io s cmd).1.options = s.options := by
  rw [dispatchCommand_eq]
  cases entryOf cmd with
  | none => rfl
  | some e =>
    obtain ⟨name, isWrite, fn⟩ := e
    have kept : (logCommand io s cmd).options = s.options := logCommand_options
    cases fn with
    | data h => exact kept
    | quit => exact kept
    | save => exact (cmdSave_options _).trans kept
    | bgsave =>
      refine Eq.trans ?_ kept
      simp only [Action.run, cmdBgsave]
      split_ifs <;> rfl
    | rewriteaof => exact (cmdRewriteaof_options _).trans kept
    | bgrewriteaof =>
      refine Eq.trans ?_ kept
      simp only [Action.run, cmdBgrewriteaof]
      split_ifs <;> rfl

theorem reapChildren_options : (reapChildren io s).options = s.options := by
  unfold reapChildren
  split
  · rfl
  · dsimp only
    split
    · exact aofReopen_options
    · rfl

theorem step_options (e : Event) : (step s e).options = s.options := by
  cases e with
  | command env io cmd => exact dispatchCommand_options
  | child i move => exact childMove_options i move
  | signal =>
    unfold step
    dsimp only
    split <;> rfl
  | cron now io => exact reapChildren_options

end Options

/-! ### Properties that a step keeps -/

/-- The command asks for a rewrite in the background. -/
def asksBgrewriteaof (cmd : Command) : Bool :=
  match entryOf cmd with
  | some ⟨_, _, .bgrewriteaof⟩ => cmd.length = 1
  | _ => false

/-- The command starts no rewrite: it asks for none, or for one in the background while one is
under way. -/
def StartsNone (s : Server) (cmd : Command) : Prop :=
  asksRewrite cmd = true → s.aofRewriting = true ∧ asksBgrewriteaof cmd = true

/-- The command forks a child that saves a snapshot. -/
def forksSave (s : Server) (io : Io) (cmd : Command) : Bool :=
  match entryOf cmd with
  | some ⟨_, _, .bgsave⟩ => decide (cmd.length = 1) && s.rdbPath && io.fork
  | _ => false

/-- The moves of the children during a command. -/
def Io.moves (io : Io) : List Move :=
  io.schedule.filterMap fun
    | .child _ move => some move
    | .own _ => none

/-- The moves of the children during an event. -/
def Event.moves : Event → List Move
  | .command _ io _ => io.moves
  | .child _ move => [move]
  | .signal | .cron _ _ => []

/-- The event reaps children. -/
def Event.reaps (s : Server) : Event → Bool
  | .cron _ _ => s.sigchld
  | .command _ _ _ | .child _ _ | .signal => false

/-- What an event does first: the command is logged. -/
def Event.record (s : Server) : Event → Server
  | .command _ io cmd => logCommand io s cmd
  | .child _ _ | .signal | .cron _ _ => s

/-- The event starts no rewrite. -/
def Event.StartsNone (s : Server) : Event → Prop
  | .command _ _ cmd => Miniredis.StartsNone s cmd
  | .child _ _ | .signal | .cron _ _ => True

def Event.forksSave (s : Server) : Event → Bool
  | .command _ io cmd => Miniredis.forksSave s io cmd
  | .child _ _ | .signal | .cron _ _ => false

/-- A property that the changes between two writes to the log keep: to the store, to the files of
the snapshot, by a move of a child and by a signal; and, if `forks`, by a new child that saves. -/
structure Stable (moves : Move → Prop) (forks : Prop) (P : Server → Prop) : Prop where
  db : ∀ s db, P s → P { s with db := db }
  rdb : ∀ s files, P s → P { s with disk.rdb := files }
  child : ∀ s i move, moves move → P s → P (childMove s i move)
  fork : forks → ∀ s content, P s →
    P { s with children := s.children ++ [⟨.save, content, .opening⟩] }
  signal : ∀ s, s.posted = true → P s → P { s with posted := false, sigchld := true }

section Stable

variable {moves : Move → Prop} {forks : Prop} {P : Server → Prop}
variable {env : Env} {io : Io} {s : Server} {cmd : Command}

theorem Stable.replaceLoop (stable : Stable moves forks P) (content : Bytes) (slots : List Slot)
    (allowed : ∀ i move, .child i move ∈ slots → moves move) (phase : Phase) (before : P s) :
    P (replaceLoop .save content slots (s, phase)).1 := by
  induction slots generalizing s phase with
  | nil => exact before
  | cons slot rest ih =>
    have later : ∀ i move, .child i move ∈ rest → moves move := fun i move member =>
      allowed i move (List.mem_cons_of_mem _ member)
    cases slot with
    | own move => exact ih later _ (stable.rdb s _ before)
    | child i move =>
      exact ih later phase (stable.child s i move (allowed i move List.mem_cons_self) before)

theorem Stable.rdbSave (stable : Stable moves forks P) (allowed : ∀ move ∈ io.moves, moves move)
    (before : P s) : P (rdbSave io s).1 := by
  have scheduled : ∀ i move, .child i move ∈ io.schedule → moves move := fun i move member =>
    allowed move (List.mem_filterMap.mpr ⟨.child i move, member, rfl⟩)
  have own : ∀ (rest : List Move) i move, Slot.child i move ∈ rest.map .own → moves move := by
    intro rest i move member
    obtain ⟨_, _, same⟩ := List.mem_map.mp member
    cases same
  exact stable.replaceLoop _ _ (own _) _ (stable.replaceLoop _ _ scheduled _ before)

/-- What a command does after it is logged. -/
theorem Stable.run (stable : Stable moves forks P) {e : CmdEntry} (found : entryOf cmd = some e)
    (starts : StartsNone s cmd) (allowed : ∀ move ∈ io.moves, moves move)
    (forking : forksSave s io cmd = true → forks) (before : P s) :
    P (e.fn.run env io s (cmd.map cstr)).1 := by
  obtain ⟨name, isWrite, fn⟩ := e
  cases fn with
  | data h => exact stable.db s _ before
  | quit => exact before
  | save =>
    have saved : P (Miniredis.rdbSave io s).1 := stable.rdbSave allowed before
    simp only [Action.run, cmdSave]
    split_ifs
    · exact before
    · exact before
    · split <;> rename_i done <;> rw [done] at saved <;> exact saved
  | bgsave =>
    simp only [forksSave, found, Bool.and_eq_true, decide_eq_true_eq] at forking
    simp only [Action.run, cmdBgsave, List.length_map]
    split_ifs with arity path fork
    · exact before
    · exact before
    · exact before
    · exact stable.fork (forking ⟨⟨by simpa using arity, by simpa using path⟩, by simpa using fork⟩)
        s _ before
  | rewriteaof =>
    have arity : cmd.length ≠ 1 := fun one => by
      have both := starts (by simp [asksRewrite, found, one])
      simp [asksBgrewriteaof, found] at both
    simp only [Action.run, cmdRewriteaof, List.length_map]
    rw [if_pos arity]
    exact before
  | bgrewriteaof =>
    simp only [Action.run, cmdBgrewriteaof, List.length_map]
    split_ifs with arity path busy fork
    · exact before
    · exact before
    · exact before
    · exact before
    · have both := starts (by simpa [asksRewrite, found] using arity)
      exact absurd both.1 busy

theorem logCommand_rewriting : (logCommand io s cmd).aofRewriting = s.aofRewriting := by
  unfold logCommand aofAppendCommand
  split
  · cases s.aofFd with
    | none => rfl
    | some fd =>
      dsimp only
      split <;> rfl
  · rfl

theorem Stable.dispatch (stable : Stable moves forks P) (starts : StartsNone s cmd)
    (allowed : ∀ move ∈ io.moves, moves move) (forking : forksSave s io cmd = true → forks)
    (before : P (logCommand io s cmd)) : P (dispatchCommand env io s cmd).1 := by
  rw [dispatchCommand_eq]
  cases found : entryOf cmd with
  | none =>
    have unlogged : logCommand io s cmd = s := by simp [logCommand, logged, found]
    rwa [unlogged] at before
  | some e =>
    refine stable.run found (fun asks => ?_) allowed (fun saves => forking ?_) before
    · rw [logCommand_rewriting]
      exact starts asks
    · have path : (logCommand io s cmd).rdbPath = s.rdbPath :=
        congrArg Prod.snd logCommand_options
      unfold forksSave at saves ⊢
      rwa [path] at saves

/-- **What a step that reaps no child keeps, once its command is logged.** -/
theorem Stable.step (stable : Stable moves forks P) {e : Event} (busy : e.reaps s = false)
    (starts : e.StartsNone s) (allowed : ∀ move ∈ e.moves, moves move)
    (forking : e.forksSave s = true → forks) (before : P (e.record s)) : P (step s e) := by
  cases e with
  | command env io cmd => exact stable.dispatch starts allowed forking before
  | child i move => exact stable.child s i move (allowed move List.mem_cons_self) before
  | signal =>
    show P (if s.posted then _ else s)
    split
    · rename_i posted
      exact stable.signal s posted before
    · exact before
  | cron now io =>
    have unset : (!s.sigchld) = true := by
      rw [show s.sigchld = false from busy]
      rfl
    show P (if (!s.sigchld) = true then _ else _)
    rw [if_pos unset]
    exact stable.db s _ before

end Stable

/-! ### The log of a run -/

/-- A property of every step of a run. -/
def Along (P : Server → Event → Prop) : Server → List Event → Prop
  | _, [] => True
  | s, e :: rest => P s e ∧ Along P (step s e) rest

theorem Along.forall {P : Server → Event → Prop} {Q : Event → Prop} {s : Server}
    {events : List Event} (along : Along P s events) (each : ∀ t e, P t e → Q e) :
    ∀ e ∈ events, Q e := by
  induction events generalizing s with
  | nil => simp
  | cons first rest ih =>
    intro e member
    rcases List.mem_cons.mp member with rfl | later
    · exact each s e along.1
    · exact ih along.2 e later

theorem Along.imp {P Q : Server → Event → Prop} {s : Server} {events : List Event}
    (along : Along P s events) (each : ∀ t e, P t e → Q t e) : Along Q s events := by
  induction events generalizing s with
  | nil => trivial
  | cons first rest ih => exact ⟨each s first along.1, ih along.2⟩

theorem Along.and {P Q : Server → Event → Prop} {s : Server} {events : List Event}
    (first : Along P s events) (second : Along Q s events) :
    Along (fun t e => P t e ∧ Q t e) s events := by
  induction events generalizing s with
  | nil => trivial
  | cons e rest ih => exact ⟨⟨first.1, second.1⟩, ih first.2 second.2⟩

theorem Along.append {P : Server → Event → Prop} {s : Server} {front back : List Event}
    (first : Along P s front) (second : Along P (run s front) back) :
    Along P s (front ++ back) := by
  induction front generalizing s with
  | nil => exact second
  | cons e rest ih => exact ⟨first.1, ih first.2 second⟩

theorem Along.of_forall {P : Server → Event → Prop} {events : List Event}
    (each : ∀ e ∈ events, ∀ t, P t e) (s : Server) : Along P s events := by
  induction events generalizing s with
  | nil => trivial
  | cons first rest ih =>
    exact ⟨each first List.mem_cons_self s,
      ih (List.forall_mem_cons.mp each).2 _⟩

/-- The parent has the file at the path of the log open, and the file holds `log`. -/
def OpenLog (s : Server) (log : Bytes) : Prop :=
  ∃ inode, s.aofFd = some inode ∧ s.disk.aof.entry .file = some inode ∧
    s.disk.aof.data inode = log

theorem OpenLog.contents {s : Server} {log : Bytes} (opened : OpenLog s log) :
    s.disk.aof.contents .file = some log := by
  obtain ⟨inode, _, entry, data⟩ := opened
  rw [FileSystem.contents, entry, Option.map_some, data]

/-- The log is open and holds `log`, and no rewrite is under way. -/
structure Quiet (s : Server) (log : Bytes) : Prop where
  fd : OpenLog s log
  live : s.aofReplaying = false
  calm : s.aofRewriting = false
  saves : ∀ child ∈ s.children, child.kind = .save

/-- The frames an event adds to the log. -/
def Event.logged : Event → List Command
  | .command _ _ cmd => Miniredis.logged cmd
  | .child _ _ | .signal | .cron _ _ => []

/-- The event's writes to the log succeed and it asks for no rewrite. -/
def Event.Smooth : Event → Prop
  | .command _ io cmd => io.append = none ∧ asksRewrite cmd = false
  | _ => True

/-- The event's command came from a client, is logged with success and asks for no rewrite. -/
def Event.Recorded : Event → Prop
  | .command _ io cmd => Deliverable cmd ∧ io.append = none ∧ asksRewrite cmd = false
  | .child _ _ | .signal | .cron _ _ => True

section Quiet

variable {env : Env} {io : Io} {s t : Server} {cmd : Command} {log : Bytes}

/-- Nothing else counts. -/
theorem Quiet.congr (quiet : Quiet s log) (fd : t.aofFd = s.aofFd)
    (files : t.disk.aof = s.disk.aof) (live : t.aofReplaying = s.aofReplaying)
    (calm : t.aofRewriting = s.aofRewriting)
    (saves : ∀ child ∈ t.children, child.kind = .save) : Quiet t log :=
  ⟨by rw [OpenLog, fd, files]; exact quiet.fd, live ▸ quiet.live, calm ▸ quiet.calm, saves⟩

/-- A child that saves does not touch the log. -/
theorem childMove_saves (saves : ∀ child ∈ s.children, child.kind = .save) (i : Nat)
    (move : Move) : (childMove s i move).disk.aof = s.disk.aof ∧
      ∀ child ∈ (childMove s i move).children, child.kind = .save := by
  unfold childMove
  split
  · exact ⟨rfl, saves⟩
  · rename_i child found
    have save := saves child (List.mem_of_getElem? found)
    refine ⟨?_, fun other member => ?_⟩
    · show (s.disk.move child.kind child.content child.phase move).1.aof = s.disk.aof
      rw [save]
      rfl
    · rcases List.mem_or_eq_of_mem_set member with old | rfl
      · exact saves other old
      · exact save

theorem Quiet.childMove (quiet : Quiet s log) (i : Nat) (move : Move) :
    Quiet (childMove s i move) log := by
  obtain ⟨files, saves⟩ := childMove_saves quiet.saves i move
  have parent := childMove_parent (s := s) i move
  rw [parent]
  exact quiet.congr rfl files rfl rfl saves

theorem Quiet.stable (log : Bytes) : Stable (fun _ => True) True fun s => Quiet s log where
  db _ _ quiet := quiet.congr rfl rfl rfl rfl quiet.saves
  rdb _ _ quiet := quiet.congr rfl rfl rfl rfl quiet.saves
  child _ i move _ quiet := quiet.childMove i move
  fork _ s content quiet := by
    refine quiet.congr rfl rfl rfl rfl fun child member => ?_
    rcases List.mem_append.mp member with old | new
    · exact quiet.saves child old
    · rw [List.mem_singleton.mp new]
  signal _ _ quiet := quiet.congr rfl rfl rfl rfl quiet.saves

theorem Quiet.append (quiet : Quiet s log) (succeeds : io.append = none) (cmd : Command) :
    Quiet (aofAppendCommand io s cmd) (log ++ commandToResp cmd) := by
  obtain ⟨inode, fd, entry, data⟩ := quiet.fd
  unfold aofAppendCommand
  rw [fd]
  simp only [succeeds, quiet.calm, written, Bool.and_false, Bool.false_eq_true, if_false]
  exact ⟨⟨inode, rfl, entry, by rw [← data]; exact FileSystem.append_data ..⟩, quiet.live,
    rfl, quiet.saves⟩

theorem Quiet.logCommand (quiet : Quiet s log) (succeeds : io.append = none) :
    Quiet (logCommand io s cmd) (log ++ respCodec.log (logged cmd)) := by
  obtain ⟨inode, fd, _, _⟩ := quiet.fd
  unfold Miniredis.logCommand
  rcases logged_eq cmd with none | one
  · simpa [none] using quiet
  · rw [if_pos (by simp [one, fd, quiet.live]), one]
    simpa [respCodec, commandToResp] using quiet.append succeeds cmd

theorem Quiet.reap (quiet : Quiet s log) : Quiet (reapChildren io s) log := by
  unfold reapChildren
  split
  · exact quiet
  · rw [if_neg (by simp [quiet.calm])]
    exact quiet.congr rfl rfl rfl rfl fun child member =>
      quiet.saves child (List.mem_of_mem_filter member)

theorem Event.Smooth.startsNone {e : Event} (smooth : e.Smooth) : e.StartsNone s := by
  cases e with
  | command env io cmd =>
    intro asks
    rw [smooth.2] at asks
    cases asks
  | _ => trivial

/-- One step of a quiet server appends the frame of its write command. -/
theorem Quiet.step (quiet : Quiet s log) {e : Event} (smooth : e.Smooth) :
    Quiet (step s e) (log ++ respCodec.log e.logged) := by
  cases reaps : e.reaps s with
  | false =>
    refine (Quiet.stable _).step reaps smooth.startsNone (fun _ _ => trivial)
      (fun _ => trivial) ?_
    cases e with
    | command env io cmd => exact quiet.logCommand smooth.1
    | _ =>
      rw [Event.logged, FrameLog.Codec.log_nil, List.append_nil]
      exact quiet
  | true =>
    cases e with
    | cron now io =>
      have cycled : Quiet { s with db := dbExpireCycle now s.db } log :=
        (Quiet.stable log).db s _ quiet
      rw [Event.logged, FrameLog.Codec.log_nil, List.append_nil]
      exact cycled.reap
    | _ => cases reaps

/-- **A run without rewrites appends the frames of its write commands, in order.** -/
theorem run_quiet (quiet : Quiet s log) {events : List Event} (smooth : ∀ e ∈ events, e.Smooth) :
    Quiet (run s events) (log ++ respCodec.log (events.flatMap Event.logged)) := by
  induction events generalizing s log with
  | nil =>
    rw [List.flatMap_nil, FrameLog.Codec.log_nil, List.append_nil]
    exact quiet
  | cons e rest ih =>
    have after := ih (quiet.step (smooth e List.mem_cons_self))
      (List.forall_mem_cons.mp smooth).2
    rw [List.flatMap_cons, FrameLog.Codec.log_append, ← List.append_assoc]
    exact after

end Quiet

/-! ### Replaying -/

section Replay

variable {s : Server} {envs : Nat → Env}

/-- The commands dispatched one after another; command number `i` runs in environment `i`. -/
def dispatchAll (envs : Nat → Env) : Nat → Server → List Command → Server
  | _, s, [] => s
  | i, s, cmd :: rest => dispatchAll envs (i + 1) (dispatchCommand (envs i) .smooth s cmd).1 rest

theorem dispatchAll_db (i : Nat) (cmds : List Command) :
    (dispatchAll envs i s cmds).db = executeAll envs i s.db cmds := by
  induction cmds generalizing i s with
  | nil => rfl
  | cons cmd rest ih =>
    rw [dispatchAll, ih, dispatchCommand_db]
    rfl

/-- The loop dispatches the commands of the frames and reports bytes that are no frame. -/
theorem aofReplayLoop_eq (envs : Nat → Env) (s : Server) (fuel i : Nat) (buf : Bytes) :
    aofReplayLoop envs fuel i buf s =
      (if (FrameLog.scan respDecode fuel buf).2 = .corrupt then -1 else 0,
        dispatchAll envs i s (FrameLog.scan respDecode fuel buf).1) := by
  induction fuel generalizing i buf s with
  | zero => cases buf <;> simp [aofReplayLoop, FrameLog.scan, dispatchAll]
  | succ fuel ih =>
    cases buf with
    | nil => simp [aofReplayLoop, FrameLog.scan, dispatchAll]
    | cons byte rest =>
      rw [aofReplayLoop, FrameLog.scan, if_neg (List.cons_ne_nil byte rest)]
      dsimp only
      by_cases whole : (respParseCommand (byte :: rest)).1 > 0
      · have frame : respDecode (byte :: rest) = .frame (respParseCommand (byte :: rest)).2
          (respParseCommand (byte :: rest)).1.toNat := if_pos whole
        rw [if_pos whole, frame]
        exact ih _ (i + 1) _
      · by_cases bad : (respParseCommand (byte :: rest)).1 < 0
        · have error : respDecode (byte :: rest) = .error := (if_neg whole).trans (if_pos bad)
          rw [if_neg whole, if_pos bad, error]
          rfl
        · have more : respDecode (byte :: rest) = .more := (if_neg whole).trans (if_neg bad)
          rw [if_neg whole, if_neg bad, more]
          rfl

/-- **Replaying a log dispatches the commands of its frames.** -/
theorem aofReplay_eq {buf : Bytes} (file : s.disk.aof.contents .file = some buf) :
    aofReplay envs s =
      (if (FrameLog.read respDecode buf).2 = .corrupt then -1 else 0,
        { dispatchAll envs 0 { s with aofReplaying := true } (FrameLog.read respDecode buf).1 with
          aofReplaying := false }) := by
  unfold aofReplay
  rw [file]
  dsimp only
  rw [aofReplayLoop_eq]
  rfl

/-- Replaying a log executes the commands of its frames. -/
theorem aofReplay_db {buf : Bytes} (file : s.disk.aof.contents .file = some buf) :
    (aofReplay envs s).2.db =
      executeAll envs 0 s.db (FrameLog.read respDecode buf).1 := by
  rw [aofReplay_eq file]
  exact dispatchAll_db 0 _

theorem create_existing {files : FileSystem Path} {path : Path} {bytes : Bytes}
    (present : files.contents path = some bytes) : (files.create path).2 = files := by
  unfold FileSystem.create
  split
  · rfl
  · rename_i missing
    rw [FileSystem.contents, missing] at present
    cases present

/-- The store that a start replays the log into. -/
def startingDb (boot : Boot) (rdb : Bool) (disk : Disk) : Db :=
  match rdb, disk.rdb.contents .file with
  | true, some file => (rdbLoad boot.seeds file (dbCreate boot.seed)).2
  | _, _ => dbCreate boot.seed

/-- The state in which a start replays the log. -/
def serverOpened (boot : Boot) (rdb : Bool) (disk : Disk) : Server :=
  { serverInit boot.seed true rdb disk with
    db := startingDb boot rdb disk
    aofFd := some (disk.aof.create .file).1
    disk.aof := (disk.aof.create .file).2 }

theorem serverStart_eq (boot : Boot) (rdb : Bool) (disk : Disk) :
    serverStart boot true rdb disk = (aofReplay boot.envs (serverOpened boot rdb disk)).2 := by
  unfold serverStart serverOpened startingDb
  simp only [if_true]
  rw [show (serverInit boot.seed true rdb disk).disk = disk from rfl]
  cases rdb with
  | false => rfl
  | true => cases disk.rdb.contents .file <;> rfl

theorem serverOpened_contents {boot : Boot} {rdb : Bool} {disk : Disk} {log : Bytes}
    (present : disk.aof.contents .file = some log) :
    (serverOpened boot rdb disk).disk.aof.contents .file = some log := by
  show ((disk.aof.create .file).2).contents .file = some log
  rw [create_existing present, present]

/-- **A start with a log executes its commands on top of the snapshot.** -/
theorem serverStart_db {boot : Boot} {rdb : Bool} {disk : Disk} {log : Bytes}
    (present : disk.aof.contents .file = some log) :
    (serverStart boot true rdb disk).db =
      executeAll boot.envs 0 (startingDb boot rdb disk) (FrameLog.read respDecode log).1 := by
  rw [serverStart_eq, aofReplay_db (serverOpened_contents present)]
  rfl

theorem Event.Recorded.smooth {e : Event} (recorded : e.Recorded) : e.Smooth := by
  cases e with
  | command env io cmd => exact recorded.2
  | _ => trivial

theorem Event.Recorded.fits {e : Event} (recorded : e.Recorded) : ∀ cmd ∈ e.logged, Fits cmd := by
  cases e with
  | command env io cmd =>
    intro frame member
    rcases logged_eq cmd with none | one
    · rw [Event.logged, none] at member
      cases member
    · rw [Event.logged, one, List.mem_singleton] at member
      rw [member]
      exact fits_of_deliverable recorded.1
  | _ => simp [Event.logged]

/-- **The replay of frames executes their commands.** -/
theorem aofReplay_frames (envs : Nat → Env) {cmds : List Command} (fits : ∀ cmd ∈ cmds, Fits cmd)
    (file : s.disk.aof.contents .file = some (cmds.flatMap awWriteCommand)) :
    (aofReplay envs s).1 = 0 ∧ (aofReplay envs s).2.db = executeAll envs 0 s.db cmds := by
  have read : FrameLog.read respDecode (cmds.flatMap awWriteCommand) = (cmds, .clean) :=
    respCodec.read_log fits
  constructor
  · rw [aofReplay_eq file, read]
    rfl
  · rw [aofReplay_db file, read]

theorem recorded_fits {events : List Event} (recorded : ∀ e ∈ events, e.Recorded) :
    ∀ cmd ∈ events.flatMap Event.logged, Fits cmd := by
  intro cmd member
  obtain ⟨e, there, frame⟩ := List.mem_flatMap.mp member
  exact (recorded e there).fits cmd frame

/-- **The replay of the log of a run executes the write commands of the run.** -/
theorem aofReplay_log {start restarted : Server} {events : List Event} (envs : Nat → Env)
    (opened : Quiet start []) (recorded : ∀ e ∈ events, e.Recorded)
    (file : restarted.disk.aof.contents .file = (run start events).disk.aof.contents .file) :
    (aofReplay envs restarted).1 = 0 ∧ (aofReplay envs restarted).2.db =
      executeAll envs 0 restarted.db (events.flatMap Event.logged) := by
  have quiet := run_quiet opened fun e member => (recorded e member).smooth
  have contents : restarted.disk.aof.contents .file =
      some (respCodec.log (events.flatMap Event.logged)) := by
    rw [file, quiet.fd.contents, List.nil_append]
  exact aofReplay_frames envs (recorded_fits recorded) contents

end Replay

/-! ### A small server -/

def sampleSeed : Seed := Vector.replicate 16 0

def sampleEnv : Env := ⟨fun _ => 0, fun _ => 0, sampleSeed, 0⟩

def sampleBoot : Boot := ⟨sampleSeed, fun _ => sampleSeed, fun _ => sampleEnv⟩

/-- A server started on an empty disk with the log enabled. -/
def sampleStart (rdb : Bool) : Server := serverStart sampleBoot true rdb ⟨.empty, .empty⟩

/-- A disk whose log holds the given bytes. -/
def diskWith (log : Bytes) : Disk :=
  ⟨(FileSystem.empty.create Path.file).2.append (FileSystem.empty.create Path.file).1 log, .empty⟩

theorem diskWith_contents (log : Bytes) : (diskWith log).aof.contents .file = some log := by
  have entry : (diskWith log).aof.entry .file = some 0 := rfl
  have data : (diskWith log).aof.data 0 = [] ++ log := FileSystem.append_data ..
  rw [FileSystem.contents, entry, Option.map_some, data, List.nil_append]

/-- A client's command, with every system call succeeding. -/
def request (words : List String) : Event := .command sampleEnv .smooth (words.map text)

theorem bgsave_found : entryOf [text "BGSAVE"] = some ⟨text "bgsave", false, .bgsave⟩ :=
  entryOf_eq (by simp [commands]) (by decide) []

/-- The server after the fork of a child that saves. -/
def forkSave (s : Server) : Server :=
  { s with children := s.children ++ [⟨.save, rdbSaveBytes s.db, .opening⟩] }

theorem step_bgsave {env : Env} {s : Server} {cmd : Command} {name : Bytes}
    (found : entryOf cmd = some ⟨name, false, .bgsave⟩) (one : cmd.length = 1)
    (path : s.rdbPath = true) : step s (.command env .smooth cmd) = forkSave s := by
  rw [step, dispatchCommand_unlogged found rfl]
  simp [Action.run, cmdBgsave, one, path, Io.smooth, forkSave]

/-- Short requests that ask for no rewrite are recorded. -/
theorem requests_recorded {requests : List (List String)} (simple : ∀ words ∈ requests,
    (words.map text).length ≤ 1000 ∧ (∀ a ∈ words.map text, a.length ≤ 1000) ∧
      asksRewrite (words.map text) = false) : ∀ e ∈ requests.map request, e.Recorded := by
  intro e member
  obtain ⟨words, there, rfl⟩ := List.mem_map.mp member
  obtain ⟨few, short, noRewrite⟩ := simple words there
  exact ⟨deliverable_of_short few short, rfl, noRewrite⟩

theorem sampleStart_quiet (rdb : Bool) : Quiet (sampleStart rdb) [] := by
  have childless : (sampleStart rdb).children = [] := by cases rdb <;> rfl
  cases rdb <;> exact ⟨⟨0, rfl, rfl, rfl⟩, rfl, rfl, by simp [childless]⟩

theorem sampleStart_empty (rdb : Bool) (key : Bytes) : (sampleStart rdb).db.d.get key = none := by
  cases rdb <;> rfl

end Miniredis
