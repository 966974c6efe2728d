/-
**The server: dispatch, log, children and the event loop (`db.c`, `aof.c`, `server.c`).**

The parent executes commands one at a time; a command is logged before it runs. `BGSAVE` and
`BGREWRITEAOF` fork a child that replaces a file from the store as it was at the fork. A child that
ends posts `SIGCHLD`; the handler sets `g_sigchld` some time later, and `reap_children` at the end
of an event-loop turn clears it, collects every child that has ended and, if a rewrite was under
way, reopens the log.

Nondeterminism is explicit: `Io` holds the outcomes of a command's system calls and the moves of
the children that fall between them, and `Event` is what can happen next.
-/

import Miniredis.Lib.FileSystem
import Miniredis.Model.Commands
import Miniredis.Model.Rdb

namespace Miniredis

open FileSystem (Phase Move Job)

/-- A file and the temporary file it is replaced from. -/
inductive Path where
  | file
  | temporary
deriving DecidableEq

/-- The files of a server: those of `g_aof_path` and those of `g_rdb_path`. -/
structure Disk where
  aof : FileSystem Path
  rdb : FileSystem Path

/-! ### State -/

inductive ChildKind where
  | save
  | rewrite
deriving DecidableEq

/-- A forked child until it is reaped: what it writes, from the store at the fork, and how far it
has come. -/
structure Child where
  kind : ChildKind
  content : Bytes
  phase : Phase

/-- The replacement that `rdb_save` and `aof_rewrite` make. -/
def replaceJob (content : Bytes) : Job Path := ⟨.temporary, .file, content⟩

/-- One operation of `rdb_save` or `aof_rewrite` over its content. -/
def Disk.move (disk : Disk) (kind : ChildKind) (content : Bytes) (phase : Phase) (move : Move) :
    Disk × Phase :=
  match kind with
  | .save =>
    let (files, phase) := phase.move (replaceJob content) disk.rdb move
    ({ disk with rdb := files }, phase)
  | .rewrite =>
    let (files, phase) := phase.move (replaceJob content) disk.aof move
    ({ disk with aof := files }, phase)

/-- The parent, its disk and its children. -/
structure Server where
  db : Db
  /-- `g_aof_path` is set. -/
  aofPath : Bool
  /-- `g_rdb_path` is set. -/
  rdbPath : Bool
  aofFd : Option Nat
  aofReplaying : Bool
  aofRewriting : Bool
  rewriteBuf : Bytes
  disk : Disk
  children : List Child
  /-- `SIGCHLD` is posted and its handler has not run. -/
  posted : Bool
  sigchld : Bool

/-! ### System calls -/

/-- One move of a child; its end posts the signal. -/
def childMove (s : Server) (i : Nat) (move : Move) : Server :=
  match s.children[i]? with
  | none => s
  | some child =>
    let (disk, phase) := s.disk.move child.kind child.content child.phase move
    { s with
      disk := disk
      children := s.children.set i { child with phase := phase }
      posted := s.posted || (!child.phase.ended && phase.ended) }

/-- A move made while the parent replaces a file: its own or a child's. -/
inductive Slot where
  | own (move : Move)
  | child (i : Nat) (move : Move)

/-- The outcomes of the system calls of one command or of one turn of the loop. `some k` is a write
that fails after `k` bytes. -/
structure Io where
  append : Option Nat
  fork : Bool
  reopen : Bool
  flush : Option Nat
  schedule : List Slot

/-- Every system call succeeds and no child moves in between. -/
def Io.smooth : Io := ⟨none, true, true, none, []⟩

/-- What reaches the file of a write. -/
def written (outcome : Option Nat) (bytes : Bytes) : Bytes :=
  match outcome with
  | none => bytes
  | some k => bytes.take k

/-- The parent's replacement of a file, its operations mixed with those of the children. -/
def replaceLoop (kind : ChildKind) (content : Bytes) :
    List Slot → Server × Phase → Server × Phase
  | [], state => state
  | .own move :: rest, (s, phase) =>
    let (disk, phase) := s.disk.move kind content phase move
    replaceLoop kind content rest ({ s with disk := disk }, phase)
  | .child i move :: rest, (s, phase) => replaceLoop kind content rest (childMove s i move, phase)

/-- The whole replacement: the schedule, then what is left of it, undisturbed. -/
def replaceFile (kind : ChildKind) (io : Io) (s : Server) (content : Bytes) : Server × Bool :=
  let (s, phase) := replaceLoop kind content io.schedule (s, .opening)
  let (s, phase) :=
    replaceLoop kind content ((phase.rest (replaceJob content)).map .own) (s, phase)
  (s, phase = .exited true)

/-- `rdb_save` by the parent. -/
def rdbSave (io : Io) (s : Server) : Server × Bool := replaceFile .save io s (rdbSaveBytes s.db)

/-- `aof_rewrite` by the parent. -/
def aofRewrite (io : Io) (s : Server) : Server × Bool :=
  replaceFile .rewrite io s (aofRewriteBytes s.db)

/-! ### The log -/

/-- `aof_append_command`. -/
def aofAppendCommand (io : Io) (s : Server) (cmd : Command) : Server :=
  match s.aofFd with
  | none => s
  | some fd =>
    let s' := { s with disk.aof := s.disk.aof.append fd (written io.append (commandToResp cmd)) }
    if io.append.isNone && s.aofRewriting then
      { s' with rewriteBuf := s.rewriteBuf ++ commandToResp cmd }
    else s'

/-- `aof_reopen`. -/
def aofReopen (io : Io) (s : Server) : Server × Bool :=
  if !io.reopen then ({ s with aofFd := none }, false)
  else
    let (fd, files) := s.disk.aof.create .file
    let s := { s with aofFd := some fd, disk.aof := files }
    if s.rewriteBuf = [] then (s, true)
    else
      ({ s with
          disk.aof := s.disk.aof.append fd (written io.flush s.rewriteBuf)
          rewriteBuf := [] }, true)

/-! ### Server commands -/

/-- The reply of a command and whether it closes its client. -/
structure Reply where
  out : Bytes
  closing : Bool

def cmdSave (io : Io) (s : Server) (argv : Argv) : Server × Bytes :=
  if argv.length ≠ 1 then (s, replyArity (text "save"))
  else if !s.rdbPath then (s, replyError (text "SAVE requires --rdb FILE at startup"))
  else
    match rdbSave io s with
    | (s, false) => (s, replyError (text "could not save RDB snapshot"))
    | (s, true) => (s, replyOk)

def cmdBgsave (io : Io) (s : Server) (argv : Argv) : Server × Bytes :=
  if argv.length ≠ 1 then (s, replyArity (text "bgsave"))
  else if !s.rdbPath then (s, replyError (text "BGSAVE requires --rdb FILE at startup"))
  else if !io.fork then (s, replyError (text "fork failed: could not start background save"))
  else
    ({ s with children := s.children ++ [⟨.save, rdbSaveBytes s.db, .opening⟩] },
      replySimple (text "Background saving started"))

def cmdRewriteaof (io : Io) (s : Server) (argv : Argv) : Server × Bytes :=
  if argv.length ≠ 1 then (s, replyArity (text "rewriteaof"))
  else if !s.aofPath then (s, replyError (text "REWRITEAOF requires --aof FILE at startup"))
  else
    match aofRewrite io s with
    | (s, false) => (s, replyError (text "could not rewrite AOF"))
    | (s, true) =>
      match aofReopen io s with
      | (s, false) => (s, replyError (text "could not reopen AOF after rewrite"))
      | (s, true) => (s, replyOk)

def cmdBgrewriteaof (io : Io) (s : Server) (argv : Argv) : Server × Bytes :=
  if argv.length ≠ 1 then (s, replyArity (text "bgrewriteaof"))
  else if !s.aofPath then (s, replyError (text "BGREWRITEAOF requires --aof FILE at startup"))
  else if s.aofRewriting then
    (s, replyError (text "Background append only file rewriting already in progress"))
  else if !io.fork then (s, replyError (text "fork failed: could not start background rewrite"))
  else
    ({ s with
        children := s.children ++ [⟨.rewrite, aofRewriteBytes s.db, .opening⟩]
        aofRewriting := true },
      replySimple (text "Background append only file rewriting started"))

/-- The function of a table entry. -/
def Action.run (action : Action) (env : Env) (io : Io) (s : Server) (argv : Argv) :
    Server × Reply :=
  match action with
  | .data handler =>
    let (db, out) := handler env s.db argv
    ({ s with db := db }, ⟨out, false⟩)
  | .quit => (s, ⟨replyOk, true⟩)
  | .save =>
    let (s, out) := cmdSave io s argv
    (s, ⟨out, false⟩)
  | .bgsave =>
    let (s, out) := cmdBgsave io s argv
    (s, ⟨out, false⟩)
  | .rewriteaof =>
    let (s, out) := cmdRewriteaof io s argv
    (s, ⟨out, false⟩)
  | .bgrewriteaof =>
    let (s, out) := cmdBgrewriteaof io s argv
    (s, ⟨out, false⟩)

/-- `dispatch_command`. -/
def dispatchCommand (env : Env) (io : Io) (s : Server) (cmd : Command) : Server × Reply :=
  match cmd.map cstr with
  | [] => (s, ⟨[], false⟩)
  | name :: args =>
    match lookupCommand name with
    | none => (s, ⟨replyError (text "unknown command '" ++ name ++ text "'"), false⟩)
    | some e =>
      let s := if e.isWrite && s.aofFd.isSome && !s.aofReplaying then aofAppendCommand io s cmd
        else s
      e.fn.run env io s (name :: args)

/-! ### The event loop -/

/-- `reap_children`. -/
def reapChildren (io : Io) (s : Server) : Server :=
  if !s.sigchld then s
  else
    let s := { s with
      sigchld := false
      children := s.children.filter fun child => !child.phase.ended }
    if s.aofRewriting then (aofReopen io { s with aofRewriting := false }).1 else s

/-- What can happen next. -/
inductive Event where
  /-- A client's command is dispatched. -/
  | command (env : Env) (io : Io) (cmd : Command)
  /-- A child makes a move. -/
  | child (i : Nat) (move : Move)
  /-- The handler of a posted `SIGCHLD` runs. -/
  | signal
  /-- The end of a turn of the event loop. -/
  | cron (now : Nat → Int) (io : Io)

def step (s : Server) : Event → Server
  | .command env io cmd => (dispatchCommand env io s cmd).1
  | .child i move => childMove s i move
  | .signal => if s.posted then { s with posted := false, sigchld := true } else s
  | .cron now io => reapChildren io { s with db := dbExpireCycle now s.db }

def run (s : Server) (events : List Event) : Server := events.foldl step s

/-! ### Start and stop -/

/-- The command loop of `aof_replay`; command number `i` runs in environment `i`. -/
def aofReplayLoop (envs : Nat → Env) : Nat → Nat → Bytes → Server → Int × Server
  | 0, _, _, s => (0, s)
  | fuel + 1, i, buf, s =>
    if buf = [] then (0, s)
    else
      let (consumed, cmd) := respParseCommand buf
      if consumed > 0 then
        aofReplayLoop envs fuel (i + 1) (buf.drop consumed.toNat)
          (dispatchCommand (envs i) .smooth s cmd).1
      else if consumed < 0 then (-1, s)
      else (0, s)

/-- `aof_replay`. -/
def aofReplay (envs : Nat → Env) (s : Server) : Int × Server :=
  match s.disk.aof.contents .file with
  | none => (-1, s)
  | some buf =>
    let (rc, s) := aofReplayLoop envs buf.length 0 buf { s with aofReplaying := true }
    (rc, { s with aofReplaying := false })

/-- `dispatch_command`, or `none` where the process ends in it. -/
def dispatchChecked (env : Env) (io : Io) (s : Server) (cmd : Command) : Option (Server × Reply) :=
  if strcaseEq (text "setrange") (arg (cmd.map cstr) 0) &&
      cmdSetrangeAborts env s.db (cmd.map cstr) then none
  else some (dispatchCommand env io s cmd)

/-- The command loop once more; it does not return if the process ends in a command. -/
def aofReplayLoopChecked (envs : Nat → Env) : Nat → Nat → Bytes → Server → Option (Int × Server)
  | 0, _, _, s => some (0, s)
  | fuel + 1, i, buf, s =>
    if buf = [] then some (0, s)
    else
      let (consumed, cmd) := respParseCommand buf
      if consumed > 0 then do
        let (s, _) ← dispatchChecked (envs i) .smooth s cmd
        aofReplayLoopChecked envs fuel (i + 1) (buf.drop consumed.toNat) s
      else if consumed < 0 then some (-1, s)
      else some (0, s)

/-- `aof_replay`, or `none` where the process ends in it. -/
def aofReplayChecked (envs : Nat → Env) (s : Server) : Option (Int × Server) :=
  match s.disk.aof.contents .file with
  | none => some (-1, s)
  | some buf => do
    let (rc, s) ← aofReplayLoopChecked envs buf.length 0 buf { s with aofReplaying := true }
    some (rc, { s with aofReplaying := false })

/-- The process before it opens its files. -/
def serverInit (seed : Seed) (aof rdb : Bool) (disk : Disk) : Server where
  db := dbCreate seed
  aofPath := aof
  rdbPath := rdb
  aofFd := none
  aofReplaying := false
  aofRewriting := false
  rewriteBuf := []
  disk := disk
  children := []
  posted := false
  sigchld := false

/-- The environments of a start: the seed of the store, those of the dictionaries the snapshot
creates, and one environment for each command replayed. -/
structure Boot where
  seed : Seed
  seeds : Nat → Seed
  envs : Nat → Env

/-- The persistence setup of `server_run`: open the log, load the snapshot, replay the log. -/
def serverStart (boot : Boot) (aof rdb : Bool) (disk : Disk) : Server :=
  let s := serverInit boot.seed aof rdb disk
  let s :=
    if aof then
      { s with
        aofFd := some (s.disk.aof.create .file).1
        disk.aof := (s.disk.aof.create .file).2 }
    else s
  let s := match rdb, s.disk.rdb.contents .file with
    | true, some file => { s with db := (rdbLoad boot.seeds file s.db).2 }
    | _, _ => s
  if aof then (aofReplay boot.envs s).2 else s

/-- The clean shutdown of `server_run`. -/
def serverStop (io : Io) (s : Server) : Server :=
  let s := if s.rdbPath then (rdbSave io s).1 else s
  { s with aofFd := none }

end Miniredis
