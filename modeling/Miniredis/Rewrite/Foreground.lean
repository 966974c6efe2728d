/-
**`REWRITEAOF` while a rewrite in the background is under way.**

The parent writes the store to a new file, renames it into place and reopens it; `aof_reopen` then
appends the rewrite buffer, whose commands the new file already contains. The log is right exactly
if the buffer is empty (`rewriteaof_in_flight`).
-/

import Miniredis.Dispatch.Replies
import Miniredis.Replay.Torn
import Miniredis.Rewrite.Background
import Miniredis.Rewrite.Content

namespace Miniredis

open FileSystem (Phase Move)

/-! ### Stores that a rewrite restores -/

/-- A key that its commands rebuild at time `now`. -/
def Rewritable (now : Int) (key : Bytes) (o : Robj) : Prop :=
  (0 : UInt8) ∉ key ∧
    match o.val with
    | .string value => (0 : UInt8) ∉ value ∧ Future now o.expireAt
    | container => container.Plain ∧ -1 ≤ o.expireAt ∧ o.expireAt < 2 ^ 63

theorem Rewritable.rebuilds {now : Int} {key : Bytes} {o : Robj} (rewritable : Rewritable now key o)
    {envs : Nat → Env} (still : ∀ i j, (envs i).now j = now) : Rebuilds envs key o := by
  obtain ⟨free, parts⟩ := rewritable
  obtain ⟨val, t⟩ := o
  cases val with
  | string value => exact string_rebuilds free parts.1 still parts.2
  | list l => exact container_rebuilds free parts.2.1 parts.2.2 parts.1 envs
  | hash h => exact container_rebuilds free parts.2.1 parts.2.2 parts.1 envs
  | set s => exact container_rebuilds free parts.2.1 parts.2.2 parts.1 envs
  | zset z => exact container_rebuilds free parts.2.1 parts.2.2 parts.1 envs

/-! ### The rewrite by the parent -/

section Rewrite

variable {s : Server} {io : Io}

/-- Operations of the parent alone. -/
theorem replaceLoop_own (content : Bytes) (slots : List Slot) (phase : Phase)
    (own : ∀ i move, .child i move ∉ slots)
    (holds : phase.Holds (replaceJob content) s.disk.aof)
    (before : phase = .exited true → s.disk.aof.contents .file = some content) :
    ∃ files, (replaceLoop .rewrite content slots (s, phase)).1 = { s with disk.aof := files } ∧
      (replaceLoop .rewrite content slots (s, phase)).2.Holds (replaceJob content) files ∧
      ((replaceLoop .rewrite content slots (s, phase)).2 = .exited true →
        files.contents .file = some content) := by
  induction slots generalizing s phase with
  | nil => exact ⟨s.disk.aof, rfl, holds, before⟩
  | cons slot rest ih =>
    cases slot with
    | own move =>
      exact ih (s := { s with disk := (s.disk.move .rewrite content phase move).1 }) _
        (fun i other member => own i other (List.mem_cons_of_mem _ member)) (holds.move move)
        fun done => Phase.move_done (replaceJob_apart content) holds before move done
    | child i move => exact absurd List.mem_cons_self (own i move)

/-- **A rewrite by the parent that no child disturbs puts the commands of the store in place.** -/
theorem aofRewrite_contents (undisturbed : io.moves = []) (succeeds : (aofRewrite io s).2 = true) :
    ∃ files, (aofRewrite io s).1 = { s with disk.aof := files } ∧
      files.contents .file = some (aofRewriteBytes s.db) := by
  have scheduled : ∀ i move, .child i move ∉ io.schedule := fun i move member => by
    have moved : move ∈ io.moves := List.mem_filterMap.mpr ⟨.child i move, member, rfl⟩
    rw [undisturbed] at moved
    cases moved
  obtain ⟨files, same, holds, done⟩ :=
    replaceLoop_own (aofRewriteBytes s.db) io.schedule .opening scheduled trivial nofun
  unfold aofRewrite replaceFile at succeeds ⊢
  dsimp only at succeeds ⊢
  generalize (replaceLoop .rewrite (aofRewriteBytes s.db) io.schedule (s, .opening)).2 = phase at *
  rw [same] at succeeds ⊢
  have own : ∀ i move, Slot.child i move ∉
      (phase.rest (replaceJob (aofRewriteBytes s.db))).map .own := by
    intro i move member
    obtain ⟨_, _, same⟩ := List.mem_map.mp member
    cases same
  obtain ⟨last, final, _, placed⟩ := replaceLoop_own (s := { s with disk.aof := files })
    (aofRewriteBytes s.db) _ phase own holds done
  exact ⟨last, final, placed (of_decide_eq_true succeeds)⟩

/-- The reply says that every step succeeded. -/
theorem cmdRewriteaof_ok {argv : Argv} (ok : (cmdRewriteaof io s argv).2 = replyOk) :
    (aofRewrite io s).2 = true ∧ io.reopen = true ∧
      (cmdRewriteaof io s argv).1 = (aofReopen io (aofRewrite io s).1).1 := by
  unfold cmdRewriteaof at ok ⊢
  split_ifs at ok ⊢ with arity path
  · exact absurd ok (replyError_ne_ok _)
  · exact absurd ok (replyError_ne_ok _)
  · cases rewritten : aofRewrite io s with
    | mk after success =>
      rw [rewritten] at ok
      cases success with
      | false => exact absurd ok (replyError_ne_ok _)
      | true =>
        dsimp only at ok ⊢
        cases reopened : aofReopen io after with
        | mk final opened =>
          rw [reopened] at ok
          cases opened with
          | false => exact absurd ok (replyError_ne_ok _)
          | true =>
            refine ⟨rfl, ?_, rfl⟩
            by_contra closed
            have failed : (aofReopen io after).2 = false := by
              rw [aofReopen, if_pos (by simpa using closed)]
            rw [reopened] at failed
            cases failed

theorem rewriteaof_found :
    entryOf [text "REWRITEAOF"] = some ⟨text "rewriteaof", false, .rewriteaof⟩ :=
  entryOf_eq (by simp [commands]) (by decide) []

theorem dispatchCommand_rewriteaof {env : Env} {cmd : Command} {name : Bytes}
    (found : entryOf cmd = some ⟨name, false, .rewriteaof⟩) :
    dispatchCommand env io s cmd =
      ((cmdRewriteaof io s (cmd.map cstr)).1, ⟨(cmdRewriteaof io s (cmd.map cstr)).2, false⟩) := by
  rw [dispatchCommand_unlogged found rfl]
  rfl

/-- The log after a `REWRITEAOF` that no child disturbs. -/
theorem rewriteaof_contents {env : Env} (undisturbed : io.moves = []) (flushes : io.flush = none)
    (ok : (dispatchCommand env io s [text "REWRITEAOF"]).2.out = replyOk) :
    (dispatchCommand env io s [text "REWRITEAOF"]).1.disk.aof.contents .file =
      some (aofRewriteBytes s.db ++ s.rewriteBuf) := by
  rw [dispatchCommand_rewriteaof rewriteaof_found] at ok ⊢
  obtain ⟨rewritten, reopens, after⟩ := cmdRewriteaof_ok ok
  obtain ⟨files, same, placed⟩ := aofRewrite_contents undisturbed rewritten
  obtain ⟨inode, entry, data⟩ := Option.map_eq_some_iff.mp placed
  rw [after, same, aofReopen_eq reopens flushes entry, FileSystem.contents,
    FileSystem.append_entry, entry, Option.map_some, FileSystem.append_data, data]

end Rewrite

/-- **`REWRITEAOF` during a rewrite in the background.** With the commands `buffered` in the rewrite
buffer and no move of the child during the command, the new log is the rewrite of the store and
nothing else, and replays into the store, exactly if the buffer is empty. -/
theorem rewriteaof_in_flight {s restarted : Server} {env : Env} {io : Io} {envs : Nat → Env}
    {now : Int} {buffered : List Command} (still : ∀ i j, (envs i).now j = now)
    (buffer : s.rewriteBuf = respCodec.log buffered) (bufferFits : ∀ cmd ∈ buffered, Fits cmd)
    (rewritable : ∀ pair ∈ s.db.d.pairs, Rewritable now pair.1 pair.2)
    (fits : ∀ cmd ∈ aofRewriteCommands s.db, Fits cmd)
    (undisturbed : io.moves = []) (flushes : io.flush = none)
    (ok : (dispatchCommand env io s [text "REWRITEAOF"]).2.out = replyOk)
    (file : restarted.disk.aof.contents .file =
      (dispatchCommand env io s [text "REWRITEAOF"]).1.disk.aof.contents .file)
    (empty : ∀ key, restarted.db.d.get key = none) :
    (replayed (dispatchCommand env io s [text "REWRITEAOF"]).1.disk = aofRewriteCommands s.db ∧
      stored (aofReplay envs restarted).2.db = stored s.db) ↔ buffered = [] := by
  have contents := rewriteaof_contents undisturbed flushes ok
  rw [buffer, show aofRewriteBytes s.db = respCodec.log (aofRewriteCommands s.db) from rfl,
    ← FrameLog.Codec.log_append] at contents
  have all : ∀ cmd ∈ aofRewriteCommands s.db ++ buffered, Fits cmd := fun cmd member => by
    rcases List.mem_append.mp member with old | new
    · exact fits cmd old
    · exact bufferFits cmd new
  have found : replayed (dispatchCommand env io s [text "REWRITEAOF"]).1.disk =
      aofRewriteCommands s.db ++ buffered := by
    rw [replayed_eq contents, show respDecode = respCodec.decode from rfl, respCodec.read_log all]
  rw [found]
  refine ⟨fun both => List.append_right_eq_self.mp both.1, fun none => ⟨?_, ?_⟩⟩
  · rw [none, List.append_nil]
  · rw [(aofReplay_frames envs all (file.trans contents)).2, none, List.append_nil]
    exact (aofRewrite_restores (fun pair member => (rewritable pair member).rebuilds still)
      empty).stored

theorem step_rewriteaof {s : Server} {env : Env} {io : Io} {cmd : Command} {name : Bytes}
    (found : entryOf cmd = some ⟨name, false, .rewriteaof⟩) :
    step s (.command env io cmd) = (cmdRewriteaof io s (cmd.map cstr)).1 := by
  rw [step, dispatchCommand_rewriteaof found]

/-- A push after the fork is applied twice. -/
theorem rewriteaof_in_flight_differs :
    valueAt listKind (run (sampleStart false)
        [request ["BGREWRITEAOF"], request ["RPUSH", "l", "a"]]).db (text "l") =
          some [text "a"] ∧
      (dispatchCommand sampleEnv .smooth (run (sampleStart false)
        [request ["BGREWRITEAOF"], request ["RPUSH", "l", "a"]]) [text "REWRITEAOF"]).2.out =
          replyOk ∧
      valueAt listKind (serverStart sampleBoot true false (run (sampleStart false)
        [request ["BGREWRITEAOF"], request ["RPUSH", "l", "a"], request ["REWRITEAOF"]]).disk).db
          (text "l") = some [text "a", text "a"] := by
  have forked (rest : List Event) : run (sampleStart false) (request ["BGREWRITEAOF"] :: rest) =
      run (sampleFork false) rest := run_startRewrite false rest
  have rewritten : run (sampleFork false) [request ["RPUSH", "l", "a"], request ["REWRITEAOF"]] =
      (cmdRewriteaof .smooth (step (sampleFork false) (request ["RPUSH", "l", "a"]))
        ([text "REWRITEAOF"].map cstr)).1 := by
    rw [run, List.foldl_cons, List.foldl_cons, List.foldl_nil]
    exact step_rewriteaof rewriteaof_found
  rw [forked, forked, dispatchCommand_rewriteaof rewriteaof_found, rewritten]
  exact ⟨by decide, by decide, by decide⟩

/-- A list, with a rewrite in the background under way. -/
def sampleFlight : Server :=
  run (sampleStart false) [request ["RPUSH", "l", "a"], request ["BGREWRITEAOF"]]

/-- The list before the fork. -/
def samplePushed : Server := step (sampleStart false) (request ["RPUSH", "l", "a"])

theorem sampleFlight_eq : sampleFlight =
    { samplePushed with
      children := samplePushed.children ++
        [⟨.rewrite, aofRewriteBytes samplePushed.db, .opening⟩]
      aofRewriting := true } := by
  have path := congrArg Prod.fst
    (step_options (s := sampleStart false) (request ["RPUSH", "l", "a"]))
  have starts : startRewrite.startsRewrite samplePushed = true :=
    startsRewrite_of_found bgrewriteaof_found rfl path
  have calm : samplePushed.aofRewriting = false := by decide
  rw [← step_fork starts calm, sampleFlight, run, List.foldl_cons, List.foldl_cons, List.foldl_nil]
  rfl

theorem sampleFlight_get (key : Bytes) : sampleFlight.db.d.get key =
    if key = text "l" then some ⟨.list [text "a"], -1⟩ else none := by
  have effect : sampleFlight.db =
      execute sampleEnv (sampleStart false).db (["RPUSH", "l", "a"].map text) := by
    rw [sampleFlight_eq]
    dsimp only
    rw [samplePushed, request, step, dispatchCommand_db]
  have built : (executeAll (fun _ => sampleEnv) 0 (sampleStart false).db
      (fillCommands (text "RPUSH") (text "l") [[text "a"]])).d.get key =
        if key = text "l" then some ⟨.list [text "a"], -1⟩ else (sampleStart false).db.d.get key :=
    rpush_fills.all (by decide) _ 0 (by decide)
      (fun item member => by rw [List.mem_singleton.mp member]; exact ⟨rfl, by decide⟩)
      (sampleStart_empty false (text "l"))
  rw [sampleStart_empty] at built
  rw [effect]
  exact built

/-- No write since the fork. -/
theorem rewriteaof_in_flight_sample :
    replayed (dispatchCommand sampleEnv .smooth sampleFlight [text "REWRITEAOF"]).1.disk =
        aofRewriteCommands sampleFlight.db ∧
      stored (aofReplay (fun _ => sampleEnv) (serverOpened sampleBoot false
        (dispatchCommand sampleEnv .smooth sampleFlight [text "REWRITEAOF"]).1.disk)).2.db =
          stored sampleFlight.db := by
  have short : ∀ cmd ∈ aofRewriteCommands sampleFlight.db,
      cmd.length ≤ 1000 ∧ ∀ a ∈ cmd, a.length ≤ 1000 := by
    rw [sampleFlight_eq]
    decide
  have contents : (serverOpened sampleBoot false (dispatchCommand sampleEnv .smooth sampleFlight
      [text "REWRITEAOF"]).1.disk).disk.aof.contents .file = (dispatchCommand sampleEnv .smooth
        sampleFlight [text "REWRITEAOF"]).1.disk.aof.contents .file := by
    rw [dispatchCommand_rewriteaof rewriteaof_found, sampleFlight_eq]
    decide
  have blank : sampleFlight.rewriteBuf = respCodec.log [] := by
    rw [sampleFlight_eq]
    decide
  have ok : (dispatchCommand sampleEnv .smooth sampleFlight [text "REWRITEAOF"]).2.out =
      replyOk := by
    rw [dispatchCommand_rewriteaof rewriteaof_found, sampleFlight_eq]
    decide
  refine (rewriteaof_in_flight (fun _ i => (rfl : sampleEnv.now i = 0)) blank
    (by simp) (fun pair member => ?_)
    (fun cmd member => fits_of_short (short cmd member).1 (short cmd member).2) rfl rfl
    ok contents (fun key => rfl)).mpr rfl
  have found := (sampleFlight.db.d.mem_pairs pair.1 pair.2).mp member
  rw [sampleFlight_get] at found
  split at found
  · rename_i same
    rw [same, ← Option.some.inj found]
    exact ⟨by decide, ⟨by decide, by decide⟩, by decide, by decide⟩
  · cases found

end Miniredis
