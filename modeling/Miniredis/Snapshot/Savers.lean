/-
**Concurrent saves of a snapshot.**

Every `rdb_save` writes `<path>.tmp`, truncating it, and renames it over the snapshot. `BGSAVE` does
not ask whether a save is under way, so a save that is about to rename can find its temporary file
emptied by another one, and the snapshot is then that empty file.

* `rdbSave_exclusive`: as long as no save opens the temporary file while another one may still
  rename it, the snapshot is at every moment the old one or the whole snapshot of one store.
* `rdbSave_exclusive_differs`: two `BGSAVE` children in the wrong order leave an empty file in place
  of a good snapshot.
* `run_savers`, `serverStop_savers`: the files of the snapshot along a run of the server, its
  shutdown included, are those of such saves, each of a store that the run goes through.
-/

import Miniredis.Lib.Replacers
import Miniredis.Rewrite.Flight

namespace Miniredis

open FileSystem (Phase Move Pool Act Service)

/-! ### The guarantee -/

/-- The saves on one path, each of a store. -/
def savers : Service Path Db := ⟨.temporary, .file, rdbSaveBytes⟩

/-- **Saves that keep out of each other's way never show a half-written snapshot.** -/
theorem rdbSave_exclusive (files : FileSystem Path) (acts : List (Act Db))
    (exclusively : (Pool.mk files []).exclusively savers acts = true) (n : Nat) :
    ((Pool.mk files []).run savers (acts.take n)).files.contents .file = files.contents .file ∨
      ∃ db, .start db ∈ acts.take n ∧
        ((Pool.mk files []).run savers (acts.take n)).files.contents .file =
          some (rdbSaveBytes db) := by
  have sound : (Pool.mk files []).Sound savers := ⟨nofun, by simp⟩
  rcases Pool.run_contents (show savers.target ≠ savers.temporary from nofun) sound
    (Pool.exclusively_take exclusively n) with kept | ⟨db, origin, shown⟩
  · exact .inl kept
  · rcases origin with ⟨process, member, _⟩ | started
    · cases member
    · exact .inr ⟨db, started, shown⟩

/-- Two saves overlap: the first has closed its file when the second opens it. -/
def overlap : List Event :=
  [request ["SAVE"], request ["BGSAVE"], request ["BGSAVE"],
    .child 0 (.go 0 false), .child 0 (.go 100 false), .child 0 (.go 0 false),
    .child 0 (.go 0 false), .child 1 (.go 0 false)]

theorem rdbSaveBytes_ne_nil (db : Db) : rdbSaveBytes db ≠ [] := by
  intro empty
  have length := congrArg List.length empty
  simp [rdbSaveBytes, wU32] at length

theorem save_found : entryOf [text "SAVE"] = some ⟨text "save", false, .save⟩ :=
  entryOf_eq (by simp [commands]) (by decide) []

theorem step_save {s : Server} {env : Env} {io : Io} {cmd : Command} {name : Bytes}
    (found : entryOf cmd = some ⟨name, false, .save⟩) :
    step s (.command env io cmd) = (cmdSave io s (cmd.map cstr)).1 := by
  rw [step, dispatchCommand_unlogged found rfl]
  rfl

/-- The small server after a `SAVE`. -/
def sampleSaved : Server := (cmdSave .smooth (sampleStart true) ([text "SAVE"].map cstr)).1

theorem run_save_bgsave (rest : List Event) :
    run (sampleStart true)
        (request ["SAVE"] :: request ["BGSAVE"] :: request ["BGSAVE"] :: rest) =
      run (forkSave (forkSave sampleSaved)) rest := by
  have saved : step (sampleStart true) (request ["SAVE"]) = sampleSaved := step_save save_found
  have path : sampleSaved.rdbPath = true := by decide
  have first : step sampleSaved (request ["BGSAVE"]) = forkSave sampleSaved :=
    step_bgsave bgsave_found rfl path
  have second :
      step (forkSave sampleSaved) (request ["BGSAVE"]) = forkSave (forkSave sampleSaved) :=
    step_bgsave bgsave_found rfl path
  rw [run, run, List.foldl_cons, List.foldl_cons, List.foldl_cons, saved, first, second]

theorem rdbSave_exclusive_differs :
    (run (sampleStart true) overlap).disk.rdb.contents .file =
        some (rdbSaveBytes (sampleStart true).db) ∧
      (run (sampleStart true) (overlap ++ [.child 0 (.go 0 false)])).disk.rdb.contents .file =
        some [] ∧
      ∀ db, rdbSaveBytes db ≠ [] := by
  rw [overlap, List.cons_append, List.cons_append, List.cons_append, run_save_bgsave,
    run_save_bgsave]
  exact ⟨by decide, by decide, rdbSaveBytes_ne_nil⟩

/-- A save that fails while it writes; the other one opens the file before the first closes it. -/
def inTurn : List (Act Db) :=
  [.start (sampleStart true).db, .start (sampleStart true).db,
    .move 0 (.go 0 false), .move 0 (.go 5 true), .move 1 (.go 0 false), .move 0 (.go 0 false),
    .move 1 (.go 100 false), .move 1 (.go 0 false), .move 1 (.go 0 false), .move 1 (.go 0 false)]

theorem rdbSave_exclusive_sample :
    (((Pool.mk .empty []).run savers (inTurn.take 10)).files.contents .file =
        FileSystem.empty.contents Path.file ∨
      ∃ db, .start db ∈ inTurn.take 10 ∧
        ((Pool.mk .empty []).run savers (inTurn.take 10)).files.contents .file =
          some (rdbSaveBytes db)) ∧
    ((Pool.mk .empty []).run savers inTurn).files.contents .file =
      some (rdbSaveBytes (sampleStart true).db) :=
  ⟨rdbSave_exclusive .empty inTurn (by decide) 10, by decide⟩

/-! ### The saves of a server -/

/-- The children that save and have not ended. -/
def savesAtWork (s : Server) : List (Bytes × Phase) :=
  (s.children.filter fun child => child.kind = .save && !child.phase.ended).map fun child =>
    (child.content, child.phase)

/-- The parent's own save, if it has not ended. -/
def ownSave (content : Bytes) (phase : Phase) : List (Bytes × Phase) :=
  [(content, phase)].filter fun save => !save.2.ended

/-- The pool has the server's files and, at work, the saves of its children and then `own`. -/
structure SavesOf (s : Server) (own : List (Bytes × Phase)) (pool : Pool Path Db) : Prop where
  files : pool.files = s.disk.rdb
  live : (pool.live.map fun process => (rdbSaveBytes process.source, process.phase)) =
    savesAtWork s ++ own

/-- Acts that start saves of `stores` only lead from the pool to the server's saves. -/
def Tracked (pool : Pool Path Db) (stores : Set Db) (s : Server) (own : List (Bytes × Phase)) :
    Prop :=
  ∃ acts, (∀ db, .start db ∈ acts → db ∈ stores) ∧ SavesOf s own (pool.run savers acts)

section Tracked

variable {pool : Pool Path Db} {stores : Set Db} {s t : Server} {own : List (Bytes × Phase)}

theorem Tracked.congr (tracked : Tracked pool stores s own) (files : t.disk.rdb = s.disk.rdb)
    (saves : savesAtWork t = savesAtWork s) : Tracked pool stores t own := by
  obtain ⟨acts, starts, tracks⟩ := tracked
  exact ⟨acts, starts, tracks.files.trans files.symm, saves ▸ tracks.live⟩

theorem Tracked.act (act : Act Db) {acts : List (Act Db)}
    (starts : ∀ db, .start db ∈ acts → db ∈ stores) (allowed : ∀ db, act = .start db → db ∈ stores)
    (tracks : SavesOf t own ((pool.run savers acts).act savers act)) :
    Tracked pool stores t own := by
  refine ⟨acts ++ [act], fun db member => ?_, ?_⟩
  · rcases List.mem_append.mp member with old | new
    · exact starts db old
    · exact allowed db (List.mem_singleton.mp new).symm
  · rw [Pool.run, List.foldl_append]
    exact tracks

/-- A save at work moves. -/
theorem Tracked.move {own' left right : List (Bytes × Phase)} (content : Bytes) (phase : Phase)
    (move : Move) (tracked : Tracked pool stores s own)
    (here : savesAtWork s ++ own = left ++ (content, phase) :: right)
    (files : t.disk.rdb = (phase.move (replaceJob content) s.disk.rdb move).1)
    (moved : savesAtWork t ++ own' = left ++
      ownSave content (phase.move (replaceJob content) s.disk.rdb move).2 ++ right) :
    Tracked pool stores t own' := by
  obtain ⟨acts, starts, tracks⟩ := tracked
  obtain ⟨before, rest, split, rfl, last⟩ := List.map_eq_append_iff.mp (tracks.live.trans here)
  obtain ⟨process, after, rfl, same, rfl⟩ := List.map_eq_cons_iff.mp last
  cases same
  obtain ⟨i, changed, live⟩ := Pool.move_live savers split move
  rw [tracks.files] at changed live
  refine Tracked.act (.move i move) starts nofun ⟨changed.trans files.symm, ?_⟩
  rw [live, List.map_append, List.map_append, moved]
  congr 2
  rw [ownSave, List.filter_singleton, List.filter_singleton]
  show List.map _ (bif !(process.phase.move (replaceJob (rdbSaveBytes process.source)) s.disk.rdb
    move).2.ended then _ else _) = _
  cases (process.phase.move (replaceJob (rdbSaveBytes process.source)) s.disk.rdb move).2.ended <;>
    rfl

/-- A move of a child, whether or not it saves. -/
theorem Tracked.childMove (tracked : Tracked pool stores s own) (i : Nat) (move : Move) :
    Tracked pool stores (childMove s i move) own := by
  unfold Miniredis.childMove
  split
  · exact tracked
  rename_i child found
  obtain ⟨left, right, here, there⟩ := filter_set found { child with phase := (s.disk.move
    child.kind child.content child.phase move).2 } fun child =>
      child.kind = .save && !child.phase.ended
  cases kind : child.kind with
  | rewrite =>
    refine tracked.congr rfl ?_
    rw [kind] at there
    simp only [kind, List.filter_singleton, reduceCtorEq, decide_false, Bool.false_and,
      cond_false] at here there
    rw [savesAtWork, savesAtWork, here, there]
  | save =>
    rw [kind] at there
    simp only [kind, List.filter_singleton, decide_true, Bool.true_and] at here there
    cases ended : child.phase.ended with
    | true =>
      simp only [Disk.move, Phase.move_ended ended] at there ⊢
      simp only [ended, Bool.not_true, cond_false] at here there
      refine tracked.congr rfl ?_
      rw [savesAtWork, savesAtWork, here, there]
    | false =>
      simp only [ended, Bool.not_false, cond_true] at here
      have here : savesAtWork s ++ own = (left.map fun child => (child.content, child.phase)) ++
          (child.content, child.phase) ::
            ((right.map fun child => (child.content, child.phase)) ++ own) := by
        simp [savesAtWork, here]
      refine tracked.move child.content child.phase move here rfl ?_
      rw [savesAtWork, there, ownSave, List.filter_singleton]
      simp only [Disk.move]
      cases (child.phase.move (replaceJob child.content) s.disk.rdb move).2.ended <;> simp

/-- An operation of the parent's own save. -/
theorem Tracked.ownMove {content : Bytes} {phase : Phase}
    (tracked : Tracked pool stores s (ownSave content phase)) (move : Move) :
    Tracked pool stores { s with disk := (s.disk.move .save content phase move).1 }
      (ownSave content (s.disk.move .save content phase move).2) := by
  cases ended : phase.ended with
  | true =>
    simp only [Disk.move, Phase.move_ended ended]
    exact tracked
  | false =>
    have here : savesAtWork s ++ ownSave content phase = savesAtWork s ++ [(content, phase)] := by
      simp [ownSave, ended]
    refine tracked.move content phase move here rfl ?_
    rw [List.append_nil]
    rfl

theorem Tracked.replaceLoop {content : Bytes} {phase : Phase} (slots : List Slot)
    (tracked : Tracked pool stores s (ownSave content phase)) :
    Tracked pool stores (replaceLoop .save content slots (s, phase)).1
      (ownSave content (Miniredis.replaceLoop .save content slots (s, phase)).2) := by
  induction slots generalizing s phase with
  | nil => exact tracked
  | cons slot rest ih =>
    cases slot with
    | own move => exact ih (tracked.ownMove move)
    | child i move => exact ih (tracked.childMove i move)

theorem replaceLoop_ended {content : Bytes} {phase : Phase} (ended : phase.ended = true)
    (slots : List Slot) : (replaceLoop .save content slots (s, phase)).2.ended = true := by
  induction slots generalizing s with
  | nil => exact ended
  | cons slot rest ih =>
    cases slot with
    | own move =>
      simp only [Miniredis.replaceLoop, Disk.move, Phase.move_ended ended]
      exact ih
    | child i move => exact ih

/-- What is left of a replacement when the schedule is over takes it to its end. -/
theorem replaceLoop_rest (content : Bytes) (s : Server) (phase : Phase) :
    (replaceLoop .save content ((phase.rest (replaceJob content)).map .own)
      (s, phase)).2.ended = true := by
  have replaced : ∀ (s : Server) (rest : List Slot), (replaceLoop .save content
      (.own (.go 0 false) :: rest) (s, .replacing)).2.ended = true := by
    intro s rest
    refine replaceLoop_ended ?_ rest
    show (Phase.move (replaceJob content) s.disk.rdb .replacing (.go 0 false)).2.ended = true
    simp only [Phase.move]
    split <;> rfl
  have closed : ∀ (s : Server) (ok : Bool) (rest : List Slot), (replaceLoop .save content
      (.own (.go 0 false) :: .own (.go 0 false) :: rest) (s, .closing ok)).2.ended = true := by
    intro s ok rest
    cases ok with
    | true => exact replaced _ rest
    | false => exact replaceLoop_ended rfl rest
  have synced : ∀ (s : Server) (inode offset : Nat), (replaceLoop .save content
      [.own (.go 0 false), .own (.go 0 false), .own (.go 0 false)]
      (s, .writing inode offset [])).2.ended = true := fun s _ _ => closed s true []
  have wrote : ∀ (s : Server) (inode offset : Nat) (left : Bytes), (replaceLoop .save content
      ((Phase.rest (replaceJob content) (.writing inode offset left)).map .own)
      (s, .writing inode offset left)).2.ended = true := by
    intro s inode offset left
    by_cases none : left = []
    · subst none
      exact closed _ true _
    · have moved : (Phase.move (replaceJob content) s.disk.rdb (.writing inode offset left)
          (.go left.length false)).2 = .writing inode (offset + left.length) [] := by
        simp [Phase.move, none]
      show (replaceLoop .save content [.own (.go 0 false), .own (.go 0 false), .own (.go 0 false)]
        (_, (Phase.move (replaceJob content) s.disk.rdb (.writing inode offset left)
          (.go left.length false)).2)).2.ended = true
      rw [moved]
      exact synced _ inode _
  cases phase with
  | exited ok => rfl
  | replacing => exact replaced s []
  | closing ok => exact closed s ok []
  | writing inode offset left => exact wrote s inode offset left
  | opening => exact wrote _ _ 0 content

/-- The parent starts a save of its store. -/
theorem Tracked.begin (tracked : Tracked pool stores s []) (member : s.db ∈ stores) :
    Tracked pool stores s (ownSave (rdbSaveBytes s.db) .opening) := by
  obtain ⟨acts, starts, tracks⟩ := tracked
  refine Tracked.act (.start s.db) starts (fun db same => ?_) ⟨tracks.files, ?_⟩
  · cases same
    exact member
  rw [Pool.live_start, List.map_append, tracks.live, List.append_nil]
  rfl

theorem Tracked.rdbSave (tracked : Tracked pool stores s []) (member : s.db ∈ stores) (io : Io) :
    Tracked pool stores (rdbSave io s).1 [] := by
  have scheduled := (tracked.begin member).replaceLoop io.schedule
  have finished := scheduled.replaceLoop ((Phase.rest (replaceJob (rdbSaveBytes s.db))
    (Miniredis.replaceLoop .save (rdbSaveBytes s.db) io.schedule (s, .opening)).2).map .own)
  have ended := replaceLoop_rest (rdbSaveBytes s.db)
    (Miniredis.replaceLoop .save (rdbSaveBytes s.db) io.schedule (s, .opening)).1
    (Miniredis.replaceLoop .save (rdbSaveBytes s.db) io.schedule (s, .opening)).2
  have none : ∀ {phase : Phase}, phase.ended = true → ownSave (rdbSaveBytes s.db) phase = [] := by
    intro phase ended
    simp [ownSave, ended]
  rw [none ended] at finished
  exact finished

/-- A fork that saves the store. -/
theorem Tracked.fork (tracked : Tracked pool stores s []) (member : s.db ∈ stores) :
    Tracked pool stores
      { s with children := s.children ++ [⟨.save, rdbSaveBytes s.db, .opening⟩] } [] := by
  obtain ⟨acts, starts, tracks⟩ := tracked.begin member
  refine ⟨acts, starts, tracks.files, tracks.live.trans ?_⟩
  simp [savesAtWork, ownSave, Phase.ended]

theorem Tracked.rewriteLoop {content : Bytes} (slots : List Slot) (phase : Phase)
    (tracked : Tracked pool stores s own) :
    Tracked pool stores (Miniredis.replaceLoop .rewrite content slots (s, phase)).1 own := by
  induction slots generalizing s phase with
  | nil => exact tracked
  | cons slot rest ih =>
    cases slot with
    | own move => exact ih _ (tracked.congr rfl rfl)
    | child i move => exact ih phase (tracked.childMove i move)

theorem Tracked.aofReopen (tracked : Tracked pool stores s own) (io : Io) :
    Tracked pool stores (aofReopen io s).1 own := by
  unfold Miniredis.aofReopen
  split
  · exact tracked.congr rfl rfl
  · dsimp only
    split <;> exact tracked.congr rfl rfl

theorem Tracked.logCommand (tracked : Tracked pool stores s own) (io : Io) (cmd : Command) :
    Tracked pool stores (logCommand io s cmd) own := by
  unfold Miniredis.logCommand aofAppendCommand
  split
  · split
    · exact tracked
    · dsimp only
      split <;> exact tracked.congr rfl rfl
  · exact tracked

/-- What a command does after it is logged. -/
theorem Tracked.action (tracked : Tracked pool stores s []) (member : s.db ∈ stores)
    (action : Action) (env : Env) (io : Io) (argv : Argv) :
    Tracked pool stores (action.run env io s argv).1 [] := by
  cases action with
  | data handler => exact tracked.congr rfl rfl
  | quit => exact tracked
  | save =>
    have saved := tracked.rdbSave member io
    simp only [Action.run, cmdSave]
    split_ifs
    · exact tracked
    · exact tracked
    · split <;> rename_i done <;> rw [done] at saved <;> exact saved
  | bgsave =>
    simp only [Action.run, cmdBgsave]
    split_ifs
    · exact tracked
    · exact tracked
    · exact tracked
    · exact tracked.fork member
  | rewriteaof =>
    have rewritten : Tracked pool stores (aofRewrite io s).1 [] :=
      (tracked.rewriteLoop io.schedule .opening).rewriteLoop _ _
    simp only [Action.run, cmdRewriteaof]
    split_ifs
    · exact tracked
    · exact tracked
    · split
      · rename_i done
        rw [done] at rewritten
        exact rewritten
      · rename_i done
        rw [done] at rewritten
        have reopened := rewritten.aofReopen io
        split <;> rename_i done <;> rw [done] at reopened <;> exact reopened
  | bgrewriteaof =>
    simp only [Action.run, cmdBgrewriteaof]
    split_ifs
    · exact tracked
    · exact tracked
    · exact tracked
    · exact tracked
    · refine tracked.congr rfl ?_
      simp [savesAtWork]

theorem Tracked.reapChildren (tracked : Tracked pool stores s own) (io : Io) :
    Tracked pool stores (reapChildren io s) own := by
  unfold Miniredis.reapChildren
  split
  · exact tracked
  · have reaped : Tracked pool stores { s with
        sigchld := false
        children := s.children.filter fun child => !child.phase.ended } own := by
      refine tracked.congr rfl ?_
      simp only [savesAtWork, List.filter_filter, Bool.and_assoc, Bool.and_self]
    dsimp only
    split
    · refine Tracked.aofReopen (reaped.congr ?_ ?_) io <;> rfl
    · exact reaped

theorem Tracked.step (tracked : Tracked pool stores s []) (member : s.db ∈ stores) (e : Event) :
    Tracked pool stores (step s e) [] := by
  cases e with
  | command env io cmd =>
    show Tracked pool stores (dispatchCommand env io s cmd).1 []
    rw [dispatchCommand_eq]
    split
    · exact tracked
    · refine (tracked.logCommand io cmd).action ?_ _ env io _
      rw [logCommand_db]
      exact member
  | child i move => exact tracked.childMove i move
  | signal =>
    show Tracked pool stores (if s.posted then _ else s) []
    split
    · exact tracked.congr rfl rfl
    · exact tracked
  | cron now io =>
    refine Tracked.reapChildren (tracked.congr ?_ ?_) io <;> rfl

theorem Tracked.run (tracked : Tracked pool stores s []) (events : List Event)
    (visited : ∀ n, (run s (events.take n)).db ∈ stores) :
    Tracked pool stores (Miniredis.run s events) [] := by
  induction events generalizing s with
  | nil => exact tracked
  | cons e rest ih =>
    exact ih (tracked.step (visited 0) e) fun n => visited (n + 1)

end Tracked

/-- The stores that a run goes through. -/
def storesOf (s : Server) (events : List Event) : Set Db :=
  { db | ∃ n, db = (run s (events.take n)).db }

/-- **The snapshot along a run is the work of saves of the stores of the run.** -/
theorem run_savers {s : Server} (alone : savesAtWork s = []) (events : List Event) :
    Tracked (Pool.mk s.disk.rdb []) (storesOf s events) (run s events) [] := by
  have start : Tracked (Pool.mk s.disk.rdb []) (storesOf s events) s [] :=
    ⟨[], nofun, rfl, by rw [alone]; rfl⟩
  exact start.run events fun n => ⟨n, rfl⟩

/-- The save of a shutdown is one of them. -/
theorem serverStop_savers {s : Server} (alone : savesAtWork s = []) (events : List Event)
    (io : Io) : Tracked (Pool.mk s.disk.rdb []) (storesOf s events)
      (serverStop io (run s events)) [] := by
  have running := run_savers alone events
  have final : (run s events).db ∈ storesOf s events := ⟨events.length, by rw [List.take_length]⟩
  unfold serverStop
  dsimp only
  split
  · exact (running.rdbSave final io).congr rfl rfl
  · exact running.congr rfl rfl

end Miniredis
