/-
**Runs during a rewrite in the background.**

From the fork of `BGREWRITEAOF` on, for any interleaving of commands, moves of the children, signals
and turns of the event loop:

* `bgrewriteaof_alone` — with no other child and no failure, once the child is reaped the log is the
  rewrite of the store at the fork and the frames of every write command since;
* `bgrewriteaof_bgsave` — with children of `BGSAVE` beside it the same holds exactly if no reaping
  comes before the rewrite child has ended: `reap_children` does not look at which child it
  collects.
-/

import Miniredis.Replay.Sync
import Miniredis.Rewrite.Flight

namespace Miniredis

open FileSystem (Phase Move)

/-! ### The fork -/

/-- The event is a `BGREWRITEAOF` that forks its child. -/
def Event.startsRewrite (s : Server) : Event → Bool
  | .command _ io cmd => asksBgrewriteaof cmd && s.aofPath && io.fork
  | .child _ _ | .signal | .cron _ _ => false

section Fork

variable {start : Server} {base : Bytes} {fork : Event}

theorem step_fork (starts : fork.startsRewrite start = true)
    (calm : start.aofRewriting = false) :
    step start fork =
      { start with
        children := start.children ++ [⟨.rewrite, aofRewriteBytes start.db, .opening⟩]
        aofRewriting := true } := by
  cases fork with
  | command env io cmd =>
    simp only [Event.startsRewrite, Bool.and_eq_true] at starts
    obtain ⟨⟨asks, path⟩, forks⟩ := starts
    unfold asksBgrewriteaof at asks
    split at asks
    · rename_i name isWrite found
      have unlogged : logged cmd = [] := by
        by_contra logs
        obtain ⟨_, _, data, _⟩ := logged_inv logs
        rw [found] at data
        cases data
      have arity : ¬ (cmd.map cstr).length ≠ 1 := by simpa using asks
      show (dispatchCommand env io start cmd).1 = _
      rw [dispatchCommand_eq, found]
      simp only [logCommand, unlogged, ne_eq, not_true_eq_false, decide_false, Bool.false_and,
        Bool.false_eq_true, if_false, Action.run, cmdBgrewriteaof]
      rw [if_neg arity, if_neg (by simp [path]), if_neg (by simp [calm]), if_neg (by simp [forks])]
    · cases asks
  | _ => cases starts

/-- The rewrite is under way once the child is forked. -/
theorem Flight.of_fork (idle : Idle start base) (starts : fork.startsRewrite start = true) :
    Flight (Miniredis.step start fork) (aofRewriteBytes start.db) .opening true base [] := by
  rw [step_fork starts idle.calm]
  obtain ⟨inode, opened, there, data⟩ := idle.fd
  refine ⟨idle.live, rfl, idle.blank, ?_, inode, opened, data,
    .start (replaceJob_apart _) there⟩
  have none : start.children.filter (fun child => child.kind = .rewrite) = [] :=
    List.filter_eq_nil_iff.mpr fun child member => by simp [idle.saves child member]
  simp [rewriters, none]

end Fork

/-! ### Undisturbed rewrites -/

/-- Every move of a child during the event succeeds. -/
def Event.Sound (e : Event) : Prop := ∀ move ∈ e.moves, move.succeeds = true

/-- The event does not reap children while the rewrite child is still at work. -/
def Event.Punctual (s : Server) (e : Event) : Prop :=
  e.reaps s = true → s.aofRewriting = true → ∀ child ∈ rewriters s, child.phase.ended = true

/-- The rewrite is under way, with the frames `since` in the old file and in the buffer, or it is
done and the frames are in the new file. -/
def OnCourse (s : Server) (base content since : Bytes) : Prop :=
  (∃ phase : Phase, phase.sound = true ∧ Flight s content phase true (base ++ since) since) ∨
    Idle s (content ++ since)

section Course

variable {s : Server} {base content since log buffer : Bytes} {phase : Phase} {busy : Bool}
variable {e : Event}

/-- A reaping is a turn of the loop over the expired store. -/
theorem Event.reaps_inv (reaps : e.reaps s = true) (lone : e.Lone s) :
    e.logged = [] ∧ s.sigchld = true ∧ ∃ now io, io.reopen = true ∧ io.flush = none ∧
      step s e = reapChildren io { s with db := dbExpireCycle now s.db } := by
  cases e with
  | cron now io => exact ⟨rfl, reaps, now, io, lone.1, lone.2, rfl⟩
  | _ => cases reaps

theorem Flight.withDb (flight : Flight s content phase busy log buffer) (db : Db) :
    Flight { s with db := db } content phase busy log buffer :=
  flight.congr rfl rfl rfl rfl rfl rfl

theorem Flight.ended (flight : Flight s content phase busy log buffer)
    (all : ∀ child ∈ rewriters s, child.phase.ended = true) : phase.ended = true := by
  rw [flight.child] at all
  exact all _ List.mem_cons_self

/-- A step of a rewrite whose child does not fail. -/
theorem Flight.step_sound (flight : Flight s content phase busy log buffer)
    (unfailed : phase.sound = true) (lone : e.Lone s) (sound : e.Sound)
    (working : e.reaps s = false) :
    ∃ phase : Phase, phase.sound = true ∧ Flight (Miniredis.step s e) content phase busy
      (log ++ respCodec.log e.logged) (buffer ++ if busy then respCodec.log e.logged else []) :=
  flight.step unfailed
    (fun _ _ _ holds succeeds unfailed => Phase.sound_move holds unfailed succeeds) lone sound
    working

/-- One step of a rewrite that nothing disturbs. -/
theorem OnCourse.step (course : OnCourse s base content since) (lone : e.Lone s) (sound : e.Sound)
    (punctual : e.Punctual s) :
    OnCourse (step s e) base content (since ++ respCodec.log e.logged) := by
  rcases course with ⟨phase, unfailed, flight⟩ | idle
  · cases reaps : e.reaps s with
    | false =>
      left
      rw [← List.append_assoc]
      exact flight.step_sound unfailed lone sound reaps
    | true =>
      right
      obtain ⟨none, set, now, io, reopens, flushes, after⟩ := Event.reaps_inv reaps lone
      have ended := Phase.sound_ended unfailed (flight.ended (punctual reaps flight.flag))
      subst ended
      rw [after, none, FrameLog.Codec.log_nil, List.append_nil]
      exact (flight.withDb _).reap_renamed set reopens flushes
  · right
    rw [← List.append_assoc]
    exact idle.step (lone.smooth idle.calm)

/-- **A rewrite that nothing disturbs stays on course.** -/
theorem OnCourse.run (course : OnCourse s base content since) {events : List Event}
    (along : Along (fun s e => e.Lone s ∧ e.Sound ∧ e.Punctual s) s events) :
    OnCourse (run s events) base content
      (since ++ respCodec.log (events.flatMap Event.logged)) := by
  induction events generalizing s since with
  | nil => simpa [Miniredis.run] using course
  | cons e rest ih =>
    obtain ⟨⟨lone, sound, punctual⟩, later⟩ := along
    have after := ih (course.step lone sound punctual) later
    rw [List.flatMap_cons, FrameLog.Codec.log_append, ← List.append_assoc]
    exact after

/-- Once the child is reaped, the rewrite is done. -/
theorem OnCourse.reaped (course : OnCourse s base content since) (none : s.children = []) :
    Idle s (content ++ since) := by
  rcases course with ⟨phase, _, flight⟩ | idle
  · have child := flight.child
    rw [rewriters, none] at child
    cases child
  · exact idle

end Course

/-! ### No other child -/

/-- The server has at most one child, and a signal is pending only if that child has ended. -/
structure Announced (s : Server) : Prop where
  single : s.children.length ≤ 1
  signal : s.posted = true ∨ s.sigchld = true → ∀ child ∈ s.children, child.phase.ended = true

section Announced

variable {s t : Server} {e : Event}

theorem Announced.congr (announced : Announced s) (children : t.children = s.children)
    (posted : t.posted = s.posted) (set : t.sigchld = s.sigchld) : Announced t :=
  ⟨by rw [children]; exact announced.single,
    by rw [children, posted, set]; exact announced.signal⟩

theorem Disk.move_ended {phase : Phase} (ended : phase.ended = true) (disk : Disk)
    (kind : ChildKind) (content : Bytes) (move : Move) :
    disk.move kind content phase move = (disk, phase) := by
  cases kind <;> simp only [Disk.move, Phase.move_ended ended]

theorem Announced.childMove (announced : Announced s) (i : Nat) (move : Move) :
    Announced (childMove s i move) := by
  unfold Miniredis.childMove
  split
  · exact announced
  rename_i child found
  have alone : s.children = [child] ∧ i = 0 := by
    have single := announced.single
    obtain ⟨bound, here⟩ := List.getElem?_eq_some_iff.mp found
    obtain ⟨only, same⟩ := List.length_eq_one_iff.mp (show s.children.length = 1 by omega)
    have first : i = 0 := by omega
    subst first
    simp only [same, List.getElem_cons_zero] at here
    exact ⟨here ▸ same, rfl⟩
  obtain ⟨same, rfl⟩ := alone
  refine ⟨by simp [same], fun pending other member => ?_⟩
  simp only [same, List.set_cons_zero, List.mem_singleton] at member
  subst member
  cases ended : child.phase.ended with
  | true =>
    rw [Disk.move_ended ended]
    exact ended
  | false =>
    -- the signal was not pending before, so this is the move that ends the child
    have before : ¬ (s.posted = true ∨ s.sigchld = true) := fun pending => by
      have done := announced.signal pending child (by rw [same]; exact List.mem_cons_self)
      rw [ended] at done
      cases done
    simp only [not_or, Bool.not_eq_true] at before
    simpa [ended, before.1, before.2] using pending

theorem Announced.stable : Stable (fun _ => True) False Announced where
  db _ _ announced := announced.congr rfl rfl rfl
  rdb _ _ announced := announced.congr rfl rfl rfl
  child _ i move _ announced := announced.childMove i move
  fork := False.elim
  signal _ posted announced := ⟨announced.single, fun _ => announced.signal (.inl posted)⟩

theorem logCommand_announced (io : Io) (cmd : Command) (announced : Announced s) :
    Announced (logCommand io s cmd) := by
  unfold logCommand
  split
  · unfold aofAppendCommand
    split
    · exact announced
    · dsimp only
      split <;> exact announced.congr rfl rfl rfl
  · exact announced

theorem Announced.step (announced : Announced s) (starts : e.StartsNone s)
    (alone : e.forksSave s = false) : Announced (step s e) := by
  cases reaps : e.reaps s with
  | false =>
    refine Announced.stable.step reaps starts (fun _ _ => trivial)
      (fun forks => by rw [alone] at forks; cases forks) ?_
    cases e with
    | command env io cmd => exact logCommand_announced io cmd announced
    | _ => exact announced
  | true =>
    cases e with
    | cron now io =>
      -- the pending signal is the child's, so no child is left
      have none : (Miniredis.step s (.cron now io)).children = [] := by
        have set : { s with db := dbExpireCycle now s.db }.sigchld = true := reaps
        refine (reapChildren_children io set).trans ?_
        exact List.filter_eq_nil_iff.mpr fun child member => by
          simp [announced.signal (.inr reaps) child member]
      exact ⟨by simp [none], fun _ child member => by simp [none] at member⟩
    | _ => cases reaps

/-- With one child, a reaping comes after its end. -/
theorem Announced.punctual (announced : Announced s) : e.Punctual s := by
  intro reaps _ child member
  cases e with
  | cron now io => exact announced.signal (.inr reaps) child (List.mem_of_mem_filter member)
  | _ => cases reaps

theorem Announced.along (announced : Announced s) {events : List Event}
    (along : Along (fun s e => e.Lone s ∧ e.Sound ∧ e.forksSave s = false) s events) :
    Along (fun s e => e.Lone s ∧ e.Sound ∧ e.Punctual s) s events := by
  induction events generalizing s with
  | nil => trivial
  | cons e rest ih =>
    obtain ⟨⟨lone, sound, alone⟩, later⟩ := along
    exact ⟨⟨lone, sound, announced.punctual⟩, ih (announced.step lone.startsNone alone) later⟩

end Announced

/-- No child and no signal. -/
structure Childless (s : Server) : Prop where
  children : s.children = []
  posted : s.posted = false
  sigchld : s.sigchld = false

theorem Announced.of_fork {start : Server} {fork : Event} (childless : Childless start)
    (calm : start.aofRewriting = false) (starts : fork.startsRewrite start = true) :
    Announced (Miniredis.step start fork) := by
  rw [step_fork starts calm]
  refine ⟨by simp [childless.children], fun pending => ?_⟩
  simp [childless.posted, childless.sigchld] at pending

/-- **A rewrite in the background with no other child.** Once the child is reaped, the parent has
the file at the path of the log open, the file is the rewrite of the store at the fork and the
frames of every write command since, in order, and the buffer is empty; and so it stays. -/
theorem bgrewriteaof_alone {start : Server} {base : Bytes} {fork : Event} {events : List Event}
    (idle : Idle start base) (childless : Childless start)
    (starts : fork.startsRewrite start = true)
    (along : Along (fun s e => e.Lone s ∧ e.Sound ∧ e.forksSave s = false) (step start fork) events)
    (reaped : (run (step start fork) events).children = []) :
    Idle (run (step start fork) events)
      (aofRewriteBytes start.db ++ respCodec.log (events.flatMap Event.logged)) := by
  have forked : OnCourse (step start fork) base (aofRewriteBytes start.db) [] :=
    .inl ⟨.opening, rfl, by simpa using Flight.of_fork idle starts⟩
  have punctual := (Announced.of_fork childless idle.calm starts).along along
  simpa using (forked.run punctual).reaped reaped

theorem sampleStart_idle (rdb : Bool) : Idle (sampleStart rdb) [] :=
  ⟨sampleStart_quiet rdb, by cases rdb <;> rfl⟩

theorem sampleStart_childless (rdb : Bool) : Childless (sampleStart rdb) := by
  cases rdb <;> exact ⟨rfl, rfl, rfl⟩

def startRewrite : Event := request ["BGREWRITEAOF"]

theorem bgrewriteaof_found :
    entryOf [text "BGREWRITEAOF"] = some ⟨text "bgrewriteaof", false, .bgrewriteaof⟩ :=
  entryOf_eq (by simp [commands]) (by decide) []

theorem startsRewrite_of_found {env : Env} {s : Server} {cmd : Command} {name : Bytes}
    {write : Bool} (found : entryOf cmd = some ⟨name, write, .bgrewriteaof⟩)
    (one : cmd.length = 1) (path : s.aofPath = true) :
    (Event.command env .smooth cmd).startsRewrite s = true := by
  simp [Event.startsRewrite, asksBgrewriteaof, found, one, path, Io.smooth]

theorem startRewrite_starts (rdb : Bool) : startRewrite.startsRewrite (sampleStart rdb) = true :=
  startsRewrite_of_found bgrewriteaof_found rfl (by cases rdb <;> rfl)

/-- The small server after the fork of a rewrite. -/
def sampleFork (rdb : Bool) : Server :=
  { sampleStart rdb with children := [⟨.rewrite, [], .opening⟩], aofRewriting := true }

theorem step_startRewrite (rdb : Bool) : step (sampleStart rdb) startRewrite = sampleFork rdb := by
  rw [step_fork (startRewrite_starts rdb) (by cases rdb <;> rfl)]
  cases rdb <;> rfl

theorem run_startRewrite (rdb : Bool) (rest : List Event) :
    run (sampleStart rdb) (startRewrite :: rest) = run (sampleFork rdb) rest :=
  congrArg (run · rest) (step_startRewrite rdb)

/-- A child works to its end. -/
def finish (i : Nat) : List Event := List.replicate 5 (.child i (.go 1000 false))

/-- The end of a turn of the event loop. -/
def loopEnd : Event := .cron (fun _ => 0) .smooth

/-- The signal of a child is handled and the child is reaped. -/
def turn : List Event := [.signal, loopEnd]

theorem request_lone {words : List String} (none : asksRewrite (words.map text) = false)
    (s : Server) : (request words).Lone s ∧ (request words).Sound := by
  refine ⟨⟨rfl, fun asks => ?_⟩, nofun⟩
  rw [none] at asks
  cases asks

theorem write_alone {words : List String} (logs : logged (words.map text) ≠ []) (s : Server) :
    (request words).Lone s ∧ (request words).Sound ∧ (request words).forksSave s = false := by
  obtain ⟨_, _, found, _⟩ := logged_inv logs
  obtain ⟨lone, sound⟩ := request_lone (asksRewrite_logged logs) s
  exact ⟨lone, sound, by simp [request, Event.forksSave, forksSave, found]⟩

theorem finish_alone {i : Nat} {e : Event} (member : e ∈ finish i) (s : Server) :
    e.Lone s ∧ e.Sound ∧ e.forksSave s = false := by
  obtain rfl := (List.mem_replicate.mp member).2
  exact ⟨trivial, by simp [Event.Sound, Event.moves, Move.succeeds], rfl⟩

theorem turn_alone {e : Event} (member : e ∈ turn) (s : Server) :
    e.Lone s ∧ e.Sound ∧ e.forksSave s = false := by
  rcases List.mem_pair.mp member with rfl | rfl
  · exact ⟨trivial, nofun, rfl⟩
  · exact ⟨⟨rfl, rfl⟩, nofun, rfl⟩

/-- A write before the rename, one after it and one after the reaping. -/
def rewriteEvents : List Event :=
  [request ["SET", "k", "v"]] ++ finish 0 ++ [request ["SET", "k", "w"]] ++ turn ++
    [request ["SET", "x", "y"]]

theorem bgrewriteaof_alone_sample :
    Idle (run (step (sampleStart false) startRewrite) rewriteEvents)
        (aofRewriteBytes (sampleStart false).db ++
          respCodec.log (rewriteEvents.flatMap Event.logged)) ∧
      (rewriteEvents.flatMap Event.logged).length = 3 := by
  have along : Along (fun s e => e.Lone s ∧ e.Sound ∧ e.forksSave s = false)
      (step (sampleStart false) startRewrite) rewriteEvents := by
    refine Along.of_forall (fun e member s => ?_) _
    simp only [rewriteEvents, List.mem_append, List.mem_singleton] at member
    rcases member with (((rfl | member) | rfl) | member) | rfl
    · exact write_alone (by decide) s
    · exact finish_alone member s
    · exact write_alone (by decide) s
    · exact turn_alone member s
    · exact write_alone (by decide) s
  have reaped :
      (run (step (sampleStart false) startRewrite) rewriteEvents).children.length = 0 := by
    rw [step_startRewrite]
    decide
  exact ⟨bgrewriteaof_alone (sampleStart_idle false) (sampleStart_childless false)
    (startRewrite_starts false) along (List.length_eq_zero_iff.mp reaped), by decide⟩

/-! ### Children that save beside the rewrite -/

/-- The parent has a file open that is not the one at the path of the log. -/
structure Adrift (s : Server) : Prop where
  fd : ∃ fd, s.aofFd = some fd ∧ s.disk.aof.entry .file ≠ some fd
  calm : s.aofRewriting = false
  saves : ∀ child ∈ s.children, child.kind = .save

/-- The flag was cleared too early: the child is still there, or the parent is adrift. -/
def Strayed (s : Server) (content : Bytes) : Prop :=
  (∃ (phase : Phase) (log : Bytes), phase.sound = true ∧ Flight s content phase false log []) ∨
    Adrift s

section Strayed

variable {s t : Server} {base content since : Bytes} {e : Event}

theorem Adrift.congr (adrift : Adrift s) (fd : t.aofFd = s.aofFd)
    (entry : t.disk.aof.entry = s.disk.aof.entry) (calm : t.aofRewriting = s.aofRewriting)
    (saves : ∀ child ∈ t.children, child.kind = .save) : Adrift t :=
  ⟨by rw [fd, entry]; exact adrift.fd, calm.trans adrift.calm, saves⟩

theorem Adrift.stable : Stable (fun _ => True) True Adrift where
  db _ _ adrift := adrift.congr rfl rfl rfl adrift.saves
  rdb _ _ adrift := adrift.congr rfl rfl rfl adrift.saves
  child s i move _ adrift := by
    obtain ⟨files, saves⟩ := childMove_saves adrift.saves i move
    rw [childMove_parent]
    exact adrift.congr rfl (congrArg FileSystem.entry files) rfl saves
  fork _ s content adrift := by
    refine adrift.congr rfl rfl rfl fun child member => ?_
    rcases List.mem_append.mp member with old | new
    · exact adrift.saves child old
    · rw [List.mem_singleton.mp new]
  signal _ _ adrift := adrift.congr rfl rfl rfl adrift.saves

theorem Adrift.logCommand (adrift : Adrift s) (io : Io) (cmd : Command) :
    Adrift (logCommand io s cmd) := by
  unfold Miniredis.logCommand
  split
  · unfold aofAppendCommand
    split
    · exact adrift
    · dsimp only
      split <;> exact adrift.congr rfl rfl rfl adrift.saves
  · exact adrift

theorem Adrift.step (adrift : Adrift s) (lone : e.Lone s) : Adrift (step s e) := by
  cases reaps : e.reaps s with
  | false =>
    refine Adrift.stable.step reaps lone.startsNone (fun _ _ => trivial) (fun _ => trivial) ?_
    cases e with
    | command env io cmd => exact adrift.logCommand io cmd
    | _ => exact adrift
  | true =>
    obtain ⟨_, set, now, io, _, _, after⟩ := Event.reaps_inv reaps lone
    rw [after, reapChildren_calm (s := { s with db := dbExpireCycle now s.db }) io set adrift.calm]
    exact adrift.congr rfl rfl rfl fun child member =>
      adrift.saves child (List.mem_of_mem_filter member)

/-- A child that has renamed and is reaped with the flag cleared leaves the parent adrift. -/
theorem Flight.reap_adrift {log buffer : Bytes} {io : Io}
    (flight : Flight s content (.exited true) false log buffer) (set : s.sigchld = true) :
    Adrift (reapChildren io s) := by
  have saves := flight.reap_saves io rfl set
  obtain ⟨fd, opened, _, beside⟩ := flight.fd
  rw [reapChildren_calm io set flight.flag] at saves ⊢
  exact ⟨⟨fd, opened, (beside.after rfl).2⟩, flight.flag, saves⟩

theorem Strayed.step (strayed : Strayed s content) (lone : e.Lone s) (sound : e.Sound) :
    Strayed (step s e) content := by
  rcases strayed with ⟨phase, log, unfailed, flight⟩ | adrift
  · cases reaps : e.reaps s with
    | false =>
      obtain ⟨after, ok, flown⟩ := flight.step_sound unfailed lone sound reaps
      exact .inl ⟨after, _, ok, by simpa using flown⟩
    | true =>
      obtain ⟨_, set, now, io, _, _, after⟩ := Event.reaps_inv reaps lone
      rw [after]
      cases ended : phase.ended with
      | false => exact .inl ⟨phase, log, unfailed, (flight.withDb _).reap_calm ended set⟩
      | true =>
        have renamed := Phase.sound_ended unfailed ended
        subst renamed
        exact .inr ((flight.withDb _).reap_adrift set)
  · exact .inr (adrift.step lone)

/-- A reaping that comes too early makes the rewrite stray. -/
theorem OnCourse.stray (course : OnCourse s base content since) (lone : e.Lone s)
    (early : ¬ e.Punctual s) : Strayed (Miniredis.step s e) content := by
  unfold Event.Punctual at early
  push Not at early
  obtain ⟨reaps, busy, child, member, working⟩ := early
  rcases course with ⟨phase, unfailed, flight⟩ | idle
  · obtain ⟨_, set, now, io, reopens, flushes, after⟩ := Event.reaps_inv reaps lone
    rw [flight.child, List.mem_singleton] at member
    subst member
    have going : phase.ended = false := by simpa using working
    rw [after]
    exact .inl ⟨phase, _, unfailed, (flight.withDb _).reap_early going set reopens flushes⟩
  · rw [idle.calm] at busy
    cases busy

theorem Strayed.run (strayed : Strayed s content) {events : List Event}
    (along : Along (fun s e => e.Lone s ∧ e.Sound) s events) :
    Strayed (run s events) content := by
  induction events generalizing s with
  | nil => exact strayed
  | cons e rest ih => exact ih (strayed.step along.1.1 along.1.2) along.2

/-- A run of a rewrite on course reaps too early and strays, or stays on course. -/
theorem OnCourse.run_or {events : List Event} (course : OnCourse s base content since)
    (along : Along (fun s e => e.Lone s ∧ e.Sound) s events) :
    Along (fun s e => e.Lone s ∧ e.Sound ∧ e.Punctual s) s events ∨
      Strayed (Miniredis.run s events) content := by
  induction events generalizing s since with
  | nil => exact .inl trivial
  | cons e rest ih =>
    obtain ⟨⟨lone, sound⟩, later⟩ := along
    by_cases punctual : e.Punctual s
    · rcases ih (course.step lone sound punctual) later with all | strayed
      · exact .inl ⟨⟨lone, sound, punctual⟩, all⟩
      · exact .inr strayed
    · exact .inr ((course.stray lone punctual).run later)

/-- A rewrite that has strayed leaves the parent with another file than the one at the path. -/
theorem Strayed.not_openLog (strayed : Strayed s content) (none : s.children = []) (log : Bytes) :
    ¬ OpenLog s log := by
  rcases strayed with ⟨phase, _, _, flight⟩ | adrift
  · have child := flight.child
    rw [rewriters, none] at child
    cases child
  · rintro ⟨inode, opened, entry, _⟩
    obtain ⟨fd, same, other⟩ := adrift.fd
    rw [opened] at same
    exact other (Option.some.inj same ▸ entry)

end Strayed

/-- **A rewrite in the background beside children that save.** Once every child has been reaped, the
parent has the file at the path of the log open and the file is the rewrite of the store at the fork
and the frames of every write command since, exactly if no reaping came before the rewrite child had
ended. -/
theorem bgrewriteaof_bgsave {start : Server} {base : Bytes} {fork : Event} {events : List Event}
    (idle : Idle start base) (starts : fork.startsRewrite start = true)
    (along : Along (fun s e => e.Lone s ∧ e.Sound) (step start fork) events)
    (reaped : (run (step start fork) events).children = []) :
    OpenLog (run (step start fork) events)
        (aofRewriteBytes start.db ++ respCodec.log (events.flatMap Event.logged)) ↔
      Along (fun s e => e.Punctual s) (step start fork) events := by
  have forked : OnCourse (step start fork) base (aofRewriteBytes start.db) [] :=
    .inl ⟨.opening, rfl, by simpa using Flight.of_fork idle starts⟩
  constructor
  · intro opened
    rcases forked.run_or along with all | strayed
    · exact all.imp fun _ _ each => each.2.2
    · exact absurd opened (strayed.not_openLog reaped _)
  · intro punctual
    have all := along.and punctual
    simpa using ((forked.run (all.imp fun _ _ each => ⟨each.1.1, each.1.2, each.2⟩)).reaped
      reaped).fd

theorem sampleFork_bgsave (rest : List Event) :
    run (step (sampleStart true) startRewrite)
        ([request ["SET", "k", "v"], request ["BGSAVE"]] ++ rest) =
      run (forkSave (step (sampleFork true) (request ["SET", "k", "v"]))) rest := by
  have path := congrArg Prod.snd
    (step_options (s := sampleFork true) (request ["SET", "k", "v"]))
  have saves : step (step (sampleFork true) (request ["SET", "k", "v"])) (request ["BGSAVE"]) =
      forkSave (step (sampleFork true) (request ["SET", "k", "v"])) :=
    step_bgsave bgsave_found rfl path
  rw [step_startRewrite, run, run, List.foldl_append, List.foldl_cons, List.foldl_cons,
    List.foldl_nil, saves]

/-- The child that saves ends first, and is reaped alone. -/
def overlapEvents : List Event :=
  [request ["SET", "k", "v"], request ["BGSAVE"]] ++ finish 1 ++ turn ++ finish 0 ++ turn

/-- Both children succeed and are reaped, and the command is lost. -/
theorem bgrewriteaof_bgsave_differs :
    (run (step (sampleStart true) startRewrite) overlapEvents).children.length = 0 ∧
      ¬ OpenLog (run (step (sampleStart true) startRewrite) overlapEvents)
        (aofRewriteBytes (sampleStart true).db ++
          respCodec.log (overlapEvents.flatMap Event.logged)) := by
  rw [show overlapEvents = [request ["SET", "k", "v"], request ["BGSAVE"]] ++
    (finish 1 ++ turn ++ finish 0 ++ turn) from rfl, sampleFork_bgsave]
  refine ⟨by decide +kernel, fun opened => ?_⟩
  have contents := opened.contents
  revert contents
  decide +kernel

/-- The child that rewrites ends first. -/
def orderedEvents : List Event :=
  [request ["SET", "k", "v"], request ["BGSAVE"]] ++ finish 0 ++ finish 1 ++ [.signal]

theorem ordered_eq : orderedEvents =
    [request ["SET", "k", "v"], request ["BGSAVE"]] ++ (finish 0 ++ finish 1 ++ [.signal]) := rfl

theorem asksRewrite_of_save {cmd : Command} {name : Bytes} {write : Bool}
    (found : entryOf cmd = some ⟨name, write, .bgsave⟩) : asksRewrite cmd = false := by
  simp [asksRewrite, found]

theorem bgrewriteaof_bgsave_sample :
    OpenLog (run (step (sampleStart true) startRewrite) (orderedEvents ++ [loopEnd]))
      (aofRewriteBytes (sampleStart true).db ++
        respCodec.log ((orderedEvents ++ [loopEnd]).flatMap Event.logged)) := by
  have saves : asksRewrite (["BGSAVE"].map text) = false := asksRewrite_of_save bgsave_found
  have lone : ∀ e ∈ orderedEvents, ∀ s, (e.Lone s ∧ e.Sound) ∧ e.reaps s = false := by
    intro e member s
    simp only [orderedEvents, List.mem_append, List.mem_cons, List.not_mem_nil, or_false] at member
    rcases member with (((rfl | rfl) | member) | member) | rfl
    · exact ⟨request_lone (by decide) s, rfl⟩
    · exact ⟨request_lone saves s, rfl⟩
    · have alone := finish_alone member s
      obtain rfl := (List.mem_replicate.mp member).2
      exact ⟨⟨alone.1, alone.2.1⟩, rfl⟩
    · have alone := finish_alone member s
      obtain rfl := (List.mem_replicate.mp member).2
      exact ⟨⟨alone.1, alone.2.1⟩, rfl⟩
    · exact ⟨⟨trivial, nofun⟩, rfl⟩
  have along : Along (fun s e => e.Lone s ∧ e.Sound) (step (sampleStart true) startRewrite)
      (orderedEvents ++ [loopEnd]) :=
    (Along.of_forall (fun e member s => (lone e member s).1) _).append
      ⟨⟨⟨rfl, rfl⟩, nofun⟩, trivial⟩
  have ended : ∀ child ∈ rewriters (run (step (sampleStart true) startRewrite) orderedEvents),
      child.phase.ended = true := by
    rw [ordered_eq, sampleFork_bgsave]
    decide
  have punctual : Along (fun s e => e.Punctual s) (step (sampleStart true) startRewrite)
      (orderedEvents ++ [loopEnd]) := by
    refine Along.append (Along.of_forall (fun e member s reaps => ?_) _) ⟨fun _ _ => ended, trivial⟩
    rw [(lone e member s).2] at reaps
    cases reaps
  have reaped : (run (step (sampleStart true) startRewrite)
      (orderedEvents ++ [loopEnd])).children.length = 0 := by
    rw [ordered_eq, List.append_assoc, sampleFork_bgsave]
    decide
  exact (bgrewriteaof_bgsave (sampleStart_idle true) (startRewrite_starts true) along
    (List.length_eq_zero_iff.mp reaped)).mpr punctual

end Miniredis
