/-
**A rewrite of the log under way.**

While a child rewrites the log, the parent appends every write command to the file it has open and,
as long as `g_aof_rewriting` is set, to the rewrite buffer. `Flight` says where both stand: the
child's phase, what the open file holds, what the buffer holds, and that the path still names the
open file until the child renames (`Phase.Beside`).

* `Flight.step` — a step that reaps no child extends the file and the buffer by its frame.
* `Flight.reap_renamed`, `Flight.reap_failed`, `Flight.reap_early` — what `reap_children` makes of a
  child that has renamed, that has failed and that is still at work: in all three cases the buffer
  goes to whatever the path names.
-/

import Miniredis.Replay.Log

namespace Miniredis

open FileSystem (Phase Move)

/-! ### A server without a rewrite -/

/-- No rewrite is under way, the open log holds `log` and the rewrite buffer is empty. -/
structure Idle (s : Server) (log : Bytes) : Prop extends Quiet s log where
  blank : s.rewriteBuf = []

section Idle

variable {log : Bytes}

theorem childMove_buffer {s : Server} (i : Nat) (move : Move) :
    (childMove s i move).rewriteBuf = s.rewriteBuf := by
  rw [childMove_parent]

theorem Idle.stable (log : Bytes) : Stable (fun _ => True) True fun s => Idle s log where
  db s db idle := ⟨(Quiet.stable log).db s db idle.toQuiet, idle.blank⟩
  rdb s files idle := ⟨(Quiet.stable log).rdb s files idle.toQuiet, idle.blank⟩
  child _ i move _ idle :=
    ⟨idle.toQuiet.childMove i move, (childMove_buffer i move).trans idle.blank⟩
  fork _ s content idle := ⟨(Quiet.stable log).fork trivial s content idle.toQuiet, idle.blank⟩
  signal s posted idle := ⟨(Quiet.stable log).signal s posted idle.toQuiet, idle.blank⟩

variable {s : Server}

theorem Idle.logCommand {io : Io} {cmd : Command} (idle : Idle s log)
    (succeeds : io.append = none) :
    Idle (logCommand io s cmd) (log ++ respCodec.log (logged cmd)) := by
  refine ⟨idle.toQuiet.logCommand succeeds, ?_⟩
  unfold Miniredis.logCommand
  split
  · obtain ⟨inode, fd, _, _⟩ := idle.fd
    unfold aofAppendCommand
    rw [fd]
    simp only [idle.calm, Bool.and_false, Bool.false_eq_true, if_false]
    exact idle.blank
  · exact idle.blank

theorem Idle.step (idle : Idle s log) {e : Event} (smooth : e.Smooth) :
    Idle (step s e) (log ++ respCodec.log e.logged) := by
  cases reaps : e.reaps s with
  | false =>
    refine (Idle.stable _).step reaps smooth.startsNone (fun _ _ => trivial)
      (fun _ => trivial) ?_
    cases e with
    | command env io cmd => exact idle.logCommand smooth.1
    | _ =>
      rw [Event.logged, FrameLog.Codec.log_nil, List.append_nil]
      exact idle
  | true =>
    refine ⟨idle.toQuiet.step smooth, ?_⟩
    cases e with
    | cron now io =>
      show (reapChildren io _).rewriteBuf = []
      unfold reapChildren
      split
      · exact idle.blank
      · dsimp only
        rw [if_neg (by simp [idle.calm])]
        exact idle.blank
    | _ => cases reaps

end Idle

/-! ### The rewrite child -/

/-- The children that rewrite the log. -/
def rewriters (s : Server) : List Child := s.children.filter fun child => child.kind = .rewrite

/-- A child rewrites the log to `content` and has come to `phase`; the file the parent has open
holds `log` and the rewrite buffer holds `buffer`. `busy` is `g_aof_rewriting`. -/
structure Flight (s : Server) (content : Bytes) (phase : Phase) (busy : Bool)
    (log buffer : Bytes) : Prop where
  live : s.aofReplaying = false
  flag : s.aofRewriting = busy
  buffered : s.rewriteBuf = buffer
  child : rewriters s = [⟨.rewrite, content, phase⟩]
  fd : ∃ fd, s.aofFd = some fd ∧ s.disk.aof.data fd = log ∧
    phase.Beside (replaceJob content) s.disk.aof fd

section Flight

variable {s t : Server} {content log buffer : Bytes} {phase : Phase} {busy : Bool}

theorem replaceJob_apart (content : Bytes) :
    (replaceJob content).target ≠ (replaceJob content).temporary := nofun

theorem Flight.congr (flight : Flight s content phase busy log buffer)
    (live : t.aofReplaying = s.aofReplaying) (flag : t.aofRewriting = s.aofRewriting)
    (buffered : t.rewriteBuf = s.rewriteBuf) (child : rewriters t = rewriters s)
    (fd : t.aofFd = s.aofFd) (files : t.disk.aof = s.disk.aof) :
    Flight t content phase busy log buffer :=
  ⟨live.trans flight.live, flag.trans flight.flag, buffered.trans flight.buffered,
    child.trans flight.child, by rw [fd, files]; exact flight.fd⟩

/-- A member of a list changes its place in a filtered list only through itself. -/
theorem filter_set {α : Type} {l : List α} {i : Nat} {a : α} (found : l[i]? = some a) (b : α)
    (p : α → Bool) : ∃ left right, l.filter p = left ++ [a].filter p ++ right ∧
      (l.set i b).filter p = left ++ [b].filter p ++ right := by
  obtain ⟨bound, rfl⟩ := List.getElem?_eq_some_iff.mp found
  refine ⟨(l.take i).filter p, (l.drop (i + 1)).filter p, ?_, ?_⟩
  · rw [← List.filter_append, ← List.filter_append, List.append_assoc, List.singleton_append,
      ← List.drop_eq_getElem_cons bound, List.take_append_drop]
  · rw [List.set_eq_take_append_cons_drop, if_pos bound, ← List.filter_append,
      ← List.filter_append, List.append_assoc, List.singleton_append]

/-- A move of a child is the rewrite child's, or it does not concern the log. -/
theorem Flight.childMove (flight : Flight s content phase busy log buffer) (i : Nat)
    (move : Move) :
    Flight (childMove s i move) content phase busy log buffer ∨
      Flight (childMove s i move) content (phase.move (replaceJob content) s.disk.aof move).2
        busy log buffer := by
  unfold Miniredis.childMove
  split
  · exact .inl flight
  rename_i child found
  have own := flight.child
  obtain ⟨left, right, here, moved⟩ := filter_set found { child with phase := (s.disk.move
    child.kind child.content child.phase move).2 } fun child => child.kind = .rewrite
  cases kind : child.kind with
  | save =>
    refine .inl (flight.congr rfl rfl rfl ?_ rfl rfl)
    rw [kind] at moved
    simp only [kind, List.filter_singleton, reduceCtorEq, decide_false] at here moved
    exact moved.trans here.symm
  | rewrite =>
    rw [kind] at moved
    simp only [kind, List.filter_singleton, decide_true] at here moved
    rw [rewriters, here] at own
    obtain ⟨rfl, rfl, rfl⟩ : left = [] ∧ right = [] ∧ child = ⟨.rewrite, content, phase⟩ := by
      cases left with
      | nil => simpa [and_comm] using own
      | cons first rest => simp at own
    obtain ⟨fd, opened, data, beside⟩ := flight.fd
    obtain ⟨after, kept⟩ := beside.move (replaceJob_apart content) move
    exact .inr ⟨flight.live, flight.flag, flight.buffered, moved,
      fd, opened, kept.trans data, after⟩

/-- A rewrite under way keeps what its child's moves keep of the phase. -/
theorem Flight.stable {moves : Move → Prop} {I : Phase → Prop}
    (keeps : ∀ phase files move, phase.Holds (replaceJob content) files → moves move → I phase →
      I (phase.move (replaceJob content) files move).2) :
    Stable moves True fun s => ∃ phase, I phase ∧ Flight s content phase busy log buffer where
  db _ _ := fun ⟨phase, ok, flight⟩ => ⟨phase, ok, flight.congr rfl rfl rfl rfl rfl rfl⟩
  rdb _ _ := fun ⟨phase, ok, flight⟩ => ⟨phase, ok, flight.congr rfl rfl rfl rfl rfl rfl⟩
  child s i move allowed := fun ⟨phase, ok, flight⟩ => by
    obtain ⟨_, _, _, beside⟩ := flight.fd
    rcases flight.childMove i move with same | moved
    · exact ⟨phase, ok, same⟩
    · exact ⟨_, keeps phase s.disk.aof move beside.holds allowed ok, moved⟩
  fork _ s _ := fun ⟨phase, ok, flight⟩ => by
    refine ⟨phase, ok, flight.congr rfl rfl rfl ?_ rfl rfl⟩
    simp [rewriters]
  signal _ _ := fun ⟨phase, ok, flight⟩ => ⟨phase, ok, flight.congr rfl rfl rfl rfl rfl rfl⟩

/-- A write command goes to the open file and, while the flag is set, to the buffer. -/
theorem Flight.append {io : Io} (flight : Flight s content phase busy log buffer)
    (succeeds : io.append = none) (cmd : Command) :
    Flight (aofAppendCommand io s cmd) content phase busy (log ++ commandToResp cmd)
      (buffer ++ if busy then commandToResp cmd else []) := by
  obtain ⟨fd, opened, data, beside⟩ := flight.fd
  have appended : (s.disk.aof.append fd (commandToResp cmd)).data fd =
      log ++ commandToResp cmd := by
    rw [FileSystem.append_data, data]
  unfold aofAppendCommand
  rw [opened]
  simp only [succeeds, written, Option.isNone_none, Bool.true_and, flight.flag]
  cases busy with
  | true =>
    exact ⟨flight.live, rfl, congrArg (· ++ commandToResp cmd) flight.buffered,
      flight.child, fd, rfl, appended, beside.append _⟩
  | false =>
    exact ⟨flight.live, rfl, flight.buffered.trans (List.append_nil buffer).symm,
      flight.child, fd, rfl, appended, beside.append _⟩

theorem Flight.logCommand {io : Io} {cmd : Command}
    (flight : Flight s content phase busy log buffer) (succeeds : io.append = none) :
    Flight (logCommand io s cmd) content phase busy (log ++ respCodec.log (logged cmd))
      (buffer ++ if busy then respCodec.log (logged cmd) else []) := by
  obtain ⟨fd, opened, _, _⟩ := flight.fd
  unfold Miniredis.logCommand
  rcases logged_eq cmd with none | one
  · simpa [none] using flight
  · rw [if_pos (by simp [one, opened, flight.live]), one]
    simpa [respCodec, commandToResp] using flight.append succeeds cmd

/-- The parent's own operations of the event succeed, and it starts no other rewrite. -/
def Event.Lone (s : Server) : Event → Prop
  | .command _ io cmd => io.append = none ∧ Miniredis.StartsNone s cmd
  | .cron _ io => io.reopen = true ∧ io.flush = none
  | .child _ _ | .signal => True

theorem Event.Lone.startsNone {e : Event} (lone : e.Lone s) : e.StartsNone s := by
  cases e with
  | command env io cmd => exact lone.2
  | _ => trivial

theorem Event.Lone.smooth {e : Event} (lone : e.Lone s) (calm : s.aofRewriting = false) :
    e.Smooth := by
  cases e with
  | command env io cmd =>
    refine ⟨lone.1, ?_⟩
    cases asks : asksRewrite cmd with
    | false => rfl
    | true =>
      have rewriting := (lone.2 asks).1
      rw [calm] at rewriting
      cases rewriting
  | _ => trivial

/-- **A step that reaps no child extends the file and the buffer by its frame.** -/
theorem Flight.step {moves : Move → Prop} {I : Phase → Prop}
    (flight : Flight s content phase busy log buffer) (ok : I phase)
    (keeps : ∀ phase files move, phase.Holds (replaceJob content) files → moves move → I phase →
      I (phase.move (replaceJob content) files move).2)
    {e : Event} (lone : e.Lone s) (allowed : ∀ move ∈ e.moves, moves move)
    (working : e.reaps s = false) :
    ∃ phase, I phase ∧ Flight (step s e) content phase busy (log ++ respCodec.log e.logged)
      (buffer ++ if busy then respCodec.log e.logged else []) := by
  refine (Flight.stable keeps).step working lone.startsNone allowed (fun _ => trivial) ?_
  refine ⟨phase, ok, ?_⟩
  cases e with
  | command env io cmd => exact flight.logCommand lone.1
  | _ => simpa [Event.logged, Event.record] using flight

/-! ### Reaping -/

theorem append_nil (files : FileSystem Path) (inode : Nat) : files.append inode [] = files := by
  rw [FileSystem.append, List.append_nil, FileSystem.setData, Function.update_eq_self]

/-- A reopening that succeeds appends the buffer to whatever the path names. -/
theorem aofReopen_eq {io : Io} {inode : Nat} (reopens : io.reopen = true)
    (flushes : io.flush = none)
    (there : s.disk.aof.entry .file = some inode) :
    (aofReopen io s).1 =
      { s with
        aofFd := some inode
        disk.aof := s.disk.aof.append inode s.rewriteBuf
        rewriteBuf := [] } := by
  unfold aofReopen
  simp only [reopens, flushes, FileSystem.create, there, written, Bool.not_true,
    Bool.false_eq_true, if_false]
  split
  · rename_i blank
    simp only [blank, append_nil]
  · rfl

theorem reapChildren_children (io : Io) (set : s.sigchld = true) :
    (reapChildren io s).children = s.children.filter fun child => !child.phase.ended := by
  unfold reapChildren
  rw [if_neg (by simp [set])]
  dsimp only
  split
  · unfold aofReopen
    split
    · rfl
    · dsimp only
      split <;> rfl
  · rfl

/-- The rewrite children that are left after a reaping. -/
theorem rewriters_reap (io : Io) (set : s.sigchld = true) :
    rewriters (reapChildren io s) = (rewriters s).filter fun child => !child.phase.ended := by
  rw [rewriters, rewriters, reapChildren_children io set, List.filter_comm]

theorem saves_of_rewriters (none : rewriters s = []) :
    ∀ child ∈ s.children, child.kind = .save := by
  intro child member
  cases kind : child.kind with
  | save => rfl
  | rewrite =>
    have own : child ∈ rewriters s := List.mem_filter.mpr ⟨member, by simp [kind]⟩
    rw [none] at own
    cases own

variable {io : Io}

theorem reapChildren_busy {inode : Nat} (reopens : io.reopen = true) (flushes : io.flush = none)
    (set : s.sigchld = true) (busy : s.aofRewriting = true)
    (there : s.disk.aof.entry .file = some inode) :
    reapChildren io s =
      { s with
        sigchld := false
        children := s.children.filter fun child => !child.phase.ended
        aofRewriting := false
        aofFd := some inode
        disk.aof := s.disk.aof.append inode s.rewriteBuf
        rewriteBuf := [] } := by
  unfold reapChildren
  rw [if_neg (by simp [set])]
  simp only [busy, if_true]
  rw [aofReopen_eq (s := { s with sigchld := false, children := _, aofRewriting := false })
    reopens flushes there]

theorem reapChildren_calm (io : Io) (set : s.sigchld = true) (calm : s.aofRewriting = false) :
    reapChildren io s =
      { s with
        sigchld := false
        children := s.children.filter fun child => !child.phase.ended } := by
  unfold reapChildren
  rw [if_neg (by simp [set])]
  simp only [calm, Bool.false_eq_true, if_false]

/-- No rewrite child is left once it has ended. -/
theorem Flight.reap_saves (flight : Flight s content phase busy log buffer) (io : Io)
    (ended : phase.ended = true) (set : s.sigchld = true) :
    ∀ child ∈ (reapChildren io s).children, child.kind = .save := by
  refine saves_of_rewriters ?_
  rw [rewriters_reap io set, flight.child]
  simp [ended]

/-- **The child has renamed: the log is the rewrite and the buffer after it.** -/
theorem Flight.reap_renamed (flight : Flight s content (.exited true) true log buffer)
    (set : s.sigchld = true) (reopens : io.reopen = true) (flushes : io.flush = none) :
    Idle (reapChildren io s) (content ++ buffer) := by
  have saves := flight.reap_saves io rfl set
  obtain ⟨fd, _, _, beside⟩ := flight.fd
  obtain ⟨inode, there, data⟩ := Option.map_eq_some_iff.mp (beside.after rfl).1
  have after := reapChildren_busy reopens flushes set flight.flag there
  rw [after] at saves ⊢
  refine ⟨⟨⟨inode, rfl, there, ?_⟩, flight.live, rfl, saves⟩, rfl⟩
  rw [← flight.buffered]
  exact (FileSystem.append_data ..).trans (congrArg (· ++ s.rewriteBuf) data)

/-- **The child has failed: the buffer goes to the file that holds its commands already.** -/
theorem Flight.reap_failed (flight : Flight s content (.exited false) true log buffer)
    (set : s.sigchld = true) (reopens : io.reopen = true) (flushes : io.flush = none) :
    Idle (reapChildren io s) (log ++ buffer) := by
  have saves := flight.reap_saves io rfl set
  obtain ⟨fd, _, data, beside⟩ := flight.fd
  have there := beside.before nofun
  have after := reapChildren_busy reopens flushes set flight.flag there
  rw [after] at saves ⊢
  refine ⟨⟨⟨fd, rfl, there, ?_⟩, flight.live, rfl, saves⟩, rfl⟩
  rw [← flight.buffered]
  exact (FileSystem.append_data ..).trans (congrArg (· ++ s.rewriteBuf) data)

/-- **The child is still at work: the buffer goes to the old file and the flag is cleared.** -/
theorem Flight.reap_early (flight : Flight s content phase true log buffer)
    (working : phase.ended = false) (set : s.sigchld = true) (reopens : io.reopen = true)
    (flushes : io.flush = none) :
    Flight (reapChildren io s) content phase false (log ++ buffer) [] := by
  have left : rewriters (reapChildren io s) = [⟨.rewrite, content, phase⟩] := by
    rw [rewriters_reap io set, flight.child]
    simp [working]
  obtain ⟨fd, _, data, beside⟩ := flight.fd
  have there := beside.before fun ended => by
    rw [ended] at working
    cases working
  have after := reapChildren_busy reopens flushes set flight.flag there
  rw [after] at left ⊢
  refine ⟨flight.live, rfl, rfl, left, fd, rfl, ?_, beside.append _⟩
  rw [← flight.buffered]
  exact (FileSystem.append_data ..).trans (congrArg (· ++ s.rewriteBuf) data)

/-- With the flag cleared, a reaping concerns the children only. -/
theorem Flight.reap_calm (flight : Flight s content phase false log buffer)
    (working : phase.ended = false) (set : s.sigchld = true) :
    Flight (reapChildren io s) content phase false log buffer := by
  have left : rewriters (reapChildren io s) = rewriters s := by
    rw [rewriters_reap io set, flight.child]
    simp [working]
  have after := reapChildren_calm io set flight.flag
  rw [after] at left ⊢
  exact flight.congr rfl rfl rfl left rfl rfl

end Flight

end Miniredis
