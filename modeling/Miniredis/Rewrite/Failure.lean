/-
**Rewrites that fail and servers that stop.**

* `bgrewriteaof_failed` — the child fails before its rename. `reap_children` reopens the log and
  flushes the buffer all the same, into the file that has its commands already: the log is what it
  would be without the rewrite exactly if no write command came between the fork and the first
  reaping.
* `bgrewriteaof_stopped` — the server stops, by a signal or in good order, and the child goes on or
  does not. Every write command is on disk unless the child renames while the buffer, which nobody
  will flush any more, still holds commands.
-/

import Miniredis.Rewrite.Background

namespace Miniredis

open FileSystem (Phase Move)

/-! ### A child that fails -/

/-- No rewrite child has renamed its file. -/
def Unrenamed (s : Server) : Prop := ∀ child ∈ rewriters s, child.phase ≠ .exited true

instance (s : Server) : Decidable (Unrenamed s) :=
  inferInstanceAs (Decidable (∀ child ∈ rewriters s, child.phase ≠ .exited true))

/-- The frames that a run copies to the rewrite buffer. -/
def mirrored : Server → List Event → List Command
  | _, [] => []
  | s, e :: rest => (if s.aofRewriting then e.logged else []) ++ mirrored (step s e) rest

/-- The flag is cleared and nothing is buffered; the child is still there, or it is gone. -/
def Landed (s : Server) (content log : Bytes) : Prop :=
  (∃ phase : Phase, phase ≠ .exited true ∧ Flight s content phase false log []) ∨ Idle s log

section Failed

variable {s : Server} {content log buffer : Bytes} {phase : Phase} {busy : Bool} {e : Event}

theorem Flight.unrenamed (flight : Flight s content phase busy log buffer)
    (unrenamed : Unrenamed s) : phase ≠ .exited true := by
  unfold Unrenamed at unrenamed
  rw [flight.child] at unrenamed
  exact unrenamed _ List.mem_cons_self

/-- A step of a rewrite that renames nothing and reaps nothing. -/
theorem Flight.step_unrenamed (flight : Flight s content phase busy log buffer)
    (lone : e.Lone s) (unrenamed : Unrenamed (Miniredis.step s e)) (working : e.reaps s = false) :
    ∃ phase : Phase, phase ≠ .exited true ∧ Flight (Miniredis.step s e) content phase busy
      (log ++ respCodec.log e.logged) (buffer ++ if busy then respCodec.log e.logged else []) := by
  obtain ⟨after, _, flown⟩ := flight.step (I := fun _ => True) trivial (fun _ _ _ _ _ _ => trivial)
    lone (fun _ _ => trivial) working
  exact ⟨after, flown.unrenamed unrenamed, flown⟩

/-- A failed child that is reaped with the flag cleared leaves the log as it is. -/
theorem Flight.reap_gone {io : Io} (flight : Flight s content (.exited false) false log [])
    (set : s.sigchld = true) : Idle (reapChildren io s) log := by
  have saves := flight.reap_saves io rfl set
  obtain ⟨fd, opened, data, beside⟩ := flight.fd
  rw [reapChildren_calm io set flight.flag] at saves ⊢
  exact ⟨⟨⟨fd, opened, beside.before nofun, data⟩, flight.live, flight.flag, saves⟩,
    flight.buffered⟩

theorem Landed.step (landed : Landed s content log) (lone : e.Lone s)
    (unrenamed : Unrenamed (step s e)) :
    Landed (step s e) content (log ++ respCodec.log e.logged) := by
  rcases landed with ⟨phase, going, flight⟩ | idle
  · cases reaps : e.reaps s with
    | false =>
      left
      simpa using flight.step_unrenamed lone unrenamed reaps
    | true =>
      obtain ⟨none, set, now, io, _, _, after⟩ := Event.reaps_inv reaps lone
      rw [after, none, FrameLog.Codec.log_nil, List.append_nil]
      cases ended : phase.ended with
      | false => exact .inl ⟨phase, going, (flight.withDb _).reap_calm ended set⟩
      | true =>
        have failed := Phase.failed_ended going ended
        subst failed
        exact .inr ((flight.withDb _).reap_gone set)
  · exact .inr (idle.step (lone.smooth idle.calm))

theorem Landed.calm (landed : Landed s content log) : s.aofRewriting = false := by
  rcases landed with ⟨_, _, flight⟩ | idle
  · exact flight.flag
  · exact idle.calm

/-- Once the flag is cleared, commands are logged and nothing is buffered. -/
theorem Landed.run (landed : Landed s content log) {events : List Event}
    (along : Along (fun s e => e.Lone s ∧ Unrenamed (Miniredis.step s e)) s events) :
    Landed (run s events) content (log ++ respCodec.log (events.flatMap Event.logged)) ∧
      mirrored s events = [] := by
  induction events generalizing s log with
  | nil => exact ⟨by simpa [Miniredis.run] using landed, rfl⟩
  | cons e rest ih =>
    obtain ⟨⟨lone, unrenamed⟩, later⟩ := along
    obtain ⟨after, none⟩ := ih (landed.step lone unrenamed) later
    refine ⟨?_, ?_⟩
    · rw [List.flatMap_cons, FrameLog.Codec.log_append, ← List.append_assoc]
      exact after
    · rw [mirrored, none, landed.calm]
      rfl

/-- The first reaping of a rewrite that has not renamed flushes the buffer to the old file. -/
theorem Flight.land (flight : Flight s content phase true log buffer) (going : phase ≠ .exited true)
    (lone : e.Lone s) (reaps : e.reaps s = true) :
    Landed (Miniredis.step s e) content (log ++ buffer) := by
  obtain ⟨_, set, now, io, reopens, flushes, after⟩ := Event.reaps_inv reaps lone
  rw [after]
  cases ended : phase.ended with
  | false =>
    exact .inl ⟨phase, going, (flight.withDb _).reap_early ended set reopens flushes⟩
  | true =>
    have failed := Phase.failed_ended going ended
    subst failed
    exact .inr ((flight.withDb _).reap_failed set reopens flushes)

/-- A run during a rewrite that never renames: the rewrite is still under way, or its first reaping
has flushed the buffered frames a second time. -/
theorem Flight.run_unrenamed {base : Bytes} {since : List Command} {events : List Event}
    (flight : Flight s content phase true (base ++ respCodec.log since) (respCodec.log since))
    (going : phase ≠ .exited true)
    (along : Along (fun s e => e.Lone s ∧ Unrenamed (Miniredis.step s e)) s events) :
    rewriters (Miniredis.run s events) ≠ [] ∨
      ∃ later, events.flatMap Event.logged = mirrored s events ++ later ∧
        Landed (Miniredis.run s events) content
          (base ++ respCodec.log (since ++ mirrored s events) ++
            respCodec.log (since ++ mirrored s events) ++ respCodec.log later) := by
  induction events generalizing s phase since with
  | nil =>
    left
    rw [show Miniredis.run s [] = s from rfl, flight.child]
    exact List.cons_ne_nil _ _
  | cons e rest ih =>
    obtain ⟨⟨lone, unrenamed⟩, later⟩ := along
    cases reaps : e.reaps s with
    | false =>
      obtain ⟨after, still, flown⟩ := flight.step_unrenamed lone unrenamed reaps
      have copied : mirrored s (e :: rest) = e.logged ++ mirrored (Miniredis.step s e) rest := by
        rw [mirrored, flight.flag]
        rfl
      have next : Flight (Miniredis.step s e) content after true
          (base ++ respCodec.log (since ++ e.logged)) (respCodec.log (since ++ e.logged)) := by
        simpa using flown
      rw [copied, List.flatMap_cons]
      rcases ih next still later with child | ⟨behind, split, landed⟩
      · exact .inl child
      · refine .inr ⟨behind, by rw [split, List.append_assoc], ?_⟩
        rw [← List.append_assoc since]
        exact landed
    | true =>
      right
      obtain ⟨none, _⟩ := Event.reaps_inv reaps lone
      have landed := flight.land going lone reaps
      obtain ⟨after, nothing⟩ := landed.run later
      have copied : mirrored s (e :: rest) = [] := by
        rw [mirrored, nothing, none]
        split <;> rfl
      refine ⟨rest.flatMap Event.logged, by rw [copied, List.flatMap_cons, none], ?_⟩
      rw [copied, List.append_nil]
      exact after

end Failed

/-- **A rewrite in the background that fails.** Once the child has been reaped, the log is what it
would be without the rewrite exactly if no write command came while the flag was set. -/
theorem bgrewriteaof_failed {start : Server} {base : Bytes} {fork : Event} {events : List Event}
    (idle : Idle start base) (starts : fork.startsRewrite start = true)
    (along : Along (fun s e => e.Lone s ∧ Unrenamed (step s e)) (step start fork) events)
    (reaped : rewriters (run (step start fork) events) = []) :
    OpenLog (run (step start fork) events)
        (base ++ respCodec.log (events.flatMap Event.logged)) ↔
      mirrored (step start fork) events = [] := by
  have forked : Flight (step start fork) (aofRewriteBytes start.db) .opening true
      (base ++ respCodec.log []) (respCodec.log []) := by
    simpa using Flight.of_fork idle starts
  rcases forked.run_unrenamed nofun along with
    child | ⟨later, split, ⟨phase, _, flight⟩ | landed⟩
  · exact absurd reaped child
  · rw [flight.child] at reaped
    cases reaped
  rw [List.nil_append] at landed
  rw [split]
  generalize mirrored (step start fork) events = copied at landed
  obtain ⟨inode, opened, _, data⟩ := landed.fd
  constructor
  · rintro ⟨other, same, _, expected⟩
    rw [opened] at same
    cases same
    rw [data] at expected
    -- the two differ by one copy of the buffered frames
    have lengths := congrArg List.length expected
    simp only [List.length_append, FrameLog.Codec.log_append] at lengths
    exact respCodec.log_eq_nil.mp (List.length_eq_zero_iff.mp (by omega))
  · intro none
    subst none
    simpa using landed.fd

def killed : List Event := .child 0 .kill :: turn

/-- The command is in the log twice. -/
theorem bgrewriteaof_failed_differs :
    Unrenamed (run (step (sampleStart false) startRewrite)
        [request ["SET", "k", "v"], .child 0 .kill]) ∧
      ¬ OpenLog (run (step (sampleStart false) startRewrite) (request ["SET", "k", "v"] :: killed))
        ([] ++ respCodec.log ((request ["SET", "k", "v"] :: killed).flatMap Event.logged)) := by
  rw [step_startRewrite]
  refine ⟨by decide, fun opened => ?_⟩
  have contents := opened.contents
  revert contents
  decide

/-- The command comes after the reaping. -/
theorem bgrewriteaof_failed_sample :
    OpenLog (run (step (sampleStart false) startRewrite) (killed ++ [request ["SET", "k", "v"]]))
      ([] ++ respCodec.log ((killed ++ [request ["SET", "k", "v"]]).flatMap Event.logged)) := by
  have along : Along (fun s e => e.Lone s ∧ Unrenamed (step s e))
      (step (sampleStart false) startRewrite) (killed ++ [request ["SET", "k", "v"]]) := by
    rw [step_startRewrite]
    exact ⟨⟨trivial, by decide⟩, ⟨trivial, by decide⟩,
      ⟨⟨rfl, rfl⟩, by decide⟩,
      ⟨(request_lone (by decide) _).1, by decide⟩, trivial⟩
  have reaped : (run (step (sampleStart false) startRewrite)
      (killed ++ [request ["SET", "k", "v"]])).children.length = 0 := by
    rw [step_startRewrite]
    decide
  refine (bgrewriteaof_failed (sampleStart_idle false) (startRewrite_starts false) along
    (List.length_eq_zero_iff.mp reaped)).mpr ?_
  rw [step_startRewrite]
  decide

/-! ### A server that stops -/

/-- The commands `since` are on disk: each has its frame, in order, behind the old log or behind the
rewrite. -/
def Recorded (base content : Bytes) (since : List Command) (file : Bytes) : Prop :=
  ∃ frames : List Command, since.Sublist frames ∧
    (file = base ++ respCodec.log frames ∨ file = content ++ respCodec.log frames)

/-- The server stops: in good order, with the system calls of the shutdown, or killed. -/
def halt : Option Io → Server → Server
  | none, s => s
  | some io, s => serverStop io s

/-- What children do that have outlived the server. -/
def outlive (moves : List (Nat × Move)) (s : Server) : Server :=
  moves.foldl (fun s move => childMove s move.1 move.2) s

/-- A rewrite is under way with the frames `since` in the old file and in the buffer, or there is
none and they are on disk. -/
def Afloat (s : Server) (base content : Bytes) (since : List Command) : Prop :=
  (∃ phase, Flight s content phase true (base ++ respCodec.log since) (respCodec.log since)) ∧
      Announced s ∨
    ∃ file, Idle s file ∧ Recorded base content since file

section Stopped

variable {s : Server} {base content file : Bytes} {since more : List Command} {e : Event}

theorem Recorded.append (recorded : Recorded base content since file) (more : List Command) :
    Recorded base content (since ++ more) (file ++ respCodec.log more) := by
  obtain ⟨frames, sub, rfl | rfl⟩ := recorded
  · exact ⟨frames ++ more, sub.append (.refl _), .inl (by simp)⟩
  · exact ⟨frames ++ more, sub.append (.refl _), .inr (by simp)⟩

theorem Afloat.step (afloat : Afloat s base content since) (lone : e.Lone s)
    (alone : e.forksSave s = false) : Afloat (step s e) base content (since ++ e.logged) := by
  rcases afloat with ⟨⟨phase, flight⟩, announced⟩ | ⟨file, idle, recorded⟩
  · cases reaps : e.reaps s with
    | false =>
      left
      obtain ⟨after, _, flown⟩ := flight.step (I := fun _ => True) trivial
        (fun _ _ _ _ _ _ => trivial) lone (fun _ _ => trivial) reaps
      exact ⟨⟨after, by simpa using flown⟩, announced.step lone.startsNone alone⟩
    | true =>
      right
      obtain ⟨none, set, now, io, reopens, flushes, after⟩ := Event.reaps_inv reaps lone
      have ended := flight.ended (announced.punctual (e := e) reaps flight.flag)
      rw [after, none, List.append_nil]
      by_cases renamed : phase = .exited true
      · subst renamed
        exact ⟨_, (flight.withDb _).reap_renamed set reopens flushes, since, .refl _, .inr rfl⟩
      · have failed := Phase.failed_ended renamed ended
        subst failed
        refine ⟨_, (flight.withDb _).reap_failed set reopens flushes, since ++ since,
          List.sublist_append_left _ _, .inl ?_⟩
        rw [FrameLog.Codec.log_append, List.append_assoc]
  · exact .inr ⟨_, idle.step (lone.smooth idle.calm), recorded.append e.logged⟩

theorem Afloat.run (afloat : Afloat s base content since) {events : List Event}
    (along : Along (fun s e => e.Lone s ∧ e.forksSave s = false) s events) :
    Afloat (run s events) base content (since ++ events.flatMap Event.logged) := by
  induction events generalizing s since with
  | nil => simpa [Miniredis.run] using afloat
  | cons e rest ih =>
    have after := ih (afloat.step along.1.1 along.1.2) along.2
    rw [List.flatMap_cons, ← List.append_assoc]
    exact after

theorem outlive_fd (moves : List (Nat × Move)) (fd : Option Nat) :
    outlive moves { s with aofFd := fd } = { outlive moves s with aofFd := fd } := by
  induction moves generalizing s with
  | nil => rfl
  | cons move rest ih =>
    have one : childMove { s with aofFd := fd } move.1 move.2 =
        { childMove s move.1 move.2 with aofFd := fd } := by
      unfold childMove
      split <;> simp_all
    show outlive rest (childMove { s with aofFd := fd } move.1 move.2) = _
    rw [one, ih]
    rfl

/-- What a stop and the children that outlive it keep, apart from the descriptor. -/
theorem Stable.stop {P : Server → Prop} (stable : Stable (fun _ => True) True P)
    (halting : Option Io)
    (moves : List (Nat × Move)) (before : P s) :
    ∃ t, P t ∧ (outlive moves (halt halting s)).disk = t.disk ∧
      rewriters (outlive moves (halt halting s)) = rewriters t := by
  have outlived : ∀ t, P t → P (outlive moves t) := by
    intro t holds
    unfold outlive
    induction moves generalizing t with
    | nil => exact holds
    | cons move rest ih => exact ih _ (stable.child t move.1 move.2 trivial holds)
  cases halting with
  | none => exact ⟨_, outlived s before, rfl, rfl⟩
  | some io =>
    have saved : P (if s.rdbPath then (Miniredis.rdbSave io s).1 else s) := by
      split
      · exact stable.rdbSave (fun _ _ => trivial) before
      · exact before
    refine ⟨_, outlived _ saved, ?_, ?_⟩
    · show (outlive moves { (if s.rdbPath then _ else s : Server) with aofFd := none }).disk = _
      rw [outlive_fd]
    · show rewriters
        (outlive moves { (if s.rdbPath then _ else s : Server) with aofFd := none }) = _
      rw [outlive_fd]
      rfl

end Stopped

/-- **A server that stops during a rewrite in the background.** At the next start every write
command that was executed is on disk, if at the stop the rewrite buffer was empty or the child does
not rename any more. -/
theorem bgrewriteaof_stopped {start : Server} {base : Bytes} {fork : Event} {events : List Event}
    (halting : Option Io) (moves : List (Nat × Move)) (idle : Idle start base)
    (childless : Childless start) (starts : fork.startsRewrite start = true)
    (along : Along (fun s e => e.Lone s ∧ e.forksSave s = false) (step start fork) events)
    (safe : (run (step start fork) events).rewriteBuf = [] ∨
      Unrenamed (outlive moves (halt halting (run (step start fork) events)))) :
    ∃ file, (outlive moves (halt halting (run (step start fork) events))).disk.aof.contents .file =
        some file ∧
      Recorded base (aofRewriteBytes start.db) (events.flatMap Event.logged) file := by
  have forked : Afloat (step start fork) base (aofRewriteBytes start.db) [] :=
    .inl ⟨⟨.opening, by simpa using Flight.of_fork idle starts⟩,
      Announced.of_fork childless idle.calm starts⟩
  have final := forked.run along
  rw [List.nil_append] at final
  generalize events.flatMap Event.logged = since at final
  rcases final with ⟨⟨phase, flight⟩, _⟩ | ⟨file, quiet, recorded⟩
  · have stable : Stable (fun _ => True) True fun s => ∃ phase, True ∧ Flight s
        (aofRewriteBytes start.db) phase true (base ++ respCodec.log since) (respCodec.log since) :=
      Flight.stable fun _ _ _ _ _ _ => trivial
    obtain ⟨t, ⟨last, _, flown⟩, disk, children⟩ :=
      stable.stop halting moves ⟨phase, trivial, flight⟩
    obtain ⟨fd, _, data, beside⟩ := flown.fd
    rw [disk]
    by_cases renamed : last = .exited true
    · rcases safe with blank | unrenamed
      · rw [flight.buffered, FrameLog.Codec.log_eq_nil] at blank
        subst blank
        exact ⟨_, (beside.after renamed).1, [], .refl _, .inr (by simp [replaceJob])⟩
      · unfold Unrenamed at unrenamed
        rw [children, flown.child] at unrenamed
        exact absurd renamed (unrenamed _ List.mem_cons_self)
    · refine ⟨_, ?_, since, .refl _, .inl rfl⟩
      have there : t.disk.aof.entry .file = some fd := beside.before renamed
      rw [FileSystem.contents, there, Option.map_some, data]
  · obtain ⟨t, settled, disk, _⟩ := (Idle.stable file).stop halting moves quiet
    exact ⟨file, by rw [disk]; exact settled.fd.contents, recorded⟩

/-- The child renames and the server is killed before it reaps it: the command is lost. -/
theorem bgrewriteaof_stopped_differs :
    ¬ ∃ file, (outlive [] (halt none (run (step (sampleStart false) startRewrite)
        (request ["SET", "k", "v"] :: finish 0)))).disk.aof.contents .file = some file ∧
      Recorded [] (aofRewriteBytes (sampleStart false).db)
        ((request ["SET", "k", "v"] :: finish 0).flatMap Event.logged) file := by
  rintro ⟨file, contents, frames, sub, placed⟩
  have blank : (outlive [] (halt none (run (step (sampleStart false) startRewrite)
      (request ["SET", "k", "v"] :: finish 0)))).disk.aof.contents .file = some [] := by
    rw [step_startRewrite]
    decide
  have rewrite : aofRewriteBytes (sampleStart false).db = [] := by decide
  rw [blank, Option.some.injEq] at contents
  subst contents
  have unlogged : frames = [] := by
    rw [rewrite, or_self, List.nil_append] at placed
    exact respCodec.log_eq_nil.mp placed.symm
  subst unlogged
  revert sub
  decide

/-- The server is shut down and the child dies before its rename. -/
theorem bgrewriteaof_stopped_sample :
    ∃ file, (outlive [(0, .go 0 false), (0, .kill)] (halt (some .smooth)
        (run (step (sampleStart false) startRewrite)
          [request ["SET", "k", "v"]]))).disk.aof.contents .file = some file ∧
      Recorded [] (aofRewriteBytes (sampleStart false).db)
        ([request ["SET", "k", "v"]].flatMap Event.logged) file := by
  obtain ⟨lone, _, alone⟩ :
      (request ["SET", "k", "v"]).Lone (step (sampleStart false) startRewrite) ∧ _ ∧
        (request ["SET", "k", "v"]).forksSave _ = false := write_alone (by decide) _
  have unrenamed : Unrenamed (outlive [(0, .go 0 false), (0, .kill)] (halt (some .smooth)
      (run (step (sampleStart false) startRewrite) [request ["SET", "k", "v"]]))) := by
    rw [step_startRewrite]
    decide
  exact bgrewriteaof_stopped (some .smooth) _ (sampleStart_idle false) (sampleStart_childless false)
    (startRewrite_starts false) ⟨⟨lone, alone⟩, trivial⟩ (.inr unrenamed)

end Miniredis
