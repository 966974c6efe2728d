/-
**Logs that end inside a frame.**

* `aofReplay_prefix` — any byte prefix of a log replays to the commands whose frames lie inside it,
  unless the process ends in a `SETRANGE` that cannot allocate;
* `restart_torn` — a start leaves the part of a frame at the end of the file where it is, and frames
  appended behind it are lost: a second start finds them all exactly if the cut was between frames;
* `append_failed` — the same holds of an append that fails in the middle of its frame.

The reason is the same for both: the part swallows the frame behind it (`read_torn`).
-/

import Miniredis.Replay.Sync

namespace Miniredis

/-! ### Cut logs -/

section Cut

variable {env : Env} {io : Io} {s : Server} {cmd : Command}

/-- If the command is a `SETRANGE`, the range that it writes ends below the allocation limit. -/
def Allocates (cmd : Command) : Prop :=
  strcaseEq (text "setrange") (arg (cmd.map cstr) 0) = true →
    ∀ offset : Nat, stringToLl (arg (cmd.map cstr) 2) = some (offset : Int) →
      offset + (arg (cmd.map cstr) 3).length < mallocLimit

/-- The process outlives such a command. -/
theorem dispatchChecked_of_allocates (allocates : Allocates cmd) :
    dispatchChecked env io s cmd = some (dispatchCommand env io s cmd) := by
  refine if_neg fun ends => ?_
  obtain ⟨named, aborts⟩ := Bool.and_eq_true_iff.mp ends
  have aborts := (Bool.and_eq_true_iff.mp aborts).2
  have allowed := allocates named
  split at aborts
  · rename_i offset read _
    exact absurd aborts (by rw [outgrows_of_lt (allowed offset read)]; exact Bool.false_ne_true)
  · rename_i offset s read _
    exact absurd aborts (by rw [outgrows_of_lt (allowed offset read)]; exact Bool.false_ne_true)
  · cases aborts

/-- A replay of such commands returns, with what they do. -/
theorem aofReplayLoopChecked_eq (envs : Nat → Env) (s : Server) (fuel i : Nat) (buf : Bytes)
    (allocates : ∀ cmd ∈ (FrameLog.scan respDecode fuel buf).1, Allocates cmd) :
    aofReplayLoopChecked envs fuel i buf s = some (aofReplayLoop envs fuel i buf s) := by
  induction fuel generalizing i buf s with
  | zero => rfl
  | succ fuel ih =>
    unfold aofReplayLoopChecked aofReplayLoop
    cases buf with
    | nil => rfl
    | cons byte rest =>
      rw [if_neg (List.cons_ne_nil byte rest), if_neg (List.cons_ne_nil byte rest)]
      dsimp only
      by_cases whole : (respParseCommand (byte :: rest)).1 > 0
      · have frame : respDecode (byte :: rest) = .frame (respParseCommand (byte :: rest)).2
          (respParseCommand (byte :: rest)).1.toNat := if_pos whole
        rw [FrameLog.scan, frame] at allocates
        rw [if_pos whole, if_pos whole,
          dispatchChecked_of_allocates (allocates _ List.mem_cons_self)]
        exact ih _ (i + 1) _ (List.forall_mem_cons.mp allocates).2
      · rw [if_neg whole, if_neg whole]
        split <;> rfl

theorem aofReplayChecked_eq {envs : Nat → Env} {buf : Bytes}
    (file : s.disk.aof.contents .file = some buf)
    (allocates : ∀ cmd ∈ (FrameLog.read respDecode buf).1, Allocates cmd) :
    aofReplayChecked envs s = some (aofReplay envs s) := by
  unfold aofReplayChecked aofReplay
  rw [file]
  dsimp only
  rw [aofReplayLoopChecked_eq _ _ _ _ _ allocates]
  rfl

/-- **Crash recovery.** The replay of a byte prefix of a log of commands that can be allocated
returns success and dispatches, in order, the commands whose frames lie entirely inside the
prefix. -/
theorem aofReplay_prefix {s : Server} {cmds : List Command} {file : Bytes} (envs : Nat → Env)
    (fits : ∀ cmd ∈ cmds, Fits cmd) (allocates : ∀ cmd ∈ cmds, Allocates cmd)
    (cut : file <+: respCodec.log cmds) (contents : s.disk.aof.contents .file = some file) :
    aofReplayChecked envs s = some
      (0, { dispatchAll envs 0 { s with aofReplaying := true } (respCodec.inside cmds file.length)
        with aofReplaying := false }) := by
  obtain ⟨frames, intact, _⟩ := respCodec.read_prefix fits cut
  have decoded : (FrameLog.read respDecode file).1 = respCodec.inside cmds file.length := frames
  rw [aofReplayChecked_eq contents, aofReplay_eq contents,
    show respDecode = respCodec.decode from rfl, if_neg intact, frames]
  rw [decoded]
  exact fun cmd member => allocates cmd (respCodec.mem_of_mem_inside member)

/-- A log of two frames, cut inside the second one. -/
theorem aofReplay_prefix_sample :
    aofReplayChecked (fun _ => sampleEnv) (serverOpened sampleBoot false
        (diskWith ((respCodec.log [[text "DEL", text "k"], [text "FLUSHALL"]]).take 30))) =
      some (0, { dispatchAll (fun _ => sampleEnv) 0 { serverOpened sampleBoot false
          (diskWith ((respCodec.log [[text "DEL", text "k"], [text "FLUSHALL"]]).take 30)) with
            aofReplaying := true } [[text "DEL", text "k"]] with aofReplaying := false }) := by
  have whole : respCodec.inside [[text "DEL", text "k"], [text "FLUSHALL"]]
      ((respCodec.log [[text "DEL", text "k"], [text "FLUSHALL"]]).take 30).length =
        [[text "DEL", text "k"]] := by decide
  rw [← whole]
  refine aofReplay_prefix _ (fun cmd member => ?_) (fun cmd member named => ?_)
    (List.take_prefix 30 _) (serverOpened_contents (diskWith_contents _))
  · rcases List.mem_pair.mp member with rfl | rfl
    · exact fits_of_short (by decide) (by decide)
    · exact fits_of_short (by decide) (by decide)
  · rcases List.mem_pair.mp member with rfl | rfl
    · exact absurd named (by decide)
    · exact absurd named (by decide)

/-- A `SETRANGE` with the largest offset is within the limits of the parser. Its whole log does not
replay: the process ends. -/
theorem aofReplay_prefix_aborts :
    Fits (["SETRANGE", "k", "9223372036854775807", "x"].map text) ∧
      aofReplayChecked (fun _ => sampleEnv) (serverOpened sampleBoot false
        (diskWith (respCodec.log [["SETRANGE", "k", "9223372036854775807", "x"].map text]))) =
          none :=
  ⟨fits_of_short (by decide) (by decide), by decide +kernel⟩

end Cut

/-! ### A part of a frame before a frame -/

section Torn

variable {args : Command} {part tail rest : Bytes}

/-- A byte that is no digit and no sign spoils a number. -/
theorem stringToLlN_star {s : Bytes} (member : (42 : UInt8) ∈ s) : stringToLlN s = none := by
  cases read : stringToLlN s with
  | none => rfl
  | some v => exact absurd (stringToLlN_mem read member) (by decide)

/-- A proper part of a line followed by a body is a part of the line or reaches into the body. -/
theorem prefix_line {line body part : Bytes} (cut : part <+: line ++ 13 :: 10 :: body) :
    part <+: line ++ [13] ∨ ∃ inner, inner <+: body ∧ part = line ++ 13 :: 10 :: inner := by
  have regroup : line ++ 13 :: 10 :: body = (line ++ [13]) ++ 10 :: body := by simp
  rw [regroup] at cut
  rcases List.prefix_or_prefix_of_prefix cut (List.prefix_append _ _) with short | ⟨more, rfl⟩
  · exact .inl short
  · have tail := (List.prefix_append_right_inj _).mp cut
    rcases more with _ | ⟨byte, inner⟩
    · exact .inl (by simp)
    · obtain ⟨rfl, inside⟩ := List.cons_prefix_cons.mp tail
      exact .inr ⟨inner, inside, by simp⟩

/-- A cut line goes on into what follows. -/
theorem getLine_torn {line : Bytes} (free : 13 ∉ line) (cut : part <+: line ++ [13])
    (tail : Bytes) :
    getLine (part ++ 42 :: tail) = (getLine tail).map fun (l, rest) => (part ++ 42 :: l, rest) := by
  have star : ∀ tail : Bytes, getLine (42 :: tail) =
      (getLine tail).map fun (l, rest) => (42 :: l, rest) := fun tail => by
    rw [getLine]
    exact fun _ same _ => absurd same (by decide)
  induction line generalizing part with
  | nil =>
    rcases part with _ | ⟨byte, _ | ⟨next, more⟩⟩
    · exact star tail
    · obtain rfl : byte = 13 := by simpa using cut
      show getLine (13 :: 42 :: tail) = _
      rw [getLine, star, Option.map_map]
      · rfl
      · intro _ _ same
        cases same
    · simp at cut
  | cons byte line ih =>
    rw [List.mem_cons, not_or] at free
    rcases part with _ | ⟨first, part⟩
    · exact star tail
    · rw [List.cons_append, List.cons_prefix_cons] at cut
      obtain ⟨rfl, cut⟩ := cut
      rw [List.cons_append, getLine, ih free.2 cut, Option.map_map]
      · rfl
      · rintro _ rfl _
        exact free.1 rfl

/-- An argument that is cut reads on into the frame behind it, if it is read at all. -/
theorem parseArgs_tornBulk {a : Bytes} {n : Nat} {cmd : Command} (short : a.length ≤ maxBulkLen)
    (start : part <+: encodeBulk a) (proper : part ≠ encodeBulk a)
    (found : parseArgs (n + 1) (part ++ 42 :: tail) = .done cmd rest) :
    rest.length ≤ tail.length := by
  have small : a.length ≤ llongMax := short.trans (by decide)
  rcases part with _ | ⟨mark, more⟩
  · -- the cut lies before the argument
    rw [List.nil_append, parseArgs, if_pos (by decide)] at found
    cases found
  have shape : encodeBulk a =
      (36 :: Decimal.render a.length) ++ 13 :: 10 :: (a ++ [13, 10]) := by simp [encodeBulk]
  obtain rfl : mark = 36 := (List.cons_prefix_cons.mp start).1
  rw [shape] at start proper
  have free : 13 ∉ 36 :: Decimal.render a.length := by simp [Wire.render_free]
  rcases prefix_line start with line | ⟨inner, payload, same⟩
  · -- the cut lies in the length line
    rw [List.cons_append, parseArgs, ← List.cons_append, getLine_torn free line] at found
    cases next : getLine tail with
    | none => simp [next] at found
    | some pair =>
      have spoiled : stringToLlN (more ++ 42 :: pair.1) = none := stringToLlN_star (by simp)
      simp [next, spoiled] at found
  · -- the cut lies in the payload
    have cut : inner.length < a.length + 2 := by
      have bound := payload.length_le
      have other : inner.length ≠ (a ++ [13, 10]).length := fun full =>
        proper (by rw [same, payload.eq_of_length full])
      simp at bound other
      omega
    have signed : ¬ (a.length : Int) < 0 := by omega
    have limit : ¬ (a.length : Int) > maxBulkLen := by omega
    have shifted : 36 :: more ++ 42 :: tail =
        (36 :: Decimal.render a.length) ++ 13 :: 10 :: (inner ++ 42 :: tail) := by
      rw [same]
      simp
    rw [shifted, List.cons_append, parseArgs_number (stringToLlN_render small), if_neg signed,
      if_neg limit, Int.toNat_natCast] at found
    split_ifs at found
    cases inside : parseArgs n ((inner ++ 42 :: tail).drop (a.length + 2)) with
    | more => rw [inside] at found; cases found
    | error => rw [inside] at found; cases found
    | done args' rest' =>
      rw [inside] at found
      cases found
      have bytes := (parseArgs_length inside).2
      simp only [List.length_drop, List.length_append, List.length_cons] at bytes
      omega

theorem parseArgs_torn {cmd : Command} (short : ∀ a ∈ args, a.length ≤ maxBulkLen)
    (start : part <+: args.flatMap encodeBulk) (proper : part ≠ args.flatMap encodeBulk)
    (found : parseArgs args.length (part ++ 42 :: tail) = .done cmd rest) :
    rest.length ≤ tail.length := by
  induction args generalizing part cmd with
  | nil => exact absurd (List.prefix_nil.mp start) proper
  | cons a args ih =>
    have first := short a List.mem_cons_self
    have later : ∀ other ∈ args, other.length ≤ maxBulkLen := (List.forall_mem_cons.mp short).2
    rw [List.flatMap_cons] at start proper
    by_cases inside : part <+: encodeBulk a ∧ part ≠ encodeBulk a
    · exact parseArgs_tornBulk first inside.1 inside.2 found
    · obtain ⟨more, rfl⟩ : encodeBulk a <+: part := by
        rcases List.prefix_or_prefix_of_prefix start (List.prefix_append _ _) with short | long
        · rw [not_and_not_right] at inside
          exact (inside short) ▸ List.prefix_rfl
        · exact long
      rw [List.length_cons, List.append_assoc, parseArgs_encodeBulk first] at found
      cases next : parseArgs args.length (more ++ 42 :: tail) with
      | more => rw [next] at found; cases found
      | error => rw [next] at found; cases found
      | done args' rest' =>
        rw [next] at found
        cases found
        exact ih later ((List.prefix_append_right_inj _).mp start)
          (fun same => proper (by rw [same])) next

/-- A part of a frame swallows the beginning of the frame behind it, or spoils it. -/
theorem respDecode_torn {cmd : Command} {consumed : Nat} (fits : Fits args)
    (cut : respCodec.Part args part) (small : tail.length < 2 ^ 30)
    (found : respDecode (part ++ 42 :: tail) = .frame cmd consumed) :
    cmd.length = args.length ∧ part.length < consumed := by
  have shape : awWriteCommand args =
      (42 :: Decimal.render args.length) ++ 13 :: 10 :: args.flatMap encodeBulk := by
    simp [awWriteCommand]
  have start : part <+: awWriteCommand args := cut.start
  have proper : part ≠ awWriteCommand args := cut.proper
  have bound : part.length < 2 ^ 31 := start.length_le.trans_lt fits.frame
  have free : 13 ∉ 42 :: Decimal.render args.length := by simp [Wire.render_free]
  rw [shape] at start proper
  rcases prefix_line start with line | ⟨inner, payload, rfl⟩
  · obtain ⟨mark, more, rfl⟩ := List.exists_cons_of_ne_nil cut.nonempty
    obtain rfl : mark = 42 := (List.cons_prefix_cons.mp start).1
    unfold respDecode at found
    rw [List.cons_append, respParseCommand, ← List.cons_append, getLine_torn free line] at found
    cases next : getLine tail with
    | none => simp [next] at found
    | some pair =>
      have spoiled : stringToLlN (more ++ 42 :: pair.1) = none := stringToLlN_star (by simp)
      simp [next, spoiled] at found
  · -- the count line is whole, so the parser goes on to the arguments
    have total : (42 :: (Decimal.render args.length ++ 13 :: 10 :: (inner ++ 42 :: tail))).length =
        (42 :: Decimal.render args.length ++ 13 :: 10 :: inner).length + 1 + tail.length := by
      simp
      omega
    have shifted : 42 :: Decimal.render args.length ++ 13 :: 10 :: inner ++ 42 :: tail =
        42 :: (Decimal.render args.length ++ 13 :: 10 :: (inner ++ 42 :: tail)) := by
      simp
    unfold respDecode at found
    rw [shifted, respParseCommand_header fits.argc] at found
    cases parsed : parseArgs args.length (inner ++ 42 :: tail) with
    | more => simp [parsed] at found
    | error => simp [parsed] at found
    | done cmd' rest =>
      have behind := parseArgs_torn fits.bulk payload (fun same => proper (by rw [same])) parsed
      have count := (parseArgs_length parsed).1
      simp only [parsed, total] at found
      generalize (42 :: Decimal.render args.length ++ 13 :: 10 :: inner).length = length at *
      split_ifs at found with positive
      · injection found with same place
        subst same
        refine ⟨count, ?_⟩
        by_cases wraps : length + 1 + tail.length - rest.length < 2 ^ 31
        · rw [Int.bmod_eq_of_le_mul_two (by omega) (by omega)] at place
          omega
        · have negative :
              ((length + 1 + tail.length - rest.length : Nat) : Int).bmod (2 ^ 32) ≤ 0 := by
            rw [Int.bmod_def]
            split <;> omega
          omega

/-- Bytes without a star hold no frame. -/
theorem read_starless {buf : Bytes} (free : (42 : UInt8) ∉ buf) :
    (FrameLog.read respDecode buf).1 = [] := by
  cases buf with
  | nil => rfl
  | cons byte rest =>
    have other : byte ≠ 42 := fun same => free (by rw [same]; exact List.mem_cons_self)
    have error : respDecode (byte :: rest) = .error := by
      rw [respDecode, respParseCommand, if_pos other]
      rfl
    rw [FrameLog.read, List.length_cons, FrameLog.scan, error]

/-- **The part of a frame swallows the frame behind it**: what is read has as many arguments as
the command that was cut. -/
theorem read_torn (fits : Fits args) (cut : respCodec.Part args part) (small : tail.length < 2 ^ 30)
    (free : (42 : UInt8) ∉ tail) :
    ∀ cmd ∈ (FrameLog.read respDecode (part ++ 42 :: tail)).1, cmd.length = args.length := by
  have nonempty : part ++ 42 :: tail ≠ [] := by simp
  cases found : respDecode (part ++ 42 :: tail) with
  | frame first consumed =>
    obtain ⟨count, inside⟩ := respDecode_torn fits cut small found
    have behind : (42 : UInt8) ∉ (part ++ 42 :: tail).drop consumed := by
      obtain ⟨more, rfl⟩ := Nat.exists_eq_add_of_lt inside
      rw [Nat.add_assoc, List.drop_length_add_append, List.drop_succ_cons]
      exact fun member => free (List.mem_of_mem_drop member)
    rw [show respDecode = respCodec.decode from rfl, respCodec.read_frame nonempty found]
    intro cmd member
    rw [show respCodec.decode = respDecode from rfl, read_starless behind,
      List.mem_singleton] at member
    rw [member, count]
  | _ =>
    obtain ⟨byte, rest, same⟩ := List.exists_cons_of_ne_nil nonempty
    rw [same] at found ⊢
    rw [FrameLog.read, List.length_cons, FrameLog.scan, found]
    intro cmd member
    cases member

/-- A short write command with another number of arguments than `args`. -/
def breaker (args : Command) : Command :=
  if args.length = 1 then [text "DEL", text "k"] else [text "FLUSHALL"]

theorem flushall_found : entryOf [text "FLUSHALL"] = some (entry "flushall" true cmdFlushall) :=
  entryOf_eq (by simp [commands]) (by decide) []

theorem del_found : entryOf [text "DEL", text "k"] = some (entry "del" true cmdDel) :=
  entryOf_eq (by simp [commands]) (by decide) _

theorem breaker_recorded (env : Env) : (Event.command env .smooth (breaker args)).Recorded := by
  unfold breaker
  split
  · exact ⟨deliverable_of_short (by decide) (by decide), rfl,
      asksRewrite_logged (by simp [logged_found del_found rfl])⟩
  · exact ⟨deliverable_of_short (by decide) (by decide), rfl,
      asksRewrite_logged (by simp [logged_found flushall_found rfl])⟩

theorem breaker_logged : logged (breaker args) = [breaker args] := by
  have plain : [text "DEL", text "k"].map cstr = [text "DEL", text "k"] ∧
      [text "FLUSHALL"].map cstr = [text "FLUSHALL"] := by decide
  unfold breaker
  split
  · rw [logged_found del_found rfl, plain.1]
  · rw [logged_found flushall_found rfl, plain.2]

/-- A frame behind a part of another one is lost. -/
theorem breaker_lost (fits : Fits args) (cut : respCodec.Part args part) :
    breaker args ∉ (FrameLog.read respDecode (part ++ awWriteCommand (breaker args))).1 := by
  intro member
  unfold breaker at member
  split_ifs at member with one
  · have shape : awWriteCommand [text "DEL", text "k"] =
        42 :: (awWriteCommand [text "DEL", text "k"]).tail := by decide
    rw [shape] at member
    have count := read_torn fits cut (by decide) (by decide) _ member
    simp [one] at count
  · have shape : awWriteCommand [text "FLUSHALL"] =
        42 :: (awWriteCommand [text "FLUSHALL"]).tail := by decide
    rw [shape] at member
    have count := read_torn fits cut (by decide) (by decide) _ member
    exact one count.symm

end Torn

/-! ### Starting on a cut log -/

/-- The commands a start finds in the log. -/
def replayed (disk : Disk) : List Command :=
  match disk.aof.contents .file with
  | none => []
  | some file => (FrameLog.read respDecode file).1

theorem replayed_eq {disk : Disk} {file : Bytes} (contents : disk.aof.contents .file = some file) :
    replayed disk = (FrameLog.read respDecode file).1 := by
  rw [replayed, contents]

/-- A start executes these commands on top of the snapshot. -/
theorem serverStart_replayed {boot : Boot} {rdb : Bool} {disk : Disk} {file : Bytes}
    (contents : disk.aof.contents .file = some file) :
    (serverStart boot true rdb disk).db =
      executeAll boot.envs 0 (startingDb boot rdb disk) (replayed disk) := by
  rw [serverStart_db contents, replayed_eq contents]

section Start

variable {s : Server} {log : Bytes}

/-- The log stays as it is while it is replayed. -/
theorem Quiet.replaying (log : Bytes) : Stable (fun _ => True) True fun s =>
    s.aofReplaying = true ∧ Quiet { s with aofReplaying := false } log where
  db _ _ both := ⟨both.1, (Quiet.stable log).db _ _ both.2⟩
  rdb _ _ both := ⟨both.1, (Quiet.stable log).rdb _ _ both.2⟩
  child s i move _ both := by
    have moved := both.2.childMove i move
    have same : Miniredis.childMove { s with aofReplaying := false } i move =
        { Miniredis.childMove s i move with aofReplaying := false } := by
      unfold Miniredis.childMove
      dsimp only
      split <;> rfl
    rw [same] at moved
    refine ⟨?_, moved⟩
    rw [childMove_parent]
    exact both.1
  fork _ s content both := ⟨both.1, (Quiet.stable log).fork trivial _ content both.2⟩
  signal s posted both :=
    ⟨both.1, (Quiet.stable log).signal { s with aofReplaying := false } posted both.2⟩

theorem dispatchAll_quiet {envs : Nat → Env} {cmds : List Command} (i : Nat)
    (keeps : ∀ cmd ∈ cmds, asksRewrite cmd = false) (replaying : s.aofReplaying = true)
    (quiet : Quiet { s with aofReplaying := false } log) :
    Quiet { dispatchAll envs i s cmds with aofReplaying := false } log := by
  induction cmds generalizing i s with
  | nil => exact quiet
  | cons cmd rest ih =>
    have unlogged : logCommand .smooth s cmd = s := by simp [logCommand, replaying]
    have starts : StartsNone s cmd := fun asks => by
      rw [keeps cmd List.mem_cons_self] at asks
      cases asks
    obtain ⟨still, after⟩ : (dispatchCommand (envs i) .smooth s cmd).1.aofReplaying = true ∧
        Quiet { (dispatchCommand (envs i) .smooth s cmd).1 with aofReplaying := false } log :=
      (Quiet.replaying log).dispatch starts (fun _ _ => trivial) (fun _ => trivial)
        (unlogged.symm ▸ ⟨replaying, quiet⟩)
    exact ih (i + 1) (List.forall_mem_cons.mp keeps).2 still after

/-- **A start leaves the log as it is and opens it.** -/
theorem serverStart_quiet {boot : Boot} {rdb : Bool} {disk : Disk}
    (contents : disk.aof.contents .file = some log)
    (keeps : ∀ cmd ∈ (FrameLog.read respDecode log).1, asksRewrite cmd = false) :
    Quiet (serverStart boot true rdb disk) log := by
  have opened : Quiet (serverOpened boot rdb disk) log := by
    refine ⟨?_, rfl, rfl, fun child member => ?_⟩
    · obtain ⟨inode, entry, data⟩ : ∃ inode, disk.aof.entry .file = some inode ∧
          disk.aof.data inode = log := Option.map_eq_some_iff.mp contents
      have made : disk.aof.create .file = (inode, disk.aof) := by rw [FileSystem.create, entry]
      have same : (serverOpened boot rdb disk).disk.aof = disk.aof := congrArg Prod.snd made
      have fd : (serverOpened boot rdb disk).aofFd = some (disk.aof.create .file).1 := rfl
      exact ⟨inode, by rw [fd, made], same ▸ entry, same ▸ data⟩
    · rw [show (serverOpened boot rdb disk).children = [] from rfl] at member
      cases member
  rw [serverStart_eq, aofReplay_eq opened.fd.contents]
  exact dispatchAll_quiet 0 keeps rfl opened

/-- What a later start finds behind the log that is there now. -/
theorem replayed_behind (quiet : Quiet s log) {events : List Event}
    (recorded : ∀ e ∈ events, e.Recorded) : replayed (run s events).disk =
      (FrameLog.read respDecode (log ++ respCodec.log (events.flatMap Event.logged))).1 :=
  replayed_eq (run_quiet quiet fun e member => (recorded e member).smooth).fd.contents

/-- **A start on a cut log.** A second start finds the frames of the first one and everything that
was logged in between, whatever that was, exactly if the cut is between two frames. -/
theorem restart_torn {cmds : List Command} {disk : Disk} {file : Bytes} (boot : Boot) (rdb : Bool)
    (fits : ∀ cmd ∈ cmds, Fits cmd) (keeps : ∀ cmd ∈ cmds, asksRewrite cmd = false)
    (cut : file <+: respCodec.log cmds) (contents : disk.aof.contents .file = some file) :
    (∀ events : List Event, (∀ e ∈ events, e.Recorded) →
      (respCodec.inside cmds file.length ++ events.flatMap Event.logged).Sublist
        (replayed (run (serverStart boot true rdb disk) events).disk)) ↔
      file = respCodec.log (respCodec.inside cmds file.length) := by
  obtain ⟨frames, _, part, shape, ends⟩ := respCodec.read_prefix fits cut
  have whole : ∀ cmd ∈ respCodec.inside cmds file.length, cmd ∈ cmds := fun cmd member =>
    respCodec.mem_of_mem_inside member
  have insideFits : ∀ cmd ∈ respCodec.inside cmds file.length, respCodec.Fits cmd :=
    fun cmd member => fits cmd (whole cmd member)
  have quiet : Quiet (serverStart boot true rdb disk) file := by
    refine serverStart_quiet contents fun cmd member => keeps cmd (whole cmd ?_)
    rwa [show respDecode = respCodec.decode from rfl, frames] at member
  generalize respCodec.inside cmds file.length = inside at *
  refine ⟨fun all => ?_, fun clean events recorded => ?_⟩
  · rcases ends with none | ⟨args, member, torn⟩
    · rw [shape, none, List.append_nil]
    · -- one more command is enough to lose it
      have recorded : ∀ e ∈ [Event.command sampleEnv .smooth (breaker args)], e.Recorded := by
        rintro e (_ | ⟨_, none⟩)
        · exact breaker_recorded sampleEnv
        · cases none
      have found := all _ recorded
      rw [replayed_behind quiet recorded, shape, List.append_assoc,
        show respDecode = respCodec.decode from rfl, respCodec.read_log_append insideFits,
        List.append_sublist_append_left, List.flatMap_singleton, Event.logged, breaker_logged,
        List.singleton_sublist] at found
      refine absurd found ?_
      rw [FrameLog.Codec.log_cons, FrameLog.Codec.log_nil, List.append_nil]
      exact breaker_lost (fits args member) torn
  · rw [replayed_behind quiet recorded, clean, ← FrameLog.Codec.log_append,
      show respDecode = respCodec.decode from rfl, respCodec.read_log]
    intro cmd member
    rcases List.mem_append.mp member with old | new
    · exact insideFits cmd old
    · exact recorded_fits recorded cmd new

end Start

/-- Five bytes of a frame: the next command is not found again. -/
theorem restart_torn_differs :
    (respCodec.log [[text "SET", text "k", text "v"]]).take 5 ≠
        respCodec.log [[text "SET", text "k", text "v"]] ∧
      replayed (run (serverStart sampleBoot true false
          (diskWith ((respCodec.log [[text "SET", text "k", text "v"]]).take 5)))
        [request ["SET", "x", "y"]]).disk = [] ∧
      [request ["SET", "x", "y"]].flatMap Event.logged = [[text "SET", text "x", text "y"]] := by
  refine ⟨by decide, by decide, by decide⟩

/-- The first of two frames. -/
theorem restart_torn_sample :
    ([[text "DEL", text "k"]] ++ ([["SET", "x", "y"]].map request).flatMap Event.logged).Sublist
      (replayed (run (serverStart sampleBoot true false (diskWith (awWriteCommand
        [text "DEL", text "k"]))) ([["SET", "x", "y"]].map request)).disk) := by
  have cut : awWriteCommand [text "DEL", text "k"] <+:
      respCodec.log [[text "DEL", text "k"], [text "FLUSHALL"]] := by
    rw [FrameLog.Codec.log_cons]
    exact List.prefix_append _ _
  refine (restart_torn sampleBoot false ?_ ?_ cut (diskWith_contents _)).mpr (by decide) _
    (requests_recorded (by decide))
  · intro cmd member
    rcases List.mem_pair.mp member with rfl | rfl
    · exact fits_of_short (by decide) (by decide)
    · exact fits_of_short (by decide) (by decide)
  · decide

/-! ### An append that fails -/

/-- Commands appended to the log, one after another. -/
def appendAll (s : Server) (cmds : List Command) : Server :=
  cmds.foldl (aofAppendCommand .smooth) s

theorem OpenLog.append {s : Server} {log : Bytes} (opened : OpenLog s log) (io : Io)
    (cmd : Command) :
    OpenLog (aofAppendCommand io s cmd) (log ++ written io.append (commandToResp cmd)) := by
  obtain ⟨inode, fd, entry, data⟩ := opened
  unfold aofAppendCommand
  rw [fd]
  dsimp only
  have grown : (s.disk.aof.append inode (written io.append (commandToResp cmd))).data inode =
      log ++ written io.append (commandToResp cmd) := by
    rw [← data]
    exact FileSystem.append_data ..
  split
  · exact ⟨inode, rfl, entry, grown⟩
  · exact ⟨inode, rfl, entry, grown⟩

theorem OpenLog.appendAll {s : Server} {log : Bytes} (opened : OpenLog s log)
    (cmds : List Command) :
    OpenLog (appendAll s cmds) (log ++ respCodec.log (cmds.map (List.map cstr))) := by
  induction cmds generalizing s log with
  | nil =>
    rw [List.map_nil, FrameLog.Codec.log_nil, List.append_nil]
    exact opened
  | cons cmd rest ih =>
    have next := ih (opened.append .smooth cmd)
    rwa [List.append_assoc] at next

/-- **An append that fails after `k` bytes.** The commands before it and after it are all replayed,
whatever comes after it, exactly if the failed call wrote nothing. -/
theorem append_failed {s : Server} {before : List Command} {cmd : Command} {io : Io} {k : Nat}
    (opened : OpenLog s (respCodec.log before)) (fits : ∀ cmd ∈ before, Fits cmd)
    (delivered : Deliverable cmd) (fails : io.append = some k)
    (short : k < (commandToResp cmd).length) :
    (∀ later : List Command, (∀ cmd ∈ later, Deliverable cmd ∧ logged cmd ≠ []) →
      (before ++ later.map (List.map cstr)).Sublist
        (replayed (appendAll (aofAppendCommand io s cmd) later).disk)) ↔ k = 0 := by
  have torn := opened.append io cmd
  rw [fails, written] at torn
  have found : ∀ later, replayed (appendAll (aofAppendCommand io s cmd) later).disk =
      before ++ (FrameLog.read respDecode ((commandToResp cmd).take k ++
        respCodec.log (later.map (List.map cstr)))).1 := by
    intro later
    rw [replayed_eq (torn.appendAll later).contents, List.append_assoc,
      show respDecode = respCodec.decode from rfl, respCodec.read_log_append fits]
  refine ⟨fun all => ?_, ?_⟩
  · by_contra positive
    -- one more command is enough to lose it
    have part : respCodec.Part (cmd.map cstr) ((commandToResp cmd).take k) := by
      refine ⟨List.take_prefix _ _, fun same => ?_, fun none => ?_⟩
      · have length := congrArg List.length same
        rw [List.length_take_of_le short.le] at length
        exact short.ne length
      · have length := congrArg List.length none
        rw [List.length_take_of_le short.le] at length
        exact positive length
    have plain : (breaker (cmd.map cstr)).map cstr = breaker (cmd.map cstr) := by
      unfold breaker
      split <;> decide
    have sub := all [breaker (cmd.map cstr)] fun c member => by
      rw [List.mem_singleton.mp member, breaker_logged]
      exact ⟨(breaker_recorded sampleEnv).1, List.cons_ne_nil _ _⟩
    rw [found, List.append_sublist_append_left, List.map_singleton, plain,
      List.singleton_sublist, FrameLog.Codec.log_cons, FrameLog.Codec.log_nil,
      List.append_nil] at sub
    exact breaker_lost (fits_of_deliverable delivered) part sub
  · rintro rfl later delivered
    have laterFits : ∀ cmd ∈ later.map (List.map cstr), respCodec.Fits cmd := by
      intro frame member
      obtain ⟨cmd, there, rfl⟩ := List.mem_map.mp member
      exact fits_of_deliverable (delivered cmd there).1
    rw [found, List.take_zero, List.nil_append, show respDecode = respCodec.decode from rfl,
      respCodec.read_log laterFits]

/-- The disk is full after `k` bytes of the frame. -/
def fullAfter (k : Nat) : Io := ⟨some k, true, true, none, []⟩

/-- The append of a request fails after five bytes: the next command is not found again. -/
theorem append_failed_differs :
    replayed (run (sampleStart false)
        [.command sampleEnv (fullAfter 5) [text "SET", text "k", text "v"],
          request ["SET", "x", "y"]]).disk = [] ∧
      (request ["SET", "x", "y"]).logged = [[text "SET", text "x", text "y"]] := by
  exact ⟨by decide, by decide⟩

/-- The append of a request fails before its first byte. -/
theorem append_failed_sample :
    ([] ++ [[text "SET", text "x", text "y"]].map (List.map cstr)).Sublist
      (replayed (appendAll (aofAppendCommand (fullAfter 0) (sampleStart false)
        [text "SET", text "k", text "v"]) [[text "SET", text "x", text "y"]]).disk) := by
  refine (append_failed (sampleStart_quiet false).fd (by simp)
    (deliverable_of_short (by decide) (by decide)) rfl (by decide)).mpr rfl _ fun cmd member => ?_
  rw [List.mem_singleton.mp member]
  exact ⟨deliverable_of_short (by decide) (by decide), by decide⟩

end Miniredis
