/-
**Requests in a byte stream (`resp.c`, `server.c`).**

`read_client` parses its buffer afresh whenever a chunk arrives. The parser never takes a verdict
back when more bytes follow (`respDecode_steady`), so what it dispatches depends on the bytes alone
and not on where `recv()` cut them.
-/

import Miniredis.Lib.Stream
import Miniredis.Network.Loop
import Miniredis.Replay.Log

namespace Miniredis

open FrameLog (Outcome Halt Taken takeAll Steady Consumes)

/-! ### Verdicts that stand -/

section Steady

/-- **The parser never takes a verdict back.** -/
theorem respDecode_steady : Steady respDecode where
  nil := rfl
  inside := by
    intro buf cmd consumed found
    unfold respDecode at found
    dsimp only at found
    split_ifs at found with positive
    cases found
    have bound := respParseCommand_le positive
    omega
  frame := by
    intro buf cmd consumed found more
    unfold respDecode at found ⊢
    dsimp only at found ⊢
    split_ifs at found with positive
    rw [respParseCommand_more (by omega), if_pos positive]
    exact found
  error := by
    intro buf found more
    unfold respDecode at found ⊢
    dsimp only at found ⊢
    split_ifs at found with positive negative
    rw [respParseCommand_more (by omega), if_neg positive, if_pos negative]

end Steady

/-! ### Frames end to end -/

section Calls

/-- `n` calls of `resp_parse_command`, each behind what the call before it consumed: what they
return, and the bytes left. -/
def parseCalls : Nat → Bytes → List (Int × Command) × Bytes
  | 0, buf => ([], buf)
  | n + 1, buf =>
    let (consumed, cmd) := respParseCommand buf
    let (calls, rest) := parseCalls n (buf.drop consumed.toNat)
    ((consumed, cmd) :: calls, rest)

theorem respParseCommand_of_decode {buf : Bytes} {cmd : Command} {consumed : Nat}
    (found : respDecode buf = .frame cmd consumed) : respParseCommand buf = (↑consumed, cmd) := by
  unfold respDecode at found
  dsimp only at found
  split_ifs at found with positive
  injection found with same whole
  exact Prod.ext (by omega) same

/-- A command whose arguments are C strings is encoded as it stands. -/
theorem commandToResp_plain {cmd : Command} (plain : ∀ a ∈ cmd, 0 ∉ a) :
    commandToResp cmd = awWriteCommand cmd := by
  rw [commandToResp, List.map_congr_left fun a member => cstr_of_zero_notMem (plain a member),
    List.map_id']

/-- **The parser reads encoded commands back one by one, whatever follows.** -/
theorem parseCalls_commandToResp (cmds : List Command)
    (limits : ∀ cmd ∈ cmds, cmd.length ≤ maxArgc ∧
      (∀ a ∈ cmd, 0 ∉ a ∧ a.length ≤ maxBulkLen) ∧ (commandToResp cmd).length < 2 ^ 31)
    (trailing : Bytes) :
    parseCalls cmds.length (cmds.flatMap commandToResp ++ trailing) =
      (cmds.map fun cmd => (↑(commandToResp cmd).length, cmd), trailing) := by
  induction cmds with
  | nil => rfl
  | cons cmd cmds ih =>
    obtain ⟨argc, args, frame⟩ := limits cmd List.mem_cons_self
    have plain := commandToResp_plain fun a member => (args a member).1
    have fits : Fits cmd :=
      ⟨argc, fun a member => (args a member).2, by rw [← plain]; exact frame⟩
    have first := respParseCommand_of_decode
      (respDecode_encode fits (cmds.flatMap commandToResp ++ trailing))
    rw [List.length_cons, List.flatMap_cons, List.append_assoc, plain, parseCalls, first]
    dsimp only
    rw [Int.toNat_natCast, List.drop_left, ih (List.forall_mem_cons.mp limits).2, List.map_cons,
      plain]

/-- Two commands, an argument that looks like a frame, and half a frame behind them. -/
theorem parseCalls_sample :
    parseCalls 2 ([[text "SET", text "k", text "*1\r\n"], []].flatMap commandToResp ++
        text "*1\r\n$") =
      ([(30, [text "SET", text "k", text "*1\r\n"]), (4, [])], text "*1\r\n$") :=
  parseCalls_commandToResp [[text "SET", text "k", text "*1\r\n"], []] (by decide)
    (text "*1\r\n$")

end Calls

/-! ### What a stream asks for -/

section Reading

/-- The command closes its client. -/
def asksQuit (cmd : Command) : Bool :=
  match entryOf cmd with
  | some ⟨_, _, .quit⟩ => true
  | _ => false

theorem dispatchCommand_closing (env : Env) (io : Io) (s : Server) (cmd : Command) :
    (dispatchCommand env io s cmd).2.closing = asksQuit cmd := by
  unfold dispatchCommand asksQuit entryOf
  cases cmd.map cstr with
  | nil => rfl
  | cons name args =>
    dsimp only
    cases lookupCommand name with
    | none => rfl
    | some e =>
      obtain ⟨entry, isWrite, fn⟩ := e
      cases fn <;> rfl

/-- The commands in a stream, up to the first QUIT or the first error. -/
def requests (stream : Bytes) : Taken Command UInt8 := takeAll respDecode asksQuit stream

/-- How `read_client` reports that the inner loop leaves off. -/
def haltExit : Halt → Option Exit
  | .waiting => none
  | .stopped => some .quit
  | .failed => some .protocol

/-- Where the requests stand when `read_client` returns. -/
def exitHalt : Exit → Halt
  | .quit => .stopped
  | .protocol => .failed
  | .blocked | .closed | .failed | .overflow => .waiting

/-- The inner loop has taken commands off the buffer. -/
structure Session.Drained (x : Session) (taken : Taken Command UInt8) (x' : Session) : Prop where
  inBuf : x'.client.inBuf = taken.rest
  answered : x'.answered.map Prod.fst = x.answered.map Prod.fst ++ taken.values
  received : x'.received = x.received
  closing : x'.client.closing = decide (taken.halt = .stopped)

variable (worlds : Nat → World)

theorem dispatch_closing {x : Session} (opened : x.client.closing = false)
    {cmd : Command} {consumed : Nat} :
    (x.dispatch worlds cmd consumed).client.closing = asksQuit cmd := by
  rw [← dispatchCommand_closing (worlds x.answered.length).env (worlds x.answered.length).io
    x.server]
  simp [Session.dispatch, opened]

/-- **The inner loop takes commands as the stream has them.** -/
theorem drainLoop_take (fuel : Nat) {x : Session} (opened : x.client.closing = false) :
    x.Drained (FrameLog.take respDecode asksQuit fuel x.client.inBuf) (drainLoop worlds fuel x).1 ∧
      (drainLoop worlds fuel x).2 =
        haltExit (FrameLog.take respDecode asksQuit fuel x.client.inBuf).halt := by
  induction fuel generalizing x with
  | zero => exact ⟨⟨rfl, by simp [drainLoop, FrameLog.take], rfl, opened⟩, rfl⟩
  | succ fuel ih =>
    have decided : respDecode x.client.inBuf = _ := respDecode.eq_def x.client.inBuf
    dsimp only at decided
    rw [drainLoop, FrameLog.take]
    dsimp only
    split_ifs with complete closing wrong
    · have quit : asksQuit (respParseCommand x.client.inBuf).2 = true := by
        rw [← dispatch_closing worlds opened]
        exact closing
      rw [decided, if_pos complete]
      dsimp only
      rw [if_pos quit]
      refine ⟨⟨rfl, ?_, rfl, closing⟩, rfl⟩
      simp [Session.dispatch]
    · have quit : asksQuit (respParseCommand x.client.inBuf).2 = false := by
        rw [← dispatch_closing worlds opened]
        exact Bool.eq_false_of_not_eq_true closing
      obtain ⟨drained, exit⟩ := ih (Bool.eq_false_of_not_eq_true closing)
      rw [decided, if_pos complete]
      dsimp only
      rw [quit, if_neg Bool.false_ne_true]
      refine ⟨⟨drained.inBuf, ?_, drained.received, drained.closing⟩, exit⟩
      rw [drained.answered]
      simp [Session.dispatch, Taken.push]
    · rw [decided, if_neg complete, if_pos wrong]
      exact ⟨⟨rfl, by simp, rfl, opened⟩, rfl⟩
    · rw [decided, if_neg complete, if_neg wrong]
      exact ⟨⟨rfl, by simp, rfl, opened⟩, rfl⟩

/-- Requests go on where they waited. -/
theorem requests_append {stream : Bytes} (waits : (requests stream).halt = .waiting)
    (more : Bytes) :
    requests (stream ++ more) =
      { requests ((requests stream).rest ++ more) with
        values := (requests stream).values ++
          (requests ((requests stream).rest ++ more)).values } := by
  have next : requests (stream ++ more) = (requests stream).resume respDecode asksQuit more :=
    respDecode_steady.takeAll_append stream more
  rw [next, Taken.resume, waits]
  rfl

/-- Bytes a session received behind `past`, which asked for `before`, are all taken. -/
structure Session.Follows (past : Bytes) (before : List Command) (x : Session) (halt : Halt) :
    Prop where
  values : (requests (past ++ x.received)).values = before ++ x.answered.map Prod.fst
  halt : (requests (past ++ x.received)).halt = halt
  rest : (requests (past ++ x.received)).rest = x.client.inBuf

variable {past : Bytes} {before : List Command}

/-- A chunk is taken up where the stream was left. -/
theorem Session.Follows.receive {x : Session} (follows : x.Follows past before .waiting)
    (opened : x.client.closing = false) (bytes : Bytes) :
    let (x', exit) := drainLoop worlds (x.receive bytes).client.inBuf.length (x.receive bytes)
    x'.Follows past before (exitHalt (exit.getD .blocked)) ∧
      x'.client.closing = decide (exit = some .quit) ∧ exit ≠ some .overflow := by
  have next := requests_append follows.halt bytes
  rw [List.append_assoc, follows.rest, follows.values] at next
  obtain ⟨drained, exit⟩ :=
    drainLoop_take worlds (x.receive bytes).client.inBuf.length (x := x.receive bytes) opened
  change Drained _ (requests (x.client.inBuf ++ bytes)) _ at drained
  change _ = haltExit (requests (x.client.inBuf ++ bytes)).halt at exit
  have same : _ = x.received ++ bytes := drained.received
  generalize drainLoop worlds _ (x.receive bytes) = after at drained exit same ⊢
  obtain ⟨x', exit'⟩ := after
  dsimp only at drained exit same ⊢
  subst exit
  refine ⟨⟨?_, ?_, ?_⟩, ?_, ?_⟩
  · rw [same, next, drained.answered, List.append_assoc]
    rfl
  · rw [same, next]
    dsimp only
    cases (requests (x.client.inBuf ++ bytes)).halt <;> rfl
  · rw [same, next, drained.inBuf]
  · rw [drained.closing]
    cases (requests (x.client.inBuf ++ bytes)).halt <;> rfl
  · cases (requests (x.client.inBuf ++ bytes)).halt <;> decide

/-- **`read_client` dispatches what the bytes it received ask for.** -/
theorem readClient_follows (recvs : List Recv) {x : Session}
    (follows : x.Follows past before .waiting) (opened : x.client.closing = false) :
    let (x', exit) := readClient worlds recvs x
    (exit ≠ .overflow → x'.Follows past before (exitHalt exit)) ∧
      (exit = .quit → x'.client.closing = true) := by
  fun_induction readClient worlds recvs x with
  | case1 x => exact ⟨fun _ => follows, by rintro ⟨⟩⟩
  | case2 x => exact ⟨fun _ => follows, by rintro ⟨⟩⟩
  | case3 recvs x ih => exact ih follows opened
  | case4 x => exact ⟨fun _ => follows, by rintro ⟨⟩⟩
  | case5 x => exact ⟨fun _ => follows, by rintro ⟨⟩⟩
  | case6 chunk recvs x received exceeds => exact ⟨fun other => absurd rfl other, by rintro ⟨⟩⟩
  | case7 chunk recvs x received within x' exit drained =>
    have taken := follows.receive worlds opened chunk.bytes
    rw [drained] at taken
    refine ⟨fun _ => taken.1, ?_⟩
    rintro rfl
    exact taken.2.1
  | case8 chunk recvs x received within x' drained ih =>
    have taken := follows.receive worlds opened chunk.bytes
    rw [drained] at taken
    exact ih taken.1 taken.2.1

end Reading

/-! ### Any cutting of a stream -/

section Chunks

/-- What was dispatched for a connection is what its bytes ask for. -/
structure View.Tracked (v : View) : Prop where
  ended : ∀ c, v.client = some c → v.socket.exit ≠ none → c.closing = true
  values : v.socket.exit ≠ some .overflow →
    (requests v.socket.received).values = v.answered.map Prod.fst
  halt : v.socket.exit ≠ some .overflow →
    (requests v.socket.received).halt = exitHalt (v.socket.exit.getD .blocked)
  rest : v.socket.exit ≠ some .overflow → ∀ c, v.client = some c →
    (requests v.socket.received).rest = c.inBuf

theorem View.Tracked.read {c : Client} {socket : Socket} {answered : List (Command × Bytes)}
    (tracked : View.Tracked ⟨some c, socket, answered⟩) (opened : c.closing = false)
    (server : Server) (worlds : Nat → World) (recvs : List Recv) :
    (View.afterRead socket answered (readClient worlds recvs ⟨server, c, [], []⟩)).Tracked := by
  have live : socket.exit = none := by
    by_contra gone
    exact Bool.false_ne_true (opened.symm.trans (tracked.ended c rfl gone))
  have within : socket.exit ≠ some .overflow := by
    rw [live]
    exact nofun
  have follows : Session.Follows socket.received (answered.map Prod.fst) ⟨server, c, [], []⟩
      .waiting := by
    have halt := tracked.halt within
    rw [live] at halt
    constructor
    · simpa using tracked.values within
    · simpa [exitHalt] using halt
    · simpa using tracked.rest within c rfl
  have done := readClient_follows worlds recvs follows opened
  generalize readClient worlds recvs ⟨server, c, [], []⟩ = result at done
  obtain ⟨x, exit⟩ := result
  obtain ⟨reads, quit⟩ := done
  rw [View.afterRead, live]
  constructor
  · intro c' same gone
    obtain rfl := Option.some.inj same
    cases exit with
    | blocked => exact absurd rfl gone
    | quit => exact quit rfl
    | overflow | protocol | closed | failed => rfl
  all_goals
    dsimp only
    intro other
    have kept : exit ≠ .overflow := by
      rintro rfl
      exact other rfl
    have follows := reads kept
  · rw [follows.values, List.map_append]
  · rw [follows.halt]
    cases exit <;> rfl
  · intro c' same
    obtain rfl := Option.some.inj same
    rw [follows.rest]
    split_ifs <;> rfl

theorem View.Tracked.moves {before later : View} (move : Moves before later)
    (tracked : before.Tracked) : later.Tracked := by
  cases move with
  | accept subscribed registered =>
    refine ⟨fun c _ gone => absurd rfl gone, fun _ => rfl, fun _ => rfl, ?_⟩
    rintro _ c ⟨⟩
    rfl
  | read server worlds recvs opened => exact tracked.read opened server worlds recvs
  | @write c socket answered sends strict =>
    obtain ⟨input, closing⟩ := writeClient_input c sends
    refine ⟨?_, tracked.values, tracked.halt, ?_⟩
    · intro c' same gone
      obtain rfl := Option.some.inj same
      have marked := tracked.ended c rfl gone
      split_ifs
      · rfl
      · exact closing.trans marked
    · intro within c' same
      obtain rfl := Option.some.inj same
      refine (tracked.rest within c rfl).trans ?_
      split_ifs <;> exact input.symm
  | @close c socket answered =>
    refine ⟨?_, tracked.values, tracked.halt, ?_⟩
    · rintro c' ⟨⟩ _
      rfl
    · intro within c' same
      obtain rfl := Option.some.inj same
      exact tracked.rest within c rfl
  | drop closing => exact ⟨nofun, tracked.values, tracked.halt, fun _ => nofun⟩

theorem run_tracked (s : Server) (events : List NetEvent) (id : Nat) :
    (((Net.start s).run events).view id).Tracked :=
  run_keeps ⟨nofun, fun _ => rfl, fun _ => rfl, fun _ => nofun⟩ View.Tracked.moves s events id

/-- The stream reached `read_client` as far as it reads, and the buffer stayed within its cap. -/
def Net.Delivered (net : Net) (id : Nat) (stream : Bytes) : Prop :=
  (net.sockets id).exit ≠ some .overflow ∧ (net.sockets id).received <+: stream ∧
    ((net.sockets id).received = stream ∨ (net.sockets id).exit = some .quit ∨
      (net.sockets id).exit = some .protocol)

/-- Requests that have ended stay as they are. -/
theorem requests_ended {stream : Bytes} (ended : (requests stream).halt ≠ .waiting) (more : Bytes) :
    (requests (stream ++ more)).values = (requests stream).values ∧
      (requests (stream ++ more)).halt = (requests stream).halt := by
  have next : requests (stream ++ more) = (requests stream).resume respDecode asksQuit more :=
    respDecode_steady.takeAll_append stream more
  rw [next, Taken.resume]
  cases halt : (requests stream).halt with
  | waiting => exact absurd halt ended
  | stopped | failed => exact ⟨rfl, rfl⟩

/-- What is dispatched, and how the reading ends, are functions of the stream. -/
theorem Net.Delivered.requests {s : Server} {events : List NetEvent} {id : Nat} {stream : Bytes}
    (delivered : ((Net.start s).run events).Delivered id stream) :
    ((Net.start s).run events).dispatched id = (requests stream).values ∧
      (requests stream).halt =
        exitHalt ((((Net.start s).run events).sockets id).exit.getD .blocked) := by
  obtain ⟨within, ⟨more, rfl⟩, reached⟩ := delivered
  have values : (Miniredis.requests (((Net.start s).run events).sockets id).received).values =
      ((Net.start s).run events).dispatched id := by
    rw [Net.dispatched_view]
    exact (run_tracked s events id).values within
  have halt : (Miniredis.requests (((Net.start s).run events).sockets id).received).halt =
      exitHalt ((((Net.start s).run events).sockets id).exit.getD .blocked) :=
    (run_tracked s events id).halt within
  rw [← values, ← halt]
  rcases reached with whole | gone
  · rw [← whole]
    exact ⟨rfl, rfl⟩
  · have ended : (Miniredis.requests (((Net.start s).run events).sockets id).received).halt ≠
        .waiting := by
      rw [halt]
      rcases gone with quit | protocol
      · rw [quit]
        exact nofun
      · rw [protocol]
        exact nofun
    obtain ⟨same, stays⟩ := requests_ended ended more
    exact ⟨same.symm, stays⟩

theorem exitHalt_failed {exit : Option Exit} :
    exitHalt (exit.getD .blocked) = .failed ↔ exit = some .protocol := by
  rcases exit with _ | exit
  · simp [exitHalt]
  · cases exit <;> simp [exitHalt]

theorem exitHalt_stopped {exit : Option Exit} :
    exitHalt (exit.getD .blocked) = .stopped ↔ exit = some .quit := by
  rcases exit with _ | exit
  · simp [exitHalt]
  · cases exit <;> simp [exitHalt]

/-- **What is dispatched does not depend on where a stream is cut.** In any two runs in which a
stream is delivered to a client, the same commands are dispatched for it, and it is closed for a
protocol error in both or in neither. The frames of the commands lie end to end at the front of the
stream, and behind them there is no whole frame unless the client quit. -/
theorem chunking_independent (s s' : Server) (events events' : List NetEvent) (id id' : Nat)
    (stream : Bytes) (here : ((Net.start s).run events).Delivered id stream)
    (there : ((Net.start s').run events').Delivered id' stream) :
    ((Net.start s).run events).dispatched id = ((Net.start s').run events').dispatched id' ∧
      ((((Net.start s).run events).sockets id).exit = some .protocol ↔
        (((Net.start s').run events').sockets id').exit = some .protocol) ∧
      ((((Net.start s).run events).sockets id).exit = some .protocol →
        ∀ c, ((Net.start s).run events).clients id = some c → c.closing = true) ∧
      ∃ rest, Consumes respDecode stream (((Net.start s).run events).dispatched id) rest ∧
        ((((Net.start s).run events).sockets id).exit ≠ some .quit →
          ∀ cmd consumed, respDecode rest ≠ .frame cmd consumed) := by
  obtain ⟨values, halt⟩ := here.requests
  obtain ⟨values', halt'⟩ := there.requests
  refine ⟨values.trans values'.symm, ?_, ?_, (requests stream).rest, ?_, ?_⟩
  · rw [← exitHalt_failed, ← halt, halt', exitHalt_failed]
  · intro protocol c found
    exact (run_tracked s events id).ended c found (by simp [Net.view, protocol])
  · rw [values]
    exact respDecode_steady.takeAll_consumes stream
  · intro goes
    refine respDecode_steady.takeAll_rest stream ?_
    change (requests stream).halt ≠ _
    rwa [halt, Ne, exitHalt_stopped]

/-- A client is accepted, and what it sends arrives chunk by chunk, each in a turn of its own. -/
def sampleFeed (chunks : List Chunk) : List NetEvent :=
  .accept 0 true :: chunks.map fun chunk =>
    .serve 0 ⟨true, false, false⟩ ⟨fun _ => ⟨sampleEnv, .smooth⟩, [.data chunk], [], []⟩

theorem chunking_independent_sample :
    ((Net.start (sampleStart false)).run
        (sampleFeed [⟨text "*1\r\n$4\r\nQUIT\r\n*1", by decide, by decide⟩])).dispatched 0 =
      ((Net.start (sampleStart false)).run
        (sampleFeed [⟨text "*1\r\n$4\r\nQU", by decide, by decide⟩,
          ⟨text "IT\r\n*1", by decide, by decide⟩])).dispatched 0 :=
  (chunking_independent (sampleStart false) (sampleStart false) _ _ 0 0
    (text "*1\r\n$4\r\nQUIT\r\n*1") ⟨by decide, by decide, .inl (by decide)⟩
    ⟨by decide, by decide, .inl (by decide)⟩).1

end Chunks

end Miniredis
