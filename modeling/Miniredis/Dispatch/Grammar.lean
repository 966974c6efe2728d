/-
**What a client reads (`server.c`, `db.c`).**

* `reply_one_value` — a known command is answered with one value of the protocol, `ZRANGEBYSCORE`
  with a `LIMIT` left open, unless the process ends in a `SETRANGE` that cannot allocate.
* `unknown_command_line` — the reply to an unknown command is one error line if and only if the part
  of the name that is printed has no CR LF.
-/

import Miniredis.Dispatch.Table

namespace Miniredis

/-! ### Known commands -/

section Known

variable {env : Env} {io : Io} {s : Server} {cmd : Command} {e : CmdEntry}

theorem wellFormed_cmdSave (argv : Argv) : WellFormed (cmdSave io s argv).2 := by
  unfold cmdSave
  split
  · exact wellFormed_arity (by decide)
  split
  · exact wellFormed_error (by decide)
  split
  · exact wellFormed_error (by decide)
  · exact wellFormed_replyOk

theorem wellFormed_cmdBgsave (argv : Argv) : WellFormed (cmdBgsave io s argv).2 := by
  unfold cmdBgsave
  split
  · exact wellFormed_arity (by decide)
  split
  · exact wellFormed_error (by decide)
  split
  · exact wellFormed_error (by decide)
  · exact wellFormed_simple (by decide)

theorem wellFormed_cmdRewriteaof (argv : Argv) : WellFormed (cmdRewriteaof io s argv).2 := by
  unfold cmdRewriteaof
  split
  · exact wellFormed_arity (by decide)
  split
  · exact wellFormed_error (by decide)
  split
  · exact wellFormed_error (by decide)
  split
  · exact wellFormed_error (by decide)
  · exact wellFormed_replyOk

theorem wellFormed_cmdBgrewriteaof (argv : Argv) : WellFormed (cmdBgrewriteaof io s argv).2 := by
  unfold cmdBgrewriteaof
  split
  · exact wellFormed_arity (by decide)
  split
  · exact wellFormed_error (by decide)
  split
  · exact wellFormed_error (by decide)
  split
  · exact wellFormed_error (by decide)
  · exact wellFormed_simple (by decide)

/-- A `SETRANGE` that does not end the process is answered. -/
theorem wellFormed_cmdSetrange {db : Db} {argv : Argv}
    (alive : cmdSetrangeAborts env db argv = false) : WellFormed (cmdSetrange env db argv).2 := by
  unfold cmdSetrange
  unfold cmdSetrangeAborts at alive
  split
  · exact wellFormed_arity (by decide)
  rename_i four
  rw [not_not] at four
  rw [four, beq_self_eq_true, Bool.true_and] at alive
  split
  · exact wellFormed_error (by decide)
  rename_i offset read
  split
  · exact wellFormed_error (by decide)
  rename_i low
  obtain ⟨n, rfl⟩ := Int.eq_ofNat_of_zero_le (Int.not_lt.mp low)
  rw [read] at alive
  have answers {s : Bytes} (room : outgrows n (arg argv 3) s = false) :
      WellFormed (setrangeString n (arg argv 3) s).2 := by
    rw [setrangeString, room, if_neg Bool.false_ne_true]
    exact wellFormed_integer _
  show WellFormed (stringKind.upsert env.seed (setrangeString n (arg argv 3))
    (lookupKey (env.now 0) db (arg argv 1)).1).2
  rcases found : (lookupKey (env.now 0) db (arg argv 1)).1 with _ | ⟨_ | _ | _ | _ | _, expireAt⟩
  all_goals rw [found] at alive
  · exact answers alive
  · exact answers alive
  all_goals exact wellFormed_wrongtype

/-- The command of that name in the table. -/
theorem data_setrange {h : Handler} (known : entryOf cmd = some e) (action : e.fn = .data h)
    (name : e.name = text "setrange") : h = cmdSetrange := by
  have same : e = entry "setrange" true cmdSetrange :=
    List.inj_on_of_nodup_map commands_distinct (entryOf_mem known) (by simp [commands])
      (by rw [name]; rfl)
  rw [same] at action
  exact (Action.data.inj action).symm

theorem wellFormed_known (known : entryOf cmd = some e) (stopped : env.Stopped)
    (unlimited : e.name = text "zrangebyscore" → ¬ HasLimit (cmd.map cstr))
    (alive : e.name = text "setrange" → cmdSetrangeAborts env s.db (cmd.map cstr) = false) :
    WellFormed (dispatchCommand env io s cmd).2.out := by
  cases action : e.fn with
  | data h =>
    by_cases name : e.name = text "setrange"
    · rw [(dispatchCommand_data known action).2, data_setrange known action name]
      exact wellFormed_cmdSetrange (alive name)
    · exact (dispatchCommand_behaves known action).reply stopped ⟨name, unlimited⟩
  | quit =>
    rw [dispatchCommand_found known, action]
    exact wellFormed_replyOk
  | save =>
    rw [dispatchCommand_found known, action]
    exact wellFormed_cmdSave _
  | bgsave =>
    rw [dispatchCommand_found known, action]
    exact wellFormed_cmdBgsave _
  | rewriteaof =>
    rw [dispatchCommand_found known, action]
    exact wellFormed_cmdRewriteaof _
  | bgrewriteaof =>
    rw [dispatchCommand_found known, action]
    exact wellFormed_cmdBgrewriteaof _

end Known

/-- **A known command is answered with one value, and no reader can take the reply for anything
else, whatever follows it**, unless it is a `SETRANGE` in which the process ends. -/
theorem reply_one_value (env : Env) (io : Io) (s : Server) {cmd : Command} {e : CmdEntry}
    (known : entryOf cmd = some e) (stopped : env.Stopped)
    (unlimited : ¬ (e.name = text "zrangebyscore" ∧ HasLimit (cmd.map cstr)))
    (alive : ¬ (e.name = text "setrange" ∧ cmdSetrangeAborts env s.db (cmd.map cstr) = true)) :
    ∃ v : Wire.Value, (dispatchCommand env io s cmd).2.out = v.encode ∧
      ∀ (w : Wire.Value) (rest rest' : Bytes),
        (dispatchCommand env io s cmd).2.out ++ rest = w.encode ++ rest' →
          w = v ∧ rest' = rest := by
  obtain ⟨v, same⟩ := @wellFormed_known env io s cmd e known stopped
    (fun name limit => unlimited ⟨name, limit⟩)
    fun name => Bool.eq_false_of_not_eq_true fun aborts => alive ⟨name, aborts⟩
  refine ⟨v, same, fun w rest rest' read => ?_⟩
  rw [same] at read
  obtain ⟨rfl, rfl⟩ := Wire.Value.encode_append_inj v w rest rest' read
  exact ⟨rfl, rfl⟩

theorem lrange_one_value :
    ∃ v : Wire.Value, (dispatchCommand sampleEnv .smooth (run (sampleStart false)
        [request ["RPUSH", "l", "a"]]) (["LRANGE", "l", "0", "-1"].map text)).2.out = v.encode ∧
      ∀ (w : Wire.Value) (rest rest' : Bytes),
        (dispatchCommand sampleEnv .smooth (run (sampleStart false)
          [request ["RPUSH", "l", "a"]]) (["LRANGE", "l", "0", "-1"].map text)).2.out ++ rest =
            w.encode ++ rest' → w = v ∧ rest' = rest :=
  reply_one_value sampleEnv .smooth _
    (entryOf_eq (e := entry "lrange" false cmdLrange) (by simp [commands]) (by decide) _)
    (fun _ => rfl) (fun limited => absurd limited.1 (by decide))
    fun aborts => absurd aborts.1 (by decide)

/-- `SETRANGE` with the largest offset: `xmalloc` ends the process, and there is no reply. -/
theorem setrange_unanswered :
    (dispatchCommand sampleEnv .smooth (sampleStart false)
        (["SETRANGE", "k", "9223372036854775807", "x"].map text)).2.out = [] ∧
      ¬ ∃ v : Wire.Value, (dispatchCommand sampleEnv .smooth (sampleStart false)
        (["SETRANGE", "k", "9223372036854775807", "x"].map text)).2.out = v.encode := by
  have none : (dispatchCommand sampleEnv .smooth (sampleStart false)
      (["SETRANGE", "k", "9223372036854775807", "x"].map text)).2.out = [] := by decide +kernel
  rw [none]
  refine ⟨rfl, fun ⟨v, nothing⟩ => ?_⟩
  cases v <;> cases nothing

/-! ### Unknown commands -/

section Unknown

/-- The bytes are one error line, with the only CR LF at its end. -/
def OneErrorLine (out : Bytes) : Prop := ∃ line, Wire.Plain line ∧ out = text "-" ++ line ++ crlf

variable {name : Bytes}

theorem oneErrorLine_replyError (message : Bytes) :
    OneErrorLine (replyError message) ↔ Wire.Plain (text "ERR " ++ message.take 255) := by
  have shape : replyError message = text "-" ++ (text "ERR " ++ message.take 255) ++ crlf := by
    simp [replyError, text]
  rw [shape]
  refine ⟨?_, fun plain => ⟨_, plain, rfl⟩⟩
  rintro ⟨line, plain, same⟩
  rw [List.append_left_inj, List.append_right_inj] at same
  rwa [same]

/-- Of the name at most 238 bytes fit into the buffer of `reply_error`. -/
theorem plain_unknown (name : Bytes) :
    Wire.Plain (text "ERR " ++ (text "unknown command '" ++ name ++ text "'").take 255) ↔
      Wire.Plain (name.take 238) := by
  have front : (text "unknown command '").length = 17 := by decide
  have cut : (text "unknown command '" ++ name ++ text "'").take 255 =
      text "unknown command '" ++ (name ++ text "'").take 238 := by
    rw [List.append_assoc, List.take_append, front,
      List.take_of_length_le (show (text "unknown command '").length ≤ 255 by decide)]
  rw [cut, Wire.plain_append_left (by decide), Wire.plain_append_left (by decide)]
  -- the closing quote is printed only behind a shorter name
  by_cases long : 238 ≤ name.length
  · rw [List.take_append_of_le_length long]
  · have short : (name ++ text "'").length ≤ 238 := by
      rw [List.length_append, show (text "'").length = 1 from rfl]
      omega
    rw [List.take_of_length_le short, List.take_of_length_le (by omega)]
    exact Wire.plain_concat (by decide)

end Unknown

/-- **The reply to an unknown command is one error line exactly when the printed part of its name
has no CR LF.** The server is left as it was in any case. -/
theorem unknown_command_line (env : Env) (io : Io) (s : Server) {name : Bytes} {args : List Bytes}
    (unknown : entryOf (name :: args) = none) :
    ((dispatchCommand env io s (name :: args)).1 = s ∧
        OneErrorLine (dispatchCommand env io s (name :: args)).2.out) ↔
      ¬ [13, 10] <:+: (cstr name).take 238 := by
  rw [dispatchCommand_unknown env io s unknown]
  rw [oneErrorLine_replyError, plain_unknown]
  exact and_iff_right rfl

theorem unknown_command_line_plain :
    (dispatchCommand sampleEnv .smooth (sampleStart false) [text "NOPE"]).1 = sampleStart false ∧
      OneErrorLine
        (dispatchCommand sampleEnv .smooth (sampleStart false) [text "NOPE"]).2.out := by
  have unknown : entryOf [text "NOPE"] = none := by decide
  exact (unknown_command_line sampleEnv .smooth (sampleStart false) unknown).mpr (by decide)

/-- A name with a CR LF makes two replies of one. -/
theorem unknown_command_misread :
    Deliverable [text "x" ++ crlf ++ text "+OK"] ∧
      entryOf [text "x" ++ crlf ++ text "+OK"] = none ∧
      ¬ OneErrorLine (dispatchCommand sampleEnv .smooth (sampleStart false)
        [text "x" ++ crlf ++ text "+OK"]).2.out ∧
      ∃ first second : Wire.Line,
        (dispatchCommand sampleEnv .smooth (sampleStart false)
          [text "x" ++ crlf ++ text "+OK"]).2.out =
            (Wire.Value.error first).encode ++ (Wire.Value.simple second).encode := by
  have unknown : entryOf [text "x" ++ crlf ++ text "+OK"] = none := by decide
  rw [dispatchCommand_unknown sampleEnv .smooth (sampleStart false) unknown,
    oneErrorLine_replyError, plain_unknown]
  refine ⟨deliverable_of_short (by decide) (by decide), unknown, not_not.mpr (by decide),
    ⟨text "ERR unknown command 'x", .of_notMem (by decide)⟩, ⟨text "OK'", .of_notMem (by decide)⟩,
    by decide⟩

end Miniredis
