/-
**Clients that work on different keys (`db.c`, `server.c`).**

All clients share one store, one clock and one expiry cycle. A client whose commands name the keys
of a set `K` cannot tell whether others, who name no key of `K`, are there at all:

* `step_foreign`, `step_own` — one event of the others, and one of the client.
* `isolated` — in any two runs in which the client issues the same commands it hears the same
  replies and finds the same data, whatever else the two runs do in between.

The expiry cycle may drop an expired entry in one run and not in the other. `DEL` counts such an
entry, so its reply is left out, and with it those of the commands on the whole server: `KEYS`,
`DBSIZE`, `INFO`, `SAVE`, `BGSAVE`, `REWRITEAOF` and `BGREWRITEAOF`.
-/

import Miniredis.Dispatch.Expiration

namespace Miniredis

open HashTable (Table)

/-! ### The expiry cycle under a clock that moves -/

section Cycle

variable (now : Nat → Int) (key : Bytes)

theorem expireBucket_drops (n : Nat) (chain : List (HashTable.Entry Bytes Robj)) (d : Dict Robj) :
    (expireBucket now n chain d).2.get key = d.get key ∨
      (expireBucket now n chain d).2.get key = none := by
  induction chain generalizing n d with
  | nil => exact .inl rfl
  | cons entry rest ih =>
    unfold expireBucket
    have dropped : ∀ d' : Dict Robj, d' = (d.delete entry.key).2 ∨ d' = d →
        d'.get key = d.get key ∨ d'.get key = none := by
      rintro d' (rfl | rfl)
      · rw [Table.get_delete]
        split_ifs
        · exact .inr rfl
        · exact .inl rfl
      · exact .inl rfl
    have first := dropped (if keyExpired (now n) entry.val then (d.delete entry.key).2 else d)
      (by split_ifs <;> simp)
    rcases ih (n + 1) (if keyExpired (now n) entry.val then (d.delete entry.key).2 else d)
      with same | gone
    · rw [same]
      exact first
    · exact .inr gone

theorem expireLoop_drops (fuel n cursor : Nat) (d : Dict Robj) :
    (expireLoop now fuel n cursor d).2.get key = d.get key ∨
      (expireLoop now fuel n cursor d).2.get key = none := by
  induction fuel generalizing n cursor d with
  | zero => exact .inl rfl
  | succ fuel ih =>
    unfold expireLoop
    split_ifs
    · have first := expireBucket_drops now key n (d.chain cursor) d
      rcases ih (expireBucket now n (d.chain cursor) d).1 (cursor + 1)
        (expireBucket now n (d.chain cursor) d).2 with same | gone
      · dsimp only
        rw [same]
        exact first
      · exact .inr gone
    · exact .inl rfl

/-- **A cycle drops nothing but entries that one of its readings finds expired.** -/
theorem dbExpireCycle_collects (db : Db) :
    Collects now db (dbExpireCycle now db) := by
  intro key
  have drops : (dbExpireCycle now db).d.get key = db.d.get key ∨
      (dbExpireCycle now db).d.get key = none := by
    unfold dbExpireCycle
    split
    · exact .inl rfl
    · exact expireLoop_drops ..
  by_cases fresh : ∀ i, Unexpired (now i) db key
  · exact .inl (dbExpireCycle_get fresh)
  · refine drops.imp_right fun gone => ⟨gone, ?_⟩
    simpa [Unexpired] using fresh

end Cycle

/-! ### Events of a client and of the others -/

/-- The keys a command names. -/
def namedBy (cmd : Command) : Set Bytes :=
  match entryOf cmd with
  | some e => keysNamed e.name (cmd.map cstr)
  | none => ∅

/-- The reply depends on the keys that the command names alone: any command but `DEL`, `KEYS`,
`DBSIZE`, `INFO`, `SAVE`, `BGSAVE`, `REWRITEAOF` and `BGREWRITEAOF`. -/
def heard (cmd : Command) : Bool :=
  match entryOf cmd with
  | some e => !revealing.contains e.name && !reporting.contains e.name
  | none => true

/-- A command that names keys of `K` only. -/
def Event.Own (K : Set Bytes) : Event → Prop
  | .command _ _ cmd => namedBy cmd ⊆ K
  | _ => False

/-- A command that names no key of `K`, a move of a child, a signal or the end of a turn. -/
def Event.Foreign (K : Set Bytes) : Event → Prop
  | .command _ _ cmd => ∀ key ∈ K, key ∉ namedBy cmd
  | _ => True

/-- The clock is read between two times only. -/
def Event.Between (t u : Int) : Event → Prop
  | .command env _ _ => ∀ i, t ≤ env.now i ∧ env.now i ≤ u
  | .cron now _ => ∀ i, t ≤ now i ∧ now i ≤ u
  | _ => True

/-- The clock goes from `t` to `u` and never back from one event to the next. -/
def Clocked (t : Int) : List Event → Int → Prop
  | [], u => t ≤ u
  | e :: rest, u => ∃ m, t ≤ m ∧ e.Between t m ∧ Clocked m rest u

/-- The reply of an event; `none` for `DEL` and the commands on the whole server (`heard`). -/
def Event.reply (s : Server) : Event → Option Bytes
  | .command env io cmd => if heard cmd then some (dispatchCommand env io s cmd).2.out else none
  | _ => none

/-- A run of a client, whose events are marked, among others. -/
abbrev Mixed := List (Bool × Event)

/-- What the client hears. -/
def ownReplies : Server → Mixed → List (Option Bytes)
  | _, [] => []
  | s, (true, e) :: rest => e.reply s :: ownReplies (step s e) rest
  | s, (false, e) :: rest => ownReplies (step s e) rest

/-- The client works on the keys of `K` and nobody else does. -/
def Mixed.Divided (K : Set Bytes) (mixed : Mixed) : Prop :=
  ∀ e, ((true, e) ∈ mixed → e.Own K) ∧ ((false, e) ∈ mixed → e.Foreign K)

/-- The events of the client. -/
def Mixed.own (mixed : Mixed) : Mixed := mixed.filter Prod.fst

section Steps

variable {K : Set Bytes} {t u : Int} {s s' : Server} {e : Event}

theorem namedBy_eq {cmd : Command} {e : CmdEntry} (known : entryOf cmd = some e) :
    namedBy cmd = keysNamed e.name (cmd.map cstr) := by
  rw [namedBy, known]

theorem heard_known {cmd : Command} (hears : heard cmd = true) {e : CmdEntry}
    (known : entryOf cmd = some e) : e.name ∉ revealing ∧ e.name ∉ reporting := by
  rw [heard, known] at hears
  simpa using hears

/-- The handler of a known data command is confined to the keys the command names. -/
theorem confined_named {cmd : Command} {e : CmdEntry} {h : Handler} {env : Env}
    (known : entryOf cmd = some e) (action : e.fn = .data h) (readings : ∀ i, t ≤ env.now i) :
    Confined (e.name ∉ revealing) t (namedBy cmd) fun db => h env db (cmd.map cstr) := by
  have confined := commands_confined e (entryOf_mem known)
  unfold CmdEntry.Confined at confined
  rw [action] at confined
  rw [namedBy_eq known]
  exact confined env _ t (entryOf_free known) readings

/-- **An event of the others** leaves the client's keys as they are seen. -/
theorem step_foreign (foreign : e.Foreign K) (between : e.Between t u) (le : t ≤ u)
    (agree : AgreeFrom t K s.db s'.db) : AgreeFrom u K (step s e).db s'.db := by
  have later := agree.later le
  rw [step_db]
  cases e with
  | command env io cmd =>
    show AgreeFrom u K (execute env s.db cmd) s'.db
    rw [← @dispatchCommand_db env io]
    rcases data_or_idle cmd with ⟨entry, h, known, action⟩ | idle
    · rw [(dispatchCommand_data known action).1]
      have confined := confined_named known action fun i => (between i).1
      refine (AgreeFrom.untouched fun key member => ?_).trans later
      exact confined.frame s.db key (foreign key member)
    · rw [dispatchCommand_idle idle]
      exact later
  | cron now io =>
    have cycle := (dbExpireCycle_collects now s.db).agreeFrom (K := K) fun i => (between i).2
    exact cycle.trans later
  | child | signal => exact later

/-- **A command of the client** gets the same reply from stores that agree and leaves them so. -/
theorem step_own (own : e.Own K) (between : e.Between t u) (agree : AgreeFrom t K s.db s'.db) :
    e.reply s = e.reply s' ∧ AgreeFrom t K (step s e).db (step s' e).db := by
  cases e with
  | command env io cmd =>
    show (if heard cmd then _ else _) = (if heard cmd then _ else _) ∧
      AgreeFrom t K (dispatchCommand env io s cmd).1.db (dispatchCommand env io s' cmd).1.db
    rcases data_or_idle cmd with ⟨entry, h, known, action⟩ | idle
    · obtain ⟨store, out⟩ := @dispatchCommand_data env io s cmd entry h known action
      obtain ⟨store', out'⟩ := @dispatchCommand_data env io s' cmd entry h known action
      have confined := (confined_named known action fun i => (between i).1).widen own
      rw [store, out, store', out']
      refine ⟨?_, confined.agree agree⟩
      split_ifs with hears
      · rw [confined.reply (heard_known hears known).1 agree]
      · rfl
    · rw [dispatchCommand_idle idle, dispatchCommand_idle idle]
      refine ⟨?_, agree⟩
      split_ifs with hears
      · rw [dispatchCommand_idle_out idle fun e known => (heard_known hears known).2]
      · rfl
  | child | signal | cron => exact own.elim

end Steps

/-! ### Runs -/

section Runs

variable {K : Set Bytes} {t u : Int} {s s' : Server}

/-- **A run against the client's own part of it.** -/
theorem run_own {mixed : Mixed} (divided : mixed.Divided K)
    (clocked : Clocked t (mixed.map Prod.snd) u) (agree : AgreeFrom t K s.db s'.db) :
    ownReplies s mixed = ownReplies s' mixed.own ∧
      AgreeFrom u K (run s (mixed.map Prod.snd)).db (run s' (mixed.own.map Prod.snd)).db := by
  induction mixed generalizing t s s' with
  | nil => exact ⟨rfl, agree.later clocked⟩
  | cons first rest ih =>
    obtain ⟨mine, e⟩ := first
    obtain ⟨m, le, between, clocked⟩ := clocked
    have behind : Mixed.Divided K rest := fun e =>
      ⟨fun member => (divided e).1 (List.mem_cons_of_mem _ member),
        fun member => (divided e).2 (List.mem_cons_of_mem _ member)⟩
    cases mine with
    | true =>
      obtain ⟨reply, after⟩ := step_own ((divided e).1 List.mem_cons_self) between agree
      obtain ⟨later, left⟩ := ih behind clocked (after.later le)
      exact ⟨congrArg₂ List.cons reply later, left⟩
    | false =>
      exact ih behind clocked (step_foreign ((divided e).2 List.mem_cons_self) between le agree)

end Runs

/-- **What a client hears and finds is settled by its own commands.** Two runs in which it issues
the same commands, among commands of others on other keys, expiry cycles, children and signals. -/
theorem isolated {K : Set Bytes} {t u : Int} (s : Server) {first second : Mixed}
    (divided : first.Divided K) (divided' : second.Divided K)
    (clocked : Clocked t (first.map Prod.snd) u) (clocked' : Clocked t (second.map Prod.snd) u)
    (same : first.own = second.own) :
    ownReplies s first = ownReplies s second ∧
      AgreeFrom u K (run s (first.map Prod.snd)).db (run s (second.map Prod.snd)).db := by
  obtain ⟨heard, left⟩ := run_own divided clocked (.refl t K s.db)
  obtain ⟨heard', left'⟩ := run_own divided' clocked' (.refl t K s.db)
  rw [same] at heard left
  exact ⟨heard.trans heard'.symm, left.trans left'.symm⟩

/-- A request reads its own time only. -/
theorem requestAt_between {t u time : Int} (words : List String) (low : t ≤ time)
    (high : time ≤ u) : (requestAt time words).Between t u := fun _ => ⟨low, high⟩

/-- A write and a read of `a`, with a command on `b` and an expiry cycle in between. -/
def sampleMixed : Mixed :=
  [(true, requestAt 0 ["SET", "a", "1"]), (false, requestAt 1 ["INCR", "b"]),
    (false, .cron (fun _ => 1) .smooth), (true, requestAt 2 ["GET", "a"])]

theorem sampleMixed_divided : sampleMixed.Divided {text "a"} := by
  have named {name : Bytes} {e : CmdEntry} {args : List Bytes} (member : e ∈ commands)
      (same : strcaseEq e.name (cstr name) = true) (single : e.name ∉ spread) :
      namedBy (name :: args) = {arg ((name :: args).map cstr) 1} := by
    rw [namedBy_eq (entryOf_eq member same args), keysNamed_single single]
  have set : namedBy (["SET", "a", "1"].map text) = {text "a"} :=
    @named _ (entry "set" true cmdSet) _ (by simp [commands]) (by decide) (by decide)
  have incr : namedBy (["INCR", "b"].map text) = {text "b"} :=
    @named _ (entry "incr" true cmdIncr) _ (by simp [commands]) (by decide) (by decide)
  have get : namedBy (["GET", "a"].map text) = {text "a"} :=
    @named _ (entry "get" false cmdGet) _ (by simp [commands]) (by decide) (by decide)
  intro e
  simp only [sampleMixed, List.mem_cons, Prod.mk.injEq, true_and, reduceCtorEq, false_and, false_or,
    or_false, List.not_mem_nil]
  refine ⟨?_, ?_⟩
  · rintro (rfl | rfl)
    · exact set.subset
    · exact get.subset
  · rintro (rfl | rfl)
    · rintro key rfl
      rw [incr]
      decide
    · trivial

theorem isolated_among_others :
    ownReplies (sampleStart false) sampleMixed = ownReplies (sampleStart false) sampleMixed.own ∧
      AgreeFrom 2 {text "a"} (run (sampleStart false) (sampleMixed.map Prod.snd)).db
        (run (sampleStart false) (sampleMixed.own.map Prod.snd)).db := by
  have alone : Mixed.Divided {text "a"} sampleMixed.own := fun e =>
    ⟨fun member => (sampleMixed_divided e).1 (List.mem_of_mem_filter member),
      fun member => (sampleMixed_divided e).2 (List.mem_of_mem_filter member)⟩
  refine isolated (t := 0) _ sampleMixed_divided alone ?_ ?_ rfl
  · exact ⟨0, le_refl _, requestAt_between _ (by decide) (by decide), 1, by decide,
      requestAt_between _ (by decide) (by decide), 1, le_refl _,
      fun _ => ⟨le_refl _, le_refl _⟩, 2, by decide,
      requestAt_between _ (by decide) (by decide), le_refl _⟩
  · exact ⟨0, le_refl _, requestAt_between _ (by decide) (by decide), 2, by decide,
      requestAt_between _ (by decide) (by decide), le_refl _⟩

end Miniredis
