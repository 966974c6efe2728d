/-
**Which sorted sets a rewrite of the log keeps (`aof_rewrite`).**

The rewrite prints a score with seventeen digits, and `ZADD` refuses a text that `parse_double`
refuses: the pair, and every pair behind it in its batch.

* `Lacks` — a key holds no sorted set that has the member; no command of a rewrite ends this where
  the score of the member is not read back (`Lacks.rewritten`).
* `rewrite_scores_iff` — the rewritten log of a store of containers replays into the store exactly
  if no score in it is subnormal or a NaN.
-/

import Miniredis.Dispatch.FloatFields
import Miniredis.Rewrite.Content

namespace Miniredis

/-! ### Containers and their scores -/

/-- A container whose parts are words, whatever its scores. -/
def Value.Worded : Value → Prop
  | .zset z => zsetLen z ≠ 0 ∧ ∀ node ∈ z.nodes, (0 : UInt8) ∉ node.member
  | container => container.Plain

/-- Every score of the value can be read back from its text. -/
def Value.Scorable : Value → Prop
  | .zset z => ∀ node ∈ z.nodes, node.score.isNaN = false ∧ node.score.isSubnormal = false
  | _ => True

section Values

theorem parseDouble_none {d : Double} (unread : ¬ (d.isNaN = false ∧ d.isSubnormal = false)) :
    parseDouble d.formatG17 = none := by
  rw [parseDouble_formatG17, if_pos]
  cases nan : d.isNaN with
  | true => rfl
  | false => simpa [nan] using unread

theorem parseDouble_some {d : Double} (number : d.isNaN = false) (normal : d.isSubnormal = false) :
    parseDouble d.formatG17 = some d := by
  rw [parseDouble_formatG17, number, normal]
  rfl

theorem Value.Worded.plain {v : Value} (worded : v.Worded) (scorable : v.Scorable) : v.Plain := by
  cases v with
  | zset z =>
    refine ⟨worded.1, fun node inside => ⟨worded.2 node inside, ?_⟩⟩
    exact parseDouble_some (scorable node inside).1 (scorable node inside).2
  | _ => exact worded

end Values

/-! ### Refused pairs -/

/-- The key holds no sorted set with the member. -/
def Lacks (key member : Bytes) (db : Db) : Prop :=
  ∀ z t, db.d.get key = some ⟨.zset z, t⟩ → zsetScore z member = none

/-- A pair of a rewritten `ZADD`; the score of `member` is not read. -/
structure Refuses (member : Bytes) (item : List Bytes) : Prop where
  free : ∀ a ∈ item, (0 : UInt8) ∉ a
  pair : ∃ (score : Double) (other : Bytes), item = [score.formatG17, other] ∧
    (other = member → parseDouble score.formatG17 = none)

section Refused

variable {key member : Bytes} {db : Db} {env : Env}

theorem Lacks.untouched {db' : Db} (lacks : Lacks key member db)
    (same : db'.d.get key = db.d.get key) : Lacks key member db' := by
  intro z t found
  exact lacks z t (same ▸ found)

/-- A command on the key that leaves it without the member. -/
theorem Lacks.onKey {now : Int} {body : Option Robj → Update × Bytes}
    (lacks : Lacks key member db)
    (leaves : ∀ found, (∀ z t, found = some ⟨.zset z, t⟩ → zsetScore z member = none) →
      ∀ z t, (body found).1.leaves found = some ⟨.zset z, t⟩ → zsetScore z member = none) :
    Lacks key member (onKey now db key body).1 := by
  intro z t found
  rw [onKey_get_self] at found
  refine leaves _ (fun z t seen => ?_) z t found
  obtain ⟨there, -⟩ := Option.filter_eq_some_iff.mp seen
  exact lacks z t there

theorem zaddLoop_lacks {flags : ZaddFlags} {batch : List (List Bytes)} (plain : flags.incr = false)
    (items : ∀ item ∈ batch, Refuses member item) {z : Zset} (n m : Nat)
    (lacks : zsetScore z member = none) :
    zsetScore (zaddLoop flags batch.flatten z n m).1 member = none := by
  induction batch generalizing z n m with
  | nil => exact lacks
  | cons item rest ih =>
    obtain ⟨score, other, rfl, refused⟩ := (items item List.mem_cons_self).pair
    have later {z : Zset} (n m : Nat) := @ih (List.forall_mem_cons.mp items).2 z n m
    rw [List.flatten_cons]
    show zsetScore (zaddLoop flags (score.formatG17 :: other :: rest.flatten) z n m).1 member = none
    rw [zaddLoop]
    cases read : parseDouble score.formatG17 with
    | none => exact lacks
    | some value =>
      have apart : member ≠ other := by
        rintro rfl
        rw [refused rfl] at read
        cases read
      dsimp only
      rw [plain, if_neg Bool.false_ne_true]
      split_ifs
      · exact later n m lacks
      all_goals
        refine later _ _ ?_
        rw [score_add, if_neg apart]
        exact lacks

/-- No text of a number is a flag of `ZADD`. -/
theorem formatG17_no_flag (d : Double) :
    ∀ flag ∈ [text "NX", text "XX", text "CH", text "INCR"],
      strcaseEq d.formatG17 flag = false := by
  have numberless : ∀ flag ∈ [text "NX", text "XX", text "CH", text "INCR"],
      ∀ word ∈ spellings (flag.map toLower), (Double.strtod word).isSome = false := by
    decide
  have read : (Double.strtod d.formatG17).isSome = true := by
    cases nan : d.isNaN with
    | true => rw [Double.strtod_nan nan]; rfl
    | false => rw [Double.strtod_formatG17 nan]; rfl
  intro flag member
  by_contra hit
  have same : d.formatG17.map toLower = flag.map toLower :=
    eq_of_beq (Bool.not_eq_false _ ▸ hit)
  rw [numberless flag member _ (mem_spellings same)] at read
  cases read

/-- **A rewritten `ZADD`** does not bring a member whose score is not read. -/
theorem Lacks.zadd (lacks : Lacks key member db) (free : (0 : UInt8) ∉ key)
    {batch : List (List Bytes)} (filled : batch ≠ [])
    (items : ∀ item ∈ batch, Refuses member item) :
    Lacks key member (execute env db (text "ZADD" :: key :: batch.flatten)) := by
  have pairs : ∀ item ∈ batch, item.length = 2 := fun item inside => by
    obtain ⟨score, other, rfl, -⟩ := (items item inside).pair
    rfl
  have length := flatten_length pairs
  have positive := List.length_pos_iff.mpr filled
  have flags : zaddFlags batch.flatten ⟨false, false, false, false⟩ =
      (⟨false, false, false, false⟩, batch.flatten) := by
    obtain ⟨item, rest, rfl⟩ := List.exists_cons_of_ne_nil filled
    obtain ⟨score, other, rfl, -⟩ := (items item List.mem_cons_self).pair
    have none := formatG17_no_flag score
    rw [List.flatten_cons, List.cons_append, zaddFlags]
    simp [none]
  rw [execute_named "zadd" cmdZadd (text "ZADD") (by simp [commands]) (by decide) (by decide)
    (free_flatten free fun item inside => (items item inside).free)]
  unfold cmdZadd
  rw [if_neg (by simp only [List.length_cons]; omega)]
  simp only [List.drop_succ_cons, List.drop_zero, flags]
  rw [if_neg (show ¬ (batch.flatten.length = 0 ∨ batch.flatten.length % 2 = 1) by omega)]
  show Lacks key member (Miniredis.onKey (env.now 0) db key (zsetKind.upsert env.seed fun z =>
    zaddLoop ⟨false, false, false, false⟩ batch.flatten z 0 0)).1
  refine lacks.onKey fun found before z t left => ?_
  cases found with
  | none =>
    cases left
    exact zaddLoop_lacks rfl items 0 0 (score_create member)
  | some o =>
    obtain ⟨v, expireAt⟩ := o
    cases v with
    | zset old =>
      cases left
      exact zaddLoop_lacks rfl items 0 0 (before old expireAt rfl)
    | _ => cases left

/-- `PEXPIREAT` leaves the value. -/
theorem Lacks.expire (lacks : Lacks key member db) (free : (0 : UInt8) ∉ key) (t : Int) :
    Lacks key member (execute env db [text "PEXPIREAT", key, Decimal.renderInt t]) := by
  have plain : ∀ a ∈ [key, Decimal.renderInt t], (0 : UInt8) ∉ a :=
    List.forall_mem_cons.mpr ⟨free, by simpa using renderInt_free⟩
  rw [execute_named "pexpireat" cmdPexpireat (text "PEXPIREAT") (by simp [commands]) (by decide)
    (by decide) plain]
  unfold cmdPexpireat cmdExpireatGeneric
  split
  · exact lacks
  split
  · exact lacks
  split
  · exact lacks
  split
  · exact lacks
  · refine lacks.onKey fun found before z t left => ?_
    cases found with
    | none => cases left
    | some o =>
      obtain ⟨v, expireAt⟩ := o
      obtain ⟨rfl, -⟩ := Robj.mk.inj (Option.some.inj left)
      exact before z expireAt rfl

end Refused

/-! ### The commands of a rewrite -/

section Commands

variable {key member : Bytes} {db : Db} {env : Env}

/-- The names of the commands of a rewrite. -/
def rewriteNames : List Bytes :=
  [text "SET", text "RPUSH", text "HSET", text "SADD", text "ZADD", text "PEXPIREAT"]

theorem aofRewriteKey_shape {o : Robj} {cmd : Command} (inside : cmd ∈ aofRewriteKey key o) :
    ∃ called ∈ rewriteNames, ∃ args, cmd = called :: key :: args := by
  have fills {name : Bytes} {items : List (List Bytes)} (named : name ∈ rewriteNames)
      (inside : cmd ∈ fillCommands name key items) :
      ∃ called ∈ rewriteNames, ∃ args, cmd = called :: key :: args := by
    obtain ⟨batch, -, rfl⟩ := List.mem_map.mp inside
    exact ⟨name, named, _, rfl⟩
  have deadline (inside : cmd ∈ if o.expireAt ≥ 0 then
      [[text "PEXPIREAT", key, Decimal.renderInt o.expireAt]] else []) :
      ∃ called ∈ rewriteNames, ∃ args, cmd = called :: key :: args := by
    split_ifs at inside
    · exact ⟨text "PEXPIREAT", by decide, _, List.mem_singleton.mp inside⟩
    · cases inside
  unfold aofRewriteKey at inside
  dsimp only at inside
  split at inside
  · split_ifs at inside
    · exact ⟨text "SET", by decide, _, List.mem_singleton.mp inside⟩
    · exact ⟨text "SET", by decide, _, List.mem_singleton.mp inside⟩
  all_goals
    rcases List.mem_append.mp inside with inside | inside
    · exact fills (by decide) inside
    · exact deadline inside

theorem rewriteNames_reach {called : Bytes} (named : called ∈ rewriteNames) (args : List Bytes) :
    logged (called :: args) ≠ [] ∧
      reached (called :: args) = {arg ((called :: args).map cstr) 1} := by
  have known {e : CmdEntry} (table : e ∈ commands) (same : strcaseEq e.name (cstr called) = true)
      (writes : e.isWrite = true) (single : ∀ argv, keysOf e.name argv = {arg argv 1}) :
      logged (called :: args) ≠ [] ∧
        reached (called :: args) = {arg ((called :: args).map cstr) 1} := by
    have found := entryOf_eq table same args
    refine ⟨by rw [logged_found found writes]; exact List.cons_ne_nil _ _, ?_⟩
    unfold reached
    rw [found]
    exact single _
  simp only [rewriteNames, List.mem_cons, List.not_mem_nil, or_false] at named
  rcases named with rfl | rfl | rfl | rfl | rfl | rfl
  · exact @known (entry "set" true cmdSet) (by simp [commands]) (by decide) rfl fun _ => rfl
  · exact @known (entry "rpush" true cmdRpush) (by simp [commands]) (by decide) rfl fun _ => rfl
  · exact @known (entry "hset" true cmdHset) (by simp [commands]) (by decide) rfl fun _ => rfl
  · exact @known (entry "sadd" true cmdSadd) (by simp [commands]) (by decide) rfl fun _ => rfl
  · exact @known (entry "zadd" true cmdZadd) (by simp [commands]) (by decide) rfl fun _ => rfl
  · exact @known (entry "pexpireat" true cmdPexpireat) (by simp [commands]) (by decide) rfl
      fun _ => rfl

/-- The commands for one key leave the others alone. -/
theorem aofRewriteKey_other {other : Bytes} {o : Robj} {cmd : Command}
    (inside : cmd ∈ aofRewriteKey other o) (free : (0 : UInt8) ∉ other) (apart : key ≠ other) :
    (execute env db cmd).d.get key = db.d.get key := by
  obtain ⟨called, named, args, rfl⟩ := aofRewriteKey_shape inside
  obtain ⟨logs, reach⟩ := rewriteNames_reach named (other :: args)
  refine execute_get_other logs ?_
  rw [reach]
  show key ∉ ({cstr other} : Set Bytes)
  rwa [cstr_of_zero_notMem free, Set.mem_singleton_iff]

/-- What every command keeps, their run keeps. -/
theorem Lacks.all {cmds : List Command}
    (each : ∀ cmd ∈ cmds, ∀ env db, Lacks key member db → Lacks key member (execute env db cmd))
    (envs : Nat → Env) (i : Nat) (lacks : Lacks key member db) :
    Lacks key member (executeAll envs i db cmds) := by
  induction cmds generalizing i db with
  | nil => exact lacks
  | cons cmd rest ih =>
    exact ih (List.forall_mem_cons.mp each).2 (i + 1)
      (each cmd List.mem_cons_self (envs i) db lacks)

/-- The pairs of a rewritten `ZADD` where one score is not read. -/
theorem refuses_nodes {z : Zset} {node : ZNode} (inside : node ∈ z.nodes)
    (unread : parseDouble node.score.formatG17 = none)
    (free : ∀ node ∈ z.nodes, (0 : UInt8) ∉ node.member) :
    ∀ item ∈ z.nodes.map fun node => [node.score.formatG17, node.member],
      Refuses node.member item := by
  intro item listed
  obtain ⟨other, there, rfl⟩ := List.mem_map.mp listed
  refine ⟨?_, other.score, other.member, rfl, fun same => ?_⟩
  · exact List.forall_mem_cons.mpr ⟨Double.zero_notMem_formatG17 _, by simpa using free other there⟩
  · rw [List.inj_on_of_nodup_map z.distinct there inside same]
    exact unread

/-- **No command of a rewrite brings back a member whose score is not read.** -/
theorem Lacks.rewritten {store : Db} {z : Zset} {t : Int} {node : ZNode}
    (found : store.d.get key = some ⟨.zset z, t⟩) (inside : node ∈ z.nodes)
    (unread : parseDouble node.score.formatG17 = none)
    (free : ∀ node ∈ z.nodes, (0 : UInt8) ∉ node.member)
    (keys : ∀ pair ∈ store.d.pairs, (0 : UInt8) ∉ pair.1) {cmd : Command}
    (listed : cmd ∈ aofRewriteCommands store) (lacks : Lacks key node.member db) :
    Lacks key node.member (execute env db cmd) := by
  obtain ⟨⟨other, o⟩, member, inKey⟩ := List.mem_flatMap.mp listed
  have plain := keys _ member
  by_cases same : key = other
  · subst same
    have this := (store.d.mem_pairs key o).mp member
    rw [found] at this
    obtain rfl := Option.some.inj this
    rcases List.mem_append.mp inKey with fill | expire
    · obtain ⟨batch, chosen, rfl⟩ := List.mem_map.mp fill
      refine lacks.zadd plain (batches_mem batch chosen).1 fun item there => ?_
      refine refuses_nodes inside unread free item ?_
      rw [← batches_flatten (z.nodes.map _)]
      exact List.mem_flatten.mpr ⟨batch, chosen, there⟩
    · split_ifs at expire
      · rw [List.mem_singleton.mp expire]
        exact lacks.expire plain t
      · cases expire
  · exact lacks.untouched (aofRewriteKey_other inKey plain same)

end Commands

/-! ### The store -/

/-- **Which scores survive a rewrite.** The rewritten log of a store of containers replays into the
store exactly if no sorted set in it has a score that is subnormal or a NaN. -/
theorem rewrite_scores_iff {s : Server} {db : Db} (envs : Nat → Env)
    (containers : ∀ pair ∈ db.d.pairs, (0 : UInt8) ∉ pair.1 ∧ pair.2.val.Worded ∧
      -1 ≤ pair.2.expireAt ∧ pair.2.expireAt < 2 ^ 63)
    (fits : ∀ cmd ∈ aofRewriteCommands db, Fits cmd)
    (file : s.disk.aof.contents .file = some (aofRewriteBytes db))
    (empty : ∀ key, s.db.d.get key = none) :
    stored (aofReplay envs s).2.db = stored db ↔ ∀ pair ∈ db.d.pairs, pair.2.val.Scorable := by
  constructor
  · intro restored pair member
    obtain ⟨key, ⟨v, t⟩⟩ := pair
    cases v with
    | zset z =>
      intro node inside
      by_contra unread
      have found := (db.d.mem_pairs key _).mp member
      have lacks : Lacks key node.member (executeAll envs 0 s.db (aofRewriteCommands db)) := by
        refine Lacks.all (fun cmd listed env other lacks => ?_) envs 0 fun z t there => ?_
        · exact lacks.rewritten found inside (parseDouble_none unread) (containers _ member).2.1.2
            (fun pair listed => (containers pair listed).1) listed
        · rw [empty key] at there
          cases there
      have here := congrFun restored key
      rw [(aofReplay_frames envs fits file).2, stored, stored, found] at here
      obtain ⟨⟨v', t'⟩, there, same⟩ := Option.map_eq_some_iff.mp here
      have content : v'.content = .zset (zsetScore z) := (Prod.mk.inj same).1
      cases v' with
      | zset z' =>
        have scores : zsetScore z' = zsetScore z := Content.zset.inj content
        have gone := lacks z' t' there
        rw [scores, (score_eq_some_iff z node.member node.score).mpr inside] at gone
        cases gone
      | _ => cases content
    | _ => trivial
  · intro scorable
    have plain : ∀ pair ∈ db.d.pairs, (0 : UInt8) ∉ pair.1 ∧ pair.2.val.Plain ∧
        -1 ≤ pair.2.expireAt ∧ pair.2.expireAt < 2 ^ 63 := fun pair member => by
      obtain ⟨free, worded, bounds⟩ := containers pair member
      exact ⟨free, worded.plain (scorable pair member), bounds⟩
    obtain ⟨code, rebuilt⟩ := aofReplay_frames envs fits file
    rw [rebuilt]
    refine (aofRewrite_restores (fun pair member => ?_) empty).stored
    obtain ⟨free, plain, low, high⟩ := plain pair member
    exact container_rebuilds free low high plain envs

/-- A sorted set with one member of score zero. -/
def sampleZero : Zset := (zsetAdd zsetCreate Double.zero (text "m")).2

theorem zero_score_survives :
    stored (aofReplay (fun _ => sampleEnv)
        (reopened (aofRewriteBytes (singleStore "z" (.zset sampleZero))))).2.db =
      stored (singleStore "z" (.zset sampleZero)) := by
  have one : ∀ pair ∈ (singleStore "z" (.zset sampleZero)).d.pairs,
      pair = (text "z", ⟨.zset sampleZero, -1⟩) := by
    rintro ⟨key, o⟩ member
    have found := (HashTable.Table.mem_pairs ..).mp member
    rw [singleStore, HashTable.Table.get_set] at found
    split_ifs at found with same
    · rw [same, Option.some.inj found]
    · cases found
  have short : ∀ cmd ∈ aofRewriteCommands (singleStore "z" (.zset sampleZero)),
      cmd.length ≤ 1000 ∧ ∀ a ∈ cmd, a.length ≤ 1000 := by decide
  refine (rewrite_scores_iff _ (fun pair member => ?_)
    (fun cmd member => fits_of_short (short cmd member).1 (short cmd member).2)
    (reopened_contents _) (reopened_empty _)).mpr fun pair member => ?_
  · rw [one pair member]
    refine ⟨by decide, ⟨by decide, fun node inside => ?_⟩, by decide, by decide⟩
    obtain rfl : node = ⟨Double.zero, text "m"⟩ := List.mem_singleton.mp inside
    decide
  · rw [one pair member]
    intro node inside
    obtain rfl : node = ⟨Double.zero, text "m"⟩ := List.mem_singleton.mp inside
    decide

end Miniredis
