/-
**What every command does to the store and to its client (`db.c`).**

* `Behaves` — what is asked of a run of a command: one value in reply; after an error the store as
  it was, but for expired entries that a lookup dropped; otherwise no empty container.
* `commands_tame` — every entry of the table acts on one key at most, or is one of `others`.
* `commands_behave` — every data command behaves.
-/

import Miniredis.Dispatch.Containers

namespace Miniredis

open HashTable (Table)

/-! ### What holds of every stored object -/

section Every

/-- Every stored object has the property. -/
def Every (P : Robj → Prop) (db : Db) : Prop := ∀ key o, db.d.get key = some o → P o

variable {P : Robj → Prop} {now : Nat → Int} {db db' : Db} {key : Bytes} {o : Robj}

theorem every_empty (seed : Seed) (cursor : Nat) : Every P ⟨dictCreate seed, cursor⟩ := by
  intro key o found
  rw [show (dictCreate seed : Dict Robj).get key = none from dictCreate_get seed key] at found
  cases found

theorem Collects.every (collects : Collects now db db') (all : Every P db) : Every P db' := by
  intro key o found
  rcases collects key with same | ⟨gone, _⟩
  · exact all key o (same ▸ found)
  · rw [gone] at found
    cases found

theorem Every.delete (all : Every P db) : Every P { db with d := (db.d.delete key).2 } := by
  intro other found stored
  rw [Table.get_delete] at stored
  split_ifs at stored
  exact all other found stored

theorem Every.set (all : Every P db) (new : P o) :
    Every P { db with d := (db.d.set key o).2 } := by
  intro other found stored
  rw [Table.get_set] at stored
  split_ifs at stored
  · cases stored
    exact new
  · exact all other found stored

theorem Every.write (all : Every P db) (new : P o) :
    Every P { db with d := db.d.write key o } := by
  intro other found stored
  rw [Table.get_write] at stored
  split_ifs at stored
  · obtain ⟨_, _, rfl⟩ := Option.map_eq_some_iff.mp stored
    exact new
  · exact all other found stored

theorem delLoop_every (keys : List Bytes) (n : Nat) (all : Every P db) :
    Every P (delLoop keys db n).1 := by
  induction keys generalizing db n with
  | nil => exact all
  | cons key rest ih => exact ih _ all.delete

theorem msetLoop_every (strings : ∀ value, P (robjNew (.string value))) (args : List Bytes)
    (all : Every P db) : Every P (msetLoop args db) := by
  fun_induction msetLoop args db with
  | case1 key value rest db ih => exact ih (all.set (strings value))
  | case2 => exact all

end Every

/-! ### Stores without empty containers -/

section NoEmpty

/-- No key holds an empty container. -/
def NoEmpty (db : Db) : Prop := ∀ key, Filled (db.d.get key)

variable {db : Db} {key : Bytes}

theorem NoEmpty.every (full : NoEmpty db) : Every (fun o => o.val.isEmpty = false) db := full

theorem NoEmpty.apply (full : NoEmpty db) {update : Update} (fills : update.Fills) :
    NoEmpty (update.apply db key) := by
  cases update with
  | keep => exact full
  | store o => exact full.every.set fills
  | write o => exact full.every.write fills
  | remove => exact full.every.delete

/-- A lookup returns what it leaves at the key. -/
theorem lookupKey_fst (now : Int) (db : Db) (key : Bytes) :
    (lookupKey now db key).1 = (lookupKey now db key).2.d.get key := by
  unfold lookupKey
  split
  · rename_i absent
    exact absent.symm
  · rename_i o found
    split
    · exact ((Table.get_delete ..).trans (if_pos rfl)).symm
    · exact found.symm

end NoEmpty

/-! ### Runs of a command -/

/-- The clock shows one time throughout. -/
def Env.Stopped (env : Env) : Prop := ∀ i, env.now i = env.now 0

/-- What is asked of a run: `words` is when its reply must be well formed, `excused` when an error
may change the store. -/
structure Behaves (words excused : Prop) (env : Env) (db : Db) (result : Db × Bytes) : Prop where
  reply : env.Stopped → words → WellFormed result.2
  fails : ¬ excused → IsError result.2 → Collects env.now db result.1
  fills : NoEmpty db → ¬ IsError result.2 → NoEmpty result.1

/-- Every run of the command does what is asked; an excuse may depend on what it finds at its first
argument. -/
def Handler.Behaves (h : Handler) (words : Argv → Prop) (excused : Argv → Option Robj → Prop) :
    Prop :=
  ∀ env db argv, 13 ∉ arg argv 0 →
    Miniredis.Behaves (words argv) (∃ i, excused argv (lookupKey (env.now i) db (arg argv 1)).1)
      env db (h env db argv)

section Runs

variable {words excused : Prop} {env : Env} {db db' : Db} {key out : Bytes}

/-- A command that looks keys up and answers. -/
theorem Behaves.collects (reply : env.Stopped → WellFormed out)
    (collects : Collects env.now db db') : Behaves words excused env db (db', out) :=
  ⟨fun stopped _ => reply stopped, fun _ _ => collects, fun full _ => collects.every full.every⟩

theorem Behaves.answer (whole : WellFormed out) : Behaves words excused env db (db, out) :=
  .collects (fun _ => whole) (.refl env.now db)

/-- A command that changes the store and cannot fail. -/
theorem Behaves.changes (whole : WellFormed out) (succeeds : ¬ IsError out)
    (fills : NoEmpty db → NoEmpty db') : Behaves words excused env db (db', out) :=
  ⟨fun _ _ => whole, fun _ wrong => absurd wrong succeeds, fun full _ => fills full⟩

theorem Behaves.check {c : Prop} [Decidable c] {rest : Db × Bytes} (whole : WellFormed out)
    (passes : ¬ c → Behaves words excused env db rest) :
    Behaves words excused env db (if c then (db, out) else rest) := by
  split_ifs with fails
  · exact .answer whole
  · exact passes fails

/-- A write of the object that was found changes nothing. -/
theorem Update.Harmless.collects {update : Update} {i : Nat}
    (harmless : update.Harmless (lookupKey (env.now i) db key).1) :
    Collects env.now db (update.apply (lookupKey (env.now i) db key).2 key) := by
  have looked := lookupKey_collects env.now i db key
  cases update with
  | keep => exact looked
  | store o => exact harmless.elim
  | remove => exact harmless.elim
  | write o =>
    -- the lookup left at the key the object it returned
    have found := (lookupKey_fst (env.now i) db key).symm.trans harmless
    have same : ∀ other, ((lookupKey (env.now i) db key).2.d.write key o).get other =
        (lookupKey (env.now i) db key).2.d.get other := by
      intro other
      rw [Table.get_write]
      split_ifs with here
      · rw [here, found]
        rfl
      · rfl
    intro other
    have before := looked other
    rwa [← same other] at before

theorem onKey_behaves (i : Nat) {excused : Option Robj → Prop} {body : Option Robj → Update × Bytes}
    (tame : TameBody words excused body) :
    Behaves words (excused (lookupKey (env.now i) db key).1) env db
      (onKey (env.now i) db key body) where
  reply _ := (tame _).reply
  fails asked wrong := ((tame _).fails asked wrong).collects
  fills full succeeds := by
    have looked : NoEmpty (lookupKey (env.now i) db key).2 :=
      (lookupKey_collects env.now i db key).every full.every
    have filled : Filled (lookupKey (env.now i) db key).1 := by
      rw [lookupKey_fst]
      exact looked key
    exact looked.apply ((tame _).fills filled succeeds)

theorem Handler.Tame.behaves {h : Handler} {words : Argv → Prop}
    {excused : Argv → Option Robj → Prop} (tame : h.Tame words excused) :
    h.Behaves words excused := by
  intro env db argv free
  rcases tame.plan env free with ⟨out, whole, same⟩ | ⟨i, body, _, tame, same⟩
  · rw [same]
    exact .answer whole
  · rw [same]
    have behaves := @onKey_behaves _ env db (arg argv 1) i _ _ tame
    exact ⟨behaves.reply, fun asked => behaves.fails fun excuse => asked ⟨i, excuse⟩,
      behaves.fills⟩

end Runs

/-! ### Commands on several keys, on all and on none -/

section Others

variable {words : Argv → Prop} {excused : Argv → Option Robj → Prop}

theorem mgetLoop_wellFormed (now : Nat → Int) (i : Nat) (keys : List Bytes) (db : Db) :
    WellFormedAll keys.length (mgetLoop now i keys db).2 := by
  induction keys generalizing i db with
  | nil => exact .nil
  | cons key rest ih =>
    refine .cons ?_ (ih (i + 1) _)
    split
    · exact wellFormed_bulk _
    · exact wellFormed_null

theorem cmdMget_behaves : Handler.Behaves cmdMget words excused := by
  intro env db argv _
  refine .check (wellFormed_arity (by decide)) fun _ =>
    .collects (fun _ => ?_) (mgetLoop_collects 0 _ db)
  have items := mgetLoop_wellFormed env.now 0 (argv.drop 1) db
  rw [List.length_drop] at items
  exact items.array

theorem cmdExists_behaves : Handler.Behaves cmdExists words excused := fun _ db _ _ =>
  .check (wellFormed_arity (by decide)) fun _ =>
    .collects (fun _ => wellFormed_integer _) (existsLoop_collects 0 0 _ db)

theorem wellFormed_replyMembers (l : List Bytes) : WellFormed (replyMembers l) :=
  wellFormed_array wellFormed_bulk rfl

theorem setOperation_behaves {name : Bytes} (free : 13 ∉ name)
    {reply : Seed → List (Option (Dict Unit)) → Bytes}
    (whole : ∀ seed sets, WellFormed (reply seed sets)) :
    Handler.Behaves (setOperation name reply) words excused := by
  intro env db argv _
  have answer : WellFormed (setOperation name reply env db argv).2 := by
    unfold setOperation
    split
    · exact wellFormed_arity free
    split
    · exact wellFormed_wrongtype
    · exact whole _ _
  exact Behaves.collects (fun _ => answer) (setOperation_collects name reply env db argv)

theorem wellFormed_sinterReply (sets : List (Option (Dict Unit))) :
    WellFormed (sinterReply sets) := by
  unfold sinterReply
  split
  · exact wellFormed_replyMembers _
  · exact wellFormed_array_zero

theorem wellFormed_sdiffReply (sets : List (Option (Dict Unit))) :
    WellFormed (sdiffReply sets) := by
  unfold sdiffReply
  split
  · exact wellFormed_replyMembers _
  · exact wellFormed_array_zero

theorem cmdSinter_behaves : Handler.Behaves cmdSinter words excused :=
  setOperation_behaves (by decide) fun _ => wellFormed_sinterReply

theorem cmdSunion_behaves : Handler.Behaves cmdSunion words excused :=
  setOperation_behaves (by decide) fun _ _ => wellFormed_array wellFormed_bulk (length_members _)

theorem cmdSdiff_behaves : Handler.Behaves cmdSdiff words excused :=
  setOperation_behaves (by decide) fun _ => wellFormed_sdiffReply

theorem cmdDel_behaves : Handler.Behaves cmdDel words excused := fun _ _ _ _ =>
  .check (wellFormed_arity (by decide)) fun _ =>
    .changes (wellFormed_integer _) (not_isError_replyInteger _) fun full =>
      delLoop_every _ 0 full.every

theorem cmdMset_behaves : Handler.Behaves cmdMset words excused := fun _ _ _ _ =>
  .check (wellFormed_arity (by decide)) fun _ =>
    .changes wellFormed_replyOk not_isError_replyOk fun full =>
      msetLoop_every (fun _ => rfl) _ full.every

theorem cmdRename_behaves : Handler.Behaves cmdRename words excused := by
  intro env db argv _
  refine .check (wellFormed_arity (by decide)) fun _ =>
    .check (wellFormed_error (by decide)) fun _ => ?_
  have looked := lookupKey_collects env.now 0 db (arg argv 1)
  have returned := lookupKey_fst (env.now 0) db (arg argv 1)
  split
  · rename_i after found
    rw [found] at looked
    exact .collects (fun _ => wellFormed_error (by decide)) looked
  · rename_i o after found
    rw [found] at looked returned
    refine .changes wellFormed_replyOk not_isError_replyOk fun full => ?_
    have kept := looked.every full.every
    exact kept.delete.set (kept _ o returned.symm)

theorem cmdSetex_behaves : Handler.Behaves cmdSetex words excused := by
  intro env db argv _
  refine .check (wellFormed_arity (by decide)) fun _ => ?_
  split
  · exact .answer (wellFormed_error (by decide))
  · exact .check (wellFormed_error (by decide)) fun _ =>
      .changes wellFormed_replyOk not_isError_replyOk fun full => full.every.set rfl

/-- Under one time a pass of `KEYS` is a filter. -/
theorem keysPass_stopped {now : Nat → Int} {t : Int} (stopped : ∀ i, now i = t) (pattern : Bytes)
    (i : Nat) (pairs : List (Bytes × Robj)) :
    keysPass now pattern i pairs =
      (pairs.filter fun pair => !keyExpired t pair.2 && utilGlobMatch pattern pair.1).map
        Prod.fst := by
  induction pairs generalizing i with
  | nil => rfl
  | cons pair rest ih =>
    obtain ⟨key, o⟩ := pair
    rw [keysPass, stopped, ih]
    split_ifs with picked
    · simp only [List.filter_cons, picked, if_true, List.map_cons]
    · simp only [List.filter_cons, picked, Bool.false_eq_true, if_false]

theorem cmdKeys_behaves : Handler.Behaves cmdKeys words excused := by
  intro env db argv _
  refine .check (wellFormed_arity (by decide)) fun _ => .collects (fun stopped => ?_) (.refl _ db)
  refine wellFormed_array wellFormed_bulk ?_
  rw [keysPass_stopped stopped, keysPass_stopped stopped]

theorem cmdFlushall_behaves : Handler.Behaves cmdFlushall words excused := by
  intro env db argv _
  refine .check (wellFormed_arity (by decide)) fun _ =>
    .changes wellFormed_replyOk not_isError_replyOk fun _ => every_empty env.seed db.expireCursor

theorem cmdDbsize_behaves : Handler.Behaves cmdDbsize words excused := fun _ _ _ _ =>
  .check (wellFormed_arity (by decide)) fun _ => .answer (wellFormed_integer _)

theorem cmdInfo_behaves : Handler.Behaves cmdInfo words excused := fun _ _ _ _ =>
  .answer (wellFormed_bulk _)

end Others

/-! ### The table -/

/-- When the reply of the command of this name is well formed in any store. -/
def worded (name : Bytes) (argv : Argv) : Prop :=
  name ≠ text "setrange" ∧ (name = text "zrangebyscore" → ¬ HasLimit argv)

/-- When an error of the command of this name may change the store. -/
def excuse (name : Bytes) (argv : Argv) (found : Option Robj) : Prop :=
  name = text "zadd" ∨ name = text "hincrbyfloat" ∧ found = none ∧ InfiniteIncrement argv

/-- The entry acts on one key at most. -/
def CmdEntry.Tame (e : CmdEntry) : Prop :=
  match e.fn with
  | .data h => h.Tame (worded e.name) (excuse e.name)
  | _ => False

/-- The commands on several keys, on all and on none, and those that act on the server. -/
def others : List CmdEntry :=
  [ entry "del" true cmdDel,
    entry "exists" false cmdExists,
    entry "mget" false cmdMget,
    entry "mset" true cmdMset,
    entry "rename" true cmdRename,
    entry "setex" true cmdSetex,
    entry "sinter" false cmdSinter,
    entry "sunion" false cmdSunion,
    entry "sdiff" false cmdSdiff,
    entry "keys" false cmdKeys,
    entry "flushall" true cmdFlushall,
    entry "dbsize" false cmdDbsize,
    entry "info" false cmdInfo,
    ⟨text "quit", false, .quit⟩,
    ⟨text "save", false, .save⟩,
    ⟨text "bgsave", false, .bgsave⟩,
    ⟨text "rewriteaof", false, .rewriteaof⟩,
    ⟨text "bgrewriteaof", false, .bgrewriteaof⟩ ]

theorem mem_others {e : CmdEntry} (i : Nat) (there : others[i]? = some e) : e ∈ others :=
  List.mem_of_getElem? there

theorem mem_others_of_name {e : CmdEntry} (member : e ∈ commands)
    (name : e.name ∈ others.map CmdEntry.name) : e ∈ others := by
  obtain ⟨twin, listed, same⟩ := List.mem_map.mp name
  have there : ∀ e ∈ others, e ∈ commands := by simp [others, commands]
  rwa [commands_unique member (there twin listed) same.symm]

/-- **Every command acts on one key at most or is one of `others`.** -/
theorem commands_tame : ∀ e ∈ commands, e.Tame ∨ e ∈ others := by
  refine List.forall_iff_forall_mem.mp ?_
  exact
    ⟨.inl cmdPing_tame,
     .inl cmdEcho_tame,
     .inl cmdSelect_tame,
     .inr (mem_others 13 rfl),
     .inl cmdSet_tame,
     .inl cmdGet_tame,
     .inr (mem_others 0 rfl),
     .inr (mem_others 1 rfl),
     .inl (incrDecr_tame 1),
     .inl (incrDecr_tame (-1)),
     .inr (mem_others 2 rfl),
     .inr (mem_others 3 rfl),
     .inl cmdAppend_tame,
     .inl cmdStrlen_tame,
     .inl cmdGetrange_tame,
     .inl (cmdSetrange_tame fun _ worded => worded.1 rfl),
     .inr (mem_others 4 rfl),
     .inl cmdSetnx_tame,
     .inr (mem_others 5 rfl),
     .inl cmdGetset_tame,
     .inl (cmdExpireGeneric_tame false),
     .inl (cmdExpireGeneric_tame true),
     .inl (cmdExpireatGeneric_tame false),
     .inl (cmdExpireatGeneric_tame true),
     .inl (cmdTtlGeneric_tame false),
     .inl (cmdTtlGeneric_tame true),
     .inl cmdType_tame,
     .inl (listPush_tame true false),
     .inl (listPush_tame false false),
     .inl (listPush_tame true true),
     .inl (listPush_tame false true),
     .inl (listPop_tame true),
     .inl (listPop_tame false),
     .inl cmdLlen_tame,
     .inl cmdLrange_tame,
     .inl cmdLindex_tame,
     .inl cmdLset_tame,
     .inl cmdLtrim_tame,
     .inl cmdLrem_tame,
     .inl cmdLinsert_tame,
     .inl (hashSetMany_tame false),
     .inl (hashSetMany_tame true),
     .inl cmdHget_tame,
     .inl cmdHmget_tame,
     .inl cmdHgetall_tame,
     .inl (hashKeysOrVals_tame false),
     .inl (hashKeysOrVals_tame true),
     .inl cmdHlen_tame,
     .inl cmdHexists_tame,
     .inl cmdHdel_tame,
     .inl cmdHsetnx_tame,
     .inl cmdHincrby_tame,
     .inl (cmdHincrbyfloat_tame fun _ infinite => .inr ⟨rfl, rfl, infinite⟩),
     .inl cmdSadd_tame,
     .inl cmdSrem_tame,
     .inl cmdSismember_tame,
     .inl cmdScard_tame,
     .inl cmdSmembers_tame,
     .inl cmdSpop_tame,
     .inr (mem_others 6 rfl),
     .inr (mem_others 7 rfl),
     .inr (mem_others 8 rfl),
     .inl (cmdZadd_tame fun _ _ => .inl rfl),
     .inl cmdZcard_tame,
     .inl cmdZscore_tame,
     .inl cmdZrem_tame,
     .inl (zrangeCommon_tame false),
     .inl (zrangeCommon_tame true),
     .inl (cmdZrangebyscore_tame fun _ worded => worded.2 rfl),
     .inl cmdZrank_tame,
     .inl cmdZrevrank_tame,
     .inl cmdZincrby_tame,
     .inl cmdZcount_tame,
     .inr (mem_others 9 rfl),
     .inr (mem_others 10 rfl),
     .inr (mem_others 11 rfl),
     .inr (mem_others 12 rfl),
     .inl cmdCommand_tame,
     .inr (mem_others 14 rfl),
     .inr (mem_others 15 rfl),
     .inr (mem_others 16 rfl),
     .inr (mem_others 17 rfl)⟩

/-- The data command of the entry behaves. -/
def CmdEntry.Behaves (e : CmdEntry) : Prop :=
  match e.fn with
  | .data h => h.Behaves (worded e.name) (excuse e.name)
  | _ => True

theorem others_behave : ∀ e ∈ others, e.Behaves := by
  refine List.forall_iff_forall_mem.mp ?_
  exact
    ⟨cmdDel_behaves, cmdExists_behaves, cmdMget_behaves, cmdMset_behaves, cmdRename_behaves,
     cmdSetex_behaves, cmdSinter_behaves, cmdSunion_behaves, cmdSdiff_behaves, cmdKeys_behaves,
     cmdFlushall_behaves, cmdDbsize_behaves, cmdInfo_behaves,
     trivial, trivial, trivial, trivial, trivial⟩

/-- **Every data command behaves.** -/
theorem commands_behave : ∀ e ∈ commands, e.Behaves := by
  intro e member
  rcases commands_tame e member with tame | other
  · unfold CmdEntry.Tame at tame
    unfold CmdEntry.Behaves
    cases action : e.fn with
    | data h =>
      rw [action] at tame
      exact tame.behaves
    | _ => trivial
  · exact others_behave e other

/-! ### Dispatch -/

section Dispatch

variable {env : Env} {io : Io} {s : Server} {cmd : Command} {e : CmdEntry}

/-- Names of commands have no CR. -/
theorem entryOf_free (known : entryOf cmd = some e) : 13 ∉ arg (cmd.map cstr) 0 := by
  have table : ∀ e ∈ commands, 13 ∉ e.name.map toLower := by decide
  intro member
  unfold entryOf at known
  split at known
  · cases known
  · rename_i name args words
    rw [words] at member
    have hit := List.find?_some known
    have same : e.name.map toLower = name.map toLower := eq_of_beq hit
    refine table e (List.mem_of_find?_eq_some known) ?_
    rw [same]
    exact List.mem_map.mpr ⟨13, member, by decide⟩

/-- The run of a data command in a dispatch. -/
theorem dispatchCommand_data {h : Handler} (known : entryOf cmd = some e) (data : e.fn = .data h) :
    (dispatchCommand env io s cmd).1.db = (h env s.db (cmd.map cstr)).1 ∧
      (dispatchCommand env io s cmd).2.out = (h env s.db (cmd.map cstr)).2 := by
  rw [dispatchCommand_found known, data]
  simp only [Action.run, logCommand_db, and_self]

/-- **A dispatched data command behaves.** -/
theorem dispatchCommand_behaves {h : Handler} (known : entryOf cmd = some e)
    (data : e.fn = .data h) :
    Behaves (worded e.name (cmd.map cstr))
      (∃ i, excuse e.name (cmd.map cstr)
        (lookupKey (env.now i) s.db (arg (cmd.map cstr) 1)).1)
      env s.db ((dispatchCommand env io s cmd).1.db, (dispatchCommand env io s cmd).2.out) := by
  obtain ⟨store, out⟩ := @dispatchCommand_data env io s cmd e h known data
  rw [store, out]
  have behaves := commands_behave e (entryOf_mem known)
  unfold CmdEntry.Behaves at behaves
  rw [data] at behaves
  exact behaves env s.db _ (entryOf_free known)

/-- A command runs a data handler or none. -/
theorem data_or_idle (cmd : Command) :
    (∃ e h, entryOf cmd = some e ∧ e.fn = .data h) ∨
      ∀ e h, entryOf cmd = some e → e.fn ≠ .data h := by
  by_cases data : ∃ e h, entryOf cmd = some e ∧ e.fn = .data h
  · exact .inl data
  · exact .inr fun e h known action => data ⟨e, h, known, action⟩

/-- A command without one leaves the store alone. -/
theorem dispatchCommand_idle (idle : ∀ e h, entryOf cmd = some e → e.fn ≠ .data h) :
    (dispatchCommand env io s cmd).1.db = s.db := by
  rw [dispatchCommand_db]
  unfold execute
  split
  · rename_i name isWrite h found
    exact absurd rfl (idle _ h found)
  · rfl

theorem dispatchCommand_unknown (env : Env) (io : Io) (s : Server) {name : Bytes}
    {args : List Bytes} (unknown : entryOf (name :: args) = none) :
    dispatchCommand env io s (name :: args) =
      (s, ⟨replyError (text "unknown command '" ++ cstr name ++ text "'"), false⟩) := by
  have absent : lookupCommand (cstr name) = none := unknown
  unfold dispatchCommand
  simp only [List.map_cons, absent]

end Dispatch

end Miniredis
