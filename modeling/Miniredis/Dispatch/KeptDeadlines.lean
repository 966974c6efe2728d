/-
**Updates keep the deadline (`db.c`).**

The deadline lives in the object, so a command that replaces the object must copy it and a command
that edits the object must leave it. What a command puts under a key is judged by what it found
there:

* `Amended` — the deadline is the one found, and a set has members unless it had none before.
* `commands_amend` — every write command but those of `resetting` puts amended objects only.
* `commands_collect` — a command without the write flag drops expired entries at most.
* `updates_keep_deadlines` — a command outside `resetting` keeps the deadline of every key that a
  client sees and gives none to a key it creates; `RENAME` moves the deadline with the object, and
  `MSET`, `GETSET` and a `SET` without an expiry option leave none.
-/

import Miniredis.Dispatch.Expiration

namespace Miniredis

open HashTable (Table)

/-! ### Decisions -/

section Decisions

/-- The deadline of what is found; a missing key has none. -/
def deadlineOf (found : Option Robj) : Int := (found.map Robj.expireAt).getD (-1)

/-- A set without members. -/
def Value.Hollow (val : Value) : Prop := ∃ s, val = .set s ∧ dictSize s = 0

/-- What is found is no set without members. -/
def Solid (found : Option Robj) : Prop := ∀ o, found = some o → ¬ o.val.Hollow

/-- An object that may take the place of what was found. -/
structure Amended (found : Option Robj) (o : Robj) : Prop where
  deadline : o.expireAt = deadlineOf found
  solid : Solid found → ¬ o.val.Hollow

/-- What the update puts is allowed. -/
def Update.Puts (allowed : Robj → Prop) : Update → Prop
  | .keep | .remove => True
  | .store o | .write o => allowed o

variable {found : Option Robj} {update : Update} {o : Robj}

/-- What an update leaves was found or is allowed. -/
theorem Update.Puts.leaves {allowed : Robj → Prop} (puts : update.Puts allowed)
    (left : update.leaves found = some o) : found = some o ∨ allowed o := by
  cases update with
  | keep => exact .inl left
  | remove => cases left
  | store new =>
    obtain rfl := Option.some.inj left
    exact .inr puts
  | write new =>
    obtain ⟨_, _, rfl⟩ := Option.map_eq_some_iff.mp left
    exact .inr puts

theorem not_hollow_of_filled {val : Value} (filled : ¬ val.isEmpty = true) : ¬ val.Hollow := by
  rintro ⟨s, rfl, empty⟩
  exact filled (decide_eq_true empty)

theorem maybeDeleteKey_amends (deadline : o.expireAt = deadlineOf found) :
    (maybeDeleteKey o).Puts (Amended found) := by
  unfold maybeDeleteKey
  split_ifs with empty
  · trivial
  · exact ⟨deadline, fun _ => not_hollow_of_filled empty⟩

end Decisions

/-! ### Commands on one type of value -/

namespace Kind

variable {α : Type} {kind : Kind α} {act : α → α × Bytes} {missing : Bytes}

theorem body_puts {allowed : Option Robj → Robj → Prop} {missing : Update × Bytes}
    {present : Int → α → Update × Bytes} (absent : missing.1.Puts (allowed none))
    (there : ∀ o a, (present o.expireAt a).1.Puts (allowed (some o))) (found : Option Robj) :
    (kind.body missing present found).1.Puts (allowed found) := by
  cases found with
  | none => exact absent
  | some o =>
    unfold body
    dsimp only
    cases kind.unwrap o.val with
    | none => trivial
    | some a => exact there o a

theorem stringKind_solid (s : Bytes) : ¬ (stringKind.wrap s).Hollow := by
  rintro ⟨_, ⟨⟩, _⟩

theorem listKind_solid (l : List Bytes) : ¬ (listKind.wrap l).Hollow := by
  rintro ⟨_, ⟨⟩, _⟩

theorem hashKind_solid (h : Dict Bytes) : ¬ (hashKind.wrap h).Hollow := by
  rintro ⟨_, ⟨⟩, _⟩

theorem zsetKind_solid (z : Zset) : ¬ (zsetKind.wrap z).Hollow := by
  rintro ⟨_, ⟨⟩, _⟩

theorem edit_amends (solid : ∀ a, ¬ (kind.wrap (act a).1).Hollow) (found : Option Robj) :
    (kind.edit missing act found).1.Puts (Amended found) := by
  refine body_puts ?_ (fun o a => ?_) found
  · trivial
  · exact ⟨rfl, fun _ => solid a⟩

theorem upsert_amends {seed : Seed} (solid : ∀ a, ¬ (kind.wrap (act a).1).Hollow)
    (found : Option Robj) : (kind.upsert seed act found).1.Puts (Amended found) := by
  refine body_puts ?_ (fun o a => ?_) found
  · exact ⟨rfl, fun _ => solid _⟩
  · exact ⟨rfl, fun _ => solid a⟩

/-- A command that removes what it empties leaves no empty set. -/
theorem shrink_amends (found : Option Robj) :
    (kind.shrink missing act found).1.Puts (Amended found) := by
  refine body_puts ?_ (fun o a => ?_) found
  · trivial
  · exact maybeDeleteKey_amends rfl

end Kind

/-! ### Handlers -/

/-- The command answers at once, or acts on its first argument and puts there what is allowed. -/
inductive Decides (allowed : Option Robj → Robj → Prop) (env : Env) (argv : Argv) (db : Db) :
    Db × Bytes → Prop
  | reply (out : Bytes) : Decides allowed env argv db (db, out)
  | onKey (i : Nat) {body : Option Robj → Update × Bytes}
      (puts : ∀ found, (body found).1.Puts (allowed found)) :
      Decides allowed env argv db (onKey (env.now i) db (arg argv 1) body)

def Handler.Decides (h : Handler) (allowed : Option Robj → Robj → Prop) : Prop :=
  ∀ env db argv, Miniredis.Decides allowed env argv db (h env db argv)

/-- The handler puts amended objects only. -/
def Handler.Amends (h : Handler) : Prop := h.Decides Amended

section Handlers

variable {allowed : Option Robj → Robj → Prop} {env : Env} {argv : Argv} {db : Db}
  {rest : Db × Bytes} {reply : Bytes}

/-- An argument check in front of a command. -/
theorem Decides.check {c : Prop} [Decidable c] (behind : Decides allowed env argv db rest) :
    Decides allowed env argv db (if c then (db, reply) else rest) := by
  split
  · exact .reply reply
  · exact behind

/-- Every entry afterwards was there before, or was put there by the command. -/
theorem Decides.get (decides : Decides allowed env argv db rest) {key : Bytes} {o : Robj}
    (after : rest.1.d.get key = some o) :
    db.d.get key = some o ∨ ∃ i, allowed (live (env.now i) db key) o := by
  cases decides with
  | reply out => exact .inl after
  | @onKey i body puts =>
    by_cases same : key = arg argv 1
    · subst same
      rw [onKey_get_self] at after
      rcases (puts _).leaves after with kept | new
      · exact .inl (Option.filter_eq_some_iff.mp kept).1
      · exact .inr ⟨i, new⟩
    · rw [onKey_get_other same] at after
      exact .inl after

theorem incrDecrStep_amends {found : Option Robj} (delta v : Int) :
    (incrDecrStep delta v (deadlineOf found)).1.Puts (Amended found) := by
  unfold incrDecrStep
  cases addChecked v delta with
  | none => trivial
  | some nv => exact ⟨rfl, fun _ => Kind.stringKind_solid _⟩

theorem incrDecr_amends (delta : Int) : Handler.Amends (incrDecr delta) := by
  intro env db argv
  refine .check (.onKey 0 (Kind.body_puts (incrDecrStep_amends delta 0) fun o s => ?_))
  cases stringToLlN s with
  | none => trivial
  | some v => exact @incrDecrStep_amends (some o) delta v

theorem cmdAppend_amends : Handler.Amends cmdAppend := fun _ _ _ =>
  .check (.onKey 0 (Kind.upsert_amends fun _ => Kind.stringKind_solid _))

theorem cmdSetrange_amends : Handler.Amends cmdSetrange := by
  intro env db argv
  refine .check ?_
  split
  · exact .reply _
  · exact .check (.onKey 0 (Kind.upsert_amends fun _ => Kind.stringKind_solid _))

theorem cmdSetnx_amends : Handler.Amends cmdSetnx := by
  intro env db argv
  refine .check (.onKey 0 fun found => ?_)
  cases found with
  | none => exact ⟨rfl, fun _ => Kind.stringKind_solid _⟩
  | some o => trivial

theorem listPush_amends (head xx : Bool) : Handler.Amends (listPush head xx) := by
  intro env db argv
  refine .check ?_
  cases xx with
  | true => exact .onKey 0 (Kind.edit_amends fun _ => Kind.listKind_solid _)
  | false => exact .onKey 0 (Kind.upsert_amends fun _ => Kind.listKind_solid _)

theorem listPop_amends (head : Bool) : Handler.Amends (listPop head) := by
  intro env db argv
  refine .check ?_
  split
  · exact .reply _
  · exact .onKey 0 Kind.shrink_amends

theorem cmdLset_amends : Handler.Amends cmdLset := by
  intro env db argv
  refine .check ?_
  split
  · exact .reply _
  · exact .onKey 0 (Kind.edit_amends fun _ => Kind.listKind_solid _)

theorem cmdLtrim_amends : Handler.Amends cmdLtrim := by
  intro env db argv
  refine .check ?_
  split
  · refine .onKey 0 (Kind.body_puts trivial fun o l => ?_)
    split
    · trivial
    · exact ⟨rfl, fun _ => Kind.listKind_solid _⟩
  · exact .reply _

theorem cmdLrem_amends : Handler.Amends cmdLrem := by
  intro env db argv
  refine .check ?_
  split
  · exact .reply _
  · exact .onKey 0 Kind.shrink_amends

theorem cmdLinsert_amends : Handler.Amends cmdLinsert := by
  intro env db argv
  refine .check ?_
  split
  · exact .onKey 0 (Kind.edit_amends fun _ => Kind.listKind_solid _)
  split
  · exact .onKey 0 (Kind.edit_amends fun _ => Kind.listKind_solid _)
  · exact .reply _

theorem hashSetMany_amends (ok : Bool) : Handler.Amends (hashSetMany ok) := fun _ _ _ =>
  .check (.onKey 0 (Kind.upsert_amends fun _ => Kind.hashKind_solid _))

theorem cmdHdel_amends : Handler.Amends cmdHdel := fun _ _ _ => .check (.onKey 0 Kind.shrink_amends)

theorem cmdHsetnx_amends : Handler.Amends cmdHsetnx := fun _ _ _ =>
  .check (.onKey 0 (Kind.upsert_amends fun _ => Kind.hashKind_solid _))

theorem cmdHincrby_amends : Handler.Amends cmdHincrby := by
  intro env db argv
  refine .check ?_
  split
  · exact .reply _
  · exact .onKey 0 (Kind.upsert_amends fun _ => Kind.hashKind_solid _)

theorem cmdHincrbyfloat_amends : Handler.Amends cmdHincrbyfloat := by
  intro env db argv
  refine .check ?_
  split
  · exact .reply _
  · exact .onKey 0 (Kind.upsert_amends fun _ => Kind.hashKind_solid _)

/-- `SADD` has a member to add, so the set has one afterwards. -/
theorem cmdSadd_amends : Handler.Amends cmdSadd := by
  intro env db argv
  unfold cmdSadd
  split_ifs with short
  · exact .reply _
  obtain ⟨member, inside⟩ : ∃ member, member ∈ argv.drop 2 :=
    List.exists_mem_of_length_pos (by rw [List.length_drop]; omega)
  refine .onKey 0 (Kind.upsert_amends fun s => not_hollow_of_filled ?_)
  exact Bool.not_eq_true _ ▸ set_filled.mpr ⟨member, saddLoop_present _ 0 (.inl inside)⟩

theorem cmdSrem_amends : Handler.Amends cmdSrem := fun _ _ _ => .check (.onKey 0 Kind.shrink_amends)

theorem cmdSpop_amends : Handler.Amends cmdSpop := by
  intro env db argv
  refine .check ?_
  split
  · exact .reply _
  rename_i count _
  refine .onKey 0 (Kind.body_puts trivial fun o s => ?_)
  by_cases one : count = 1
  · rw [if_pos one]
    cases (dictRandomEntry s env.rand).1 with
    | none => trivial
    | some drawn => exact maybeDeleteKey_amends rfl
  · rw [if_neg one]
    exact maybeDeleteKey_amends rfl

theorem cmdZadd_amends : Handler.Amends cmdZadd := by
  intro env db argv
  refine .check ?_
  dsimp only
  refine .check (.check (.check ?_))
  split
  · exact .onKey 0 (Kind.edit_amends fun _ => Kind.zsetKind_solid _)
  · exact .onKey 0 (Kind.upsert_amends fun _ => Kind.zsetKind_solid _)

theorem cmdZrem_amends : Handler.Amends cmdZrem := fun _ _ _ => .check (.onKey 0 Kind.shrink_amends)

theorem cmdZincrby_amends : Handler.Amends cmdZincrby := by
  intro env db argv
  refine .check ?_
  split
  · exact .reply _
  · exact .onKey 0 (Kind.upsert_amends fun _ => Kind.zsetKind_solid _)

end Handlers

/-! ### The table -/

/-- The commands that may give a key another deadline. -/
def resetting : List Bytes :=
  [text "set", text "mset", text "setex", text "getset", text "rename", text "del",
    text "flushall", text "expire", text "pexpire", text "expireat", text "pexpireat"]

def CmdEntry.Amends (e : CmdEntry) : Prop :=
  match e.isWrite, e.fn with
  | true, .data h => e.name ∈ resetting ∨ h.Amends
  | _, _ => True

/-- **Every other write command amends.** -/
theorem commands_amend : ∀ e ∈ commands, e.Amends := by
  refine List.forall_iff_forall_mem.mp ?_
  exact
    ⟨trivial, trivial, trivial, trivial,
     .inl (by decide),
     trivial,
     .inl (by decide),
     trivial,
     .inr (incrDecr_amends 1),
     .inr (incrDecr_amends (-1)),
     trivial,
     .inl (by decide),
     .inr cmdAppend_amends,
     trivial, trivial,
     .inr cmdSetrange_amends,
     .inl (by decide),
     .inr cmdSetnx_amends,
     .inl (by decide), .inl (by decide), .inl (by decide), .inl (by decide), .inl (by decide),
     .inl (by decide),
     trivial, trivial, trivial,
     .inr (listPush_amends true false),
     .inr (listPush_amends false false),
     .inr (listPush_amends true true),
     .inr (listPush_amends false true),
     .inr (listPop_amends true),
     .inr (listPop_amends false),
     trivial, trivial, trivial,
     .inr cmdLset_amends,
     .inr cmdLtrim_amends,
     .inr cmdLrem_amends,
     .inr cmdLinsert_amends,
     .inr (hashSetMany_amends false),
     .inr (hashSetMany_amends true),
     trivial, trivial, trivial, trivial, trivial, trivial, trivial,
     .inr cmdHdel_amends,
     .inr cmdHsetnx_amends,
     .inr cmdHincrby_amends,
     .inr cmdHincrbyfloat_amends,
     .inr cmdSadd_amends,
     .inr cmdSrem_amends,
     trivial, trivial, trivial,
     .inr cmdSpop_amends,
     trivial, trivial, trivial,
     .inr cmdZadd_amends,
     trivial, trivial,
     .inr cmdZrem_amends,
     trivial, trivial, trivial, trivial, trivial,
     .inr cmdZincrby_amends,
     trivial, trivial,
     .inl (by decide),
     trivial, trivial, trivial, trivial, trivial, trivial, trivial⟩

/-! ### Commands that only read -/

section Reads

variable {env : Env} {db : Db} {argv : Argv}

/-- A second lookup at the same time finds and drops nothing new. -/
theorem lookupKey_again (t : Int) (db : Db) (key : Bytes) :
    lookupKey t (lookupKey t db key).2 key = lookupKey t db key := by
  cases found : db.d.get key with
  | none => simp only [lookupKey, found]
  | some o =>
    cases expired : keyExpired t o with
    | false => simp only [lookupKey, found, expired, Bool.false_eq_true, if_false]
    | true =>
      have gone : (db.d.delete key).2.get key = none :=
        (Table.get_delete ..).trans (if_pos rfl)
      simp only [lookupKey, found, expired, if_true, gone]

theorem onKey_again (t : Int) (db : Db) (key : Bytes) (body : Option Robj → Update × Bytes) :
    onKey t (lookupKey t db key).2 key body = onKey t db key body := by
  unfold onKey
  rw [lookupKey_again]

/-- A command on one key that leaves what is unexpired drops at most what it finds expired. -/
theorem Handler.Tame.collects {h : Handler} {words : Argv → Prop}
    {excused : Argv → Option Robj → Prop} (tame : h.Tame words excused) (reads : h.Reads)
    (stopped : env.Stopped) (free : 13 ∉ arg argv 0) (db : Db) :
    Collects env.now db (h env db argv).1 := by
  rcases tame.plan env free with ⟨out, _, does⟩ | ⟨i, body, _, _, does⟩
  · rw [does]
    exact .refl env.now db
  intro key
  by_cases here : key = arg argv 1
  · -- run after the lookup, the command does the same and meets nothing expired
    have same : h env (lookupKey (env.now i) db key).2 argv = h env db argv := by
      rw [does, does, here, onKey_again]
    have unexpired : UnexpiredOn {key} env (lookupKey (env.now i) db key).2 := by
      rintro _ rfl j o found
      rw [← lookupKey_fst, lookupKey_live] at found
      rw [stopped j, ← stopped i]
      simpa using (Option.filter_eq_some_iff.mp found).2
    have untouched := @reads {key} env _ argv unexpired key rfl
    rw [same] at untouched
    rw [untouched]
    exact lookupKey_collects env.now i db key key
  · rw [does]
    exact .inl (onKey_get_other here)

/-- The command without the write flag drops expired entries at most. -/
def CmdEntry.Collects (e : CmdEntry) : Prop :=
  match e.isWrite, e.fn with
  | false, .data h => ∀ env db argv, env.Stopped → 13 ∉ arg argv 0 →
      Miniredis.Collects env.now db (h env db argv).1
  | _, _ => True

theorem cmdExists_collects (env : Env) (db : Db) (argv : Argv) :
    Collects env.now db (cmdExists env db argv).1 := by
  unfold cmdExists
  split
  · exact .refl env.now db
  · exact existsLoop_collects 0 0 _ db

theorem cmdMget_collects (env : Env) (db : Db) (argv : Argv) :
    Collects env.now db (cmdMget env db argv).1 := by
  unfold cmdMget
  split
  · exact .refl env.now db
  · exact mgetLoop_collects 0 _ db

theorem cmdKeys_collects (env : Env) (db : Db) (argv : Argv) :
    Collects env.now db (cmdKeys env db argv).1 := by
  unfold cmdKeys
  split <;> exact .refl env.now db

theorem cmdDbsize_collects (env : Env) (db : Db) (argv : Argv) :
    Collects env.now db (cmdDbsize env db argv).1 := by
  unfold cmdDbsize
  split <;> exact .refl env.now db

theorem others_collect : ∀ e ∈ others, e.Collects := by
  refine List.forall_iff_forall_mem.mp ?_
  exact
    ⟨trivial,
     fun env db argv _ _ => cmdExists_collects env db argv,
     fun env db argv _ _ => cmdMget_collects env db argv,
     trivial, trivial, trivial,
     fun env db argv _ _ => setOperation_collects _ _ env db argv,
     fun env db argv _ _ => setOperation_collects _ _ env db argv,
     fun env db argv _ _ => setOperation_collects _ _ env db argv,
     fun env db argv _ _ => cmdKeys_collects env db argv,
     trivial,
     fun env db argv _ _ => cmdDbsize_collects env db argv,
     fun env db _ _ _ => .refl env.now db,
     trivial, trivial, trivial, trivial, trivial⟩

/-- **A command without the write flag drops expired entries at most.** -/
theorem commands_collect : ∀ e ∈ commands, e.Collects := by
  intro e member
  rcases commands_tame e member with tame | other
  · have sound := commands_sound e member
    unfold CmdEntry.Tame at tame
    unfold CmdEntry.Sound at sound
    unfold CmdEntry.Collects
    cases flag : e.isWrite with
    | true => trivial
    | false =>
      cases action : e.fn with
      | data h =>
        rw [action] at tame
        rw [flag, action] at sound
        exact fun env db argv stopped free => tame.collects sound stopped free db
      | _ => trivial
  · exact others_collect e other

end Reads

/-! ### Commands that reset a deadline -/

section Resets

variable {env : Env} {db : Db} {argv : Argv}

/-- The key holds an object without a deadline. -/
def Undated (db : Db) (key : Bytes) : Prop := ∃ o, db.d.get key = some o ∧ o.expireAt = -1

theorem undated_set (key : Bytes) (val : Value) :
    Undated { db with d := (db.d.set key (robjNew val)).2 } key :=
  ⟨robjNew val, (Table.get_set ..).trans (if_pos rfl), rfl⟩

/-- `RENAME` moves the object as it is. -/
theorem cmdRename_moves (succeeds : ¬ IsError (cmdRename env db argv).2) :
    ∃ o, live (env.now 0) db (arg argv 1) = some o ∧
      (cmdRename env db argv).1.d.get (arg argv 1) = none ∧
      (cmdRename env db argv).1.d.get (arg argv 2) = some o := by
  let P : Db × Bytes → Prop := fun result => ∃ o, live (env.now 0) db (arg argv 1) = some o ∧
    result.1.d.get (arg argv 1) = none ∧ result.1.d.get (arg argv 2) = some o
  refine succeed_check (P := P) (isError_replyError _) (fun _ passes => ?_) succeeds
  refine succeed_check (P := P) (isError_replyError _) (fun other passes => ?_) passes
  have found := lookupKey_live (env.now 0) db (arg argv 1)
  generalize lookupKey (env.now 0) db (arg argv 1) = looked at found passes ⊢
  obtain ⟨here, db⟩ := looked
  cases here with
  | none => exact absurd (isError_replyError _) passes
  | some o =>
    refine ⟨o, found.symm, ?_, ?_⟩
    · exact (Table.get_set ..).trans ((if_neg other).trans
        ((Table.get_delete ..).trans (if_pos rfl)))
    · exact (Table.get_set ..).trans (if_pos rfl)

/-- Without an expiry option the loop over the options reads no time. -/
theorem setOptions_undated {now : Nat → Int} {i : Nat} {args : List Bytes} {options : SetOptions}
    (plain : ∀ a ∈ args, isSetExpireOption a = false) :
    setOptions now i args options = .error syntaxError ∨
      ∃ read, setOptions now i args options = .ok read ∧ read.expireMs = options.expireMs := by
  fun_induction setOptions now i args options with
  | case1 => exact .inr ⟨_, rfl, rfl⟩
  | case2 i a options option => simp [plain a List.mem_cons_self] at option
  | case3 | case4 => exact .inr ⟨_, rfl, rfl⟩
  | case5 => exact .inl rfl
  | case6 i a t rest options option | case7 i a t rest options option
  | case8 i a t rest options option | case9 i a t rest options option =>
    simp [plain a List.mem_cons_self] at option
  | case10 i a t rest options option nx ih | case11 i a t rest options option nx xx ih =>
    exact ih (List.forall_mem_cons.mp plain).2
  | case12 => exact .inl rfl

/-- The one branch of `SET` that replies OK stores. -/
theorem setBody_ok {options : SetOptions} {now : Int} {value : Bytes} {found : Option Robj}
    (ok : (setBody options now value found).2 = replyOk) :
    (setBody options now value found).1 =
      .store ⟨.string value, setDeadline now options.expireMs⟩ := by
  unfold setBody at ok ⊢
  by_cases nx : (options.nx && found.isSome) = true
  · rw [if_pos nx] at ok
    exact absurd ok (by decide)
  rw [if_neg nx] at ok ⊢
  by_cases xx : (options.xx && found.isNone) = true
  · rw [if_pos xx] at ok
    exact absurd ok (by decide)
  · rw [if_neg xx]

theorem cmdSet_undated (plain : ∀ a ∈ argv.drop 3, isSetExpireOption a = false)
    (ok : (cmdSet env db argv).2 = replyOk) : Undated (cmdSet env db argv).1 (arg argv 1) := by
  have stores := @setOptions_undated env.now 3 _ ⟨false, false, -1⟩ plain
  unfold cmdSet at ok ⊢
  by_cases count : argv.length < 3
  · rw [if_pos count] at ok
    exact absurd ok (replyError_ne_ok _)
  rw [if_neg count] at ok ⊢
  rcases stores with failed | ⟨read, done, none⟩
  · rw [failed] at ok
    exact absurd ok (replyError_ne_ok _)
  rw [done] at ok ⊢
  dsimp only at ok ⊢
  by_cases both : (read.nx && read.xx) = true
  · rw [if_pos both] at ok
    exact absurd ok (replyError_ne_ok _)
  rw [if_neg both] at ok ⊢
  rw [(onKey_live ..).2] at ok
  refine ⟨⟨.string (arg argv 2), -1⟩, ?_, rfl⟩
  rw [onKey_get_self, setBody_ok ok, none]
  rfl

theorem msetLoop_undated {args : List Bytes} {key : Bytes} (db : Db)
    (named : key ∈ msetKeys args) : Undated (msetLoop args db) key := by
  fun_induction msetLoop args db with
  | case1 first value rest db ih =>
    by_cases later : key ∈ msetKeys rest
    · exact ih later
    · -- the last pair that names the key decides
      obtain rfl : key = first := (List.mem_cons.mp named).resolve_right later
      obtain ⟨o, found, none⟩ := @undated_set db key (.string value)
      exact ⟨o, (msetLoop_get_other later).trans found, none⟩
  | case2 db args single =>
    unfold msetKeys at named
    split at named
    · exact absurd rfl (single _ _ _)
    · cases named

theorem cmdMset_undated {key : Bytes} (succeeds : ¬ IsError (cmdMset env db argv).2)
    (named : key ∈ msetKeys (argv.drop 1)) : Undated (cmdMset env db argv).1 key :=
  succeed_check (P := fun result => Undated result.1 key) (isError_replyError _)
    (fun _ _ => msetLoop_undated db named) succeeds

theorem cmdGetset_undated (succeeds : ¬ IsError (cmdGetset env db argv).2) :
    Undated (cmdGetset env db argv).1 (arg argv 1) := by
  refine succeed_check (P := fun result => Undated result.1 (arg argv 1)) (isError_replyError _)
    (fun _ passes => ?_) succeeds
  rw [(onKey_live ..).2] at passes
  refine ⟨robjNew (.string (arg argv 2)), ?_, rfl⟩
  rw [onKey_get_self]
  generalize live (env.now 0) db (arg argv 1) = found at passes ⊢
  cases found with
  | none => rfl
  | some o =>
    unfold getsetBody Kind.body at passes ⊢
    dsimp only at passes ⊢
    cases typed : stringKind.unwrap o.val with
    | none =>
      rw [typed] at passes
      exact absurd isError_replyWrongtype passes
    | some s => rfl

end Resets

/-! ### Dispatch -/

section Dispatch

variable {env : Env} {io : Io} {s : Server} {cmd : Command}

/-- **A command outside `resetting` puts amended objects only.** -/
theorem dispatchCommand_amends (stopped : env.Stopped)
    (other : ∀ e, entryOf cmd = some e → e.name ∉ resetting) {key : Bytes} {o : Robj}
    (after : (dispatchCommand env io s cmd).1.db.d.get key = some o) :
    s.db.d.get key = some o ∨ Amended (live (env.now 0) s.db key) o := by
  rcases data_or_idle cmd with ⟨e, h, known, action⟩ | idle
  · rw [(dispatchCommand_data known action).1] at after
    have collects := commands_collect e (entryOf_mem known)
    have amends := commands_amend e (entryOf_mem known)
    unfold CmdEntry.Collects at collects
    unfold CmdEntry.Amends at amends
    cases flag : e.isWrite with
    | true =>
      rw [flag, action] at amends
      rcases (amends.resolve_left (other e known) env s.db _).get after with kept | ⟨i, amended⟩
      · exact .inl kept
      · rw [stopped i] at amended
        exact .inr amended
    | false =>
      rw [flag, action] at collects
      rcases collects env s.db _ stopped (entryOf_free known) key with same | ⟨gone, _⟩
      · exact .inl (same ▸ after)
      · rw [gone] at after
        cases after
  · rw [dispatchCommand_idle idle] at after
    exact .inl after

/-- The second store keeps the deadlines of the keys seen in the first, and what is new in it has
none. -/
structure KeepsDeadlines (t : Int) (db after : Db) : Prop where
  kept : ∀ key o o', live t db key = some o → after.d.get key = some o' →
    o'.expireAt = o.expireAt
  created : ∀ key o, live t db key = none → after.d.get key = some o → db.d.get key ≠ some o →
    o.expireAt = -1

/-- **Updates keep the deadline.** -/
theorem updates_keep_deadlines (env : Env) (io : Io) (s : Server) (cmd : Command)
    (stopped : env.Stopped) :
    ((∀ e, entryOf cmd = some e → e.name ∉ resetting) →
      KeepsDeadlines (env.now 0) s.db (dispatchCommand env io s cmd).1.db) ∧
    (entryOf cmd = some (entry "rename" true cmdRename) →
      ¬ IsError (dispatchCommand env io s cmd).2.out →
        ∃ o, live (env.now 0) s.db (arg (cmd.map cstr) 1) = some o ∧
          (dispatchCommand env io s cmd).1.db.d.get (arg (cmd.map cstr) 1) = none ∧
          (dispatchCommand env io s cmd).1.db.d.get (arg (cmd.map cstr) 2) = some o) ∧
    (entryOf cmd = some (entry "set" true cmdSet) →
      (dispatchCommand env io s cmd).2.out = replyOk →
        (∀ a ∈ (cmd.map cstr).drop 3, isSetExpireOption a = false) →
          Undated (dispatchCommand env io s cmd).1.db (arg (cmd.map cstr) 1)) ∧
    (entryOf cmd = some (entry "mset" true cmdMset) →
      ¬ IsError (dispatchCommand env io s cmd).2.out →
        ∀ key ∈ msetKeys ((cmd.map cstr).drop 1),
          Undated (dispatchCommand env io s cmd).1.db key) ∧
    (entryOf cmd = some (entry "getset" true cmdGetset) →
      ¬ IsError (dispatchCommand env io s cmd).2.out →
        Undated (dispatchCommand env io s cmd).1.db (arg (cmd.map cstr) 1)) := by
  refine ⟨fun other => ⟨?_, ?_⟩, ?_, ?_, ?_, ?_⟩
  · intro key o o' seen after
    rcases dispatchCommand_amends stopped other after with same | amended
    · rw [(Option.filter_eq_some_iff.mp seen).1] at same
      rw [Option.some.inj same]
    · rw [amended.deadline, seen]
      rfl
  · intro key o absent after new
    rw [((dispatchCommand_amends stopped other after).resolve_left new).deadline, absent]
    rfl
  all_goals
    intro known
    obtain ⟨store, out⟩ := @dispatchCommand_data env io s cmd _ _ known rfl
    rw [store, out]
  · exact cmdRename_moves
  · exact fun ok plain => cmdSet_undated plain ok
  · exact fun succeeds key named => cmdMset_undated succeeds named
  · exact cmdGetset_undated

/-- A key that expires at time 1 still does so after `APPEND`. -/
theorem append_keeps_deadline :
    live 0 sampleLapsed.db (text "k") = some ⟨.string (text "v"), 1⟩ ∧
      KeepsDeadlines 0 sampleLapsed.db (dispatchCommand sampleEnv .smooth sampleLapsed
        (["APPEND", "k", "w"].map text)).1.db := by
  refine ⟨rfl, (updates_keep_deadlines sampleEnv .smooth sampleLapsed _ fun _ => rfl).1 ?_⟩
  intro e found
  rw [show entryOf (["APPEND", "k", "w"].map text) = some (entry "append" true cmdAppend) from
    entryOf_eq (by simp [commands]) (by decide) _] at found
  obtain rfl := Option.some.inj found
  decide

end Dispatch

end Miniredis
