/-
**What the write flag of the table promises.**

A command without the flag leaves every unexpired object alone (`Handler.Reads`). A command with
it, `SPOP` apart, keeps similar stores similar (`Handler.Sim`), six of them only if the clocks are
related (`Handler.TimedSim`). `commands_sound` checks the table entry by entry.
-/

import Miniredis.Replay.Writes

namespace Miniredis

/-! ### Lookups -/

/-- What lookups do to a store: an entry stays, or it was expired and is dropped. -/
def Collects (now : Nat → Int) (db db' : Db) : Prop :=
  ∀ key, db'.d.get key = db.d.get key ∨
    db'.d.get key = none ∧ ∃ i o, db.d.get key = some o ∧ keyExpired (now i) o = true

section Lookups

variable {now : Nat → Int} {db db' db'' : Db}

theorem Collects.refl (now : Nat → Int) (db : Db) : Collects now db db := fun _ => .inl rfl

theorem Collects.trans (first : Collects now db db') (second : Collects now db' db'') :
    Collects now db db'' := by
  intro key
  rcases first key with same | ⟨gone, expired⟩
  · have next := second key
    rwa [same] at next
  · rcases second key with same | ⟨_, i, o, found, _⟩
    · exact .inr ⟨same.trans gone, expired⟩
    · rw [gone] at found
      cases found

theorem lookupKey_collects (now : Nat → Int) (i : Nat) (db : Db) (key : Bytes) :
    Collects now db (lookupKey (now i) db key).2 := by
  intro other
  by_cases same : other = key
  · subst same
    unfold lookupKey
    split
    · exact .inl rfl
    · rename_i o found
      split
      · rename_i expired
        exact .inr ⟨(HashTable.Table.get_delete ..).trans (if_pos rfl), i, o, found, expired⟩
      · exact .inl rfl
  · exact .inl (lookupKey_get_other same)

theorem mgetLoop_collects (i : Nat) (keys : List Bytes) (db : Db) :
    Collects now db (mgetLoop now i keys db).1 := by
  induction keys generalizing i db with
  | nil => exact .refl now db
  | cons key rest ih => exact (lookupKey_collects now i db key).trans (ih (i + 1) _)

theorem existsLoop_collects (i n : Nat) (keys : List Bytes) (db : Db) :
    Collects now db (existsLoop now i keys db n).1 := by
  induction keys generalizing i n db with
  | nil => exact .refl now db
  | cons key rest ih => exact (lookupKey_collects now i db key).trans (ih (i + 1) _ _)

theorem setArgs_collects (i : Nat) (keys : List Bytes) (db : Db) :
    Collects now db (setArgs now i keys db).2 := by
  induction keys generalizing i db with
  | nil => exact .refl now db
  | cons key rest ih =>
    have first := lookupKey_collects now i db key
    have both := first.trans (ih (i + 1) _)
    unfold setArgs
    dsimp only
    split
    · exact both
    · split
      · exact first
      · exact both

theorem setOperation_collects (name : Bytes) (reply : Seed → List (Option (Dict Unit)) → Bytes)
    (env : Env) (db : Db) (argv : Argv) :
    Collects env.now db (setOperation name reply env db argv).1 := by
  have args := @setArgs_collects env.now 0 (argv.drop 1) db
  unfold setOperation
  split
  · exact .refl _ db
  split
  · rename_i found
    rwa [found] at args
  · rename_i found
    rwa [found] at args

end Lookups

/-! ### Reading commands -/

/-- The objects at the keys of `K` are the same. -/
def Untouched (K : Set Bytes) (db db' : Db) : Prop := ∀ key ∈ K, db'.d.get key = db.d.get key

/-- The handler leaves the unexpired objects alone. -/
def Handler.Reads (h : Handler) : Prop :=
  ∀ {K env db} {argv : Argv}, UnexpiredOn K env db → Untouched K db (h env db argv).1

section Reads

variable {K : Set Bytes} {env : Env} {db db' : Db} {key : Bytes}

theorem Untouched.refl (K : Set Bytes) (db : Db) : Untouched K db db := fun _ _ => rfl

theorem Collects.untouched (collects : Collects env.now db db') (unexpired : UnexpiredOn K env db) :
    Untouched K db db' := by
  intro key member
  rcases collects key with same | ⟨_, i, o, found, expired⟩
  · exact same
  · rw [unexpired key member i o found] at expired
    cases expired

/-- A body that only keeps. -/
theorem UnexpiredOn.keeps (unexpired : UnexpiredOn K env db) (i : Nat)
    {body : Option Robj → Update × Bytes} (keeps : ∀ found, (body found).1 = .keep) :
    Untouched K db (onKey (env.now i) db key body).1 := by
  unfold onKey
  dsimp only
  rw [keeps]
  exact (lookupKey_collects env.now i db key).untouched unexpired

theorem UnexpiredOn.read (unexpired : UnexpiredOn K env db) {i : Nat} {α : Type} {kind : Kind α}
    {missing : Bytes} {reply : α → Bytes} :
    Untouched K db (onKey (env.now i) db key (kind.read missing reply)).1 := by
  refine unexpired.keeps i fun found => ?_
  cases found with
  | none => rfl
  | some o =>
    unfold Kind.read Kind.body
    dsimp only
    cases kind.unwrap o.val <;> rfl

/-- An argument check in front of a command. -/
theorem Untouched.check {c : Prop} [Decidable c] {reply : Bytes} {rest : Db × Bytes}
    (behind : Untouched K db rest.1) : Untouched K db (if c then (db, reply) else rest).1 := by
  split
  · exact .refl K db
  · exact behind

theorem setOperation_reads (name : Bytes) (reply : Seed → List (Option (Dict Unit)) → Bytes) :
    Handler.Reads (setOperation name reply) := by
  intro K env db argv unexpired
  exact (setOperation_collects name reply env db argv).untouched unexpired

theorem cmdSelect_reads : Handler.Reads cmdSelect := by
  intro K env db argv _
  unfold cmdSelect
  refine .check ?_
  split
  · exact .refl K db
  · exact .check (.refl K db)

theorem cmdPing_reads : Handler.Reads cmdPing := fun _ => .check (.check (.refl _ _))

theorem cmdGetrange_reads : Handler.Reads cmdGetrange := by
  intro K env db argv unexpired
  unfold cmdGetrange
  refine .check ?_
  split
  · exact unexpired.read
  · exact .refl K db

theorem cmdTtlGeneric_reads (isMs : Bool) : Handler.Reads (cmdTtlGeneric isMs) := by
  intro K env db argv unexpired
  unfold cmdTtlGeneric
  refine .check (unexpired.keeps 0 fun found => ?_)
  cases found with
  | none => rfl
  | some o =>
    dsimp only
    split <;> rfl

theorem cmdType_reads : Handler.Reads cmdType := by
  intro K env db argv unexpired
  unfold cmdType
  refine .check (unexpired.keeps 0 fun found => ?_)
  cases found <;> rfl

theorem cmdLrange_reads : Handler.Reads cmdLrange := by
  intro K env db argv unexpired
  unfold cmdLrange
  refine .check ?_
  split
  · exact unexpired.read
  · exact .refl K db

theorem cmdLindex_reads : Handler.Reads cmdLindex := by
  intro K env db argv unexpired
  unfold cmdLindex
  refine .check ?_
  split
  · exact .refl K db
  · exact unexpired.read

theorem zrangeCommon_reads (reverse : Bool) : Handler.Reads (zrangeCommon reverse) := by
  intro K env db argv unexpired
  unfold zrangeCommon
  refine .check (.check ?_)
  split
  · exact unexpired.read
  · exact .refl K db

theorem cmdZrangebyscore_reads : Handler.Reads cmdZrangebyscore := by
  intro K env db argv unexpired
  unfold cmdZrangebyscore
  refine .check ?_
  split
  · dsimp only
    split
    · exact .refl K db
    · exact unexpired.read
  · exact .refl K db

theorem cmdZcount_reads : Handler.Reads cmdZcount := by
  intro K env db argv unexpired
  unfold cmdZcount
  refine .check ?_
  split
  · exact unexpired.read
  · exact .refl K db

theorem cmdMget_reads : Handler.Reads cmdMget :=
  fun unexpired => .check ((mgetLoop_collects 0 _ _).untouched unexpired)

theorem cmdExists_reads : Handler.Reads cmdExists :=
  fun unexpired => .check ((existsLoop_collects 0 0 _ _).untouched unexpired)

end Reads

/-! ### The table -/

/-- The commands that write a deadline. -/
def deadlines : List (Bytes × Deadline) :=
  [(text "set", setCommandDeadline), (text "setex", setexDeadline),
    (text "expire", expireDeadline false), (text "pexpire", expireDeadline true),
    (text "expireat", expireatDeadline false), (text "pexpireat", expireatDeadline true)]

/-- What the flag of an entry promises about its handler. -/
def CmdEntry.Sound (e : CmdEntry) : Prop :=
  match e.isWrite, e.fn with
  | true, .data h =>
    e.name = text "spop" ∨ h.Sim ∨ ∃ deadline, (e.name, deadline) ∈ deadlines ∧ h.TimedSim deadline
  | false, .data h => h.Reads
  | false, _ => True
  | true, _ => False

/-- **The write flags of the table are right, `SPOP` left open.** -/
theorem commands_sound : ∀ e ∈ commands, e.Sound := by
  refine List.forall_iff_forall_mem.mp ?_
  exact
    ⟨cmdPing_reads,
     fun _ => .check (.refl _ _),
     cmdSelect_reads,
     trivial,
     .inr (.inr ⟨_, by simp [deadlines, entry], cmdSet_timedSim⟩),
     fun unexpired => .check unexpired.read,
     .inr (.inl cmdDel_sim),
     cmdExists_reads,
     .inr (.inl (incrDecr_sim 1)),
     .inr (.inl (incrDecr_sim (-1))),
     cmdMget_reads,
     .inr (.inl cmdMset_sim),
     .inr (.inl cmdAppend_sim),
     fun unexpired => .check unexpired.read,
     cmdGetrange_reads,
     .inr (.inl cmdSetrange_sim),
     .inr (.inl cmdRename_sim),
     .inr (.inl cmdSetnx_sim),
     .inr (.inr ⟨_, by simp [deadlines, entry], cmdSetex_timedSim⟩),
     .inr (.inl cmdGetset_sim),
     .inr (.inr ⟨_, by simp [deadlines, entry], cmdExpireGeneric_timedSim false⟩),
     .inr (.inr ⟨_, by simp [deadlines, entry], cmdExpireGeneric_timedSim true⟩),
     .inr (.inr ⟨_, by simp [deadlines, entry], cmdExpireatGeneric_timedSim false⟩),
     .inr (.inr ⟨_, by simp [deadlines, entry], cmdExpireatGeneric_timedSim true⟩),
     cmdTtlGeneric_reads false,
     cmdTtlGeneric_reads true,
     cmdType_reads,
     .inr (.inl (listPush_sim true false)),
     .inr (.inl (listPush_sim false false)),
     .inr (.inl (listPush_sim true true)),
     .inr (.inl (listPush_sim false true)),
     .inr (.inl (listPop_sim true)),
     .inr (.inl (listPop_sim false)),
     fun unexpired => .check unexpired.read,
     cmdLrange_reads,
     cmdLindex_reads,
     .inr (.inl cmdLset_sim),
     .inr (.inl cmdLtrim_sim),
     .inr (.inl cmdLrem_sim),
     .inr (.inl cmdLinsert_sim),
     .inr (.inl (hashSetMany_sim false)),
     .inr (.inl (hashSetMany_sim true)),
     fun unexpired => .check unexpired.read,
     fun unexpired => .check unexpired.read,
     fun unexpired => .check unexpired.read,
     fun unexpired => .check unexpired.read,
     fun unexpired => .check unexpired.read,
     fun unexpired => .check unexpired.read,
     fun unexpired => .check unexpired.read,
     .inr (.inl cmdHdel_sim),
     .inr (.inl cmdHsetnx_sim),
     .inr (.inl cmdHincrby_sim),
     .inr (.inl cmdHincrbyfloat_sim),
     .inr (.inl cmdSadd_sim),
     .inr (.inl cmdSrem_sim),
     fun unexpired => .check unexpired.read,
     fun unexpired => .check unexpired.read,
     fun unexpired => .check unexpired.read,
     Or.inl rfl,
     setOperation_reads _ _,
     setOperation_reads _ _,
     setOperation_reads _ _,
     .inr (.inl cmdZadd_sim),
     fun unexpired => .check unexpired.read,
     fun unexpired => .check unexpired.read,
     .inr (.inl cmdZrem_sim),
     zrangeCommon_reads false,
     zrangeCommon_reads true,
     cmdZrangebyscore_reads,
     fun unexpired => .check unexpired.read,
     fun unexpired => .check unexpired.read,
     .inr (.inl cmdZincrby_sim),
     cmdZcount_reads,
     fun _ => .check (.refl _ _),
     .inr (.inl cmdFlushall_sim),
     fun _ => .check (.refl _ _),
     fun _ => .refl _ _,
     fun _ => .refl _ _,
     trivial,
     trivial,
     trivial,
     trivial⟩

end Miniredis
