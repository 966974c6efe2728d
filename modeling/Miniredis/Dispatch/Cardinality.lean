/-
**Reply counts are changes of cardinality (`db.c`).**

`SADD`, `HSET` and `ZADD` count the members they add, `SREM`, `HDEL` and `ZREM` those they take out,
one by one while they go through arguments that may repeat. `DEL` counts keys.

* `saddLoop_size`, `hashSetLoop_size`, `zaddLoop_size`, `sremLoop_size`, `hdelLoop_size`,
  `zremLoop_size`, `delLoop_size` — each loop keeps its count in step with the container.
* `reply_counts` — the replies are the changes of cardinality, whether the container was there, is
  created or is deleted by the command.
-/

import Miniredis.Dispatch.RefusedAdds
import Miniredis.Dispatch.Steady

namespace Miniredis

/-! ### Loops -/

section Loops

/-- A store under a key counts if the key is new. -/
theorem dictSize_set {α : Type} (d : Dict α) (key : Bytes) (val : α) :
    dictSize (d.set key val).2 = dictSize d + if (d.get key).isNone then 1 else 0 := by
  cases found : d.get key with
  | none => exact d.used_set_absent key val found
  | some old => exact d.used_set_present key val (by rw [found]; rfl)

/-- A deletion counts if the key was there. -/
theorem dictSize_delete {α : Type} (d : Dict α) (key : Bytes) :
    dictSize d = dictSize (d.delete key).2 + if (d.delete key).1.isSome then 1 else 0 := by
  rw [HashTable.Table.delete_fst]
  cases found : d.get key with
  | none => exact (d.used_delete_absent key found).symm
  | some old => exact (d.used_delete key (by rw [found]; rfl)).symm

theorem saddLoop_size (args : List Bytes) (s : Dict Unit) (n : Nat) :
    dictSize (saddLoop args s n).1 + n = dictSize s + (saddLoop args s n).2 := by
  induction args generalizing s n with
  | nil => rfl
  | cons member rest ih =>
    unfold saddLoop
    split_ifs with new
    · have counted := dictSize_set s member ()
      rw [if_pos new] at counted
      have later := ih (s.set member ()).2 (n + 1)
      omega
    · exact ih s n

theorem hashSetLoop_size (args : List Bytes) (h : Dict Bytes) (n : Nat) :
    dictSize (hashSetLoop args h n).1 + n = dictSize h + (hashSetLoop args h n).2 := by
  fun_induction hashSetLoop args h n with
  | case1 field value rest h n ih =>
    have counted := dictSize_set h field value
    split_ifs at counted ih ⊢ <;> omega
  | case2 => rfl

theorem sremLoop_size (args : List Bytes) (s : Dict Unit) (n : Nat) :
    dictSize s + n = dictSize (sremLoop args s n).1 + (sremLoop args s n).2 := by
  induction args generalizing s n with
  | nil => rfl
  | cons member rest ih =>
    unfold sremLoop
    have counted := dictSize_delete s member
    rw [← ih]
    split_ifs at counted ⊢ <;> omega

theorem hdelLoop_size (args : List Bytes) (h : Dict Bytes) (n : Nat) :
    dictSize h + n = dictSize (hdelLoop args h n).1 + (hdelLoop args h n).2 := by
  induction args generalizing h n with
  | nil => rfl
  | cons field rest ih =>
    unfold hdelLoop
    have counted := dictSize_delete h field
    rw [← ih]
    split_ifs at counted ⊢ <;> omega

theorem delLoop_size (keys : List Bytes) (db : Db) (n : Nat) :
    dictSize db.d + n = dictSize (delLoop keys db n).1.d + (delLoop keys db n).2 := by
  induction keys generalizing db n with
  | nil => rfl
  | cons key rest ih =>
    unfold delLoop
    have counted := dictSize_delete db.d key
    rw [← ih]
    dsimp only
    split_ifs at counted ⊢ <;> omega

end Loops

/-! ### Sorted sets -/

section Zsets

theorem zremLoop_size (args : List Bytes) (z : Zset) (n : Nat) :
    zsetLen z + n = zsetLen (zremLoop args z n).1 + (zremLoop args z n).2 := by
  induction args generalizing z n with
  | nil => rfl
  | cons member rest ih =>
    unfold zremLoop
    have counted := zsetLen_remove z member
    rw [← ih]
    split_ifs at counted ⊢ <;> omega

/-- Without `CH` and `INCR`, unless it meets a bad score, the pair loop answers what it added. -/
theorem zaddLoop_size {flags : ZaddFlags} (plain : flags.ch = false) (single : flags.incr = false)
    (args : List Bytes) (z : Zset) (n m : Nat)
    (succeeds : ¬ IsError (zaddLoop flags args z n m).2) :
    ∃ count : Nat, (zaddLoop flags args z n m).2 = replyInteger count ∧
      zsetLen (zaddLoop flags args z n m).1 + n = zsetLen z + count := by
  induction args using List.twoStepInduction generalizing z n m with
  | nil => exact ⟨n, by simp [zaddLoop, plain], rfl⟩
  | singleton s => exact ⟨n, by simp [zaddLoop, plain], rfl⟩
  | cons_cons s member rest ih _ =>
    cases parsed : parseDouble s with
    | none =>
      rw [zaddLoop, parsed] at succeeds
      exact absurd (isError_replyError _) succeeds
    | some score =>
      obtain ⟨next, n', m', -, size, goes⟩ := zaddLoop_pair single parsed member rest z n m
      rw [goes] at succeeds ⊢
      obtain ⟨count, reply, counted⟩ := ih next n' m' succeeds
      exact ⟨count, reply, by omega⟩

end Zsets

/-! ### Cardinalities -/

/-- The number of elements of a container. -/
def Value.card : Value → Nat
  | .string _ => 0
  | .list l => l.length
  | .hash h => dictSize h
  | .set s => dictSize s
  | .zset z => zsetLen z

/-- The cardinality of an entry; a missing one counts as empty. -/
def cardOf : Option Robj → Nat
  | none => 0
  | some o => o.val.card

/-- The cardinality of what is seen under a key. -/
def cardinality (t : Int) (db : Db) (key : Bytes) : Nat := cardOf (live t db key)

/-- An empty container has no elements. -/
theorem card_of_isEmpty {v : Value} (empty : v.isEmpty = true) : v.card = 0 := by
  cases v with
  | string s => rfl
  | list l => exact of_decide_eq_true empty
  | hash h => exact of_decide_eq_true empty
  | set s => exact of_decide_eq_true empty
  | zset z => exact of_decide_eq_true empty

theorem cardOf_maybeDelete (o old : Robj) :
    cardOf ((maybeDeleteKey o).leaves (some old)) = o.val.card := by
  unfold maybeDeleteKey
  split_ifs with empty
  · exact (card_of_isEmpty empty).symm
  · rfl

namespace Kind

variable {α : Type} {kind : Kind α}

/-- How the values of a type are counted, and that a new one is empty. -/
structure Counted (kind : Kind α) (size : α → Nat) : Prop where
  exact : kind.Exact
  card : ∀ a, (kind.wrap a).card = size a
  fresh : ∀ seed, size (kind.fresh seed) = 0

theorem hashKind_counted : hashKind.Counted dictSize :=
  ⟨hashKind_exact, fun _ => rfl, fun _ => rfl⟩

theorem setKind_counted : setKind.Counted dictSize :=
  ⟨setKind_exact, fun _ => rfl, fun _ => rfl⟩

theorem zsetKind_counted : zsetKind.Counted zsetLen :=
  ⟨zsetKind_exact, fun _ => rfl, fun _ => rfl⟩

/-- The type test on an object that is there. -/
theorem body_some (exact : kind.Exact) (missing : Update × Bytes)
    (present : Int → α → Update × Bytes) (o : Robj) :
    kind.body missing present (some o) = (.keep, replyWrongtype) ∨
      ∃ a expireAt, o = ⟨kind.wrap a, expireAt⟩ ∧
        kind.body missing present (some o) = present expireAt a := by
  unfold body
  dsimp only
  cases typed : kind.unwrap o.val with
  | none => exact .inl rfl
  | some a => exact .inr ⟨a, o.expireAt, by rw [← exact _ _ typed], rfl⟩

end Kind

/-! ### Commands -/

section Commands

variable {α : Type} {kind : Kind α} {size : α → Nat} {t : Int} {db : Db} {key : Bytes}

/-- What a decision does to the cardinality, as long as it sets no new deadline. -/
theorem onKey_cardinality {body : Option Robj → Update × Bytes} {update : Update} {out : Bytes}
    (decides : body (live t db key) = (update, out))
    (lasting : ∀ o, update.leaves (live t db key) = some o → Lasting {t} o) :
    cardinality t (onKey t db key body).1 key = cardOf (update.leaves (live t db key)) ∧
      (onKey t db key body).2 = out := by
  have steady : Steady {t} db key (live t db key) := by
    rintro s rfl
    rfl
  obtain ⟨after, reply⟩ := steady.onKey (Set.mem_singleton t) decides lasting
  exact ⟨congrArg cardOf (after t rfl), reply⟩

/-- The deadline of an entry that is seen. -/
theorem lasting_of_live {val val' : Value} {expireAt : Int}
    (found : live t db key = some ⟨val, expireAt⟩) : Lasting {t} ⟨val', expireAt⟩ := by
  have steady : Steady {t} db key (some ⟨val, expireAt⟩) := by
    rintro s rfl
    exact found
  exact steady.lasting

/-- A command that succeeds on a key that is there acts on a value of its type. -/
theorem body_cardinality (exact : kind.Exact) {missing : Update × Bytes}
    {present : Int → α → Update × Bytes} {o : Robj} (found : live t db key = some o)
    (succeeds : ¬ IsError (onKey t db key (kind.body missing present)).2)
    (keeps : ∀ expireAt a o', (present expireAt a).1.leaves (some ⟨kind.wrap a, expireAt⟩) =
      some o' → o'.expireAt = expireAt) :
    ∃ expireAt a, o = ⟨kind.wrap a, expireAt⟩ ∧
      cardinality t (onKey t db key (kind.body missing present)).1 key =
        cardOf ((present expireAt a).1.leaves (some o)) ∧
      (onKey t db key (kind.body missing present)).2 = (present expireAt a).2 := by
  rcases kind.body_some exact missing present o with wrong | ⟨a, expireAt, rfl, decides⟩
  · rw [← found] at wrong
    rw [(onKey_live t db key _).2, wrong] at succeeds
    exact absurd isError_replyWrongtype succeeds
  · rw [← found] at decides
    obtain ⟨card, reply⟩ := onKey_cardinality
      (decides : _ = ((present expireAt a).1, (present expireAt a).2)) fun o' left => by
        rw [found] at left
        have deadline := keeps expireAt a o' left
        obtain ⟨val, expireAt'⟩ := o'
        cases deadline
        exact lasting_of_live found
    rw [found] at card
    exact ⟨expireAt, a, rfl, card, reply⟩

/-- A command that changes a value in place adds what it answers. -/
theorem write_counts (counted : kind.Counted size) {missing : Update × Bytes}
    {act : α → α × Bytes} {o : Robj} (adds : ∀ a, ¬ IsError (act a).2 →
      ∃ n : Nat, (act a).2 = replyInteger n ∧ size (act a).1 = size a + n)
    (found : live t db key = some o) (succeeds : ¬ IsError (onKey t db key (kind.body missing
      fun expireAt a => (.write ⟨kind.wrap (act a).1, expireAt⟩, (act a).2))).2) :
    ∃ n : Nat, (onKey t db key (kind.body missing fun expireAt a =>
        (.write ⟨kind.wrap (act a).1, expireAt⟩, (act a).2))).2 = replyInteger n ∧
      cardinality t (onKey t db key (kind.body missing fun expireAt a =>
        (.write ⟨kind.wrap (act a).1, expireAt⟩, (act a).2))).1 key =
          cardinality t db key + n := by
  obtain ⟨expireAt, a, rfl, card, reply⟩ := body_cardinality counted.exact found succeeds
    fun _ _ _ left => by
      obtain rfl := Option.some.inj left
      rfl
  rw [reply] at succeeds
  obtain ⟨n, answer, grown⟩ := adds a succeeds
  refine ⟨n, reply.trans answer, ?_⟩
  rw [card, cardinality, found]
  exact (counted.card _).trans (grown.trans (congrArg (· + n) (counted.card a).symm))

/-- A command that leaves a missing key alone and answers zero. -/
theorem missing_counts {present : Int → α → Update × Bytes} (absent : live t db key = none) :
    (onKey t db key (kind.body (.keep, replyInteger 0) present)).2 = replyInteger 0 ∧
      cardinality t (onKey t db key (kind.body (.keep, replyInteger 0) present)).1 key =
        cardinality t db key := by
  have decides : kind.body (.keep, replyInteger 0) present (live t db key) =
      (.keep, replyInteger 0) := by
    rw [absent]
    rfl
  obtain ⟨card, reply⟩ := onKey_cardinality decides fun o left => by
    rw [absent] at left
    cases left
  exact ⟨reply, card⟩

/-- A command that adds to a container, creating a missing one. -/
theorem upsert_counts (counted : kind.Counted size) {act : α → α × Bytes}
    (adds : ∀ a, ¬ IsError (act a).2 →
      ∃ n : Nat, (act a).2 = replyInteger n ∧ size (act a).1 = size a + n) (seed : Seed)
    (succeeds : ¬ IsError (onKey t db key (kind.upsert seed act)).2) :
    ∃ n : Nat, (onKey t db key (kind.upsert seed act)).2 = replyInteger n ∧
      cardinality t (onKey t db key (kind.upsert seed act)).1 key = cardinality t db key + n := by
  cases found : live t db key with
  | none =>
    have decides : kind.upsert seed act (live t db key) =
        (.store (robjNew (kind.wrap (act (kind.fresh seed)).1)), (act (kind.fresh seed)).2) := by
      rw [found]
      rfl
    obtain ⟨card, reply⟩ := onKey_cardinality decides fun o left => by
      obtain rfl := Option.some.inj left
      exact lasting_new _ _
    rw [reply] at succeeds ⊢
    obtain ⟨n, answer, grown⟩ := adds _ succeeds
    refine ⟨n, answer, ?_⟩
    rw [counted.fresh] at grown
    rw [card, cardinality, found]
    exact (counted.card _).trans grown
  | some o => exact write_counts counted adds found succeeds

/-- A command that adds to a container that is there. -/
theorem edit_counts (counted : kind.Counted size) {act : α → α × Bytes}
    (adds : ∀ a, ¬ IsError (act a).2 →
      ∃ n : Nat, (act a).2 = replyInteger n ∧ size (act a).1 = size a + n)
    (succeeds : ¬ IsError (onKey t db key (kind.edit (replyInteger 0) act)).2) :
    ∃ n : Nat, (onKey t db key (kind.edit (replyInteger 0) act)).2 = replyInteger n ∧
      cardinality t (onKey t db key (kind.edit (replyInteger 0) act)).1 key =
        cardinality t db key + n := by
  cases found : live t db key with
  | none =>
    obtain ⟨reply, card⟩ := missing_counts found
    exact ⟨0, reply, card⟩
  | some o => exact write_counts counted adds found succeeds

/-- A command that takes out of a container, and deletes one that becomes empty. -/
theorem shrink_counts (counted : kind.Counted size) {act : α → α × Bytes}
    (takes : ∀ a, ∃ n : Nat, (act a).2 = replyInteger n ∧ size a = size (act a).1 + n)
    (succeeds : ¬ IsError (onKey t db key (kind.shrink (replyInteger 0) act)).2) :
    ∃ n : Nat, (onKey t db key (kind.shrink (replyInteger 0) act)).2 = replyInteger n ∧
      cardinality t db key =
        cardinality t (onKey t db key (kind.shrink (replyInteger 0) act)).1 key + n := by
  unfold Kind.shrink at succeeds ⊢
  cases found : live t db key with
  | none =>
    obtain ⟨reply, card⟩ := missing_counts found
    exact ⟨0, reply, card.symm⟩
  | some o =>
    obtain ⟨expireAt, a, rfl, card, reply⟩ := body_cardinality counted.exact found succeeds
      fun _ _ _ left => by
        unfold maybeDeleteKey at left
        split_ifs at left
        · cases left
        · obtain rfl := Option.some.inj left
          rfl
    obtain ⟨n, answer, shrunk⟩ := takes a
    refine ⟨n, reply.trans answer, ?_⟩
    rw [card, cardOf_maybeDelete, cardinality, found]
    exact (counted.card a).trans (shrunk.trans (congrArg (· + n) (counted.card _).symm))

end Commands

/-! ### The handlers -/

section Handlers

variable {env : Env} {db : Db} {argv : Argv}

/-- The reply is the increase of the cardinality of the command's key. -/
def Adds (env : Env) (db : Db) (argv : Argv) (result : Db × Bytes) : Prop :=
  ∃ n : Nat, result.2 = replyInteger n ∧
    cardinality (env.now 0) result.1 (arg argv 1) = cardinality (env.now 0) db (arg argv 1) + n

/-- The reply is the decrease of the cardinality of the command's key. -/
def Takes (env : Env) (db : Db) (argv : Argv) (result : Db × Bytes) : Prop :=
  ∃ n : Nat, result.2 = replyInteger n ∧
    cardinality (env.now 0) db (arg argv 1) = cardinality (env.now 0) result.1 (arg argv 1) + n

theorem cmdSadd_adds (succeeds : ¬ IsError (cmdSadd env db argv).2) :
    Adds env db argv (cmdSadd env db argv) := by
  refine succeed_check (isError_replyError _) (fun _ passes => ?_) succeeds
  refine upsert_counts Kind.setKind_counted (fun s _ => ⟨_, rfl, ?_⟩) env.seed passes
  exact saddLoop_size (argv.drop 2) s 0

theorem cmdHset_adds (succeeds : ¬ IsError (cmdHset env db argv).2) :
    Adds env db argv (cmdHset env db argv) := by
  refine succeed_check (isError_replyError _) (fun _ passes => ?_) succeeds
  refine upsert_counts Kind.hashKind_counted (fun h _ => ⟨_, rfl, ?_⟩) env.seed passes
  exact hashSetLoop_size (argv.drop 2) h 0

theorem cmdZadd_adds
    (plain : (zaddFlags (argv.drop 2) ⟨false, false, false, false⟩).1.ch = false)
    (single : (zaddFlags (argv.drop 2) ⟨false, false, false, false⟩).1.incr = false)
    (succeeds : ¬ IsError (cmdZadd env db argv).2) : Adds env db argv (cmdZadd env db argv) := by
  unfold cmdZadd at succeeds ⊢
  generalize zaddFlags (argv.drop 2) ⟨false, false, false, false⟩ = parsed
    at plain single succeeds ⊢
  obtain ⟨flags, pairs⟩ := parsed
  refine succeed_check (isError_replyError _) (fun _ passes => ?_) succeeds
  refine succeed_check (isError_replyError _) (fun _ passes => ?_) passes
  refine succeed_check (isError_replyError _) (fun _ passes => ?_) passes
  refine succeed_check (isError_replyError _) (fun _ passes => ?_) passes
  have adds (z : Zset) (good : ¬ IsError (zaddLoop flags pairs z 0 0).2) :=
    zaddLoop_size plain single pairs z 0 0 good
  dsimp only at passes ⊢
  by_cases existing : flags.xx = true
  · rw [if_pos existing] at passes ⊢
    exact edit_counts Kind.zsetKind_counted adds passes
  · rw [if_neg existing] at passes ⊢
    exact upsert_counts Kind.zsetKind_counted adds env.seed passes

theorem cmdSrem_takes (succeeds : ¬ IsError (cmdSrem env db argv).2) :
    Takes env db argv (cmdSrem env db argv) := by
  refine succeed_check (isError_replyError _) (fun _ passes => ?_) succeeds
  refine shrink_counts Kind.setKind_counted (fun s => ⟨_, rfl, ?_⟩) passes
  exact sremLoop_size (argv.drop 2) s 0

theorem cmdHdel_takes (succeeds : ¬ IsError (cmdHdel env db argv).2) :
    Takes env db argv (cmdHdel env db argv) := by
  refine succeed_check (isError_replyError _) (fun _ passes => ?_) succeeds
  refine shrink_counts Kind.hashKind_counted (fun h => ⟨_, rfl, ?_⟩) passes
  exact hdelLoop_size (argv.drop 2) h 0

theorem cmdZrem_takes (succeeds : ¬ IsError (cmdZrem env db argv).2) :
    Takes env db argv (cmdZrem env db argv) := by
  refine succeed_check (isError_replyError _) (fun _ passes => ?_) succeeds
  refine shrink_counts Kind.zsetKind_counted (fun z => ⟨_, rfl, ?_⟩) passes
  exact zremLoop_size (argv.drop 2) z 0

theorem cmdDel_counts (succeeds : ¬ IsError (cmdDel env db argv).2) :
    ∃ n : Nat, (cmdDel env db argv).2 = replyInteger n ∧
      dictSize db.d = dictSize (cmdDel env db argv).1.d + n := by
  refine succeed_check (P := fun result => ∃ n : Nat, result.2 = replyInteger n ∧
    dictSize db.d = dictSize result.1.d + n) (isError_replyError _) (fun _ _ => ?_) succeeds
  exact ⟨_, rfl, delLoop_size (argv.drop 1) db 0⟩

/-- **Reply counts are changes of cardinality.** -/
theorem reply_counts (env : Env) (db : Db) (argv : Argv) :
    (¬ IsError (cmdSadd env db argv).2 → Adds env db argv (cmdSadd env db argv)) ∧
    (¬ IsError (cmdHset env db argv).2 → Adds env db argv (cmdHset env db argv)) ∧
    ((zaddFlags (argv.drop 2) ⟨false, false, false, false⟩).1.ch = false →
      (zaddFlags (argv.drop 2) ⟨false, false, false, false⟩).1.incr = false →
      ¬ IsError (cmdZadd env db argv).2 → Adds env db argv (cmdZadd env db argv)) ∧
    (¬ IsError (cmdSrem env db argv).2 → Takes env db argv (cmdSrem env db argv)) ∧
    (¬ IsError (cmdHdel env db argv).2 → Takes env db argv (cmdHdel env db argv)) ∧
    (¬ IsError (cmdZrem env db argv).2 → Takes env db argv (cmdZrem env db argv)) ∧
    (¬ IsError (cmdDel env db argv).2 → ∃ n : Nat, (cmdDel env db argv).2 = replyInteger n ∧
      dictSize db.d = dictSize (cmdDel env db argv).1.d + n) :=
  ⟨cmdSadd_adds, cmdHset_adds, cmdZadd_adds, cmdSrem_takes, cmdHdel_takes, cmdZrem_takes,
    cmdDel_counts⟩

/-- `SADD` with a repeated member on a missing key, and `DEL` of a key named twice. -/
theorem repeated_arguments_count_once :
    Adds sampleEnv (singleStore "a" (.string (text "x"))) (["SADD", "s", "m", "m"].map text)
        (cmdSadd sampleEnv (singleStore "a" (.string (text "x")))
          (["SADD", "s", "m", "m"].map text)) ∧
      ∃ n : Nat, (cmdDel sampleEnv (singleStore "a" (.string (text "x")))
          (["DEL", "a", "a"].map text)).2 = replyInteger n ∧
        dictSize (singleStore "a" (.string (text "x"))).d =
          dictSize (cmdDel sampleEnv (singleStore "a" (.string (text "x")))
            (["DEL", "a", "a"].map text)).1.d + n :=
  ⟨(reply_counts ..).1 (by decide), (reply_counts ..).2.2.2.2.2.2 (by decide)⟩

end Handlers

end Miniredis
