/-
**`SINTER`, `SUNION` and `SDIFF` compute set algebra (`db.c`).**

What a client sees under a key is a set of members, empty if the key is missing. Under a clock that
stands still the three commands list the intersection, the union and the difference of those sets,
each member once, whatever the tables look like.

* `setArgs_seen_sets` — the argument loop yields the set seen under each key, or stops at another
  type.
* `sinterReply_lists`, `sunionDict_get`, `sdiffReply_lists` — the replies over given tables.
* `set_algebra` — the three commands, and the walks over pointers that `SINTER` and `SDIFF` are.
-/

import Miniredis.Dispatch.SetPointers
import Mathlib.Data.Set.Lattice

namespace Miniredis

/-! ### Replies that list a set -/

section Lists

/-- The members of a table, as a set. -/
def memberSet (s : Dict Unit) : Set Bytes := { member | (s.get member).isSome }

/-- The members of the set of an argument; a missing one is empty. -/
def argSet (set : Option (Dict Unit)) : Set Bytes := { member | ∃ s ∈ set, member ∈ memberSet s }

/-- The reply is an array that has each element of the set once and nothing else. -/
def Lists (reply : Bytes) (A : Set Bytes) : Prop :=
  ∃ l, reply = replyMembers l ∧ l.Nodup ∧ ∀ member, member ∈ l ↔ member ∈ A

variable {s : Dict Unit} {rest : List (Dict Unit)} {sets : List (Option (Dict Unit))}

theorem members_nodup (s : Dict Unit) : (members s).Nodup := HashTable.Table.pairs_nodup ..

theorem lists_empty {A : Set Bytes} (empty : ∀ member, member ∉ A) :
    Lists (replyArrayHeader 0) A :=
  ⟨[], rfl, .nil, fun member => iff_of_false List.not_mem_nil (empty member)⟩

/-- A walk over one table that keeps the members of a test. -/
theorem lists_filter {A : Set Bytes} {keep : Bytes → Bool}
    (same : ∀ member, member ∈ A ↔ (s.get member).isSome ∧ keep member = true) :
    Lists (replyMembers ((members s).filter keep)) A := by
  refine ⟨_, rfl, (members_nodup s).filter keep, fun member => ?_⟩
  rw [List.mem_filter, mem_members, same]

theorem smallestSet_mem (s : Dict Unit) (rest : List (Dict Unit)) :
    smallestSet s rest ∈ s :: rest := by
  induction rest generalizing s with
  | nil => exact List.mem_singleton_self s
  | cons t rest ih =>
    rw [smallestSet]
    have chosen := ih (if dictSize t < dictSize s then t else s)
    split_ifs at chosen ⊢
    · exact List.mem_cons_of_mem _ chosen
    · rcases List.mem_cons.mp chosen with first | later
      · rw [first]
        exact List.mem_cons_self
      · exact List.mem_cons_of_mem _ (List.mem_cons_of_mem _ later)

theorem argSet_some (s : Dict Unit) : argSet (some s) = memberSet s := by
  ext member
  simp [argSet]

theorem mem_argSet {set : Option (Dict Unit)} {member : Bytes} :
    member ∈ argSet set ↔ (set.any fun s => (s.get member).isSome) = true := by
  cases set with
  | none => simp [argSet]
  | some s => exact Iff.of_eq (congrArg (member ∈ ·) (argSet_some s))

/-- **`SINTER` over tables.** The smallest set does not matter: a member of all is in it. -/
theorem sinterReply_lists (some_arg : sets ≠ []) :
    Lists (sinterReply sets) (⋂ set ∈ sets, argSet set) := by
  unfold sinterReply
  by_cases missing : none ∈ sets
  · rw [Block.mapM_missing missing]
    refine lists_empty fun member all => ?_
    obtain ⟨s, there, _⟩ := Set.mem_iInter₂.mp all none missing
    cases there
  · obtain ⟨ss, rfl⟩ := Block.eq_map_some missing
    rw [Block.mapM_written]
    cases ss with
    | nil => exact absurd rfl some_arg
    | cons s rest =>
      refine lists_filter fun member => ?_
      have least := smallestSet_mem s rest
      simp only [List.all_eq_true, Set.mem_iInter₂, List.mem_map, forall_exists_index, and_imp,
        forall_apply_eq_imp_iff₂, argSet_some]
      exact ⟨fun all => ⟨all _ least, all⟩, fun both => both.2⟩

theorem foldl_set_get (l : List Bytes) (u : Dict Unit) (member : Bytes) :
    ((l.foldl (fun u member => (u.set member ()).2) u).get member).isSome ↔
      member ∈ l ∨ (u.get member).isSome := by
  induction l generalizing u with
  | nil => simp
  | cons first rest ih =>
    rw [List.foldl_cons, ih, HashTable.Table.get_set, List.mem_cons]
    by_cases same : member = first
    · simp [same]
    · simp [same]

theorem foldl_union_get (sets : List (Option (Dict Unit))) (u : Dict Unit) (member : Bytes) :
    ((sets.foldl (fun u s => ((s.map members).getD []).foldl
        (fun u member => (u.set member ()).2) u) u).get member).isSome ↔
      (∃ set ∈ sets, member ∈ argSet set) ∨ (u.get member).isSome := by
  induction sets generalizing u with
  | nil => simp
  | cons first rest ih =>
    have here : member ∈ (first.map members).getD [] ↔ member ∈ argSet first := by
      cases first with
      | none => simp [argSet]
      | some s => exact mem_members.trans (by rw [argSet_some]; rfl)
    rw [List.foldl_cons, ih, foldl_set_get, here, List.exists_mem_cons_iff, or_left_comm,
      or_assoc]

/-- **`SUNION` over tables.** -/
theorem sunionDict_get (seed : Seed) (sets : List (Option (Dict Unit))) :
    memberSet (sunionDict seed sets) = ⋃ set ∈ sets, argSet set := by
  ext member
  rw [Set.mem_iUnion₂]
  refine (foldl_union_get sets (dictCreate seed) member).trans ?_
  rw [dictCreate_get]
  simp

/-- **`SDIFF` over tables.** -/
theorem sdiffReply_lists (first : Option (Dict Unit)) (others : List (Option (Dict Unit))) :
    Lists (sdiffReply (first :: others)) (argSet first \ ⋃ set ∈ others, argSet set) := by
  cases first with
  | none =>
    refine lists_empty fun member inside => ?_
    obtain ⟨s, there, _⟩ := inside.1
    cases there
  | some s =>
    refine lists_filter fun member => ?_
    rw [argSet_some, Set.mem_sdiff, Set.mem_iUnion₂]
    refine and_congr_right fun _ => ?_
    rw [Bool.not_eq_true', ← Bool.not_eq_true, List.any_eq_true]
    simp only [mem_argSet, exists_prop]

end Lists

/-! ### Keys -/

section Keys

variable {env : Env} {db : Db} {t : Int} {keys : List Bytes}

/-- The set a client sees under a key. -/
def seenSet (t : Int) (db : Db) (key : Bytes) : Option (Dict Unit) :=
  (live t db key).bind fun o => setKind.unwrap o.val

/-- Its members. -/
def membersAt (t : Int) (db : Db) (key : Bytes) : Set Bytes := argSet (seenSet t db key)

/-- The key holds a value that is no set. -/
def HoldsOther (t : Int) (db : Db) (key : Bytes) : Prop :=
  ∃ o, live t db key = some o ∧ setKind.unwrap o.val = none

theorem setPtrs_other {now : Nat → Int} (stopped : ∀ i, now i = t) :
    (setPtrs now 0 keys db).1 = none ↔ ∃ key ∈ keys, HoldsOther t db key := by
  rw [setPtrs_wrong (fun i j _ => (by rw [stopped, stopped]))]
  constructor
  · rintro ⟨j, key, o, there, found, wrong⟩
    rw [stopped] at found
    exact ⟨key, List.mem_of_getElem? there, o, found, wrong⟩
  · rintro ⟨key, held, o, found, wrong⟩
    obtain ⟨j, there⟩ := List.getElem?_of_mem held
    exact ⟨j, key, o, there, by rwa [stopped], wrong⟩

/-- The argument loop under a clock that stands still. -/
theorem setArgs_seen_sets {now : Nat → Int} (stopped : ∀ i, now i = t)
    (typed : ∀ key ∈ keys, ¬ HoldsOther t db key) :
    (setArgs now 0 keys db).1 = some (keys.map (seenSet t db)) := by
  have rising : Monotone now := fun i j _ => by rw [stopped, stopped]
  rw [setArgs_eq]
  cases read : (setPtrs now 0 keys db).1 with
  | none =>
    obtain ⟨key, held, wrong⟩ := (setPtrs_other stopped).mp read
    exact absurd wrong (typed key held)
  | some ptrs =>
    have all : ptrs = keys.map fun key => (live t db key).map fun _ => key := by
      refine List.ext_getElem? fun j => ?_
      rw [setPtrs_get rising read, List.getElem?_map, stopped]
    refine congrArg some ?_
    rw [all, List.map_map]
    refine List.map_congr_left fun key _ => ?_
    rw [Function.comp_apply, seenSet]
    cases found : live t db key with
    | none => rw [Option.map_none, Option.bind_none, Option.bind_none]
    | some o =>
      rw [Option.map_some, Option.bind_some, Option.bind_some, setAt,
        (Option.filter_eq_some_iff.mp found).1, Option.bind_some]

/-- A set operation on sets. -/
theorem setOperation_sets (stopped : ∀ i, env.now i = t) (name word first : Bytes)
    (rest : List Bytes) (reply : Seed → List (Option (Dict Unit)) → Bytes)
    (typed : ∀ key ∈ first :: rest, ¬ HoldsOther t db key) :
    (setOperation name reply env db (word :: first :: rest)).2 =
      reply env.seed ((first :: rest).map (seenSet t db)) := by
  have args := setArgs_seen_sets stopped typed
  unfold setOperation
  rw [if_neg (by simp)]
  simp only [List.drop_succ_cons, List.drop_zero]
  generalize setArgs env.now 0 (first :: rest) db = collected at args ⊢
  obtain ⟨sets, after⟩ := collected
  obtain rfl : sets = _ := args
  rfl

/-- A set operation on something else. -/
theorem setOperation_other (stopped : ∀ i, env.now i = t) (name word first : Bytes)
    (rest : List Bytes) (reply : Seed → List (Option (Dict Unit)) → Bytes)
    (wrong : ∃ key ∈ first :: rest, HoldsOther t db key) :
    (setOperation name reply env db (word :: first :: rest)).2 = replyWrongtype := by
  have args : (setArgs env.now 0 (first :: rest) db).1 = none := by
    rw [setArgs_eq, (setPtrs_other stopped).mpr wrong]
    rfl
  unfold setOperation
  rw [if_neg (by simp)]
  simp only [List.drop_succ_cons, List.drop_zero]
  generalize setArgs env.now 0 (first :: rest) db = collected at args ⊢
  obtain ⟨sets, after⟩ := collected
  obtain rfl : sets = none := args
  rfl

end Keys

/-! ### The commands -/

section Commands

/-- **The set commands compute set algebra.** -/
theorem set_algebra (env : Env) (db : Db) (t : Int) (stopped : ∀ i, env.now i = t)
    (word first : Bytes) (rest : List Bytes) :
    ((∀ key ∈ first :: rest, ¬ HoldsOther t db key) →
      Lists (cmdSinter env db (word :: first :: rest)).2
        (⋂ key ∈ first :: rest, membersAt t db key) ∧
      Lists (cmdSunion env db (word :: first :: rest)).2
        (⋃ key ∈ first :: rest, membersAt t db key) ∧
      Lists (cmdSdiff env db (word :: first :: rest)).2
        (membersAt t db first \ ⋃ key ∈ rest, membersAt t db key)) ∧
    ((∃ key ∈ first :: rest, HoldsOther t db key) →
      (cmdSinter env db (word :: first :: rest)).2 = replyWrongtype ∧
      (cmdSunion env db (word :: first :: rest)).2 = replyWrongtype ∧
      (cmdSdiff env db (word :: first :: rest)).2 = replyWrongtype) ∧
    walkSinter env db (word :: first :: rest) =
      some (cmdSinter env db (word :: first :: rest)) ∧
    walkSdiff env db (word :: first :: rest) = some (cmdSdiff env db (word :: first :: rest)) := by
  refine ⟨fun typed => ⟨?_, ?_, ?_⟩, fun wrong => ⟨?_, ?_, ?_⟩, walkSinter_eq env db _, ?_⟩
  · rw [cmdSinter, setOperation_sets stopped _ _ _ _ _ typed]
    have lists := @sinterReply_lists ((first :: rest).map (seenSet t db)) (by simp)
    simp only [List.mem_map, Set.iInter_exists, Set.biInter_and', Set.iInter_iInter_eq_right]
      at lists
    exact lists
  · rw [cmdSunion, setOperation_sets stopped _ _ _ _ _ typed]
    refine ⟨members (sunionDict env.seed ((first :: rest).map (seenSet t db))), ?_,
      members_nodup _, fun member => ?_⟩
    · rw [replyMembers, length_members]
    · have union := sunionDict_get env.seed ((first :: rest).map (seenSet t db))
      simp only [List.mem_map, Set.iUnion_exists, Set.biUnion_and', Set.iUnion_iUnion_eq_right]
        at union
      exact mem_members.trans (Set.ext_iff.mp union member)
  · rw [cmdSdiff, setOperation_sets stopped _ _ _ _ _ typed, List.map_cons]
    have lists := sdiffReply_lists (seenSet t db first) (rest.map (seenSet t db))
    simp only [List.mem_map, Set.iUnion_exists, Set.biUnion_and', Set.iUnion_iUnion_eq_right]
      at lists
    exact lists
  · exact setOperation_other stopped _ _ _ _ _ wrong
  · exact setOperation_other stopped _ _ _ _ _ wrong
  · exact setOperation_other stopped _ _ _ _ _ wrong
  · have rising : Monotone env.now := fun i j _ => by rw [stopped, stopped]
    obtain ⟨result, done⟩ := Option.ne_none_iff_exists'.mp
      (mt (walkSdiff_none env db _ rising).mp (not_usesFreed stopped))
    rw [done, walkSdiff_refines done]

/-- A set without itself. -/
theorem sdiff_of_itself :
    let db := singleStore "a" (.set ((dictCreate sampleSeed).set (text "x") ()).2)
    (∀ key ∈ [text "a", text "a"], ¬ HoldsOther 0 db key) ∧
      Lists (cmdSdiff sampleEnv db [text "sdiff", text "a", text "a"]).2
        (membersAt 0 db (text "a") \ ⋃ key ∈ [text "a"], membersAt 0 db key) := by
  intro db
  have typed : ∀ key ∈ [text "a", text "a"], ¬ HoldsOther 0 db key := by
    rintro key held ⟨o, found, wrong⟩
    obtain rfl : key = text "a" := by simpa using held
    rw [live_singleStore] at found
    obtain rfl := Option.some.inj found
    cases wrong
  exact ⟨typed, ((set_algebra sampleEnv db 0 (fun _ => rfl) _ _ _).1 typed).2.2⟩

end Commands

end Miniredis
