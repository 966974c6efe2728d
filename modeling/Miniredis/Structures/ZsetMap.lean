/-
**The dictionary and the skiplist of a sorted set agree.**

`zset_add` and `zset_remove` update the two one after the other, freeing and allocating nodes on the
way. `Backs` relates the pair to the sorted set that the commands are modelled on; each operation
keeps it.

* `LinkedZset.add_backs`, `LinkedZset.remove_backs` — the operations in memory refine those on
  `Zset`.
* `zset_agrees` — after any calls both structures describe one finite map from members to scores,
  and the calls return what that map says.
-/

import Miniredis.Lib.Machine
import Miniredis.Structures.Skiplist
import Mathlib.Data.Set.Card

namespace Miniredis

open Function (update update_apply update_of_ne update_self)
open Skiplist (Chain header)

theorem Zset.put_erase (z : Zset) (score : Double) (member : Bytes) :
    (z.erase member).put score member = z.put score member := by
  have same : ((z.erase member).put score member).nodes = (z.put score member).nodes := by
    show zslInsert _ ((z.erase member).erase member).nodes = zslInsert _ (z.erase member).nodes
    simp [Zset.erase, List.filter_filter]
  generalize (z.erase member).put score member = first at same
  generalize z.put score member = second at same
  cases first
  cases second
  cases same
  rfl

/-- The object in memory backs the sorted set, with its nodes in order. -/
structure Backs (zs : LinkedZset) (z : Zset) (nodes : List Nat) : Prop where
  ordered : Ordered zs.zsl nodes
  items : nodes.map zs.zsl.item = z.nodes
  dict : ∀ member n, zs.dict.get member = some n ↔
    n ∈ nodes ∧ (zs.zsl.item n).member = member

section Backs

variable {zs : LinkedZset} {z : Zset} {nodes : List Nat} {member : Bytes} {score : Double}

theorem Backs.create (seed : Seed) : Backs (.create seed) zsetCreate [] :=
  ⟨.create, rfl, fun member n => by simp [LinkedZset.create]⟩

/-- A lookup finds the score of the member's node. -/
theorem Backs.score_eq (backs : Backs zs z nodes) (member : Bytes) :
    zs.score member = zsetScore z member := by
  ext found
  rw [score_eq_some_iff, ← backs.items, List.mem_map, LinkedZset.score, Option.map_eq_some_iff]
  refine exists_congr fun n => ?_
  rw [backs.dict, and_assoc]
  refine and_congr_right fun _ => ?_
  rw [ZNode.mk.injEq, and_comm]

/-- A member without an entry has no node. -/
theorem Backs.absent (backs : Backs zs z nodes) (none : zs.dict.get member = none) :
    ∀ n ∈ nodes, (zs.zsl.item n).member ≠ member := by
  intro n inside same
  have entry := (backs.dict member n).mpr ⟨inside, same⟩
  rw [none] at entry
  cases entry

/-- **A new member gets a node and an entry.** -/
theorem LinkedZset.link_backs (backs : Backs zs z nodes) (none : zs.dict.get member = none)
    (number : score.isNaN = false) (rand : Nat → Nat) :
    ∃ nodes', Backs (zs.link score member rand).2 (z.put score member) nodes' := by
  have absent := backs.absent none
  obtain ⟨left, right, rfl, address, ordered, items⟩ :=
    Zsl.insert_ordered backs.ordered number absent rand
  have whole : (z.erase member).nodes = z.nodes := by
    refine List.filter_eq_self.mpr fun node inside => ?_
    rw [← backs.items] at inside
    obtain ⟨n, here, rfl⟩ := List.mem_map.mp inside
    simpa using absent n here
  refine ⟨left ++ zs.zsl.fresh :: right, ordered, ?_, fun other n => ?_⟩
  · show _ = zslInsert ⟨score, member⟩ (z.erase member).nodes
    rw [whole, ← backs.items]
    exact items
  · show (zs.dict.set member zs.zsl.fresh).2.get other = some n ↔ _ ∧
      (update zs.zsl.item zs.zsl.fresh ⟨score, member⟩ n).member = other
    have outside : zs.zsl.fresh ∉ left ++ right := fun inside =>
      backs.ordered.layout.fresh_notMem (List.mem_cons_of_mem _ inside)
    rw [HashTable.Table.get_set]
    by_cases new : n = zs.zsl.fresh
    · subst new
      rw [update_self]
      split
      · rename_i same
        simp [same]
      · rename_i ne
        rw [backs.dict]
        exact ⟨fun both => absurd both.1 outside, fun both => absurd both.2.symm ne⟩
    · have inside : n ∈ left ++ zs.zsl.fresh :: right ↔ n ∈ left ++ right := by simp [new]
      rw [update_of_ne new, inside, ← backs.dict]
      split
      · rename_i same
        rw [same, none]
        simp [eq_comm, new]
      · rfl

/-- **A member that goes loses its node and its entry.** -/
theorem LinkedZset.unlink_backs {n : Nat} (backs : Backs zs z nodes)
    (entry : zs.dict.get member = some n) :
    ∃ nodes', Backs (zs.unlink n member) (z.erase member) nodes' := by
  obtain ⟨inside, own⟩ := (backs.dict member n).mp entry
  have number := backs.ordered.numbers n inside
  have distinct : (nodes.map fun q => (zs.zsl.item q).member).Nodup := by
    have distinct := z.distinct
    rwa [← backs.items, List.map_map] at distinct
  rcases Zsl.delete_ordered backs.ordered (zs.zsl.item n).score (zs.zsl.item n).member with
    ⟨left, q, right, rfl, found, _, kept, ordered⟩ | ⟨missed, _⟩
  · have same : (zs.zsl.item q).member = member := (zslFound_iff.mp found).2.trans own
    rw [List.map_append, List.map_cons, same] at distinct
    have others : ∀ p ∈ left ++ right, (zs.zsl.item p).member ≠ member := by
      intro p there equal
      have repeated := (List.perm_middle.nodup_iff.mp distinct)
      refine (List.nodup_cons.mp repeated).1 ?_
      rw [← List.map_append, ← equal]
      exact List.mem_map_of_mem there
    refine ⟨left ++ right, ordered, ?_, fun other p => ?_⟩
    · show (left ++ right).map (zs.zsl.delete _ _).2.item = z.nodes.filter _
      rw [kept, ← backs.items, List.map_append, List.map_append, List.map_cons, List.filter_append,
        List.filter_cons_of_neg (by simp [same]), ← List.filter_append, ← List.map_append]
      symm
      refine List.filter_eq_self.mpr fun node there => ?_
      obtain ⟨p, here, rfl⟩ := List.mem_map.mp there
      simpa using others p here
    · show (zs.dict.delete member).2.get other = some p ↔ _ ∧
        ((zs.zsl.delete _ _).2.item p).member = other
      rw [kept, HashTable.Table.get_delete]
      split
      · rename_i equal
        subst equal
        exact iff_of_false (by rintro ⟨⟩) fun both => others p both.1 both.2
      · rename_i ne
        rw [backs.dict]
        refine and_congr_left fun equal => ?_
        have apart : p ≠ q := fun hit => ne (equal.symm.trans (hit ▸ same))
        simp [apart]
  · have found : zslFound (zs.zsl.item n).score (zs.zsl.item n).member (zs.zsl.item n) = true :=
      zslFound_iff.mpr ⟨by simp [Double.eq, number], rfl⟩
    rw [missed n inside] at found
    cases found

/-- **`zset_add` in memory refines `zset_add` on the sorted set.** -/
theorem LinkedZset.add_backs (backs : Backs zs z nodes) (number : score.isNaN = false)
    (member : Bytes) (rand : Nat → Nat) :
    (zs.add score member rand).1 = (zsetAdd z score member).1 ∧
      ∃ nodes', Backs (zs.add score member rand).2.2 (zsetAdd z score member).2 nodes' := by
  have found := backs.score_eq member
  unfold LinkedZset.add zsetAdd
  rw [← found, LinkedZset.score]
  cases entry : zs.dict.get member with
  | none => exact ⟨rfl, LinkedZset.link_backs backs entry number rand⟩
  | some n =>
    simp only [Option.map_some]
    split
    · exact ⟨rfl, nodes, backs⟩
    · refine ⟨rfl, ?_⟩
      obtain ⟨rest, after⟩ := LinkedZset.unlink_backs backs entry
      have gone : (zs.unlink n member).dict.get member = none := by
        show (zs.dict.delete member).2.get member = none
        rw [HashTable.Table.get_delete, if_pos rfl]
      obtain ⟨nodes', linked⟩ := LinkedZset.link_backs after gone number rand
      exact ⟨nodes', Zset.put_erase z score member ▸ linked⟩

/-- **`zset_remove` in memory refines `zset_remove` on the sorted set.** -/
theorem LinkedZset.remove_backs (backs : Backs zs z nodes) (member : Bytes) :
    ((zs.remove member).1 = if (zsetRemove z member).1 then 1 else 0) ∧
      ∃ nodes', Backs (zs.remove member).2 (zsetRemove z member).2 nodes' := by
  have found := backs.score_eq member
  unfold LinkedZset.remove zsetRemove
  rw [← found, LinkedZset.score]
  cases entry : zs.dict.get member with
  | none => exact ⟨rfl, nodes, backs⟩
  | some n => exact ⟨rfl, LinkedZset.unlink_backs backs entry⟩

end Backs

/-! ### Whole runs -/

/-- A call on a sorted set; no score is a NaN. -/
inductive ZsetCall where
  | add (score : Double) (number : score.isNaN = false) (member : Bytes) (rand : Nat → Nat)
  | remove (member : Bytes)

/-- What `zset_add` and `zset_remove` return and leave. -/
def zsetCall (zs : LinkedZset) : ZsetCall → Nat × LinkedZset
  | .add score _ member rand => ((zs.add score member rand).1, (zs.add score member rand).2.2)
  | .remove member => zs.remove member

/-- The same calls on a map from members to scores: `1` for a member it does not have, `2` for one
with another score and `0`, leaving the map alone, for one with an equal score. -/
def scoreCall (map : Bytes → Option Double) : ZsetCall → Nat × (Bytes → Option Double)
  | .add score _ member _ =>
    match map member with
    | none => (1, update map member (some score))
    | some old =>
      if old.eq score then (0, map) else (2, update map member (some score))
  | .remove member =>
    match map member with
    | none => (0, map)
    | some _ => (1, update map member none)

section Run

variable {zs : LinkedZset} {z : Zset} {nodes : List Nat}

/-- One call, on the object and on the map. -/
theorem zsetCall_refines (zs : LinkedZset) (map : Bytes → Option Double) (call : ZsetCall)
    (related : ∃ z nodes, Backs zs z nodes ∧ zsetScore z = map) :
    (zsetCall zs call).1 = (scoreCall map call).1 ∧
      ∃ z nodes, Backs (zsetCall zs call).2 z nodes ∧ zsetScore z = (scoreCall map call).2 := by
  obtain ⟨z, nodes, backs, rfl⟩ := related
  cases call with
  | add score number member rand =>
    obtain ⟨code, nodes', after⟩ := LinkedZset.add_backs backs number member rand
    cases found : zsetScore z member with
    | none =>
      refine ⟨code.trans ?_, _, nodes', after, funext fun other => ?_⟩
      · simp only [zsetAdd, scoreCall, found]
      · simp only [score_add, scoreCall, found]
        exact (update_apply ..).symm
    | some old =>
      by_cases equal : old.eq score = true
      · refine ⟨code.trans ?_, _, nodes', after, funext fun other => ?_⟩
        · simp only [zsetAdd, scoreCall, found, equal, if_true]
        · simp only [score_add, scoreCall, found, equal, if_true]
          split
          · rename_i same
            rw [same, found]
          · rfl
      · refine ⟨code.trans ?_, _, nodes', after, funext fun other => ?_⟩
        · simp only [zsetAdd, scoreCall, found, equal, if_false, Bool.false_eq_true]
        · simp only [score_add, scoreCall, found, equal, if_false, Bool.false_eq_true]
          exact (update_apply ..).symm
  | remove member =>
    obtain ⟨code, nodes', after⟩ := LinkedZset.remove_backs backs member
    cases found : zsetScore z member with
    | none =>
      refine ⟨code.trans ?_, _, nodes', after, funext fun other => ?_⟩
      · simp only [zsetRemove, scoreCall, found, Bool.false_eq_true, if_false]
      · simp only [score_remove, scoreCall, found]
        split
        · rename_i same
          rw [same, found]
        · rfl
    | some old =>
      refine ⟨code.trans ?_, _, nodes', after, funext fun other => ?_⟩
      · simp only [zsetRemove, scoreCall, found, if_true]
      · simp only [score_remove, scoreCall, found]
        exact (update_apply ..).symm

/-- The length of a sorted set is the number of members with a score. -/
theorem zsetLen_eq_ncard (z : Zset) :
    zsetLen z = Set.ncard { member | (zsetScore z member).isSome } := by
  have members : { member | (zsetScore z member).isSome } =
      ((z.nodes.map ZNode.member).toFinset : Set Bytes) := by
    ext member
    rw [Set.mem_ofPred_eq, List.coe_toFinset, Set.mem_ofPred_eq, Option.isSome_iff_exists,
      List.mem_map]
    constructor
    · rintro ⟨score, found⟩
      exact ⟨_, (score_eq_some_iff z member score).mp found, rfl⟩
    · rintro ⟨node, inside, rfl⟩
      exact ⟨node.score, (score_eq_some_iff z node.member node.score).mpr inside⟩
  rw [members, Set.ncard_coe_finset, List.toFinset_card_of_nodup z.distinct, List.length_map]
  rfl

/-- Both structures describe the map, through the nodes of the skiplist. -/
structure Agrees (zs : LinkedZset) (nodes : List Nat) (map : Bytes → Option Double) : Prop where
  chain : Chain (zs.zsl.lane 0) header nodes
  dict : ∀ member n, zs.dict.get member = some n ↔
    n ∈ nodes ∧ (zs.zsl.item n).member = member
  distinct : (nodes.map fun n => (zs.zsl.item n).member).Nodup
  score : ∀ member, zs.score member = map member
  len : zs.len = UInt64.ofNat (Set.ncard { member | (map member).isSome })

theorem Backs.agrees (backs : Backs zs z nodes) : Agrees zs nodes (zsetScore z) where
  chain := backs.ordered.invariant.bottom
  dict := backs.dict
  distinct := by
    have distinct := z.distinct
    rwa [← backs.items, List.map_map] at distinct
  score := backs.score_eq
  len := by
    rw [← zsetLen_eq_ncard, zsetLen, ← backs.items, List.length_map]
    exact backs.ordered.layout.length

/-- **After any calls the dictionary and the skiplist describe one map**, and every call returns
what the map says. -/
theorem zset_agrees (seed : Seed) (calls : List ZsetCall) :
    (Machine.trace zsetCall (.create seed) calls).1 =
        (Machine.trace scoreCall (fun _ => none) calls).1 ∧
      ∃ nodes, Agrees (Machine.trace zsetCall (.create seed) calls).2 nodes
        (Machine.trace scoreCall (fun _ => none) calls).2 := by
  obtain ⟨answers, z, nodes, backs, same⟩ := Machine.trace_refines
    (R := fun zs map => ∃ z nodes, Backs zs z nodes ∧ zsetScore z = map) zsetCall_refines
    ⟨zsetCreate, [], .create seed, funext score_create⟩ calls
  refine ⟨answers, nodes, ?_⟩
  rw [← same]
  exact backs.agrees

end Run

end Miniredis
