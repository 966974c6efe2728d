/-
**Dictionaries are finite maps.**

A client of `dict.c` makes calls and sees answers. Whatever the hash function and the seed, the
answers are those of a map from keys to values that starts empty, and after any calls the table has
the layout that the lookups rely on (`dict_refines`).
-/

import Miniredis.Lib.HashIterator
import Miniredis.Lib.Machine
import Miniredis.Model.Dict
import Mathlib.Data.Set.Card

namespace Miniredis

open HashTable (Table Iter)

/-- A call on a dictionary. -/
inductive DictCall (α : Type) where
  | set (key : Bytes) (val : α)
  | get (key : Bytes)
  | delete (key : Bytes)

section Calls

variable {α : Type} {hash : Bytes → Seed → UInt64}

/-- What `dict_set`, `dict_get` and `dict_delete` return and leave. -/
def dictCall (d : Table dictPolicy hash α) : DictCall α → Option α × Table dictPolicy hash α
  | .set key val => d.set key val
  | .get key => (d.get key, d)
  | .delete key => d.delete key

/-- The same calls on a map. -/
def mapCall (map : Bytes → Option α) : DictCall α → Option α × (Bytes → Option α)
  | .set key val => (map key, Function.update map key (some val))
  | .get key => (map key, map)
  | .delete key => (map key, Function.update map key none)

/-- One call keeps the table and the map in agreement. -/
theorem dictCall_refines (d : Table dictPolicy hash α) (map : Bytes → Option α) (call : DictCall α)
    (same : d.get = map) :
    (dictCall d call).1 = (mapCall map call).1 ∧
      (dictCall d call).2.get = (mapCall map call).2 := by
  subst same
  cases call with
  | set key val =>
    refine ⟨d.set_fst key val, funext fun other => ?_⟩
    exact (d.get_set key other val).trans (Function.update_apply ..).symm
  | get key => exact ⟨rfl, rfl⟩
  | delete key =>
    refine ⟨d.delete_fst key, funext fun other => ?_⟩
    exact (d.get_delete key other).trans (Function.update_apply ..).symm

/-- The number of entries is the number of keys. -/
theorem used_eq_ncard (d : Table dictPolicy hash α) :
    d.used = Set.ncard { key | (d.get key).isSome } := by
  have keys : { key | (d.get key).isSome } = ((d.pairs.map Prod.fst).toFinset : Set Bytes) := by
    ext key
    rw [Set.mem_ofPred_eq, List.coe_toFinset, Set.mem_ofPred_eq, d.mem_keys]
  rw [keys, Set.ncard_coe_finset, List.toFinset_card_of_nodup d.pairs_nodup, List.length_map,
    d.pairs_length]

/-- The table holds the map, in the layout that the code relies on. -/
structure Represents (d : Table dictPolicy hash α) (map : Bytes → Option α) : Prop where
  get : ∀ key, d.get key = map key
  count : d.used = Set.ncard { key | (map key).isSome }
  size : d.size = 0 ∨ ∃ k, d.size = 16 * 2 ^ k
  placed : ∀ index, ∀ entry ∈ d.chain index,
    index = (hash entry.key d.seed).toNat &&& (d.size - 1)
  load : d.size ≠ 0 → 4 * d.used ≤ 3 * d.size
  /-- A pass of the iterator ends after the last entry and visits every entry once. -/
  pass : ∃ visited, Iter.visit d.toRaw (d.used + 1) .init = some visited ∧
    (visited.map (·.key)).Nodup ∧
    ∀ key val, (∃ entry ∈ visited, entry.key = key ∧ entry.val = val) ↔ map key = some val

/-- The invariant of the table says all of it. -/
theorem represents (d : Table dictPolicy hash α) : Represents d d.get where
  get _ := rfl
  count := used_eq_ncard d
  size := d.wf.shape
  placed index entry member := by
    by_cases inside : index < d.table.length
    · rw [HashTable.Raw.chain_eq inside] at member
      obtain ⟨stored, place⟩ := d.wf.placed index inside entry member
      rw [← place, ← stored]
      rfl
    · rw [HashTable.Raw.chain, List.getD_eq_default _ _ (by omega)] at member
      cases member
  load _ := by
    have bound := d.wf.load
    rw [show dictPolicy.den = 4 from rfl, show dictPolicy.num = 3 from rfl] at bound
    omega
  pass := by
    refine ⟨d.entries, ?_, d.wf.distinct, fun key val => ?_⟩
    · rw [d.wf.count]
      exact Iter.visit_entries d.toRaw
    · exact (HashTable.Raw.get_eq_some_iff d.wf key val).symm

/-- **A dictionary refines a finite map**: whatever the hash and the seed, every call returns what
the map returns, and after any calls the table represents the map. -/
theorem dict_refines (hash : Bytes → Seed → UInt64) (seed : Seed) (calls : List (DictCall α)) :
    (Machine.trace dictCall (Table.create dictPolicy hash seed) calls).1 =
        (Machine.trace mapCall (fun _ => none) calls).1 ∧
      Represents (Machine.trace dictCall (Table.create dictPolicy hash seed) calls).2
        (Machine.trace mapCall (fun _ => none) calls).2 := by
  obtain ⟨answers, same⟩ := Machine.trace_refines
    (R := fun (d : Table dictPolicy hash α) map => d.get = map) dictCall_refines
    (funext fun key => Table.get_create key seed) calls
  refine ⟨answers, ?_⟩
  rw [← same]
  exact represents _

end Calls

end Miniredis
