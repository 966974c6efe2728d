/-
**The periodic expiry (`db_expire_cycle`).**

A cycle walks whole buckets from a cursor on, until it has examined enough entries or has come to
the end of the table. Deleting entries never resizes the table, so the buckets of the keys stay.

* `expireBucket_sweeps`, `expireLoop_sweeps` — which keys one bucket and one cycle take out.
* `expire_cycle_sweeps` — a cycle removes expired entries only and keeps its cursor in the table;
  as many cycles as there are buckets leave exactly the entries that are not expired.
-/

import Miniredis.Dispatch.Expiration
import Miniredis.Lib.Machine

namespace Miniredis

open HashTable (Table)

/-! ### Swept tables -/

section Swept

variable {t : Int} {d d' d'' : Dict Robj}

/-- The table after the buckets at some places were swept. -/
structure Swept (t : Int) (places : Set Nat) (d d' : Dict Robj) : Prop where
  size : d'.size = d.size
  bucket : ∀ key, d'.bucket key = d.bucket key
  inside : ∀ key, d.bucket key ∈ places →
    d'.get key = (d.get key).filter fun o => !keyExpired t o
  outside : ∀ key, d.bucket key ∉ places → d'.get key = d.get key

theorem Swept.refl (t : Int) (d : Dict Robj) : Swept t ∅ d d :=
  ⟨rfl, fun _ => rfl, fun _ absurdly => absurdly.elim, fun _ _ => rfl⟩

/-- Swept twice is swept once. -/
theorem filter_filter_expired (found : Option Robj) :
    (found.filter fun o => !keyExpired t o).filter (fun o => !keyExpired t o) =
      found.filter fun o => !keyExpired t o := by
  cases found with
  | none => rfl
  | some o =>
    rw [Option.filter_some]
    split_ifs with alive
    · rw [Option.filter_some, if_pos alive]
    · rfl

theorem Swept.trans {places more : Set Nat} (first : Swept t places d d')
    (second : Swept t more d' d'') : Swept t (places ∪ more) d d'' := by
  refine ⟨second.size.trans first.size, fun key => (second.bucket key).trans (first.bucket key),
    fun key member => ?_, fun key absent => ?_⟩
  · by_cases later : d'.bucket key ∈ more
    · rw [second.inside key later]
      by_cases earlier : d.bucket key ∈ places
      · rw [first.inside key earlier, filter_filter_expired]
      · rw [first.outside key earlier]
    · have earlier : d.bucket key ∈ places := by
        rw [first.bucket key] at later
        exact member.resolve_right later
      rw [second.outside key later, first.inside key earlier]
  · rw [Set.mem_union, not_or, ← first.bucket key] at absent
    rw [second.outside key absent.2, first.outside key (first.bucket key ▸ absent.1)]

/-- A swept table holds what it held, less some expired entries. -/
theorem Swept.get_cases {places : Set Nat} (swept : Swept t places d d') (key : Bytes) :
    d'.get key = d.get key ∨
      d'.get key = none ∧ ∃ o, d.get key = some o ∧ keyExpired t o = true := by
  by_cases member : d.bucket key ∈ places
  · rw [swept.inside key member]
    cases d.get key with
    | none => exact .inl rfl
    | some o =>
      rw [Option.filter_some]
      cases expired : keyExpired t o with
      | false => exact .inl rfl
      | true => exact .inr ⟨rfl, o, rfl, expired⟩
  · exact .inl (swept.outside key member)

end Swept

/-! ### One cycle -/

section Cycle

variable {t : Int}

theorem expireBucket_size (chain : List (HashTable.Entry Bytes Robj)) (n : Nat) (d : Dict Robj) :
    (expireBucket (fun _ => t) n chain d).2.size = d.size ∧
      ∀ key, (expireBucket (fun _ => t) n chain d).2.bucket key = d.bucket key := by
  induction chain generalizing n d with
  | nil => exact ⟨rfl, fun _ => rfl⟩
  | cons entry rest ih =>
    unfold expireBucket
    obtain ⟨size, bucket⟩ := ih (n + 1)
      (if keyExpired t entry.val then (d.delete entry.key).2 else d)
    rw [size]
    refine ⟨?_, fun key => (bucket key).trans ?_⟩
    · split_ifs
      · exact d.size_delete _
      · rfl
    · split_ifs
      · exact d.bucket_delete _ _
      · rfl

/-- A walk over a chain deletes the keys of its expired entries. -/
theorem expireBucket_deletes (chain : List (HashTable.Entry Bytes Robj)) (n : Nat) (d : Dict Robj)
    (key : Bytes) :
    ((∃ entry ∈ chain, entry.key = key ∧ keyExpired t entry.val = true) →
        (expireBucket (fun _ => t) n chain d).2.get key = none) ∧
      ((∀ entry ∈ chain, entry.key = key → keyExpired t entry.val = false) →
        (expireBucket (fun _ => t) n chain d).2.get key = d.get key) := by
  induction chain generalizing n d with
  | nil => exact ⟨fun ⟨_, member, _⟩ => absurd member List.not_mem_nil, fun _ => rfl⟩
  | cons entry rest ih =>
    unfold expireBucket
    obtain ⟨gone, stays⟩ := ih (n + 1)
      (if keyExpired t entry.val then (d.delete entry.key).2 else d)
    refine ⟨?_, fun fresh => ?_⟩
    · rintro ⟨other, member, same, expired⟩
      by_cases later : ∃ entry ∈ rest, entry.key = key ∧ keyExpired t entry.val = true
      · exact gone later
      · -- only the first entry is expired, and nothing puts its key back
        have first : other = entry := by
          refine (List.mem_cons.mp member).resolve_right fun inside => later ?_
          exact ⟨other, inside, same, expired⟩
        subst first
        rw [stays fun entry inside equal => ?_, if_pos expired]
        · exact (Table.get_delete ..).trans (if_pos same.symm)
        · rw [Bool.eq_false_iff]
          exact fun lapsed => later ⟨entry, inside, equal, lapsed⟩
    · rw [stays fun other member => fresh other (List.mem_cons_of_mem _ member)]
      by_cases expired : keyExpired t entry.val = true
      · have other : key ≠ entry.key := fun same => by
          rw [fresh entry List.mem_cons_self same.symm] at expired
          cases expired
        rw [if_pos expired, Table.get_delete, if_neg other]
      · rw [if_neg expired]

/-- **One bucket.** -/
theorem expireBucket_sweeps (n place : Nat) (d : Dict Robj) :
    Swept t {place} d (expireBucket (fun _ => t) n (d.chain place) d).2 := by
  obtain ⟨size, bucket⟩ := expireBucket_size (t := t) (d.chain place) n d
  refine ⟨size, bucket, fun key here => ?_, fun key away => ?_⟩
  · obtain ⟨gone, stays⟩ := expireBucket_deletes (t := t) (d.chain place) n d key
    have alone (entry : HashTable.Entry Bytes Robj) (member : entry ∈ d.chain place)
        (same : entry.key = key) : d.get key = some entry.val :=
      same ▸ d.get_of_mem_chain member
    cases found : d.get key with
    | none =>
      rw [stays fun entry member same => ?_, found]
      · rfl
      · rw [alone entry member same] at found
        cases found
    | some o =>
      obtain ⟨entry, member, same, rfl⟩ := d.mem_chain_of_get key o found
      rw [show d.bucket key = place from here] at member
      rw [Option.filter_some]
      cases expired : keyExpired t entry.val with
      | true => exact gone ⟨entry, member, same, expired⟩
      | false =>
        rw [stays fun other inside equal => ?_, found]
        · rfl
        · have twin := alone other inside equal
          rw [found] at twin
          rwa [← Option.some.inj twin]
  · refine (expireBucket_deletes (t := t) (d.chain place) n d key).2 fun entry member same => ?_
    rw [← same] at away
    exact absurd (d.bucket_of_mem_chain member) away

/-- **The bucket loop.** -/
theorem expireLoop_sweeps (fuel n cursor : Nat) (d : Dict Robj) (enough : cursor + fuel = d.size) :
    ∃ stop, (expireLoop (fun _ => t) fuel n cursor d).1 = stop ∧ cursor ≤ stop ∧ stop ≤ d.size ∧
      (n < expireCycleMaxKeys → cursor < d.size → cursor < stop) ∧
      Swept t (Set.Ico cursor stop) d (expireLoop (fun _ => t) fuel n cursor d).2 := by
  induction fuel generalizing n cursor d with
  | zero =>
    refine ⟨cursor, rfl, le_refl _, by omega, fun _ inside => by omega, ?_⟩
    rw [Set.Ico_self]
    exact .refl t d
  | succ fuel ih =>
    unfold expireLoop
    by_cases goes : n < expireCycleMaxKeys ∧ cursor < d.size
    · rw [if_pos goes]
      have first := expireBucket_sweeps (t := t) n cursor d
      obtain ⟨stop, ended, low, high, -, rest⟩ := ih
        (expireBucket (fun _ => t) n (d.chain cursor) d).1 (cursor + 1)
        (expireBucket (fun _ => t) n (d.chain cursor) d).2 (by rw [first.size]; omega)
      refine ⟨stop, ended, by omega, first.size ▸ high, fun _ _ => by omega, ?_⟩
      have places : ({cursor} : Set Nat) ∪ Set.Ico (cursor + 1) stop = Set.Ico cursor stop := by
        ext i
        simp only [Set.mem_union, Set.mem_singleton_iff, Set.mem_Ico]
        omega
      rw [← places]
      exact first.trans rest
    · rw [if_neg goes]
      refine ⟨cursor, rfl, le_refl _, by omega, fun few inside => absurd ⟨few, inside⟩ goes, ?_⟩
      rw [Set.Ico_self]
      exact .refl t d

/-- Where a cycle starts. -/
def startOf (db : Db) : Nat := if db.expireCursor ≥ db.d.size then 0 else db.expireCursor

/-- **One cycle** on a table with buckets. -/
theorem dbExpireCycle_sweeps (db : Db) (allocated : db.d.size ≠ 0) :
    ∃ stop, startOf db < stop ∧ stop ≤ db.d.size ∧
      (dbExpireCycle (fun _ => t) db).expireCursor = stop % db.d.size ∧
      Swept t (Set.Ico (startOf db) stop) db.d (dbExpireCycle (fun _ => t) db).d := by
  have inside : startOf db < db.d.size := by
    unfold startOf
    split_ifs <;> omega
  obtain ⟨stop, ended, -, high, goes, swept⟩ := expireLoop_sweeps (t := t)
    (db.d.size - startOf db) 0 (startOf db) db.d (by omega)
  refine ⟨stop, goes (by decide) inside, high, ?_, ?_⟩
  · unfold dbExpireCycle
    rw [if_neg allocated]
    show (if (expireLoop (fun _ => t) (db.d.size - startOf db) 0 (startOf db) db.d).1 ≥
      (expireLoop (fun _ => t) (db.d.size - startOf db) 0 (startOf db) db.d).2.size then 0 else
      (expireLoop (fun _ => t) (db.d.size - startOf db) 0 (startOf db) db.d).1) = _
    rw [ended, swept.size]
    by_cases last : stop = db.d.size
    · rw [if_pos (by omega), last, Nat.mod_self]
    · rw [if_neg (by omega), Nat.mod_eq_of_lt (by omega)]
  · unfold dbExpireCycle
    rw [if_neg allocated]
    exact swept

end Cycle

/-! ### Cycles in a row -/

section Cycles

variable {t : Int}

/-- A place without expired entries. -/
def Clean (t : Int) (db : Db) (place : Nat) : Prop :=
  ∀ key, db.d.bucket key = place → db.d.get key = live t db key

theorem Swept.live {places : Set Nat} {db db' : Db} (swept : Swept t places db.d db'.d) :
    live t db' = live t db := by
  funext key
  rcases swept.get_cases key with same | ⟨gone, o, found, expired⟩
  · exact live_congr same
  · rw [live_absent gone, live_expired found expired]

/-- A cycle cleans the places it passes. -/
theorem dbExpireCycle_advances {n : Nat} (positive : 0 < n) (db : Db) (size : db.d.size = n) :
    RoundRobin.Advances n startOf (Clean t) db (dbExpireCycle (fun _ => t) db) := by
  obtain ⟨stop, low, high, cursor, swept⟩ := dbExpireCycle_sweeps (t := t) db (by omega)
  rw [size] at high cursor
  have seen := swept.live
  refine ⟨⟨stop, low, high, ?_, fun i reached passed key here => ?_⟩,
    fun i clean key here => ?_⟩
  · have below : stop % n < n := Nat.mod_lt _ positive
    rw [startOf, swept.size, size, cursor, if_neg (by omega)]
  · rw [swept.bucket] at here
    rw [seen, swept.inside key (here ▸ ⟨reached, passed⟩), live]
  · rw [swept.bucket] at here
    have before := clean key here
    rw [seen, ← before]
    rcases swept.get_cases key with same | ⟨-, o, found, expired⟩
    · exact same
    · -- an expired entry contradicts that the place was clean
      rw [found, live_expired found expired] at before
      cases before

/-- As many cycles as there are buckets leave what is seen, and nothing else. -/
theorem cycles_leave_live (db : Db) (allocated : 0 < db.d.size) (key : Bytes) :
    ((dbExpireCycle fun _ => t)^[db.d.size] db).d.get key = live t db key := by
  have kept (s : Db) (inv : s.d.size = db.d.size ∧ live t s = live t db) :
      (dbExpireCycle (fun _ => t) s).d.size = db.d.size ∧
        live t (dbExpireCycle (fun _ => t) s) = live t db := by
    obtain ⟨stop, -, -, -, swept⟩ := dbExpireCycle_sweeps (t := t) s (by omega)
    exact ⟨swept.size.trans inv.1, swept.live.trans inv.2⟩
  have advances (s : Db) (inv : s.d.size = db.d.size ∧ live t s = live t db) :
      RoundRobin.Advances db.d.size startOf (Clean t) s (dbExpireCycle (fun _ => t) s) :=
    dbExpireCycle_advances allocated s inv.1
  have inside : startOf db < db.d.size := by
    unfold startOf
    split_ifs <;> omega
  obtain ⟨⟨size, seen⟩, -⟩ :=
    RoundRobin.iterate_advances kept advances ⟨rfl, rfl⟩ inside db.d.size
  have bucket := ((dbExpireCycle fun _ => t)^[db.d.size] db).d.bucket_lt key (by omega)
  have clean := RoundRobin.iterate_covers kept advances ⟨rfl, rfl⟩ inside (size ▸ bucket)
  rw [clean key rfl, seen]

/-- A table that holds what is seen counts it. -/
theorem dictSize_of_live {db db' : Db} (same : ∀ key, db'.d.get key = live t db key) :
    dictSize db'.d = (db.d.pairs.filter fun pair => !keyExpired t pair.2).length := by
  have distinct : ((db.d.pairs.filter fun pair => !keyExpired t pair.2).map Prod.fst).Nodup :=
    (List.filter_sublist.map Prod.fst).nodup db.d.pairs_nodup
  have keys : (db'.d.pairs.map Prod.fst).Perm
      ((db.d.pairs.filter fun pair => !keyExpired t pair.2).map Prod.fst) := by
    refine (List.perm_ext_iff_of_nodup db'.d.pairs_nodup distinct).mpr fun key => ?_
    rw [Table.mem_keys, same, live, Option.isSome_filter, Option.any_eq_true,
      List.mem_map]
    constructor
    · rintro ⟨o, found, alive⟩
      refine ⟨(key, o), List.mem_filter.mpr ⟨(db.d.mem_pairs key o).mpr found, alive⟩, rfl⟩
    · rintro ⟨⟨other, o⟩, member, rfl⟩
      obtain ⟨inside, alive⟩ := List.mem_filter.mp member
      exact ⟨o, (db.d.mem_pairs other o).mp inside, alive⟩
  have length := keys.length_eq
  rw [List.length_map, List.length_map, Table.pairs_length] at length
  exact length

/-- **The periodic expiry.** One cycle removes expired entries only, leaves the others and keeps its
cursor in the table. As many cycles as there are buckets, at one time, leave exactly the entries
that are not expired. -/
theorem expire_cycle_sweeps (t : Int) (db : Db) :
    (∀ key, (dbExpireCycle (fun _ => t) db).d.get key = db.d.get key ∨
      (dbExpireCycle (fun _ => t) db).d.get key = none ∧
        ∃ o, db.d.get key = some o ∧ 0 ≤ o.expireAt ∧ o.expireAt ≤ t) ∧
    ((dbExpireCycle (fun _ => t) db).expireCursor < (dbExpireCycle (fun _ => t) db).d.size ∨
      (dbExpireCycle (fun _ => t) db).expireCursor = 0) ∧
    (0 < db.d.size →
      (∀ key, ((dbExpireCycle fun _ => t)^[db.d.size] db).d.get key =
        (db.d.get key).filter fun o => !(0 ≤ o.expireAt && o.expireAt ≤ t)) ∧
      dictSize ((dbExpireCycle fun _ => t)^[db.d.size] db).d =
        (db.d.pairs.filter fun pair => !(0 ≤ pair.2.expireAt && pair.2.expireAt ≤ t)).length) := by
  refine ⟨fun key => ?_, ?_, fun allocated => ⟨cycles_leave_live db allocated, ?_⟩⟩
  · by_cases allocated : db.d.size = 0
    · rw [dbExpireCycle, if_pos allocated]
      exact .inl rfl
    · obtain ⟨stop, -, -, -, swept⟩ := dbExpireCycle_sweeps (t := t) db allocated
      rcases swept.get_cases key with same | ⟨gone, o, found, expired⟩
      · exact .inl same
      · rw [keyExpired, Bool.and_eq_true, decide_eq_true_eq, decide_eq_true_eq] at expired
        exact .inr ⟨gone, o, found, expired⟩
  · by_cases allocated : db.d.size = 0
    · rw [dbExpireCycle, if_pos allocated]
      exact .inr rfl
    · obtain ⟨stop, -, -, cursor, swept⟩ := dbExpireCycle_sweeps (t := t) db allocated
      rw [cursor, swept.size]
      exact .inl (Nat.mod_lt _ (Nat.pos_of_ne_zero allocated))
  · exact dictSize_of_live (cycles_leave_live db allocated)

/-- An entry without a deadline survives as many cycles as there are buckets. -/
theorem cycles_spare_persistent :
    0 < (singleStore "k" (.string (text "v"))).d.size ∧
      ((dbExpireCycle fun _ => 5)^[(singleStore "k" (.string (text "v"))).d.size]
        (singleStore "k" (.string (text "v")))).d.get (text "k") =
          some ⟨.string (text "v"), -1⟩ := by
  have allocated : 0 < (singleStore "k" (.string (text "v"))).d.size := by decide
  exact ⟨allocated, ((expire_cycle_sweeps 5 _).2.2 allocated).1 (text "k")⟩

end Cycles

end Miniredis
