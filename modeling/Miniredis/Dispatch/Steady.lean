/-
**What is seen, at one time and over the times of a run.**

What a client can see of a store at one time is a function, `live`. A run reads the clock many
times. Where every reading sees the same entry under a key, the entry is *steady* over the times of
the run: it has not appeared or expired by the passing of time alone.

* `onKey_live` — a command on one key looks it up and changes the function at that key.
* `Steady times db key entry` — at each of the times a client sees `entry` under `key`.
* `Steady.onKey` — a command on the key, at one of the times, decides on that entry, and what it
  leaves is steady again as long as no new deadline falls among the times.
* `HoldsString` — the text of a string key over the times, if it has one.
-/

import Miniredis.Dispatch.Effects
import Miniredis.Replay.Expiry

namespace Miniredis

open HashTable (Table)

/-! ### What the operations do to what is seen -/

section Seen

/-- The object as a client sees it. -/
def seen (t : Int) (o : Robj) : Option Robj := (some o).filter fun o => !keyExpired t o

/-- An update of a data set that has no expired entries. -/
def Update.act (t : Int) (update : Update) (data : Bytes → Option Robj) (key : Bytes) :
    Bytes → Option Robj :=
  match update with
  | .keep => data
  | .store o => Function.update data key (seen t o)
  | .write o => Function.update data key ((data key).bind fun _ => seen t o)
  | .remove => Function.update data key none

variable {t : Int} {db db' : Db} {key : Bytes} {o : Robj}

theorem live_set : live t { db with d := (db.d.set key o).2 } =
    Function.update (live t db) key (seen t o) := by
  funext other
  unfold live
  rw [Table.get_set]
  by_cases same : other = key
  · subst same
    rw [if_pos rfl, Function.update_self, seen]
  · rw [if_neg same, Function.update_of_ne same]

theorem live_delete : live t { db with d := (db.d.delete key).2 } =
    Function.update (live t db) key none := by
  funext other
  unfold live
  rw [Table.get_delete]
  by_cases same : other = key
  · subst same
    rw [if_pos rfl, Function.update_self, Option.filter_none]
  · rw [if_neg same, Function.update_of_ne same]

/-- A write in place of an object that is not expired. -/
theorem live_write (settled : db.d.get key = live t db key) :
    live t { db with d := db.d.write key o } =
      Function.update (live t db) key ((live t db key).bind fun _ => seen t o) := by
  funext other
  by_cases same : other = key
  · subst same
    rw [Function.update_self, ← settled, live, Table.get_write, if_pos rfl]
    cases db.d.get other <;> rfl
  · rw [Function.update_of_ne same]
    exact live_congr ((Table.get_write ..).trans (if_neg same))

theorem Update.live_apply (update : Update) (settled : db.d.get key = live t db key) :
    live t (update.apply db key) = update.act t (live t db) key := by
  cases update with
  | keep => rfl
  | store o => exact live_set
  | write o => exact live_write settled
  | remove => exact live_delete

theorem live_lookupKey (t : Int) (db : Db) (key : Bytes) :
    live t (lookupKey t db key).2 = live t db := by
  funext other
  rcases lookupKey_collects (fun _ => t) 0 db key other with same | ⟨gone, _, o, found, expired⟩
  · exact live_congr same
  · rw [live_absent gone, live_expired found expired]

/-- **A command on one key acts on what is seen.** -/
theorem onKey_live (t : Int) (db : Db) (key : Bytes) (body : Option Robj → Update × Bytes) :
    live t (onKey t db key body).1 = (body (live t db key)).1.act t (live t db) key ∧
      (onKey t db key body).2 = (body (live t db key)).2 := by
  have found := lookupKey_live t db key
  have settled : (lookupKey t db key).2.d.get key = live t (lookupKey t db key).2 key := by
    rw [← lookupKey_fst, found, live_lookupKey]
  unfold onKey
  dsimp only
  rw [Update.live_apply _ settled, live_lookupKey, found]
  exact ⟨rfl, rfl⟩

/-- Another value under the deadline of an entry that is seen. -/
theorem seen_same {val val' : Value} {expireAt : Int}
    (holds : live t db key = some ⟨val, expireAt⟩) :
    seen t ⟨val', expireAt⟩ = some ⟨val', expireAt⟩ := by
  have alive : keyExpired t ⟨val, expireAt⟩ = false := by
    simpa using (Option.filter_eq_some_iff.mp holds).2
  have same : keyExpired t ⟨val', expireAt⟩ = false := alive
  rw [seen, Option.filter_some, if_pos (by simp [same])]

/-- A value written over one that is seen changes nothing if it is the same. -/
theorem act_write_eq_iff {val val' : Value} {expireAt : Int}
    (holds : live t db key = some ⟨val, expireAt⟩) :
    (Update.write ⟨val', expireAt⟩).act t (live t db) key = live t db ↔ val' = val := by
  rw [Update.act, Function.update_eq_self_iff, holds, Option.bind_some, seen_same holds]
  simp

/-- A new object under a missing key is seen. -/
theorem act_store_ne {val : Value} (absent : live t db key = none) :
    (Update.store (robjNew val)).act t (live t db) key ≠ live t db := by
  have kept : seen t (robjNew val) = some (robjNew val) := rfl
  rw [Update.act, Ne, Function.update_eq_self_iff, absent, kept]
  exact Option.some_ne_none _

/-- A store with one entry, without a deadline. -/
def singleStore (key : String) (val : Value) : Db :=
  ⟨((dictCreate sampleSeed).set (text key) ⟨val, -1⟩).2, 0⟩

theorem live_singleStore (t : Int) (key : String) (val : Value) :
    live t (singleStore key val) (text key) = some ⟨val, -1⟩ := by
  rw [live, singleStore, Table.get_set, if_pos rfl]
  rfl

end Seen

/-! ### Steady entries -/

section Steady

variable {times : Set Int} {db : Db} {key : Bytes} {entry : Option Robj} {t : Int}

/-- What is seen under the key at each of the times. -/
def Steady (times : Set Int) (db : Db) (key : Bytes) (entry : Option Robj) : Prop :=
  ∀ t ∈ times, live t db key = entry

/-- What an update leaves of the entry it was decided on. -/
def Update.leaves (entry : Option Robj) : Update → Option Robj
  | .keep => entry
  | .store o => some o
  | .write o => entry.map fun _ => o
  | .remove => none

/-- The object does not expire at any of the times. -/
def Lasting (times : Set Int) (o : Robj) : Prop := ∀ t ∈ times, keyExpired t o = false

theorem Lasting.seen {o : Robj} (lasting : Lasting times o) (among : t ∈ times) :
    seen t o = some o := by
  rw [Miniredis.seen, Option.filter_some, if_pos (by simp [lasting t among])]

theorem lasting_new (times : Set Int) (val : Value) : Lasting times (robjNew val) := fun _ _ => rfl

/-- The deadline of an entry that is steady is not among the times. -/
theorem Steady.lasting {val val' : Value} {expireAt : Int}
    (steady : Steady times db key (some ⟨val, expireAt⟩)) : Lasting times ⟨val', expireAt⟩ := by
  intro t among
  have alive : keyExpired t ⟨val, expireAt⟩ = false := by
    simpa using (Option.filter_eq_some_iff.mp (steady t among)).2
  exact alive

/-- A command on a key leaves there what it makes of what it sees. -/
theorem onKey_get_self (t : Int) (db : Db) (key : Bytes) (body : Option Robj → Update × Bytes) :
    (onKey t db key body).1.d.get key =
      (body (live t db key)).1.leaves (live t db key) := by
  have found : (lookupKey t db key).2.d.get key = live t db key := by
    rw [← lookupKey_fst, lookupKey_live]
  unfold onKey
  dsimp only
  rw [lookupKey_live]
  cases (body (live t db key)).1 with
  | keep => exact found
  | store o => exact (Table.get_set ..).trans (if_pos rfl)
  | write o =>
    refine (Table.get_write ..).trans ((if_pos rfl).trans ?_)
    rw [found]
    rfl
  | remove => exact (Table.get_delete ..).trans (if_pos rfl)

/-- **A command on a key decides on its steady entry and leaves a steady one.** -/
theorem Steady.onKey (steady : Steady times db key entry) (among : t ∈ times)
    {body : Option Robj → Update × Bytes} {update : Update} {out : Bytes}
    (decides : body entry = (update, out))
    (lasting : ∀ o, update.leaves entry = some o → Lasting times o) :
    Steady times (onKey t db key body).1 key (update.leaves entry) ∧
      (Miniredis.onKey t db key body).2 = out := by
  have there : (Miniredis.onKey t db key body).1.d.get key = update.leaves entry := by
    rw [onKey_get_self, steady t among, decides]
  refine ⟨?_, ?_⟩
  · intro s member
    cases left : update.leaves entry with
    | none => exact live_absent (there.trans left)
    | some o =>
      rw [live, there, left]
      exact (lasting o left).seen member
  · rw [(onKey_live t db key body).2, steady t among, decides]

/-- A command that leaves its key alone. -/
theorem Steady.kept (steady : Steady times db key entry) (among : t ∈ times)
    {body : Option Robj → Update × Bytes} {out : Bytes} (decides : body entry = (.keep, out)) :
    Steady times (Miniredis.onKey t db key body).1 key entry ∧
      (Miniredis.onKey t db key body).2 = out := by
  refine steady.onKey among decides fun o here => ?_
  subst here
  exact steady.lasting

/-- A command that puts another value under the deadline that is there, or a new object under a
missing key. -/
theorem Steady.stored (steady : Steady times db key entry) (among : t ∈ times)
    {body : Option Robj → Update × Bytes} {o : Robj} {out : Bytes}
    (decides : body entry = (.store o, out)) (lasting : Lasting times o) :
    Steady times (Miniredis.onKey t db key body).1 key (some o) ∧
      (Miniredis.onKey t db key body).2 = out := by
  refine steady.onKey among decides fun other here => ?_
  obtain rfl := Option.some.inj here
  exact lasting

/-- A command that changes the value in place. -/
theorem Steady.written {val val' : Value} {expireAt : Int}
    (steady : Steady times db key (some ⟨val, expireAt⟩)) (among : t ∈ times)
    {body : Option Robj → Update × Bytes} {out : Bytes}
    (decides : body (some ⟨val, expireAt⟩) = (.write ⟨val', expireAt⟩, out)) :
    Steady times (Miniredis.onKey t db key body).1 key (some ⟨val', expireAt⟩) ∧
      (Miniredis.onKey t db key body).2 = out := by
  refine steady.onKey among decides fun other here => ?_
  obtain rfl := Option.some.inj here
  exact steady.lasting

/-- The text of a string key at each of the times, `none` if the key is missing. -/
def HoldsString (times : Set Int) (db : Db) (key : Bytes) (content : Option Bytes) : Prop :=
  (Steady times db key none ∧ content = none) ∨
    ∃ s expireAt, Steady times db key (some ⟨.string s, expireAt⟩) ∧ content = some s

end Steady

end Miniredis
