/-
**A snapshot reads back.**

* `content_build` — the payload of a value is built to the same content;
* `rdbLoad_save`, `rdbLoad_stored` — loading the snapshot of a store into an empty one succeeds and
  gives every key its content and its expiry, whatever the hash seeds, as long as counts and lengths
  fit in 32 bits.
-/

import Miniredis.Replay.Simulation
import Miniredis.Snapshot.Format

namespace Miniredis

open HashTable (Table)

/-! ### Values -/

/-- Every count and length of the value fits in 32 bits. -/
def Value.Encodable : Value → Prop
  | .string s => s.length < 2 ^ 32
  | .list l => l.length < 2 ^ 32 ∧ ∀ v ∈ l, v.length < 2 ^ 32
  | .hash h => dictSize h < 2 ^ 32 ∧
      ∀ pair ∈ h.pairs, pair.1.length < 2 ^ 32 ∧ pair.2.length < 2 ^ 32
  | .set s => dictSize s < 2 ^ 32 ∧ ∀ pair ∈ s.pairs, pair.1.length < 2 ^ 32
  | .zset z => zsetLen z < 2 ^ 32 ∧ ∀ node ∈ z.nodes, node.member.length < 2 ^ 32

instance (v : Value) : Decidable v.Encodable :=
  match v with
  | .string s => inferInstanceAs (Decidable (s.length < 2 ^ 32))
  | .list l => inferInstanceAs (Decidable (l.length < 2 ^ 32 ∧ ∀ v ∈ l, v.length < 2 ^ 32))
  | .hash h => inferInstanceAs (Decidable (dictSize h < 2 ^ 32 ∧
      ∀ pair ∈ h.pairs, pair.1.length < 2 ^ 32 ∧ pair.2.length < 2 ^ 32))
  | .set s => inferInstanceAs (Decidable (dictSize s < 2 ^ 32 ∧
      ∀ pair ∈ s.pairs, pair.1.length < 2 ^ 32))
  | .zset z => inferInstanceAs (Decidable (zsetLen z < 2 ^ 32 ∧
      ∀ node ∈ z.nodes, node.member.length < 2 ^ 32))

/-- The value as the payload of its record. -/
def Value.payload : Value → Payload
  | .string s => .string s
  | .list l => .list l
  | .hash h => .hash h.pairs
  | .set s => .set (s.pairs.map Prod.fst)
  | .zset z => .zset z.nodes

section Values

variable (seed : Seed) (rest : Bytes)

theorem Value.typeCode_payload (v : Value) : v.payload.typeCode = v.typeCode := by
  cases v <;> rfl

theorem rdbWriteObj_payload (v : Value) : rdbWriteObj v = v.payload.write := by
  cases v with
  | string s => rfl
  | list l => rfl
  | hash h =>
    rw [rdbWriteObj, show dictSize h = h.pairs.length from h.pairs_length.symm]
    rfl
  | set s =>
    rw [rdbWriteObj, show dictSize s = s.pairs.length from s.pairs_length.symm, Value.payload,
      Payload.write, List.length_map, List.flatMap_map]
  | zset z => rfl

theorem Value.Encodable.payload {v : Value} (fits : v.Encodable) : v.payload.Encodable := by
  cases v with
  | string s => exact fits
  | list l => exact fits
  | hash h => exact ⟨h.pairs_length.trans_lt fits.1, fits.2⟩
  | set s =>
    refine ⟨?_, List.forall_mem_map.mpr fits.2⟩
    rw [List.length_map]
    exact s.pairs_length.trans_lt fits.1
  | zset z => exact fits

theorem foldl_append_singleton (front l : List Bytes) :
    l.foldl (fun acc v => acc ++ [v]) front = front ++ l := by
  induction l generalizing front with
  | nil => simp
  | cons v l ih => simp [ih]

/-- The items of a value build its content again. -/
theorem content_build (v : Value) : (v.payload.build seed).content = v.content := by
  cases v with
  | string s => rfl
  | list l => exact congrArg Content.list (foldl_append_singleton [] l)
  | hash h => exact congrArg Content.hash (funext fun field => h.get_rebuild field seed)
  | set s =>
    have members : (s.pairs.map Prod.fst).foldl (fun s member => (s.set member ()).2)
        (dictCreate seed) = .setAll s.pairs (dictCreate seed) := List.foldl_map
    rw [Value.payload, Payload.build, members]
    exact setKind_same.mpr fun member => s.get_rebuild member seed
  | zset z => exact congrArg Content.zset (funext fun member => score_rebuild z member)

end Values

/-! ### Stores -/

/-- Every count and length of the store fits in 32 bits, and every expiry is an `int64_t`. -/
structure Encodable (db : Db) : Prop where
  count : dictSize db.d < 2 ^ 32
  key : ∀ pair ∈ db.d.pairs,
    pair.1.length < 2 ^ 32 ∧ IsInt64 pair.2.expireAt ∧ pair.2.val.Encodable

instance (db : Db) : Decidable (Encodable db) :=
  decidable_of_iff (dictSize db.d < 2 ^ 32 ∧ ∀ pair ∈ db.d.pairs,
      pair.1.length < 2 ^ 32 ∧ IsInt64 pair.2.expireAt ∧ pair.2.val.Encodable)
    ⟨fun both => ⟨both.1, both.2⟩, fun fits => ⟨fits.count, fits.key⟩⟩

/-- A key and its object, read back. -/
def SameRecord (pair pair' : Bytes × Robj) : Prop :=
  pair.1 = pair'.1 ∧ pair.2.Sim (· = ·) pair'.2

section Stores

theorem rdbReadKey_record (seed : Seed) (rest : Bytes) {pair : Bytes × Robj}
    (key : pair.1.length < 2 ^ 32) (expire : IsInt64 pair.2.expireAt)
    (val : pair.2.val.Encodable) :
    ∃ pair', rdbReadKey seed (rdbRecord pair.1 pair.2 ++ rest) = some (pair', rest) ∧
      SameRecord pair pair' := by
  let record : KeyRecord := ⟨pair.1, pair.2.expireAt, pair.2.val.payload⟩
  have written : rdbRecord pair.1 pair.2 = record.write := by
    rw [rdbRecord, rdbWriteObj_payload, ← pair.2.val.typeCode_payload, KeyRecord.write]
    simp only [record, List.append_assoc]
  refine ⟨record.load seed, ?_, rfl, (content_build seed pair.2.val).symm, rfl⟩
  rw [written]
  exact (parses_rdbReadKey seed _ _ _).mpr
    ⟨_, ⟨record, ⟨key, expire, val.payload⟩, rfl, rfl⟩, rfl⟩

/-- The key loop stores what was written. -/
theorem rdbLoadKeys_records (seeds : Nat → Seed) (pairs : List (Bytes × Robj)) (i : Nat) (db : Db)
    (fits : ∀ pair ∈ pairs,
      pair.1.length < 2 ^ 32 ∧ IsInt64 pair.2.expireAt ∧ pair.2.val.Encodable) :
    ∃ loaded, List.Forall₂ SameRecord pairs loaded ∧
      rdbLoadKeys seeds pairs.length i (pairs.flatMap fun pair => rdbRecord pair.1 pair.2) db =
        { db with d := .setAll loaded db.d } := by
  induction pairs generalizing i db with
  | nil => exact ⟨[], .nil, rfl⟩
  | cons pair rest ih =>
    obtain ⟨key, expire, val⟩ := fits pair List.mem_cons_self
    obtain ⟨pair', read, same⟩ := rdbReadKey_record (seeds i)
      (rest.flatMap fun pair => rdbRecord pair.1 pair.2) key expire val
    obtain ⟨loaded, records, later⟩ := ih (i + 1) { db with d := (db.d.set pair'.1 pair'.2).2 }
      (List.forall_mem_cons.mp fits).2
    refine ⟨pair' :: loaded, .cons same records, ?_⟩
    rw [List.length_cons, List.flatMap_cons, rdbLoadKeys, read]
    exact later

theorem records_keys {pairs loaded : List (Bytes × Robj)}
    (records : List.Forall₂ SameRecord pairs loaded) :
    loaded.map Prod.fst = pairs.map Prod.fst := by
  induction records with
  | nil => rfl
  | cons same _ ih => rw [List.map_cons, List.map_cons, ih, same.1]

theorem records_mem {pairs loaded : List (Bytes × Robj)}
    (records : List.Forall₂ SameRecord pairs loaded) {key : Bytes} {o : Robj}
    (member : (key, o) ∈ pairs) : ∃ o', (key, o') ∈ loaded ∧ o.Sim (· = ·) o' := by
  induction records with
  | nil => cases member
  | @cons pair pair' _ _ same _ ih =>
    rcases List.mem_cons.mp member with rfl | later
    · refine ⟨pair'.2, ?_, same.2⟩
      rw [show key = pair'.1 from same.1]
      exact List.mem_cons_self
    · obtain ⟨o', there, sim⟩ := ih later
      exact ⟨o', List.mem_cons_of_mem _ there, sim⟩

/-- Some records of a store, read back into an empty one. -/
theorem loaded_sim {db blank : Db} {chosen loaded : List (Bytes × Robj)}
    (records : List.Forall₂ SameRecord chosen loaded) (taken : chosen.Sublist db.d.pairs)
    (empty : ∀ key, blank.d.get key = none) (key : Bytes) :
    Option.Rel (Robj.Sim (· = ·)) (if key ∈ chosen.map Prod.fst then db.d.get key else none)
      ((Table.setAll loaded blank.d).get key) := by
  by_cases member : key ∈ chosen.map Prod.fst
  · obtain ⟨⟨_, o⟩, there, rfl⟩ := List.mem_map.mp member
    obtain ⟨o', there', sim⟩ := records_mem records there
    have distinct : (loaded.map Prod.fst).Nodup := by
      rw [records_keys records]
      exact (taken.map Prod.fst).nodup db.d.pairs_nodup
    rw [if_pos member, (db.d.mem_pairs _ o).mp (taken.subset there),
      show (Table.setAll loaded blank.d).get _ = some o' from
        Table.get_setAll_mem _ _ _ distinct there']
    exact .some sim
  · rw [if_neg member, show (Table.setAll loaded blank.d).get key = none from
      (Table.get_setAll_other _ _ (records_keys records ▸ member)).trans (empty key)]
    exact .none

/-- **Loading a snapshot into an empty store gives the store it was taken from.** -/
theorem rdbLoad_save (seeds : Nat → Seed) {db blank : Db} (fits : Encodable db)
    (empty : ∀ key, blank.d.get key = none) :
    (rdbLoad seeds (rdbSaveBytes db) blank).1 = 0 ∧
      SimOn (· = ·) Set.univ db (rdbLoad seeds (rdbSaveBytes db) blank).2 := by
  obtain ⟨loaded, records, keys⟩ := rdbLoadKeys_records seeds db.d.pairs 0 blank fits.key
  have size : dictSize db.d = db.d.pairs.length := db.d.pairs_length.symm
  have load : rdbLoad seeds (rdbSaveBytes db) blank =
      (0, { blank with d := .setAll loaded blank.d }) := by
    refine (rdbLoad_header seeds blank fits.count _).trans ?_
    rw [size]
    exact congrArg (Prod.mk 0) keys
  rw [load]
  refine ⟨rfl, fun key _ => ?_⟩
  have sim := loaded_sim records (List.Sublist.refl _) empty key
  by_cases member : key ∈ db.d.pairs.map Prod.fst
  · rwa [if_pos member] at sim
  · have absent : db.d.get key = none := by
      rwa [Table.mem_keys, Option.not_isSome_iff_eq_none] at member
    rwa [if_neg member, ← absent] at sim

/-- **The round trip of a snapshot**: every key comes back with its content, bit for bit, and its
expiry, and no other key is there. -/
theorem rdbLoad_stored (seeds : Nat → Seed) {db blank : Db} (fits : Encodable db)
    (empty : ∀ key, blank.d.get key = none) :
    (rdbLoad seeds (rdbSaveBytes db) blank).1 = 0 ∧
      stored (rdbLoad seeds (rdbSaveBytes db) blank).2 = stored db :=
  (rdbLoad_save seeds fits empty).imp_right SimOn.stored

/-- A list that expires. -/
def sampleStore : Db :=
  ⟨((dictCreate (Vector.replicate 16 0)).set (text "l") ⟨.list [text "a", [0]], 5⟩).2, 0⟩

theorem rdbLoad_stored_sample :
    stored (rdbLoad (fun _ => Vector.replicate 16 1) (rdbSaveBytes sampleStore)
        (dbCreate (Vector.replicate 16 2))).2 (text "l") =
      some (.list [text "a", [0]], 5) := by
  rw [(rdbLoad_stored _ (by decide) fun key => dictCreate_get _ key).2]
  have found : (sampleStore.d.get (text "l")).map (fun o => (o.val.content, o.expireAt)) =
      some (.list [text "a", [0]], 5) := by
    rw [sampleStore, Table.get_set, if_pos rfl]
    rfl
  exact found

end Stores

end Miniredis
