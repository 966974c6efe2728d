/-
**The snapshot reader stays in its buffer.**

* `reads_rdbReadKeyAt` — in its buffer the reader does what the model does on the bytes left;
* `rdbLoadKeysAt_eq` — so does the key loop, whose rounds the consumed bytes pay for;
* `rdb_reader_bounds` — for any file, whatever counts and lengths it declares, the position and
  every read stay inside, and the rounds of the loops are not more than the bytes.
-/

import Miniredis.Model.RdbReader
import Miniredis.Snapshot.Format

namespace Miniredis

open Cursor (Reads Stays)

section Readers

variable {buf : Bytes} (addressable : buf.length < 2 ^ 64)

include addressable

theorem reads_rTakeAt (n : Nat) : Reads buf n 0 (rTakeAt buf n) (rTake n) :=
  Cursor.reads_take addressable n

theorem reads_rU8At : Reads buf 1 0 (rU8At buf) rU8 :=
  (reads_rTakeAt addressable 1).map fun t => t.headD 0

theorem reads_rU32At : Reads buf 4 0 (rU32At buf) rU32 :=
  (reads_rTakeAt addressable 4).map BigEndian.decode

theorem reads_rS64At : Reads buf 8 0 (rS64At buf) rS64 :=
  (reads_rTakeAt addressable 8).map fun t => (BigEndian.decode t : Int).bmod (2 ^ 64)

theorem reads_rBytesAt : Reads buf 4 0 (rBytesAt buf) rBytes :=
  (reads_rU32At addressable).bind fun n =>
    (reads_rTakeAt addressable n).weaken (Nat.zero_le n) le_rfl

omit addressable in
/-- `r_f64` takes the bits of what `r_s64` reads. -/
theorem rF64_eq : rF64 = Readers.map (fun raw => ⟨UInt64.ofNat (raw % 2 ^ 64).toNat⟩) rS64 := by
  funext buf
  unfold rF64 rS64 Readers.map
  dsimp only [Option.bind_eq_bind, pure]
  rcases taken : rTake 8 buf with _ | ⟨bytes, rest⟩
  · rfl
  · obtain ⟨_, ⟨rfl, full⟩, _⟩ := (Readers.parses_take 8 _ _ _).mp taken
    have small := BigEndian.decode_lt bytes
    rw [full] at small
    have bits := toNat_bmod (n := BigEndian.decode bytes) (by norm_num at small ⊢; omega)
    dsimp only [Option.bind_some]
    rw [bits]

theorem reads_rF64At : Reads buf 8 0 (rF64At buf) rF64 := by
  rw [rF64_eq]
  exact (reads_rS64At addressable).map _

theorem reads_rListItemAt (l : List Bytes) :
    Reads buf 1 0 (rListItemAt buf l) (rListItem l) :=
  ((reads_rBytesAt addressable).map fun v => l ++ [v]).weaken (by decide) le_rfl

theorem reads_rHashItemAt (h : Dict Bytes) :
    Reads buf 1 0 (rHashItemAt buf h) (rHashItem h) :=
  ((reads_rBytesAt addressable).bind fun field =>
    (reads_rBytesAt addressable).map fun v => (h.set field v).2).weaken (by decide) le_rfl

theorem reads_rSetItemAt (s : Dict Unit) :
    Reads buf 1 0 (rSetItemAt buf s) (rSetItem s) :=
  ((reads_rBytesAt addressable).map fun member => (s.set member ()).2).weaken (by decide) le_rfl

theorem reads_rZsetItemAt (z : Zset) :
    Reads buf 1 0 (rZsetItemAt buf z) (rZsetItem z) :=
  ((reads_rBytesAt addressable).bind fun member =>
    (reads_rF64At addressable).map fun score => (zsetAdd z score member).2).weaken (by decide)
      le_rfl

/-- Counted items: a failure leaves the last round unpaid. -/
theorem reads_rCountedAt {σ : Type} {itemAt : σ → Cursor.Action σ} {item : σ → Reader σ}
    (each : ∀ acc, Reads buf 1 0 (itemAt acc) (item acc)) (start : σ) :
    Reads buf 0 1 (rCountedAt buf itemAt start) (rCounted item start) := by
  have loops (n : Nat) : Reads buf 0 1 (Cursor.loop itemAt n start) (rLoop item n start) := by
    rw [rLoop_eq]
    exact Reads.loop each n start
  exact (((reads_rU32At addressable).weaken le_rfl (Nat.zero_le 1)).bind loops).weaken
    (Nat.zero_le _) le_rfl

theorem reads_rdbReadObjAt (seed : Seed) (type : UInt8) :
    Reads buf 0 1 (rdbReadObjAt buf seed type) (rdbReadObj seed type) := by
  by_cases string : type = 0
  · subst string
    rw [rdbReadObj_eq_map seed fun buf => rfl]
    exact ((reads_rBytesAt addressable).map Value.string).weaken (Nat.zero_le _) (Nat.zero_le _)
  by_cases list : type = 1
  · subst list
    rw [rdbReadObj_eq_map seed fun buf => rfl]
    exact (reads_rCountedAt addressable (reads_rListItemAt addressable) []).map Value.list
  by_cases hash : type = 2
  · subst hash
    rw [rdbReadObj_eq_map seed fun buf => rfl]
    exact (reads_rCountedAt addressable (reads_rHashItemAt addressable) _).map Value.hash
  by_cases set : type = 3
  · subst set
    rw [rdbReadObj_eq_map seed fun buf => rfl]
    exact (reads_rCountedAt addressable (reads_rSetItemAt addressable) _).map Value.set
  by_cases zset : type = 4
  · subst zset
    rw [rdbReadObj_eq_map seed fun buf => rfl]
    exact (reads_rCountedAt addressable (reads_rZsetItemAt addressable) _).map Value.zset
  have refuses : rdbReadObj seed type = fun _ => none :=
    funext (rdbReadObj_unknown seed (by grind))
  rw [refuses, rdbReadObjAt, if_neg string, if_neg list, if_neg hash, if_neg set, if_neg zset]
  exact Cursor.reads_failure

/-- One pass of the key loop: it pays for its own round. -/
theorem reads_rdbReadKeyAt (seed : Seed) :
    Reads buf 1 1 (rdbReadKeyAt buf seed) (rdbReadKey seed) := by
  have key := (reads_rBytesAt addressable).weaken (show 1 ≤ 4 by decide) (Nat.zero_le 1)
  have expire := (reads_rS64At addressable).weaken (Nat.zero_le 8) (Nat.zero_le 1)
  have type := (reads_rU8At addressable).weaken (Nat.zero_le 1) (Nat.zero_le 1)
  exact key.bind fun _ => expire.bind fun _ => type.bind fun t =>
    (reads_rdbReadObjAt addressable seed t).map _

/-- **The key loop in the buffer.** A failure in the middle of a value leaves the rounds of the key
and of the element unpaid. -/
theorem rdbLoadKeysAt_eq (seeds : Nat → Seed) (n i : Nat) (db : Db) {c : Cursor}
    (inside : c.pos ≤ buf.length) : ∃ c',
      rdbLoadKeysAt buf seeds n i db c =
        some (rdbLoadKeys seeds n i (buf.drop c.pos) db, c') ∧
      Stays buf c c' ∧ c'.rounds + c.pos ≤ c.rounds + c'.pos + 2 := by
  induction n generalizing i db c with
  | zero => exact ⟨c, rfl, ⟨le_rfl, inside, fun p member => .inl member⟩, by omega⟩
  | succ n ih =>
    have pass := (reads_rdbReadKeyAt addressable (seeds i)).round
    rcases found : rdbReadKey (seeds i) (buf.drop c.pos) with _ | ⟨⟨key, o⟩, rest⟩
    · obtain ⟨c', run, stays, cost⟩ := pass.fails c inside found
      refine ⟨c', ?_, stays, by omega⟩
      rw [rdbLoadKeysAt, rdbLoadKeys, run, found]
      rfl
    · obtain ⟨c', run, stays, rfl, cost⟩ := pass.value c inside _ rest found
      obtain ⟨c'', run', stays', cost'⟩ :=
        ih (i + 1) { db with d := (db.d.set key o).2 } stays.inside
      refine ⟨c'', ?_, stays.trans stays', by omega⟩
      rw [rdbLoadKeysAt, rdbLoadKeys, run, found]
      exact run'

end Readers

/-- **The bounds of the reader**: it reads nothing outside the file's bytes, is at no position
outside them, and makes no more rounds than there are bytes. -/
theorem rdb_reader_bounds (seeds : Nat → Seed) (b : FileBuffer) (db : Db) : ∃ r : Cursor,
    rdbLoadAt seeds b db = some (rdbLoad seeds b.p db, r) ∧ (∀ pos ∈ r.trail, pos ≤ b.p.length) ∧
      r.pos ≤ b.p.length ∧ r.rounds ≤ b.p.length := by
  have stop {returned : Int} {r : Cursor} (trail : ∀ pos ∈ r.trail, pos ≤ b.p.length)
      (inside : r.pos ≤ b.p.length) (cost : r.rounds ≤ b.p.length) : ∃ r' : Cursor,
      some ((returned, db), r) = some ((returned, db), r') ∧
        (∀ pos ∈ r'.trail, pos ≤ b.p.length) ∧ r'.pos ≤ b.p.length ∧ r'.rounds ≤ b.p.length :=
    ⟨r, rfl, trail, inside, cost⟩
  have word := reads_rU32At b.addressable
  unfold rdbLoadAt rdbLoad
  by_cases short : b.p.length < 9 + 4 + 4
  · rw [if_pos short, if_pos (Or.inl short)]
    exact stop (by simp) (Nat.zero_le _) (Nat.zero_le _)
  rw [if_neg short, Buffer.slice_of_le (by omega), List.drop_zero]
  dsimp only [Option.bind_eq_bind, Option.bind_some]
  by_cases magic : b.p.take 9 ≠ rdbMagic
  · rw [if_pos magic, if_pos (Or.inr magic)]
    exact stop (by simp) (Nat.zero_le _) (Nat.zero_le _)
  rw [if_neg magic, if_neg (not_or.mpr ⟨short, magic⟩)]
  have start : (⟨9, [9, 0], 0⟩ : Cursor).pos ≤ b.p.length := by dsimp only; omega
  have begun : ∀ pos ∈ (⟨9, [9, 0], 0⟩ : Cursor).trail, pos ≤ b.p.length := by
    simp
    omega
  rcases version : rU32 (b.p.drop 9) with _ | ⟨v, rest⟩
  · obtain ⟨r, run, stays, cost⟩ := word.fails _ start version
    have inside := stays.inside
    dsimp only at cost
    rw [run]
    exact stop (stays.within begun) inside (by omega)
  obtain ⟨r, run, stays, rfl, cost⟩ := word.value _ start v rest version
  have inside := stays.inside
  dsimp only at cost
  rw [run]
  dsimp only [Option.bind_some]
  by_cases supported : v ≠ rdbVersion
  · rw [if_pos supported, if_pos supported]
    exact stop (stays.within begun) inside (by omega)
  rw [if_neg supported, if_neg supported]
  rcases keys : rU32 (b.p.drop r.pos) with _ | ⟨count, rest⟩
  · obtain ⟨r', run', stays', cost'⟩ := word.fails r inside keys
    have inside' := stays'.inside
    rw [run']
    exact stop ((stays.trans stays').within begun) inside' (by omega)
  obtain ⟨r', run', stays', rfl, cost'⟩ := word.value r inside count rest keys
  obtain ⟨r'', run'', stays'', cost''⟩ :=
    rdbLoadKeysAt_eq b.addressable seeds count 0 db stays'.inside
  have inside'' := stays''.inside
  rw [run']
  dsimp only [Option.bind_some]
  rw [run'']
  -- the header pays for the two rounds that a failure leaves unpaid
  exact ⟨r'', rfl, ((stays.trans stays').trans stays'').within begun, inside'', by omega⟩

end Miniredis
