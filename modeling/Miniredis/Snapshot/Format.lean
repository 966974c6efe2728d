/-
**The format of a snapshot (`rdb.h`).**

`rdb.h` describes a file: magic, version, key count, and a record for each key. `KeyRecord` is such
a record as data, with the bytes that it is written as.

* `parses_rdbReadObj`, `parses_rdbReadKey` — the readers take exactly the written payloads and
  records;
* `rdbLoad_header`, `rdbLoad_refuses` — a file is loaded if it has a header, and then its keys are.
-/

import Miniredis.Lib.Readers
import Miniredis.Model.Rdb

namespace Miniredis

open Readers (Parses Completes)

/-! ### Fields -/

/-- An `int64_t`. -/
def IsInt64 (v : Int) : Prop := -2 ^ 63 ≤ v ∧ v < 2 ^ 63

instance (v : Int) : Decidable (IsInt64 v) := inferInstanceAs (Decidable (_ ∧ _))

section Fields

/-- A number of a fixed width: the reader takes the bytes that the number is written as. -/
theorem parses_fixed {α : Type} {width : Nat} {read : Bytes → α} {valid : α → Prop}
    {write : α → Bytes} (length : ∀ a, (write a).length = width)
    (back : ∀ a, valid a → read (write a) = a)
    (again : ∀ bytes, bytes.length = width → valid (read bytes) ∧ write (read bytes) = bytes) :
    Parses (Readers.map read (rTake width)) fun a piece => valid a ∧ piece = write a := by
  refine ((Readers.parses_take width).map read).congr fun a piece => ?_
  constructor
  · rintro ⟨bytes, rfl, rfl, full⟩
    obtain ⟨valid, same⟩ := again bytes full
    exact ⟨valid, same.symm⟩
  · rintro ⟨valid, rfl⟩
    exact ⟨write a, (back a valid).symm, rfl, length a⟩

theorem parses_rU8 : Parses rU8 fun byte piece => piece = [byte] := by
  change Parses (Readers.map (fun bytes : Bytes => bytes.headD 0) (rTake 1)) _
  refine ((Readers.parses_take 1).map fun bytes => bytes.headD 0).congr fun byte piece => ?_
  constructor
  · rintro ⟨bytes, rfl, rfl, single⟩
    obtain ⟨byte, rfl⟩ := List.length_eq_one_iff.mp single
    rfl
  · rintro rfl
    exact ⟨[byte], rfl, rfl, rfl⟩

theorem parses_rU32 : Parses rU32 fun n piece => n < 2 ^ 32 ∧ piece = wU32 n := by
  change Parses (Readers.map BigEndian.decode (rTake 4)) _
  refine parses_fixed (BigEndian.encode_length 4) (fun n small => ?_) fun bytes full => ?_
  · rw [wU32, BigEndian.decode_encode, Nat.mod_eq_of_lt (by norm_num; omega)]
  · have small := BigEndian.decode_lt bytes
    have same := BigEndian.encode_decode bytes
    rw [full] at small same
    exact ⟨by norm_num at small; omega, same⟩

/-- The bits of an `int64_t` are those it was made from. -/
theorem toNat_bmod {n : Nat} (small : n < 2 ^ 64) :
    ((n : Int).bmod (2 ^ 64) % 2 ^ 64).toNat = n := by
  rw [show (2 : Int) ^ 64 = ((2 ^ 64 : Nat) : Int) by norm_num, Int.bmod_emod]
  omega

theorem parses_rS64 : Parses rS64 fun v piece => IsInt64 v ∧ piece = wS64 v := by
  change Parses (Readers.map (fun bytes => (BigEndian.decode bytes : Int).bmod (2 ^ 64))
    (rTake 8)) _
  refine parses_fixed (fun v => BigEndian.encode_length 8 _) (fun v fits => ?_) fun bytes full => ?_
  · obtain ⟨low, high⟩ := fits
    have residue : ((v % 2 ^ 64).toNat : Int) = v % 2 ^ 64 := Int.toNat_of_nonneg (by omega)
    rw [wS64, BigEndian.decode_encode, Nat.mod_eq_of_lt (by norm_num; omega), residue]
    exact (Int.emod_bmod v (2 ^ 64)).trans (Int.bmod_eq_of_le (by norm_num; omega)
      (by norm_num; omega))
  · have small := BigEndian.decode_lt bytes
    have same := BigEndian.encode_decode bytes
    rw [full] at small same
    have low := Int.le_bmod (x := BigEndian.decode bytes) (m := 2 ^ 64) (by norm_num)
    have high := Int.bmod_lt (x := BigEndian.decode bytes) (m := 2 ^ 64) (by norm_num)
    refine ⟨⟨by norm_num at low ⊢; omega, by norm_num at high ⊢; omega⟩, ?_⟩
    rw [wS64, toNat_bmod (by norm_num at small ⊢; omega), same]

theorem parses_rF64 : Parses rF64 fun d piece => piece = wF64 d := by
  have fixed : Parses (Readers.map (fun bytes => Double.mk (UInt64.ofNat (BigEndian.decode bytes)))
      (rTake 8)) fun d piece => True ∧ piece = wF64 d := by
    refine parses_fixed (fun d => BigEndian.encode_length 8 _) (fun d _ => ?_) fun bytes full => ?_
    · have below := d.bits.toNat_lt
      rw [wF64, BigEndian.decode_encode, Nat.mod_eq_of_lt (by norm_num; omega),
        UInt64.ofNat_toNat]
    · have small := BigEndian.decode_lt bytes
      have same := BigEndian.encode_decode bytes
      rw [full] at small same
      refine ⟨trivial, ?_⟩
      rw [wF64, UInt64.toNat_ofNat_of_lt' (by norm_num at small ⊢; omega), same]
  exact fixed.congr fun d piece => iff_of_eq (true_and _)

theorem parses_rBytes : Parses rBytes fun s piece => s.length < 2 ^ 32 ∧ piece = wBytes s := by
  refine (parses_rU32.andThen Readers.parses_take).congr fun s piece => ?_
  constructor
  · rintro ⟨n, front, back, ⟨small, rfl⟩, ⟨rfl, rfl⟩, rfl⟩
    exact ⟨small, rfl⟩
  · rintro ⟨small, rfl⟩
    exact ⟨s.length, _, _, ⟨small, rfl⟩, ⟨rfl, rfl⟩, rfl⟩

end Fields

/-! ### Counted items -/

section Items

variable {σ α : Type} {item : σ → Reader σ} {add : σ → α → σ} {valid : α → Prop}
  {write : α → Bytes}

theorem rLoop_eq (item : σ → Reader σ) (n : Nat) (acc : σ) :
    rLoop item n acc = Readers.loop item n acc := by
  induction n generalizing acc with
  | zero => rfl
  | succ n ih =>
    funext buf
    have later : rLoop item n = Readers.loop item n := funext ih
    rw [rLoop, later]
    rfl

theorem parses_rCounted (each : ∀ acc, Parses (item acc) fun acc' piece =>
      ∃ a, acc' = add acc a ∧ valid a ∧ piece = write a) (start : σ) :
    Parses (rCounted item start) fun acc piece => ∃ items : List α, items.length < 2 ^ 32 ∧
      acc = items.foldl add start ∧ (∀ a ∈ items, valid a) ∧
      piece = wU32 items.length ++ items.flatMap write := by
  have loops (n : Nat) := Parses.loop each n start
  simp only [← rLoop_eq] at loops
  refine Parses.congr (show Parses (rCounted item start) _ from parses_rU32.andThen loops)
    fun acc piece => ?_
  constructor
  · rintro ⟨n, front, back, ⟨small, rfl⟩, ⟨items, rfl, rfl, valids, rfl⟩, rfl⟩
    exact ⟨items, small, rfl, valids, rfl⟩
  · rintro ⟨items, small, rfl, valids, rfl⟩
    exact ⟨_, _, _, ⟨small, rfl⟩, ⟨items, rfl, rfl, valids, rfl⟩, rfl⟩

theorem parses_rListItem (l : List Bytes) : Parses (rListItem l) fun l' piece =>
    ∃ v, l' = l ++ [v] ∧ v.length < 2 ^ 32 ∧ piece = wBytes v :=
  parses_rBytes.map fun v => l ++ [v]

theorem parses_rHashItem (h : Dict Bytes) : Parses (rHashItem h) fun h' piece =>
    ∃ pair : Bytes × Bytes, h' = (h.set pair.1 pair.2).2 ∧
      (pair.1.length < 2 ^ 32 ∧ pair.2.length < 2 ^ 32) ∧
      piece = wBytes pair.1 ++ wBytes pair.2 := by
  have both := parses_rBytes.andThen fun field => parses_rBytes.map fun v => (h.set field v).2
  refine Parses.congr (show Parses (rHashItem h) _ from both) fun h' piece => ?_
  constructor
  · rintro ⟨field, front, back, ⟨first, rfl⟩, ⟨v, rfl, second, rfl⟩, rfl⟩
    exact ⟨(field, v), rfl, ⟨first, second⟩, rfl⟩
  · rintro ⟨pair, rfl, ⟨first, second⟩, rfl⟩
    exact ⟨pair.1, _, _, ⟨first, rfl⟩, ⟨pair.2, rfl, second, rfl⟩, rfl⟩

theorem parses_rSetItem (s : Dict Unit) : Parses (rSetItem s) fun s' piece =>
    ∃ member, s' = (s.set member ()).2 ∧ member.length < 2 ^ 32 ∧ piece = wBytes member :=
  parses_rBytes.map fun member => (s.set member ()).2

theorem parses_rZsetItem (z : Zset) : Parses (rZsetItem z) fun z' piece =>
    ∃ node : ZNode, z' = (zsetAdd z node.score node.member).2 ∧ node.member.length < 2 ^ 32 ∧
      piece = wBytes node.member ++ wF64 node.score := by
  have both := parses_rBytes.andThen fun member =>
    parses_rF64.map fun score => (zsetAdd z score member).2
  refine Parses.congr (show Parses (rZsetItem z) _ from both) fun z' piece => ?_
  constructor
  · rintro ⟨member, front, back, ⟨small, rfl⟩, ⟨score, rfl, rfl⟩, rfl⟩
    exact ⟨⟨score, member⟩, rfl, small, rfl⟩
  · rintro ⟨node, rfl, small, rfl⟩
    exact ⟨node.member, _, _, ⟨small, rfl⟩, ⟨node.score, rfl, rfl⟩, rfl⟩

end Items

/-! ### Records -/

/-- What a record holds for its type. -/
inductive Payload where
  | string (s : Bytes)
  | list (items : List Bytes)
  | hash (items : List (Bytes × Bytes))
  | set (items : List Bytes)
  | zset (items : List ZNode)

namespace Payload

def typeCode : Payload → UInt8
  | string _ => 0
  | list _ => 1
  | hash _ => 2
  | set _ => 3
  | zset _ => 4

def write : Payload → Bytes
  | string s => wBytes s
  | list items => wU32 items.length ++ items.flatMap wBytes
  | hash items => wU32 items.length ++ items.flatMap fun pair => wBytes pair.1 ++ wBytes pair.2
  | set items => wU32 items.length ++ items.flatMap wBytes
  | zset items => wU32 items.length ++ items.flatMap fun node =>
      wBytes node.member ++ wF64 node.score

/-- Counts and lengths fit in 32 bits. -/
def Encodable : Payload → Prop
  | string s => s.length < 2 ^ 32
  | list items => items.length < 2 ^ 32 ∧ ∀ v ∈ items, v.length < 2 ^ 32
  | hash items => items.length < 2 ^ 32 ∧
      ∀ pair ∈ items, pair.1.length < 2 ^ 32 ∧ pair.2.length < 2 ^ 32
  | set items => items.length < 2 ^ 32 ∧ ∀ member ∈ items, member.length < 2 ^ 32
  | zset items => items.length < 2 ^ 32 ∧ ∀ node ∈ items, node.member.length < 2 ^ 32

/-- The value that the items build, one after another. -/
def build (seed : Seed) : Payload → Value
  | string s => .string s
  | list items => .list (items.foldl (fun l v => l ++ [v]) [])
  | hash items => .hash (items.foldl (fun h pair => (h.set pair.1 pair.2).2) (dictCreate seed))
  | set items => .set (items.foldl (fun s member => (s.set member ()).2) (dictCreate seed))
  | zset items => .zset (zsetAddAll items zsetCreate)

end Payload

/-- The record of a key. -/
structure KeyRecord where
  key : Bytes
  expire : Int
  payload : Payload

namespace KeyRecord

def write (record : KeyRecord) : Bytes :=
  wBytes record.key ++ (wS64 record.expire ++ ([record.payload.typeCode] ++ record.payload.write))

def Encodable (record : KeyRecord) : Prop :=
  record.key.length < 2 ^ 32 ∧ IsInt64 record.expire ∧ record.payload.Encodable

/-- The key and the object that are loaded. -/
def load (seed : Seed) (record : KeyRecord) : Bytes × Robj :=
  (record.key, ⟨record.payload.build seed, record.expire⟩)

end KeyRecord

section Records

variable (seed : Seed)

/-- A branch of `rdb_read_obj`. -/
theorem rdbReadObj_eq_map {σ : Type} {type : UInt8} {r : Reader σ} {wrap : σ → Value}
    (branch : ∀ buf, rdbReadObj seed type buf = (r buf).map fun found => (wrap found.1, found.2)) :
    rdbReadObj seed type = Readers.map wrap r := by
  funext buf
  rw [branch, Option.map_eq_bind]
  rfl

theorem rdbReadObj_unknown {type : UInt8} (unknown : 4 < type) (buf : Bytes) :
    rdbReadObj seed type buf = none := by
  unfold rdbReadObj
  rw [if_neg, if_neg, if_neg, if_neg, if_neg]
  all_goals
    rintro rfl
    exact absurd unknown (by decide)

/-- A branch that reads counted items. -/
theorem parses_countedBranch {σ α : Type} {type : UInt8} {item : σ → Reader σ} {start : σ}
    {add : σ → α → σ} {valid : α → Prop} {write : α → Bytes}
    (each : ∀ acc, Parses (item acc) fun acc' piece =>
      ∃ a, acc' = add acc a ∧ valid a ∧ piece = write a)
    (wrap : σ → Value) (make : List α → Payload)
    (branch : ∀ buf, rdbReadObj seed type buf =
      (rCounted item start buf).map fun found => (wrap found.1, found.2))
    (only : ∀ payload : Payload, payload.typeCode = type ↔ ∃ items, payload = make items)
    (encodable : ∀ items, (make items).Encodable ↔ items.length < 2 ^ 32 ∧ ∀ a ∈ items, valid a)
    (build : ∀ items, (make items).build seed = wrap (items.foldl add start))
    (written : ∀ items, (make items).write = wU32 items.length ++ items.flatMap write) :
    Parses (rdbReadObj seed type) fun v piece => ∃ payload : Payload, payload.typeCode = type ∧
      payload.Encodable ∧ v = payload.build seed ∧ piece = payload.write := by
  rw [rdbReadObj_eq_map seed branch]
  refine ((parses_rCounted each start).map wrap).congr fun v piece => ?_
  constructor
  · rintro ⟨_, rfl, items, small, rfl, valids, rfl⟩
    exact ⟨make items, (only _).mpr ⟨items, rfl⟩, (encodable items).mpr ⟨small, valids⟩,
      (build items).symm, (written items).symm⟩
  · rintro ⟨payload, code, fits, rfl, rfl⟩
    obtain ⟨items, rfl⟩ := (only payload).mp code
    obtain ⟨small, valids⟩ := (encodable items).mp fits
    exact ⟨_, build items, items, small, rfl, valids, written items⟩

/-- **The payload reader takes exactly the payloads of the type.** -/
theorem parses_rdbReadObj (type : UInt8) : Parses (rdbReadObj seed type) fun v piece =>
    ∃ payload : Payload, payload.typeCode = type ∧ payload.Encodable ∧ v = payload.build seed ∧
      piece = payload.write := by
  by_cases string : type = 0
  · subst string
    rw [rdbReadObj_eq_map seed fun buf => rfl]
    refine (parses_rBytes.map Value.string).congr fun v piece => ?_
    constructor
    · rintro ⟨s, rfl, small, rfl⟩
      exact ⟨.string s, rfl, small, rfl, rfl⟩
    · rintro ⟨payload, code, encodable, rfl, rfl⟩
      cases payload with
      | string s => exact ⟨s, rfl, encodable, rfl⟩
      | _ => simp [Payload.typeCode] at code
  by_cases list : type = 1
  · subst list
    exact parses_countedBranch seed parses_rListItem .list .list (fun buf => rfl)
      (fun payload => by cases payload <;> simp [Payload.typeCode]) (fun items => Iff.rfl)
      (fun items => rfl) fun items => rfl
  by_cases hash : type = 2
  · subst hash
    exact parses_countedBranch seed parses_rHashItem .hash .hash (fun buf => rfl)
      (fun payload => by cases payload <;> simp [Payload.typeCode]) (fun items => Iff.rfl)
      (fun items => rfl) fun items => rfl
  by_cases set : type = 3
  · subst set
    exact parses_countedBranch seed parses_rSetItem .set .set (fun buf => rfl)
      (fun payload => by cases payload <;> simp [Payload.typeCode]) (fun items => Iff.rfl)
      (fun items => rfl) fun items => rfl
  by_cases zset : type = 4
  · subst zset
    exact parses_countedBranch seed parses_rZsetItem .zset .zset (fun buf => rfl)
      (fun payload => by cases payload <;> simp [Payload.typeCode]) (fun items => Iff.rfl)
      (fun items => rfl) fun items => rfl
  intro buf v rest
  constructor
  · intro found
    rw [rdbReadObj_unknown seed (by grind)] at found
    cases found
  · rintro ⟨piece, ⟨payload, code, _⟩, _⟩
    cases payload <;> exact absurd code.symm (by assumption)

/-- **The record reader takes exactly the records.** -/
theorem parses_rdbReadKey : Parses (rdbReadKey seed) fun pair piece =>
    ∃ record : KeyRecord, record.Encodable ∧ pair = record.load seed ∧ piece = record.write := by
  have fields := parses_rBytes.andThen fun key => parses_rS64.andThen fun expire =>
    parses_rU8.andThen fun type => (parses_rdbReadObj seed type).map fun val =>
      (key, (⟨val, expire⟩ : Robj))
  refine Parses.congr (show Parses (rdbReadKey seed) _ from fields) fun pair piece => ?_
  constructor
  · rintro ⟨key, _, _, ⟨small, rfl⟩, ⟨expire, _, _, ⟨fits, rfl⟩, ⟨type, _, _, rfl,
      ⟨v, rfl, payload, rfl, encodable, rfl, rfl⟩, rfl⟩, rfl⟩, rfl⟩
    exact ⟨⟨key, expire, payload⟩, ⟨small, fits, encodable⟩, rfl, rfl⟩
  · rintro ⟨record, ⟨small, fits, encodable⟩, rfl, rfl⟩
    exact ⟨_, _, _, ⟨small, rfl⟩, ⟨_, _, _, ⟨fits, rfl⟩, ⟨_, _, _, rfl,
      ⟨_, rfl, record.payload, rfl, encodable, rfl, rfl⟩, rfl⟩, rfl⟩, rfl⟩

end Records

/-! ### Files -/

/-- The header of a file that declares as many keys. -/
def snapshotHeader (count : Nat) : Bytes := rdbMagic ++ wU32 rdbVersion ++ wU32 count

section Files

variable (seeds : Nat → Seed) {count : Nat} {file : Bytes} (db : Db)

theorem snapshotHeader_length (count : Nat) : (snapshotHeader count).length = 17 := by
  have magic : rdbMagic.length = 9 := by decide
  simp only [snapshotHeader, wU32, List.length_append, BigEndian.encode_length, magic]

theorem rdbLoad_header (small : count < 2 ^ 32) (body : Bytes) :
    rdbLoad seeds (snapshotHeader count ++ body) db =
      (0, rdbLoadKeys seeds count 0 body db) := by
  have length : (snapshotHeader count ++ body).length = 17 + body.length := by
    rw [List.length_append, snapshotHeader_length]
  have magic : (snapshotHeader count ++ body).take 9 = rdbMagic ∧
      (snapshotHeader count ++ body).drop 9 = wU32 rdbVersion ++ (wU32 count ++ body) := by
    rw [snapshotHeader, List.append_assoc, List.append_assoc,
      show 9 = rdbMagic.length from by decide]
    exact ⟨List.take_left, List.drop_left⟩
  have version : rU32 (wU32 rdbVersion ++ (wU32 count ++ body)) =
      some (rdbVersion, wU32 count ++ body) :=
    (parses_rU32 _ _ _).mpr ⟨_, ⟨by decide, rfl⟩, rfl⟩
  have keys : rU32 (wU32 count ++ body) = some (count, body) :=
    (parses_rU32 _ _ _).mpr ⟨_, ⟨small, rfl⟩, rfl⟩
  unfold rdbLoad
  rw [if_neg (by rw [length, magic.1]; simp), magic.2, version]
  dsimp only
  rw [if_neg (not_not.mpr rfl), keys]

/-- A file without a header is refused, and nothing is loaded. -/
theorem rdbLoad_refuses
    (other : ∀ count body, count < 2 ^ 32 → file ≠ snapshotHeader count ++ body) :
    rdbLoad seeds file db = (-1, db) := by
  unfold rdbLoad
  by_cases magic : file.length < 9 + 4 + 4 ∨ file.take 9 ≠ rdbMagic
  · rw [if_pos magic]
  rw [if_neg magic]
  rcases version : rU32 (file.drop 9) with _ | ⟨v, buf⟩
  · rfl
  dsimp only
  by_cases supported : v ≠ rdbVersion
  · rw [if_pos supported]
  rw [if_neg supported]
  rcases keys : rU32 buf with _ | ⟨count, body⟩
  · rfl
  obtain ⟨_, ⟨_, rfl⟩, behind⟩ := (parses_rU32 _ _ _).mp version
  obtain ⟨_, ⟨small, rfl⟩, rfl⟩ := (parses_rU32 _ _ _).mp keys
  obtain rfl := not_not.mp supported
  refine absurd ?_ (other count body small)
  rw [← List.take_append_drop 9 file, behind, not_not.mp (not_or.mp magic).2, snapshotHeader]
  simp only [List.append_assoc]

end Files

end Miniredis
