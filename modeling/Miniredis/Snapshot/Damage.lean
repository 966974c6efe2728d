/-
**Damaged snapshots.**

* `rdbReadKey_refuses_iff` — a record is refused if it is cut short or has an unknown type;
* `rdbLoadKeys_leading` — what the key loop loads of any bytes: the records before the first one
  that it refuses;
* `rdb_load_prefix` — a part of a snapshot loads the keys whose records it holds whole;
* `rdb_load_reports_iff` — the return value tells a damaged file from a whole one only if the file
  is not damaged.
-/

import Miniredis.Snapshot.Codec

namespace Miniredis

open Readers (Parses Completes)

/-! ### Records that are refused -/

/-- A proper part of a record. -/
def Truncated (buf : Bytes) : Prop :=
  ∃ (record : KeyRecord) (more : Bytes), record.Encodable ∧ more ≠ [] ∧ buf ++ more = record.write

/-- A key header whose type is none. -/
def UnknownType (buf : Bytes) : Prop :=
  ∃ (key : Bytes) (expire : Int) (type : UInt8) (rest : Bytes), key.length < 2 ^ 32 ∧
    IsInt64 expire ∧ 4 < type ∧ buf = wBytes key ++ (wS64 expire ++ ([type] ++ rest))

section Refused

variable (seed : Seed)

theorem completes_rBytes : Completes rBytes :=
  ((Readers.completes_take 4).map BigEndian.decode).andThen Readers.completes_take parses_rU32
    Readers.parses_take

theorem completes_rS64 : Completes rS64 :=
  (Readers.completes_take 8).map fun bytes => (BigEndian.decode bytes : Int).bmod (2 ^ 64)

theorem completes_rCounted {σ α : Type} {item : σ → Reader σ} {add : σ → α → σ}
    {valid : α → Prop} {write : α → Bytes} (completes : ∀ acc, Completes (item acc))
    (each : ∀ acc, Parses (item acc) fun acc' piece =>
      ∃ a, acc' = add acc a ∧ valid a ∧ piece = write a) (start : σ) :
    Completes (rCounted item start) := by
  have loops (n : Nat) : Completes (rLoop item n start) := by
    rw [rLoop_eq]
    exact Completes.loop completes each n start
  have parses (n : Nat) := Parses.loop each n start
  simp only [← rLoop_eq] at parses
  exact ((Readers.completes_take 4).map BigEndian.decode).andThen loops parses_rU32 parses

theorem completes_rHashItem (h : Dict Bytes) : Completes (rHashItem h) :=
  completes_rBytes.andThen (fun field => completes_rBytes.map fun v => (h.set field v).2)
    parses_rBytes fun field => parses_rBytes.map fun v => (h.set field v).2

theorem completes_rZsetItem (z : Zset) : Completes (rZsetItem z) :=
  completes_rBytes.andThen
    (fun member => ((Readers.completes_take 8).map fun bytes =>
      Double.mk (UInt64.ofNat (BigEndian.decode bytes))).map fun score =>
        (zsetAdd z score member).2)
    parses_rBytes fun member => parses_rF64.map fun score => (zsetAdd z score member).2

/-- A payload of a known type is refused only for want of bytes. -/
theorem completes_rdbReadObj {type : UInt8} (known : type ≤ 4) :
    Completes (rdbReadObj seed type) := by
  have branch : type = 0 ∨ type = 1 ∨ type = 2 ∨ type = 3 ∨ type = 4 := by grind
  obtain rfl | rfl | rfl | rfl | rfl := branch
  · rw [rdbReadObj_eq_map seed fun buf => rfl]
    exact completes_rBytes.map Value.string
  · rw [rdbReadObj_eq_map seed fun buf => rfl]
    exact (completes_rCounted (fun l => completes_rBytes.map fun v => l ++ [v]) parses_rListItem
      []).map Value.list
  · rw [rdbReadObj_eq_map seed fun buf => rfl]
    exact (completes_rCounted completes_rHashItem parses_rHashItem _).map Value.hash
  · rw [rdbReadObj_eq_map seed fun buf => rfl]
    exact (completes_rCounted (fun s => completes_rBytes.map fun member => (s.set member ()).2)
      parses_rSetItem _).map Value.set
  · rw [rdbReadObj_eq_map seed fun buf => rfl]
    exact (completes_rCounted completes_rZsetItem parses_rZsetItem _).map Value.zset

/-- Behind its header a record is read as its payload. -/
theorem rdbReadKey_header {key : Bytes} {expire : Int} (small : key.length < 2 ^ 32)
    (fits : IsInt64 expire) (type : UInt8) (buf : Bytes) :
    rdbReadKey seed (wBytes key ++ (wS64 expire ++ ([type] ++ buf))) =
      (rdbReadObj seed type buf).bind fun found => some ((key, ⟨found.1, expire⟩), found.2) := by
  have first : rBytes (wBytes key ++ (wS64 expire ++ ([type] ++ buf))) =
      some (key, wS64 expire ++ ([type] ++ buf)) :=
    (parses_rBytes _ _ _).mpr ⟨_, ⟨small, rfl⟩, rfl⟩
  have second : rS64 (wS64 expire ++ ([type] ++ buf)) = some (expire, [type] ++ buf) :=
    (parses_rS64 _ _ _).mpr ⟨_, ⟨fits, rfl⟩, rfl⟩
  have third : rU8 ([type] ++ buf) = some (type, buf) := (parses_rU8 _ _ _).mpr ⟨_, rfl, rfl⟩
  unfold rdbReadKey
  rw [first]
  dsimp only [Option.bind_eq_bind, Option.bind_some]
  rw [second]
  dsimp only [Option.bind_some]
  rw [third]
  rfl

/-- A header that is cut short, completed to the record of an empty string. -/
theorem truncated_header {buf key : Bytes} {expire : Int} (small : key.length < 2 ^ 32)
    (fits : IsInt64 expire) (more : Bytes) (proper : more ≠ [])
    (front : buf ++ more = wBytes key ++ (wS64 expire ++ ([0] ++ wBytes []))) : Truncated buf :=
  ⟨⟨key, expire, .string []⟩, more, ⟨small, fits, by simp [Payload.Encodable]⟩, proper, front⟩

/-- **A record is refused if it is cut short or has an unknown type.** -/
theorem rdbReadKey_refuses_iff {buf : Bytes} :
    rdbReadKey seed buf = none ↔ Truncated buf ∨ UnknownType buf := by
  constructor
  · intro refused
    rcases first : rBytes buf with _ | ⟨key, buf₁⟩
    · obtain ⟨more, key, whole⟩ := completes_rBytes buf first
      obtain ⟨_, ⟨small, rfl⟩, front⟩ := (parses_rBytes _ _ _).mp whole
      refine .inl (truncated_header small (show IsInt64 0 by decide)
        (more ++ (wS64 0 ++ ([0] ++ wBytes [])))
        (List.append_ne_nil_of_right_ne_nil more (by decide)) ?_)
      rw [← List.append_assoc, front, List.append_nil]
    obtain ⟨_, ⟨small, rfl⟩, rfl⟩ := (parses_rBytes _ _ _).mp first
    rcases second : rS64 buf₁ with _ | ⟨expire, buf₂⟩
    · obtain ⟨more, expire, whole⟩ := completes_rS64 buf₁ second
      obtain ⟨_, ⟨fits, rfl⟩, front⟩ := (parses_rS64 _ _ _).mp whole
      refine .inl (truncated_header small fits (more ++ ([0] ++ wBytes []))
        (List.append_ne_nil_of_right_ne_nil more (by decide)) ?_)
      rw [List.append_assoc, ← List.append_assoc buf₁, front, List.append_nil]
    obtain ⟨_, ⟨fits, rfl⟩, rfl⟩ := (parses_rS64 _ _ _).mp second
    cases buf₂ with
    | nil =>
      refine .inl (truncated_header small fits ([0] ++ wBytes []) (by decide) ?_)
      rw [List.append_nil, List.append_assoc]
    | cons type buf₃ =>
      by_cases known : type ≤ 4
      · have missing : rdbReadObj seed type buf₃ = none := by
          rw [← List.singleton_append, rdbReadKey_header seed small fits] at refused
          rcases found : rdbReadObj seed type buf₃ with _ | found'
          · rfl
          · rw [found] at refused
            cases refused
        obtain ⟨more, v, whole⟩ := completes_rdbReadObj seed known buf₃ missing
        obtain ⟨_, ⟨payload, rfl, encodable, _, rfl⟩, behind⟩ :=
          (parses_rdbReadObj seed _ _ _ _).mp whole
        refine .inl ⟨⟨key, expire, payload⟩, more, ⟨small, fits, encodable⟩, ?_, ?_⟩
        · rintro rfl
          rw [List.append_nil, missing] at whole
          cases whole
        · rw [List.append_nil] at behind
          rw [KeyRecord.write, ← behind]
          simp
      · exact .inr ⟨key, expire, type, buf₃, small, fits, by grind, rfl⟩
  · rintro (⟨record, more, encodable, proper, same⟩ |
      ⟨key, expire, type, rest, small, fits, unknown, rfl⟩)
    · have whole : rdbReadKey seed record.write = some (record.load seed, []) :=
        (parses_rdbReadKey seed _ _ _).mpr
          ⟨_, ⟨record, encodable, rfl, rfl⟩, (List.append_nil _).symm⟩
      refine (parses_rdbReadKey seed).cut whole ⟨more, same⟩ fun all => proper ?_
      simpa [all] using same
    · rw [rdbReadKey_header seed small fits, rdbReadObj_unknown seed unknown]
      rfl

end Refused

/-! ### Parts of a snapshot -/

/-- The pieces of a file that end within its first `n` bytes. -/
def endsWithin (pieces : List Bytes) (n : Nat) : Nat :=
  (List.range pieces.length).countP fun i => (pieces.take (i + 1)).flatten.length ≤ n

/-- The key records that lie within the first `n` bytes of a snapshot, behind its header. -/
def recordsWithin (db : Db) (n : Nat) : Nat :=
  (List.range db.d.pairs.length).countP fun i =>
    17 + ((db.d.pairs.take (i + 1)).flatMap fun pair => rdbRecord pair.1 pair.2).length ≤ n

section Parts

variable (seeds : Nat → Seed)

theorem endsWithin_cons (piece : Bytes) (pieces : List Bytes) (n : Nat) :
    endsWithin (piece :: pieces) n =
      if piece.length ≤ n then endsWithin pieces (n - piece.length) + 1 else 0 := by
  have ends (i : Nat) : ((piece :: pieces).take (i + 1)).flatten.length =
      piece.length + (pieces.take i).flatten.length := by
    rw [List.take_succ_cons, List.flatten_cons, List.length_append]
  unfold endsWithin
  rw [List.length_cons, List.range_succ_eq_map, List.countP_cons, List.countP_map]
  by_cases inside : piece.length ≤ n
  · rw [if_pos inside, if_pos (by simpa using inside)]
    refine congrArg (· + 1) (List.countP_congr fun i _ => ?_)
    simp only [Function.comp, decide_eq_true_eq, ends, Nat.succ_eq_add_one]
    omega
  · rw [if_neg inside, if_neg (by simpa using inside), Nat.add_zero, List.countP_eq_zero]
    intro i _
    simp only [Function.comp, decide_eq_true_eq, ends, Nat.succ_eq_add_one]
    omega

theorem recordsWithin_eq (db : Db) {n : Nat} (header : 17 ≤ n) : recordsWithin db n =
    endsWithin (db.d.pairs.map fun pair => rdbRecord pair.1 pair.2) (n - 17) := by
  unfold recordsWithin endsWithin
  rw [List.length_map]
  refine List.countP_congr fun i _ => ?_
  rw [decide_eq_true_eq, decide_eq_true_eq, ← List.map_take, ← List.flatMap_def]
  omega

/-- The key loop on a part of the records loads those that are there whole. -/
theorem rdbLoadKeys_part (pairs : List (Bytes × Robj)) (i : Nat) (db : Db)
    (fits : ∀ pair ∈ pairs,
      pair.1.length < 2 ^ 32 ∧ IsInt64 pair.2.expireAt ∧ pair.2.val.Encodable)
    {part : Bytes} (cut : part <+: pairs.flatMap fun pair => rdbRecord pair.1 pair.2) :
    ∃ loaded, List.Forall₂ SameRecord (pairs.take (endsWithin
        (pairs.map fun pair => rdbRecord pair.1 pair.2) part.length)) loaded ∧
      rdbLoadKeys seeds pairs.length i part db = { db with d := .setAll loaded db.d } := by
  induction pairs generalizing i db part with
  | nil => exact ⟨[], .nil, rfl⟩
  | cons pair rest ih =>
    obtain ⟨⟨key, expire, val⟩, later⟩ := List.forall_mem_cons.mp fits
    rw [List.flatMap_cons] at cut
    rw [List.map_cons, endsWithin_cons]
    by_cases whole : (rdbRecord pair.1 pair.2).length ≤ part.length
    · obtain ⟨behind, rfl⟩ := List.prefix_of_prefix_length_le (List.prefix_append _ _) cut whole
      have inner := (List.prefix_append_right_inj _).mp cut
      obtain ⟨pair', read, same⟩ := rdbReadKey_record (seeds i) behind key expire val
      obtain ⟨loaded, records, loads⟩ :=
        ih (i + 1) { db with d := (db.d.set pair'.1 pair'.2).2 } later inner
      rw [if_pos whole, List.length_append, Nat.add_sub_cancel_left, List.take_succ_cons]
      refine ⟨pair' :: loaded, .cons same records, ?_⟩
      rw [List.length_cons, rdbLoadKeys, read]
      exact loads
    · have inside : part <+: rdbRecord pair.1 pair.2 :=
        List.prefix_of_prefix_length_le cut (List.prefix_append _ _) (by omega)
      obtain ⟨pair', read, -⟩ := rdbReadKey_record (seeds i) [] key expire val
      rw [List.append_nil] at read
      have refused : rdbReadKey (seeds i) part = none :=
        (parses_rdbReadKey (seeds i)).cut read inside fun all => whole (by rw [all])
      rw [if_neg whole, List.take_zero]
      refine ⟨[], .nil, ?_⟩
      rw [List.length_cons, rdbLoadKeys, refused]
      rfl

/-- **A part of a snapshot loads a clean prefix of its keys**: none without the header, and behind
it the keys whose records the part holds whole, with their contents and expiries. -/
theorem rdb_load_prefix {db blank : Db} (fits : Encodable db)
    (empty : ∀ key, blank.d.get key = none) {part : Bytes} (cut : part <+: rdbSaveBytes db) :
    (part.length < 17 → rdbLoad seeds part blank = (-1, blank)) ∧
      (17 ≤ part.length → ∀ key, stored (rdbLoad seeds part blank).2 key =
        if key ∈ (db.d.pairs.take (recordsWithin db part.length)).map Prod.fst
        then stored db key else none) := by
  refine ⟨fun short => ?_, fun header key => ?_⟩
  · refine rdbLoad_refuses seeds blank fun count body _ shape => ?_
    rw [shape, List.length_append, snapshotHeader_length] at short
    omega
  · have size : dictSize db.d = db.d.pairs.length := db.d.pairs_length.symm
    obtain ⟨body, rfl⟩ := List.prefix_of_prefix_length_le
      (List.prefix_append (snapshotHeader (dictSize db.d)) _) cut
      (by rw [snapshotHeader_length]; exact header)
    have inner := (List.prefix_append_right_inj _).mp cut
    obtain ⟨loaded, records, keys⟩ := rdbLoadKeys_part seeds db.d.pairs 0 blank fits.key inner
    have room : (snapshotHeader (dictSize db.d) ++ body).length - 17 = body.length := by
      rw [List.length_append, snapshotHeader_length, Nat.add_sub_cancel_left]
    rw [rdbLoad_header seeds blank fits.count, size, keys, ← size, recordsWithin_eq db header, room]
    refine (sim_stored (loaded_sim records (List.take_sublist _ _) empty key)).trans ?_
    exact apply_ite _ _ _ _

/-- The sample store's snapshot without its last byte. -/
theorem rdb_load_prefix_sample :
    ((rdbSaveBytes sampleStore).dropLast.length < 17 →
        rdbLoad (fun _ => Vector.replicate 16 1) (rdbSaveBytes sampleStore).dropLast
          (dbCreate (Vector.replicate 16 2)) = (-1, dbCreate (Vector.replicate 16 2))) ∧
      (17 ≤ (rdbSaveBytes sampleStore).dropLast.length → ∀ key,
        stored (rdbLoad (fun _ => Vector.replicate 16 1) (rdbSaveBytes sampleStore).dropLast
          (dbCreate (Vector.replicate 16 2))).2 key =
        if key ∈ (sampleStore.d.pairs.take (recordsWithin sampleStore
          (rdbSaveBytes sampleStore).dropLast.length)).map Prod.fst
        then stored sampleStore key else none) :=
  rdb_load_prefix _ (by decide) (fun key => dictCreate_get _ key) (List.dropLast_prefix _)

end Parts

/-! ### Files that are damaged -/

/-- A version-1 snapshot with every record that it declares; bytes may follow. -/
def CompleteSnapshot (file : Bytes) : Prop :=
  ∃ (records : List KeyRecord) (rest : Bytes), records.length < 2 ^ 32 ∧
    (∀ record ∈ records, record.Encodable) ∧
    file = snapshotHeader records.length ++ (records.flatMap KeyRecord.write ++ rest)

/-- A version-1 snapshot in which one of the records it declares is cut short or has an unknown
type. -/
def DamagedSnapshot (file : Bytes) : Prop :=
  ∃ (count : Nat) (records : List KeyRecord) (rest : Bytes), count < 2 ^ 32 ∧
    records.length < count ∧ (∀ record ∈ records, record.Encodable) ∧
    (Truncated rest ∨ UnknownType rest) ∧
    file = snapshotHeader count ++ (records.flatMap KeyRecord.write ++ rest)

section Files

variable (seeds : Nat → Seed)

theorem rdbReadKey_write (seed : Seed) {record : KeyRecord} (encodable : record.Encodable)
    (rest : Bytes) : rdbReadKey seed (record.write ++ rest) = some (record.load seed, rest) :=
  (parses_rdbReadKey seed _ _ _).mpr ⟨_, ⟨record, encodable, rfl, rfl⟩, rfl⟩

/-- **What the key loop loads of any bytes**: the records before the first one it refuses. -/
theorem rdbLoadKeys_leading (n i : Nat) (buf : Bytes) (db : Db) :
    ∃ (records : List KeyRecord) (rest : Bytes), records.length ≤ n ∧
      (∀ record ∈ records, record.Encodable) ∧ buf = records.flatMap KeyRecord.write ++ rest ∧
      (records.length < n → Truncated rest ∨ UnknownType rest) ∧
      rdbLoadKeys seeds n i buf db = { db with
        d := .setAll (records.mapIdx fun j record => record.load (seeds (i + j))) db.d } := by
  induction n generalizing i buf db with
  | zero => exact ⟨[], buf, le_rfl, by simp, rfl, fun more => absurd more (lt_irrefl 0), rfl⟩
  | succ n ih =>
    rcases found : rdbReadKey (seeds i) buf with _ | ⟨pair, left⟩
    · refine ⟨[], buf, Nat.zero_le _, by simp, rfl,
        fun _ => (rdbReadKey_refuses_iff (seeds i)).mp found, ?_⟩
      rw [rdbLoadKeys, found]
      rfl
    · obtain ⟨_, ⟨record, encodable, rfl, rfl⟩, rfl⟩ := (parses_rdbReadKey _ _ _ _).mp found
      obtain ⟨records, rest, count, encodables, rfl, refused, loads⟩ :=
        ih (i + 1) left { db with d := (db.d.set record.key (record.load (seeds i)).2).2 }
      refine ⟨record :: records, rest, Nat.succ_le_succ count,
        List.forall_mem_cons.mpr ⟨encodable, encodables⟩, by simp,
        fun more => refused (Nat.lt_of_succ_lt_succ more), ?_⟩
      have shift : (fun j (record : KeyRecord) => record.load (seeds (i + 1 + j))) =
          fun j record => record.load (seeds (i + (j + 1))) := by
        funext j record
        rw [Nat.add_assoc, Nat.add_comm 1 j]
      rw [rdbLoadKeys, found, List.mapIdx_cons, ← shift]
      exact loads

/-- Records are read one way only. -/
theorem leading_le {records records' : List KeyRecord} {rest rest' : Bytes}
    (encodable : ∀ record ∈ records, record.Encodable)
    (encodable' : ∀ record ∈ records', record.Encodable)
    (refused : Truncated rest ∨ UnknownType rest)
    (same : records.flatMap KeyRecord.write ++ rest = records'.flatMap KeyRecord.write ++ rest') :
    records'.length ≤ records.length := by
  let seed : Seed := Vector.replicate 16 0
  induction records' generalizing records with
  | nil => exact Nat.zero_le _
  | cons record' records' ih =>
    obtain ⟨first', later'⟩ := List.forall_mem_cons.mp encodable'
    have read' := rdbReadKey_write seed first' (records'.flatMap KeyRecord.write ++ rest')
    rw [List.flatMap_cons, List.append_assoc] at same
    cases records with
    | nil =>
      rw [← same] at read'
      have none := (rdbReadKey_refuses_iff seed).mpr refused
      exact absurd (none.symm.trans read') (by simp)
    | cons record records =>
      obtain ⟨first, later⟩ := List.forall_mem_cons.mp encodable
      have read := rdbReadKey_write seed first (records.flatMap KeyRecord.write ++ rest)
      rw [List.flatMap_cons, List.append_assoc] at same
      rw [same, read'] at read
      exact Nat.succ_le_succ (ih later later' (Prod.mk.inj (Option.some.inj read)).2.symm)

/-- A file with a header is complete or damaged. -/
theorem complete_or_damaged {count : Nat} (small : count < 2 ^ 32) (body : Bytes) :
    CompleteSnapshot (snapshotHeader count ++ body) ∨
      DamagedSnapshot (snapshotHeader count ++ body) := by
  obtain ⟨records, rest, inside, encodable, rfl, refused, _⟩ :=
    rdbLoadKeys_leading (fun _ => Vector.replicate 16 0) count 0 body
      (dbCreate (Vector.replicate 16 0))
  rcases inside.eq_or_lt with rfl | fewer
  · exact .inl ⟨records, rest, small, encodable, rfl⟩
  · exact .inr ⟨count, records, rest, small, fewer, encodable, refused fewer, rfl⟩

theorem snapshotHeader_inj {count count' : Nat} (small : count < 2 ^ 32) (small' : count' < 2 ^ 32)
    {body body' : Bytes} (same : snapshotHeader count ++ body = snapshotHeader count' ++ body') :
    count = count' ∧ body = body' := by
  simp only [snapshotHeader, List.append_assoc, List.append_cancel_left_eq] at same
  have read : rU32 (wU32 count ++ body) = some (count, body) :=
    (parses_rU32 _ _ _).mpr ⟨_, ⟨small, rfl⟩, rfl⟩
  have read' : rU32 (wU32 count' ++ body') = some (count', body') :=
    (parses_rU32 _ _ _).mpr ⟨_, ⟨small', rfl⟩, rfl⟩
  rw [same, read'] at read
  exact Prod.mk.inj (Option.some.inj read.symm)

/-- No file is both. -/
theorem CompleteSnapshot.not_damaged {file : Bytes} (complete : CompleteSnapshot file) :
    ¬ DamagedSnapshot file := by
  rintro ⟨count, records, rest, small, fewer, encodable, refused, rfl⟩
  obtain ⟨records', rest', small', encodable', same⟩ := complete
  obtain ⟨rfl, body⟩ := snapshotHeader_inj small small' same
  exact absurd (leading_le encodable encodable' refused body) (by omega)

/-- **The return value of `rdb_load`** on a damaged file is that of a complete one. -/
theorem rdb_load_reports_iff (file : Bytes) (store : Db) :
    (((rdbLoad seeds file store).1 = 0 → CompleteSnapshot file) ∧
      (DamagedSnapshot file → (rdbLoad seeds file store).1 = -1)) ↔ ¬ DamagedSnapshot file := by
  constructor
  · rintro ⟨-, reports⟩ damaged
    have failed := reports damaged
    obtain ⟨count, records, rest, small, -, -, -, rfl⟩ := damaged
    rw [rdbLoad_header seeds store small] at failed
    exact absurd failed (by dsimp only; decide)
  · intro whole
    refine ⟨fun returned => ?_, fun damaged => absurd damaged whole⟩
    by_cases header : ∃ count body, count < 2 ^ 32 ∧ file = snapshotHeader count ++ body
    · obtain ⟨count, body, small, rfl⟩ := header
      exact (complete_or_damaged small body).resolve_right whole
    · have refused : rdbLoad seeds file store = (-1, store) :=
        rdbLoad_refuses seeds store fun count body small shape =>
          header ⟨count, body, small, shape⟩
      rw [refused] at returned
      exact absurd returned (by dsimp only; decide)

/-- A header that declares one key, and no key. -/
theorem rdb_load_accepts_missing :
    (rdbLoad (fun _ => Vector.replicate 16 0) (text "MINIREDIS" ++ [0, 0, 0, 1, 0, 0, 0, 1])
        (dbCreate (Vector.replicate 16 0))).1 = 0 ∧
      DamagedSnapshot (text "MINIREDIS" ++ [0, 0, 0, 1, 0, 0, 0, 1]) ∧
      ¬ CompleteSnapshot (text "MINIREDIS" ++ [0, 0, 0, 1, 0, 0, 0, 1]) := by
  have damaged : DamagedSnapshot (text "MINIREDIS" ++ [0, 0, 0, 1, 0, 0, 0, 1]) := by
    refine ⟨1, [], [], by decide, by decide, by simp, .inl ?_, by decide⟩
    exact truncated_header (show ([] : Bytes).length < 2 ^ 32 by decide)
      (show IsInt64 0 by decide) _ (by decide) rfl
  refine ⟨rfl, damaged, fun complete => complete.not_damaged damaged⟩

end Files

end Miniredis
