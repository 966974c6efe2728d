/-
**Snapshots (`rdb.c`).**

`rdbSaveBytes` is the buffer `rdb_save` builds and `rdbLoad` reads it back: magic, version, key
count, then the keys with their expiry, type and payload. Lengths and counts are written as 32-bit
words. A reader that runs out of bytes fails; a failure inside a key ends the load with the keys
read so far.
-/

import Miniredis.Lib.Numerals
import Miniredis.Model.Db

namespace Miniredis

/-! ### Writer -/

/-- `RDB_MAGIC`. -/
def rdbMagic : Bytes := text "MINIREDIS"

/-- `RDB_VERSION`. -/
def rdbVersion : Nat := 1

/-- `w_u32`. -/
def wU32 (n : Nat) : Bytes := BigEndian.encode 4 n

/-- `w_s64`. -/
def wS64 (v : Int) : Bytes := BigEndian.encode 8 (v % 2 ^ 64).toNat

/-- `w_f64`. -/
def wF64 (d : Double) : Bytes := BigEndian.encode 8 d.bits.toNat

/-- `w_bytes`. -/
def wBytes (s : Bytes) : Bytes := wU32 s.length ++ s

/-- The value of an `obj_type`. -/
def Value.typeCode : Value → UInt8
  | .string _ => 0
  | .list _ => 1
  | .hash _ => 2
  | .set _ => 3
  | .zset _ => 4

/-- `rdb_write_obj`. -/
def rdbWriteObj : Value → Bytes
  | .string s => wBytes s
  | .list l => wU32 l.length ++ l.flatMap wBytes
  | .hash h => wU32 (dictSize h) ++ h.pairs.flatMap fun (field, v) => wBytes field ++ wBytes v
  | .set s => wU32 (dictSize s) ++ s.pairs.flatMap fun (member, _) => wBytes member
  | .zset z => wU32 (zsetLen z) ++ z.nodes.flatMap fun node => wBytes node.member ++ wF64 node.score

/-- The record of one key. -/
def rdbRecord (key : Bytes) (o : Robj) : Bytes :=
  wBytes key ++ wS64 o.expireAt ++ [o.val.typeCode] ++ rdbWriteObj o.val

/-- The buffer of `rdb_save`. -/
def rdbSaveBytes (db : Db) : Bytes :=
  rdbMagic ++ wU32 rdbVersion ++ wU32 (dictSize db.d) ++
    db.d.pairs.flatMap fun (key, o) => rdbRecord key o

/-! ### Reader -/

/-- A reader of the bytes left: a value and what it leaves, or a failure. -/
abbrev Reader (α : Type) := Bytes → Option (α × Bytes)

/-- `r_need` and the bytes it makes available. -/
def rTake (n : Nat) : Reader Bytes := fun buf =>
  if n > buf.length then none else some (buf.take n, buf.drop n)

/-- `r_u8`. -/
def rU8 : Reader UInt8 := fun buf => do
  let (bytes, buf) ← rTake 1 buf
  return (bytes.headD 0, buf)

/-- `r_u32`. -/
def rU32 : Reader Nat := fun buf => do
  let (bytes, buf) ← rTake 4 buf
  return (BigEndian.decode bytes, buf)

/-- `r_s64`. -/
def rS64 : Reader Int := fun buf => do
  let (bytes, buf) ← rTake 8 buf
  return ((BigEndian.decode bytes : Int).bmod (2 ^ 64), buf)

/-- `r_f64`. -/
def rF64 : Reader Double := fun buf => do
  let (bytes, buf) ← rTake 8 buf
  return (⟨UInt64.ofNat (BigEndian.decode bytes)⟩, buf)

/-- `r_bytes`. -/
def rBytes : Reader Bytes := fun buf => do
  let (n, buf) ← rU32 buf
  rTake n buf

/-- A counted loop of the reader over an accumulator. -/
def rLoop {σ : Type} (item : σ → Reader σ) : Nat → σ → Reader σ
  | 0, acc, buf => some (acc, buf)
  | n + 1, acc, buf => do
    let (acc, buf) ← item acc buf
    rLoop item n acc buf

def rListItem (l : List Bytes) : Reader (List Bytes) := fun buf => do
  let (v, buf) ← rBytes buf
  return (l ++ [v], buf)

def rHashItem (h : Dict Bytes) : Reader (Dict Bytes) := fun buf => do
  let (field, buf) ← rBytes buf
  let (v, buf) ← rBytes buf
  return ((h.set field v).2, buf)

def rSetItem (s : Dict Unit) : Reader (Dict Unit) := fun buf => do
  let (member, buf) ← rBytes buf
  return ((s.set member ()).2, buf)

def rZsetItem (z : Zset) : Reader Zset := fun buf => do
  let (member, buf) ← rBytes buf
  let (score, buf) ← rF64 buf
  return ((zsetAdd z score member).2, buf)

/-- A payload of counted items. -/
def rCounted {σ : Type} (item : σ → Reader σ) (start : σ) : Reader σ := fun buf => do
  let (n, buf) ← rU32 buf
  rLoop item n start buf

/-- `rdb_read_obj`; `seed` is that of the dictionary it may create. -/
def rdbReadObj (seed : Seed) (type : UInt8) : Reader Value := fun buf =>
  if type = 0 then (rBytes buf).map fun (s, buf) => (.string s, buf)
  else if type = 1 then (rCounted rListItem [] buf).map fun (l, buf) => (.list l, buf)
  else if type = 2 then
    (rCounted rHashItem (dictCreate seed) buf).map fun (h, buf) => (.hash h, buf)
  else if type = 3 then (rCounted rSetItem (dictCreate seed) buf).map fun (s, buf) => (.set s, buf)
  else if type = 4 then (rCounted rZsetItem zsetCreate buf).map fun (z, buf) => (.zset z, buf)
  else none

/-- One key of the file. -/
def rdbReadKey (seed : Seed) : Reader (Bytes × Robj) := fun buf => do
  let (key, buf) ← rBytes buf
  let (expire, buf) ← rS64 buf
  let (type, buf) ← rU8 buf
  let (val, buf) ← rdbReadObj seed type buf
  return ((key, ⟨val, expire⟩), buf)

/-- The key loop of `rdb_load`: `n` keys to go; key number `i` takes its seed from place `i`. -/
def rdbLoadKeys (seeds : Nat → Seed) : Nat → Nat → Bytes → Db → Db
  | 0, _, _, db => db
  | n + 1, i, buf, db =>
    match rdbReadKey (seeds i) buf with
    | none => db
    | some ((key, o), buf) =>
      rdbLoadKeys seeds n (i + 1) buf { db with d := (db.d.set key o).2 }

/-- `rdb_load` of a file's bytes: the return value and the store. -/
def rdbLoad (seeds : Nat → Seed) (file : Bytes) (db : Db) : Int × Db :=
  if file.length < 9 + 4 + 4 ∨ file.take 9 ≠ rdbMagic then (-1, db)
  else
    match rU32 (file.drop 9) with
    | none => (-1, db)
    | some (version, buf) =>
      if version ≠ rdbVersion then (-1, db)
      else
        match rU32 buf with
        | none => (-1, db)
        | some (count, buf) => (0, rdbLoadKeys seeds count 0 buf db)

end Miniredis
