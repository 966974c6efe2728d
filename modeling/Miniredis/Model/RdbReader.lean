/-
**The snapshot reader in its buffer (`rdb.c`).**

The reader of `rdb_load` as the source runs it, on a buffer with a position: `r_need` compares with
an unsigned difference and moves, and what it made available is read behind the new position. Each
pass of the key loop and of the loops over elements is a round of the cursor.
-/

import Miniredis.Lib.Cursor
import Miniredis.Model.Rdb

namespace Miniredis

/-- The buffer a file has been read into; its length is a `size_t`. -/
structure FileBuffer where
  p : Bytes
  addressable : p.length < 2 ^ 64

/-- `r_need` and the bytes it makes available. -/
def rTakeAt (buf : Bytes) (n : Nat) : Cursor.Action Bytes := do
  Cursor.need buf.length n
  Cursor.behind buf n

/-- `r_u8`. -/
def rU8At (buf : Bytes) : Cursor.Action UInt8 := do
  let t ← rTakeAt buf 1
  return t.headD 0

/-- `r_u32`. -/
def rU32At (buf : Bytes) : Cursor.Action Nat := do
  let t ← rTakeAt buf 4
  return BigEndian.decode t

/-- `r_s64`. -/
def rS64At (buf : Bytes) : Cursor.Action Int := do
  let t ← rTakeAt buf 8
  return (BigEndian.decode t : Int).bmod (2 ^ 64)

/-- `r_bytes`. -/
def rBytesAt (buf : Bytes) : Cursor.Action Bytes := do
  let len ← rU32At buf
  rTakeAt buf len

/-- `r_f64`: the bits of the `int64_t`. -/
def rF64At (buf : Bytes) : Cursor.Action Double := do
  let raw ← rS64At buf
  return ⟨UInt64.ofNat (raw % 2 ^ 64).toNat⟩

def rListItemAt (buf : Bytes) (l : List Bytes) : Cursor.Action (List Bytes) := do
  let v ← rBytesAt buf
  return l ++ [v]

def rHashItemAt (buf : Bytes) (h : Dict Bytes) : Cursor.Action (Dict Bytes) := do
  let fk ← rBytesAt buf
  let fv ← rBytesAt buf
  return (h.set fk fv).2

def rSetItemAt (buf : Bytes) (s : Dict Unit) : Cursor.Action (Dict Unit) := do
  let m ← rBytesAt buf
  return (s.set m ()).2

def rZsetItemAt (buf : Bytes) (z : Zset) : Cursor.Action Zset := do
  let m ← rBytesAt buf
  let score ← rF64At buf
  return (zsetAdd z score m).2

/-- A payload of counted items. -/
def rCountedAt {σ : Type} (buf : Bytes) (item : σ → Cursor.Action σ) (start : σ) :
    Cursor.Action σ := do
  let cnt ← rU32At buf
  Cursor.loop item cnt start

/-- `rdb_read_obj`. -/
def rdbReadObjAt (buf : Bytes) (seed : Seed) (type : UInt8) : Cursor.Action Value :=
  if type = 0 then do return .string (← rBytesAt buf)
  else if type = 1 then do return .list (← rCountedAt buf (rListItemAt buf) [])
  else if type = 2 then do return .hash (← rCountedAt buf (rHashItemAt buf) (dictCreate seed))
  else if type = 3 then do return .set (← rCountedAt buf (rSetItemAt buf) (dictCreate seed))
  else if type = 4 then do return .zset (← rCountedAt buf (rZsetItemAt buf) zsetCreate)
  else failure

/-- The reads in one pass of the key loop. -/
def rdbReadKeyAt (buf : Bytes) (seed : Seed) : Cursor.Action (Bytes × Robj) := do
  let key ← rBytesAt buf
  let expire ← rS64At buf
  let type ← rU8At buf
  let o ← rdbReadObjAt buf seed type
  return (key, ⟨o, expire⟩)

/-- The key loop of `rdb_load`. -/
def rdbLoadKeysAt (buf : Bytes) (seeds : Nat → Seed) : Nat → Nat → Db → Cursor →
    Option (Db × Cursor)
  | 0, _, db, r => some (db, r)
  | n + 1, i, db, r => do
    match ← (do Cursor.round; rdbReadKeyAt buf (seeds i) : Cursor.Action (Bytes × Robj)) r with
    | (none, r) => some (db, r)
    | (some (key, o), r) => rdbLoadKeysAt buf seeds n (i + 1) { db with d := (db.d.set key o).2 } r

/-- `rdb_load` behind the read of the file: the return value, the store, and the reader. -/
def rdbLoadAt (seeds : Nat → Seed) (b : FileBuffer) (db : Db) : Option ((Int × Db) × Cursor) :=
  if b.p.length < 9 + 4 + 4 then some ((-1, db), ⟨0, [0], 0⟩)
  else do
    let magic ← Buffer.slice b.p 0 9
    if magic ≠ rdbMagic then some ((-1, db), ⟨0, [0], 0⟩)
    else
      match ← rU32At b.p ⟨9, [9, 0], 0⟩ with
      | (none, r) => some ((-1, db), r)
      | (some version, r) =>
        if version ≠ rdbVersion then some ((-1, db), r)
        else
          match ← rU32At b.p r with
          | (none, r) => some ((-1, db), r)
          | (some count, r) =>
            let (db, r) ← rdbLoadKeysAt b.p seeds count 0 db r
            some ((0, db), r)

end Miniredis
