/-
**Hash commands (`db.c`).**

A hash is a dictionary of string objects. The creating commands make the key before they look at
the field, so a refused `HINCRBYFLOAT` on a missing key leaves an empty hash behind.
-/

import Miniredis.Model.Strings

namespace Miniredis

/-! ### Writing fields -/

/-- The pair loop of `hash_set_many`. -/
def hashSetLoop : List Bytes → Dict Bytes → Nat → Dict Bytes × Nat
  | field :: value :: rest, h, added =>
    hashSetLoop rest (h.set field value).2 (if (h.get field).isNone then added + 1 else added)
  | _, h, added => (h, added)

def hashSetMany (ok : Bool) : Handler := fun env db argv =>
  if argv.length < 4 ∨ (argv.length - 2) % 2 = 1 then (db, replyArity (arg argv 0))
  else
    onKey (env.now 0) db (arg argv 1) (hashKind.upsert env.seed fun h =>
      let (h, added) := hashSetLoop (argv.drop 2) h 0
      (h, if ok then replyOk else replyInteger added))

def cmdHset : Handler := hashSetMany false

def cmdHmset : Handler := hashSetMany true

/-- The field loop of `HDEL`. -/
def hdelLoop : List Bytes → Dict Bytes → Nat → Dict Bytes × Nat
  | [], h, removed => (h, removed)
  | field :: rest, h, removed =>
    hdelLoop rest (h.delete field).2
      (if (h.delete field).1.isSome then removed + 1 else removed)

def cmdHdel : Handler := fun env db argv =>
  if argv.length < 3 then (db, replyArity (text "hdel"))
  else
    onKey (env.now 0) db (arg argv 1) (hashKind.shrink (replyInteger 0) fun h =>
      let (h, removed) := hdelLoop (argv.drop 2) h 0
      (h, replyInteger removed))

def hsetnxHash (field value : Bytes) (h : Dict Bytes) : Dict Bytes × Bytes :=
  if (h.get field).isSome then (h, replyInteger 0) else ((h.set field value).2, replyInteger 1)

def cmdHsetnx : Handler := fun env db argv =>
  if argv.length ≠ 4 then (db, replyArity (text "hsetnx"))
  else
    onKey (env.now 0) db (arg argv 1)
      (hashKind.upsert env.seed (hsetnxHash (arg argv 2) (arg argv 3)))

/-- The number in a field; a missing field counts as zero. -/
def hashInteger (h : Dict Bytes) (field : Bytes) : Option Int :=
  match h.get field with
  | none => some 0
  | some v => stringToLlN v

def hincrbyHash (field : Bytes) (delta : Int) (h : Dict Bytes) : Dict Bytes × Bytes :=
  match hashInteger h field with
  | none => (h, replyError (text "hash value is not an integer"))
  | some cur =>
    match addChecked cur delta with
    | none => (h, wouldOverflow)
    | some nv => ((h.set field (Decimal.renderInt nv)).2, replyInteger nv)

def cmdHincrby : Handler := fun env db argv =>
  if argv.length ≠ 4 then (db, replyArity (text "hincrby"))
  else
    match stringToLl (arg argv 3) with
    | none => (db, notAnInteger)
    | some delta =>
      onKey (env.now 0) db (arg argv 1)
        (hashKind.upsert env.seed (hincrbyHash (arg argv 2) delta))

/-- The double in a field, read as a C string; a missing field counts as zero. -/
def hashDouble (h : Dict Bytes) (field : Bytes) : Option Double :=
  match h.get field with
  | none => some ⟨0⟩
  | some v => parseDouble (cstr v)

def hincrbyfloatHash (field : Bytes) (delta : Double) (h : Dict Bytes) : Dict Bytes × Bytes :=
  match hashDouble h field with
  | none => (h, replyError (text "hash value is not a float"))
  | some cur =>
    let nv := cur.add delta
    if nv.isNaN || nv.isInf then
      (h, replyError (text "increment would produce NaN or Infinity"))
    else ((h.set field nv.formatG17).2, replyBulkCstr nv.formatG17)

def notAFloat : Bytes := replyError (text "value is not a valid float")

def cmdHincrbyfloat : Handler := fun env db argv =>
  if argv.length ≠ 4 then (db, replyArity (text "hincrbyfloat"))
  else
    match parseDouble (arg argv 3) with
    | none => (db, notAFloat)
    | some delta =>
      onKey (env.now 0) db (arg argv 1)
        (hashKind.upsert env.seed (hincrbyfloatHash (arg argv 2) delta))

/-! ### Reading fields -/

def replyField (v : Option Bytes) : Bytes :=
  match v with
  | none => replyNull
  | some v => replyBulk v

def cmdHget : Handler := fun env db argv =>
  if argv.length ≠ 3 then (db, replyArity (text "hget"))
  else
    onKey (env.now 0) db (arg argv 1)
      (hashKind.read replyNull fun h => replyField (h.get (arg argv 2)))

def cmdHmget : Handler := fun env db argv =>
  if argv.length < 3 then (db, replyArity (text "hmget"))
  else
    let fields := argv.drop 2
    let header := replyArrayHeader fields.length
    onKey (env.now 0) db (arg argv 1)
      (hashKind.read (header ++ fields.flatMap fun _ => replyNull) fun h =>
        header ++ fields.flatMap fun field => replyField (h.get field))

def cmdHgetall : Handler := fun env db argv =>
  if argv.length ≠ 2 then (db, replyArity (text "hgetall"))
  else
    onKey (env.now 0) db (arg argv 1) (hashKind.read (replyArrayHeader 0) fun h =>
      replyArrayHeader (dictSize h * 2) ++
        h.pairs.flatMap fun (field, v) => replyBulk field ++ replyBulk v)

def hashKeysOrVals (vals : Bool) : Handler := fun env db argv =>
  if argv.length ≠ 2 then (db, replyArity (arg argv 0))
  else
    onKey (env.now 0) db (arg argv 1) (hashKind.read (replyArrayHeader 0) fun h =>
      replyArrayHeader (dictSize h) ++
        h.pairs.flatMap fun (field, v) => replyBulk (if vals then v else field))

def cmdHkeys : Handler := hashKeysOrVals false

def cmdHvals : Handler := hashKeysOrVals true

def cmdHlen : Handler := fun env db argv =>
  if argv.length ≠ 2 then (db, replyArity (text "hlen"))
  else
    onKey (env.now 0) db (arg argv 1)
      (hashKind.read (replyInteger 0) fun h => replyInteger (dictSize h))

def cmdHexists : Handler := fun env db argv =>
  if argv.length ≠ 3 then (db, replyArity (text "hexists"))
  else
    onKey (env.now 0) db (arg argv 1) (hashKind.read (replyInteger 0) fun h =>
      replyInteger (if (h.get (arg argv 2)).isSome then 1 else 0))

end Miniredis
