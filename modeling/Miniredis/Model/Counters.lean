/-
**Counters with their overflows (`db.c`).**

`INCR`, `DECR` and `HINCRBY` once more, with the sum of `long long` tested: `none` is a signed
overflow, which C leaves undefined. The test for an overflow stands after the sum, as in the source.
-/

import Miniredis.Model.Deadlines
import Miniredis.Model.Hashes

namespace Miniredis

/-- The type test after the lookup, before a computation. -/
def Kind.bodyChecked {α : Type} (kind : Kind α) (missing : Option (Update × Bytes))
    (present : Int → α → Option (Update × Bytes)) : Option Robj → Option (Update × Bytes)
  | none => missing
  | some o =>
    match kind.unwrap o.val with
    | none => some (.keep, replyWrongtype)
    | some a => present o.expireAt a

/-! ### `INCR` and `DECR` -/

def incrDecrStepChecked (delta v expireAt : Int) : Option (Update × Bytes) := do
  let nv ← checked (v + delta)
  if (delta > 0 ∧ nv < v) ∨ (delta < 0 ∧ nv > v) then some (.keep, wouldOverflow)
  else some (.store ⟨.string (Decimal.renderInt nv), expireAt⟩, replyInteger nv)

def incrDecrBodyChecked (delta : Int) : Option Robj → Option (Update × Bytes) :=
  stringKind.bodyChecked (incrDecrStepChecked delta 0 (-1)) fun expireAt s =>
    match stringToLlN s with
    | none => some (.keep, notAnInteger)
    | some v => incrDecrStepChecked delta v expireAt

def incrDecrChecked (delta : Int) : CheckedHandler := fun env db argv =>
  if argv.length ≠ 2 then some (db, replyArity (arg argv 0))
  else onKeyChecked (env.now 0) db (arg argv 1) (incrDecrBodyChecked delta)

def cmdIncrChecked : CheckedHandler := incrDecrChecked 1

def cmdDecrChecked : CheckedHandler := incrDecrChecked (-1)

/-! ### `HINCRBY` -/

def hincrbyHashChecked (field : Bytes) (delta : Int) (h : Dict Bytes) :
    Option (Dict Bytes × Bytes) :=
  match hashInteger h field with
  | none => some (h, replyError (text "hash value is not an integer"))
  | some cur => do
    let nv ← checked (cur + delta)
    if (delta > 0 ∧ nv < cur) ∨ (delta < 0 ∧ nv > cur) then some (h, wouldOverflow)
    else some ((h.set field (Decimal.renderInt nv)).2, replyInteger nv)

def hincrbyBodyChecked (seed : Seed) (field : Bytes) (delta : Int) :
    Option Robj → Option (Update × Bytes) :=
  hashKind.bodyChecked
    (do
      let (h, reply) ← hincrbyHashChecked field delta (dictCreate seed)
      some (.store (robjNew (.hash h)), reply))
    fun expireAt h => do
      let (h, reply) ← hincrbyHashChecked field delta h
      some (.write ⟨.hash h, expireAt⟩, reply)

def cmdHincrbyChecked : CheckedHandler := fun env db argv =>
  if argv.length ≠ 4 then some (db, replyArity (text "hincrby"))
  else
    match stringToLl (arg argv 3) with
    | none => some (db, notAnInteger)
    | some delta =>
      onKeyChecked (env.now 0) db (arg argv 1)
        (hincrbyBodyChecked env.seed (arg argv 2) delta)

end Miniredis
