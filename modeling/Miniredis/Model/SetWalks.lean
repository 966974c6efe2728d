/-
**Set operations over pointers (`db.c`).**

`SINTER` and `SDIFF` hold the sets of all their arguments as pointers before they look into any. A
pointer is named by the key its object was found under: the commands store nothing, so a key names
one object throughout. A later lookup of the same command may find that key expired and free the
object, and a use of the pointer after that is `none`.
-/

import Miniredis.Model.Sets

namespace Miniredis

/-! ### Pointers -/

/-- The set behind a pointer, if its object is still stored. -/
def setAt (db : Db) (key : Bytes) : Option (Dict Unit) :=
  (db.d.get key).bind fun o => setKind.unwrap o.val

/-- The argument loop over `set_arg_get`: a pointer for each key, `NULL` for a missing one, or a
wrong type that ends the command. -/
def setPtrs (now : Nat → Int) : Nat → List Bytes → Db → Option (List (Option Bytes)) × Db
  | _, [], db => (some [], db)
  | i, key :: rest, db =>
    let (found, db) := lookupKey (now i) db key
    match found with
    | none =>
      let (ptrs, db) := setPtrs now (i + 1) rest db
      (ptrs.map (none :: ·), db)
    | some o =>
      match setKind.unwrap o.val with
      | none => (none, db)
      | some _ =>
        let (ptrs, db) := setPtrs now (i + 1) rest db
        (ptrs.map (some key :: ·), db)

/-- A pass over the members of a set that keeps those of a test; a test that fails ends it. -/
def keepMembers (test : Bytes → Option Bool) : List Bytes → Option (List Bytes)
  | [] => some []
  | member :: rest => do
    let keep ← test member
    let kept ← keepMembers test rest
    some (if keep then member :: kept else kept)

/-- The reply of a count pass and an emit pass. -/
def twoPasses (test : Bytes → Option Bool) (s : Dict Unit) : Option Bytes := do
  let counted ← keepMembers test (members s)
  let emitted ← keepMembers test (members s)
  some (replyArrayHeader counted.length ++ emitted.flatMap replyBulk)

/-! ### `SINTER` -/

/-- The choice of the smallest set. -/
def smallestPtr (db : Db) : Bytes → List Bytes → Option Bytes
  | smallest, [] => some smallest
  | smallest, p :: rest => do
    let s ← setAt db p
    let least ← setAt db smallest
    smallestPtr db (if dictSize s < dictSize least then p else smallest) rest

/-- The loop over the other sets, which passes over the smallest by its pointer. -/
def inAll (db : Db) (smallest member : Bytes) : List Bytes → Option Bool
  | [] => some true
  | p :: rest =>
    if p ≠ smallest then do
      let s ← setAt db p
      if (s.get member).isNone then some false else inAll db smallest member rest
    else inAll db smallest member rest

def sinterWalk (db : Db) (ptrs : List (Option Bytes)) : Option Bytes :=
  match ptrs.mapM id with
  | some (p :: rest) => do
    let smallest ← smallestPtr db p rest
    let s ← setAt db smallest
    twoPasses (fun member => inAll db smallest member (p :: rest)) s
  | _ => some (replyArrayHeader 0)

/-! ### `SDIFF` -/

/-- The loop over the other sets, which passes over missing ones. -/
def inOthers (db : Db) (member : Bytes) : List (Option Bytes) → Option Bool
  | [] => some false
  | none :: rest => inOthers db member rest
  | some p :: rest => do
    let s ← setAt db p
    if (s.get member).isSome then some true else inOthers db member rest

def sdiffWalk (db : Db) (ptrs : List (Option Bytes)) : Option Bytes :=
  match ptrs with
  | some p :: others => do
    let s ← setAt db p
    twoPasses (fun member => (inOthers db member others).map not) s
  | _ => some (replyArrayHeader 0)

/-! ### Commands -/

/-- A set operation over pointers; the outer `none` is a use of a freed set. -/
def setWalk (name : Bytes) (walk : Db → List (Option Bytes) → Option Bytes) (env : Env) (db : Db)
    (argv : Argv) : Option (Db × Bytes) :=
  if argv.length < 2 then some (db, replyArity name)
  else
    match setPtrs env.now 0 (argv.drop 1) db with
    | (none, db) => some (db, replyWrongtype)
    | (some ptrs, db) => (walk db ptrs).map fun reply => (db, reply)

def walkSinter : Env → Db → Argv → Option (Db × Bytes) := setWalk (text "sinter") sinterWalk

def walkSdiff : Env → Db → Argv → Option (Db × Bytes) := setWalk (text "sdiff") sdiffWalk

end Miniredis
