/-
**Set commands (`db.c`).**

A set is a dictionary to a sentinel. `SPOP` draws its victims from `rand()` and from the order of
the table, so neither its reply nor the members it leaves are a function of the set alone.
-/

import Miniredis.Model.Lists

namespace Miniredis

/-! ### Adding and removing -/

/-- The member loop of `SADD`. -/
def saddLoop : List Bytes → Dict Unit → Nat → Dict Unit × Nat
  | [], s, added => (s, added)
  | member :: rest, s, added =>
    if (s.get member).isNone then saddLoop rest (s.set member ()).2 (added + 1)
    else saddLoop rest s added

def cmdSadd : Handler := fun env db argv =>
  if argv.length < 3 then (db, replyArity (text "sadd"))
  else
    onKey (env.now 0) db (arg argv 1) (setKind.upsert env.seed fun s =>
      let (s, added) := saddLoop (argv.drop 2) s 0
      (s, replyInteger added))

/-- The member loop of `SREM`. -/
def sremLoop : List Bytes → Dict Unit → Nat → Dict Unit × Nat
  | [], s, removed => (s, removed)
  | member :: rest, s, removed =>
    sremLoop rest (s.delete member).2
      (if (s.delete member).1.isSome then removed + 1 else removed)

def cmdSrem : Handler := fun env db argv =>
  if argv.length < 3 then (db, replyArity (text "srem"))
  else
    onKey (env.now 0) db (arg argv 1) (setKind.shrink (replyInteger 0) fun s =>
      let (s, removed) := sremLoop (argv.drop 2) s 0
      (s, replyInteger removed))

/-- The loop of `SPOP` with a count: the members drawn and the set they leave. -/
def spopLoop : Nat → Dict Unit → (Nat → Nat) → List Bytes × Dict Unit
  | 0, s, _ => ([], s)
  | n + 1, s, rand =>
    match dictRandomEntry s rand with
    | (none, _) => ([], s)
    | (some (member, _), rand) =>
      let (members, s) := spopLoop n (s.delete member).2 rand
      (member :: members, s)

/-- A set yields as many members as it has, one for each draw. -/
theorem spopLoop_counts (n : Nat) (s : Dict Unit) (rand : Nat → Nat) (enough : n ≤ dictSize s) :
    (spopLoop n s rand).1.length = n ∧ dictSize (spopLoop n s rand).2 + n = dictSize s := by
  induction n generalizing s rand with
  | zero => exact ⟨rfl, rfl⟩
  | succ n ih =>
    obtain ⟨⟨member, _⟩, drawn, present⟩ := dictRandomEntry_some s rand (by
      unfold dictSize at enough
      omega)
    have count : dictSize (s.delete member).2 + 1 = dictSize s := s.used_delete member present
    rw [spopLoop]
    cases draw : dictRandomEntry s rand with
    | mk entry later =>
      rw [draw] at drawn
      cases drawn
      obtain ⟨length, size⟩ := ih (s.delete member).2 later (by omega)
      exact ⟨by simp [length], by dsimp only; omega⟩

/-- `SPOP`: a single pop from an empty set replies without the cleanup. -/
def spopBody (count : Int) (rand : Nat → Nat) : Option Robj → Update × Bytes :=
  setKind.body (.keep, if count = 1 then replyNull else replyArrayHeader 0) fun expireAt s =>
    if count = 1 then
      match (dictRandomEntry s rand).1 with
      | none => (.keep, replyNull)
      | some (member, _) =>
        (maybeDeleteKey ⟨.set (s.delete member).2, expireAt⟩, replyBulk member)
    else
      let max := if count < dictSize s then count.toNat else dictSize s
      let (members, s) := spopLoop max s rand
      (maybeDeleteKey ⟨.set s, expireAt⟩, replyArrayHeader max ++ members.flatMap replyBulk)

def cmdSpop : Handler := fun env db argv =>
  if argv.length < 2 ∨ argv.length > 3 then (db, replyArity (text "spop"))
  else
    match popCount argv with
    | none => (db, notPositive)
    | some count => onKey (env.now 0) db (arg argv 1) (spopBody count env.rand)

/-! ### Reading -/

def cmdSismember : Handler := fun env db argv =>
  if argv.length ≠ 3 then (db, replyArity (text "sismember"))
  else
    onKey (env.now 0) db (arg argv 1) (setKind.read (replyInteger 0) fun s =>
      replyInteger (if (s.get (arg argv 2)).isSome then 1 else 0))

def cmdScard : Handler := fun env db argv =>
  if argv.length ≠ 2 then (db, replyArity (text "scard"))
  else
    onKey (env.now 0) db (arg argv 1)
      (setKind.read (replyInteger 0) fun s => replyInteger (dictSize s))

/-- The members of a set in the order of its table. -/
def members (s : Dict Unit) : List Bytes := s.pairs.map Prod.fst

def replyMembers (l : List Bytes) : Bytes := replyArrayHeader l.length ++ l.flatMap replyBulk

def cmdSmembers : Handler := fun env db argv =>
  if argv.length ≠ 2 then (db, replyArity (text "smembers"))
  else
    onKey (env.now 0) db (arg argv 1) (setKind.read (replyArrayHeader 0) fun s =>
      replyArrayHeader (dictSize s) ++ (members s).flatMap replyBulk)

/-- The argument loop over `set_arg_get`: the sets named, a missing key giving none, or a wrong
type that ends the command. -/
def setArgs (now : Nat → Int) : Nat → List Bytes → Db → Option (List (Option (Dict Unit))) × Db
  | _, [], db => (some [], db)
  | i, key :: rest, db =>
    let (found, db) := lookupKey (now i) db key
    match found with
    | none =>
      let (sets, db) := setArgs now (i + 1) rest db
      (sets.map (none :: ·), db)
    | some o =>
      match setKind.unwrap o.val with
      | none => (none, db)
      | some s =>
        let (sets, db) := setArgs now (i + 1) rest db
        (sets.map (some s :: ·), db)

/-- The first of the smallest sets. -/
def smallestSet : Dict Unit → List (Dict Unit) → Dict Unit
  | smallest, [] => smallest
  | smallest, s :: rest =>
    smallestSet (if dictSize s < dictSize smallest then s else smallest) rest

/-- `SINTER` walks the smallest set; it skips that set itself among the others, where every member
is found anyway. -/
def sinterReply (sets : List (Option (Dict Unit))) : Bytes :=
  match sets.mapM id with
  | some (s :: rest) =>
    replyMembers ((members (smallestSet s rest)).filter fun member =>
      (s :: rest).all fun other => (other.get member).isSome)
  | _ => replyArrayHeader 0

def sunionDict (seed : Seed) (sets : List (Option (Dict Unit))) : Dict Unit :=
  sets.foldl (fun u s => ((s.map members).getD []).foldl (fun u member => (u.set member ()).2) u)
    (dictCreate seed)

def sdiffReply (sets : List (Option (Dict Unit))) : Bytes :=
  match sets with
  | some s :: others =>
    replyMembers ((members s).filter fun member =>
      !others.any fun other => other.any fun other => (other.get member).isSome)
  | _ => replyArrayHeader 0

/-- A set operation over all its arguments. -/
def setOperation (name : Bytes) (reply : Seed → List (Option (Dict Unit)) → Bytes) : Handler :=
  fun env db argv =>
    if argv.length < 2 then (db, replyArity name)
    else
      match setArgs env.now 0 (argv.drop 1) db with
      | (none, db) => (db, replyWrongtype)
      | (some sets, db) => (db, reply env.seed sets)

def cmdSinter : Handler := setOperation (text "sinter") fun _ sets => sinterReply sets

def cmdSunion : Handler := setOperation (text "sunion") fun seed sets =>
  let u := sunionDict seed sets
  replyArrayHeader (dictSize u) ++ (members u).flatMap replyBulk

def cmdSdiff : Handler := setOperation (text "sdiff") fun _ sets => sdiffReply sets

end Miniredis
