/-
**List commands (`db.c`, `list.c`).**

The doubly linked list is the list of its values from head to tail. Loops of the source that walk
it from one end become recursions along it; the backward walk of `LREM` is the forward one on the
reversed list.
-/

import Miniredis.Model.Strings

namespace Miniredis

/-! ### Pushing and popping -/

/-- The push loop of `list_push`. -/
def listPushAll (head : Bool) : List Bytes → List Bytes → List Bytes
  | [], l => l
  | v :: rest, l => listPushAll head rest (if head then v :: l else l ++ [v])

def listPushReply (head : Bool) (values l : List Bytes) : List Bytes × Bytes :=
  (listPushAll head values l, replyInteger (listPushAll head values l).length)

/-- `list_push`: `xx` is the flag of the commands that want the key to exist. -/
def listPush (head xx : Bool) : Handler := fun env db argv =>
  if argv.length < 3 then (db, replyArity (arg argv 0))
  else
    onKey (env.now 0) db (arg argv 1)
      (if xx then listKind.edit (replyInteger 0) (listPushReply head (argv.drop 2))
      else listKind.upsert env.seed (listPushReply head (argv.drop 2)))

def cmdLpush : Handler := listPush true false

def cmdRpush : Handler := listPush false false

def cmdLpushx : Handler := listPush true true

def cmdRpushx : Handler := listPush false true

/-- `list_pop_head` or `list_pop_tail`. -/
def listPopOne (head : Bool) (l : List Bytes) : Option (Bytes × List Bytes) :=
  if head then l.head?.map fun v => (v, l.tail) else l.getLast?.map fun v => (v, l.dropLast)

/-- The pop loop: the values taken, in order, and what is left. -/
def listPopMany (head : Bool) : Nat → List Bytes → List Bytes × List Bytes
  | 0, l => ([], l)
  | n + 1, l =>
    match listPopOne head l with
    | none => ([], l)
    | some (v, l) =>
      let (items, l) := listPopMany head n l
      (v :: items, l)

/-- What `list_pop` does to a list: a count of one replies with the value itself. -/
def listPopReply (head : Bool) (count : Int) (l : List Bytes) : List Bytes × Bytes :=
  if count = 1 then
    match listPopOne head l with
    | none => (l, replyNull)
    | some (v, l) => (l, replyBulk v)
  else
    let max := if count < l.length then count.toNat else l.length
    let (items, l) := listPopMany head max l
    (l, replyArrayHeader items.length ++ items.flatMap replyBulk)

def notPositive : Bytes := replyError (text "value is out of range, must be positive")

/-- The optional count of `LPOP`, `RPOP` and `SPOP`. -/
def popCount (argv : Argv) : Option Int :=
  if argv.length = 3 then
    match stringToLl (arg argv 2) with
    | none => none
    | some count => if count < 0 then none else some count
  else some 1

def listPop (head : Bool) : Handler := fun env db argv =>
  if argv.length < 2 ∨ argv.length > 3 then (db, replyArity (arg argv 0))
  else
    match popCount argv with
    | none => (db, notPositive)
    | some count =>
      onKey (env.now 0) db (arg argv 1) (listKind.shrink replyNull (listPopReply head count))

def cmdLpop : Handler := listPop true

def cmdRpop : Handler := listPop false

/-! ### Reading -/

def cmdLlen : Handler := fun env db argv =>
  if argv.length ≠ 2 then (db, replyArity (text "llen"))
  else
    onKey (env.now 0) db (arg argv 1)
      (listKind.read (replyInteger 0) fun l => replyInteger l.length)

def cmdLrange : Handler := fun env db argv =>
  if argv.length ≠ 4 then (db, replyArity (text "lrange"))
  else
    match stringToLl (arg argv 2), stringToLl (arg argv 3) with
    | some start, some stop =>
      onKey (env.now 0) db (arg argv 1) (listKind.read (replyArrayHeader 0) fun l =>
        match rangeNormalize l.length start stop with
        | none => replyArrayHeader 0
        | some (start, stop) =>
          replyArrayHeader (stop - start + 1).toNat ++ (slice l start stop).flatMap replyBulk)
    | _, _ => (db, notAnInteger)

/-- The position `list_node_at` reaches. -/
def listNodeAt (l : List Bytes) (index : Int) : Option Nat :=
  let n : Int := l.length
  let index := if index < 0 then index + n else index
  if index < 0 ∨ index ≥ n then none else some index.toNat

def cmdLindex : Handler := fun env db argv =>
  if argv.length ≠ 3 then (db, replyArity (text "lindex"))
  else
    match stringToLl (arg argv 2) with
    | none => (db, notAnInteger)
    | some index =>
      onKey (env.now 0) db (arg argv 1) (listKind.read replyNull fun l =>
        match listNodeAt l index with
        | none => replyNull
        | some i => replyBulk (l.getD i []))

/-! ### Changing elements -/

def noSuchKey : Bytes := replyError (text "no such key")

def lsetList (index : Int) (value : Bytes) (l : List Bytes) : List Bytes × Bytes :=
  match listNodeAt l index with
  | none => (l, replyError (text "index out of range"))
  | some i => (l.set i value, replyOk)

def cmdLset : Handler := fun env db argv =>
  if argv.length ≠ 4 then (db, replyArity (text "lset"))
  else
    match stringToLl (arg argv 2) with
    | none => (db, notAnInteger)
    | some index =>
      onKey (env.now 0) db (arg argv 1)
        (listKind.edit noSuchKey (lsetList index (arg argv 3)))

/-- `LTRIM`: a void range deletes the key. -/
def ltrimBody (start stop : Int) : Option Robj → Update × Bytes :=
  listKind.body (.keep, replyOk) fun expireAt l =>
    match rangeNormalize l.length start stop with
    | none => (.remove, replyOk)
    | some (start, stop) => (.write ⟨.list (slice l start stop), expireAt⟩, replyOk)

def cmdLtrim : Handler := fun env db argv =>
  if argv.length ≠ 4 then (db, replyArity (text "ltrim"))
  else
    match stringToLl (arg argv 2), stringToLl (arg argv 3) with
    | some start, some stop => onKey (env.now 0) db (arg argv 1) (ltrimBody start stop)
    | _, _ => (db, notAnInteger)

/-- The loop of `LREM` from one end: at most `limit` occurrences go, all of them without a limit. -/
def lremLoop (target : Bytes) (limit : Option Nat) : Nat → List Bytes → List Bytes × Nat
  | removed, [] => ([], removed)
  | removed, v :: rest =>
    if limit.any (· ≤ removed) then (v :: rest, removed)
    else if v = target then lremLoop target limit (removed + 1) rest
    else
      let (rest, removed) := lremLoop target limit removed rest
      (v :: rest, removed)

def lremList (count : Int) (target : Bytes) (l : List Bytes) : List Bytes × Bytes :=
  if count ≥ 0 then
    let (l, removed) := lremLoop target (if count = 0 then none else some count.toNat) 0 l
    (l, replyInteger removed)
  else
    let (l, removed) := lremLoop target (some (-count).toNat) 0 l.reverse
    (l.reverse, replyInteger removed)

def cmdLrem : Handler := fun env db argv =>
  if argv.length ≠ 4 then (db, replyArity (text "lrem"))
  else
    match stringToLl (arg argv 2) with
    | none => (db, notAnInteger)
    | some count =>
      onKey (env.now 0) db (arg argv 1)
        (listKind.shrink (replyInteger 0) (lremList count (arg argv 3)))

/-- The search of `LINSERT` for its pivot. -/
def linsertAt (before : Bool) (pivot value : Bytes) : List Bytes → Option (List Bytes)
  | [] => none
  | v :: rest =>
    if v = pivot then some (if before then value :: v :: rest else v :: value :: rest)
    else (linsertAt before pivot value rest).map (v :: ·)

def linsertList (before : Bool) (pivot value : Bytes) (l : List Bytes) : List Bytes × Bytes :=
  match linsertAt before pivot value l with
  | none => (l, replyInteger (-1))
  | some l => (l, replyInteger l.length)

def cmdLinsert : Handler := fun env db argv =>
  if argv.length ≠ 5 then (db, replyArity (text "linsert"))
  else if strcaseEq (arg argv 2) (text "BEFORE") then
    onKey (env.now 0) db (arg argv 1)
      (listKind.edit (replyInteger 0) (linsertList true (arg argv 3) (arg argv 4)))
  else if strcaseEq (arg argv 2) (text "AFTER") then
    onKey (env.now 0) db (arg argv 1)
      (listKind.edit (replyInteger 0) (linsertList false (arg argv 3) (arg argv 4)))
  else (db, syntaxError)

end Miniredis
