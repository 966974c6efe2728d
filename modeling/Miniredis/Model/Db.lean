/-
**Objects, the key space and replies (`object.c`, `db.c`, `server.c`).**

A key maps to an object: a value and an absolute expiry in milliseconds, `-1` for none. Commands
reach a key through `lookupKey`, which drops an expired entry on sight, and most of them touch one
key only: they look it up, decide, and leave it, replace it, change it in place or delete it. That
shape is `onKey`; a command's own part is the decision, from the object found to an `Update` and a
reply.

The environment of a command is what it draws from outside: the values `now_ms()` returns at its
successive reading places, the outcomes of `rand()` and the seed of the dictionary it may create.
-/

import Miniredis.Model.Dict
import Miniredis.Model.Zset

namespace Miniredis

/-! ### Objects -/

/-- The payload of an object. List elements and hash values are string objects without an expiry
of their own; a set is a dictionary to a sentinel. -/
inductive Value where
  | string (s : Bytes)
  | list (l : List Bytes)
  | hash (h : Dict Bytes)
  | set (s : Dict Unit)
  | zset (z : Zset)

structure Robj where
  val : Value
  expireAt : Int

/-- `robj_new_string` and its siblings: a fresh object has no expiry. -/
def robjNew (val : Value) : Robj := ⟨val, -1⟩

/-- The key space and the cursor of the periodic expiry. -/
structure Db where
  d : Dict Robj
  expireCursor : Nat

/-- `db_create`. -/
def dbCreate (seed : Seed) : Db := ⟨dictCreate seed, 0⟩

/-- What a command draws from outside the store. -/
structure Env where
  now : Nat → Int
  rand : Nat → Nat
  seed : Seed
  serverStart : Int

/-! ### Replies -/

def crlf : Bytes := [13, 10]

/-- `reply_simple`. -/
def replySimple (s : Bytes) : Bytes := text "+" ++ s ++ crlf

/-- `reply_error`: the message is formatted into a 256-byte buffer. -/
def replyError (message : Bytes) : Bytes := text "-ERR " ++ message.take 255 ++ crlf

/-- `reply_integer`. -/
def replyInteger (n : Int) : Bytes := text ":" ++ Decimal.renderInt n ++ crlf

/-- `reply_bulk`. -/
def replyBulk (s : Bytes) : Bytes := text "$" ++ Decimal.render s.length ++ crlf ++ s ++ crlf

/-- `reply_bulk_cstr`. -/
def replyBulkCstr (s : Bytes) : Bytes := replyBulk (cstr s)

/-- `reply_null`. -/
def replyNull : Bytes := text "$-1" ++ crlf

/-- `reply_array_header`. -/
def replyArrayHeader (n : Nat) : Bytes := text "*" ++ Decimal.render n ++ crlf

/-- `reply_wrongtype`. -/
def replyWrongtype : Bytes :=
  text "-WRONGTYPE Operation against a key holding the wrong kind of value" ++ crlf

/-- `reply_double`. -/
def replyDouble (d : Double) : Bytes := replyBulkCstr d.formatG17

/-- The arity error of a command. -/
def replyArity (name : Bytes) : Bytes :=
  replyError (text "wrong number of arguments for '" ++ name ++ text "' command")

def replyOk : Bytes := replySimple (text "OK")

/-! ### Looking a key up -/

/-- `key_expired` at a clock value. -/
def keyExpired (now : Int) (o : Robj) : Bool := 0 ≤ o.expireAt && o.expireAt ≤ now

/-- `lookup_key`. -/
def lookupKey (now : Int) (db : Db) (key : Bytes) : Option Robj × Db :=
  match db.d.get key with
  | none => (none, db)
  | some o =>
    if keyExpired now o then (none, { db with d := (db.d.delete key).2 })
    else (some o, db)

/-- What a command does to the entry it looked up: leave it, store a new object with `dict_set`,
change the object in place, or remove it with `dict_delete`. -/
inductive Update where
  | keep
  | store (o : Robj)
  | write (o : Robj)
  | remove

def Update.apply (update : Update) (db : Db) (key : Bytes) : Db :=
  match update with
  | keep => db
  | store o => { db with d := (db.d.set key o).2 }
  | write o => { db with d := db.d.write key o }
  | remove => { db with d := (db.d.delete key).2 }

/-- A command on one key: look it up, decide, act. -/
def onKey (now : Int) (db : Db) (key : Bytes) (decide : Option Robj → Update × Bytes) :
    Db × Bytes :=
  let (found, db) := lookupKey now db key
  let (update, reply) := decide found
  (update.apply db key, reply)

/-- The container of an object is empty. -/
def Value.isEmpty : Value → Bool
  | .string _ => false
  | .list l => l.length = 0
  | .hash h => dictSize h = 0
  | .set s => dictSize s = 0
  | .zset z => zsetLen z = 0

/-- The changed object is kept, or removed by `maybe_delete_key` when it became empty. -/
def maybeDeleteKey (o : Robj) : Update := if o.val.isEmpty then .remove else .write o

/-! ### Commands on one type of value -/

/-- An `obj_type`: how its values are recognized, built and created empty. -/
structure Kind (α : Type) where
  wrap : α → Value
  unwrap : Value → Option α
  fresh : Seed → α

/-- `OBJ_STRING`. -/
def stringKind : Kind Bytes :=
  ⟨.string, fun | .string s => some s | _ => none, fun _ => []⟩

/-- `OBJ_LIST`. -/
def listKind : Kind (List Bytes) :=
  ⟨.list, fun | .list l => some l | _ => none, fun _ => []⟩

/-- `OBJ_HASH`. -/
def hashKind : Kind (Dict Bytes) :=
  ⟨.hash, fun | .hash h => some h | _ => none, fun seed => dictCreate seed⟩

/-- `OBJ_SET`. -/
def setKind : Kind (Dict Unit) :=
  ⟨.set, fun | .set s => some s | _ => none, fun seed => dictCreate seed⟩

/-- `OBJ_ZSET`. -/
def zsetKind : Kind Zset :=
  ⟨.zset, fun | .zset z => some z | _ => none, fun _ => zsetCreate⟩

namespace Kind

variable {α : Type}

/-- The type test after the lookup: a missing key, an object of this type with its expiry, or a
wrong type. -/
def body (kind : Kind α) (missing : Update × Bytes) (present : Int → α → Update × Bytes) :
    Option Robj → Update × Bytes
  | none => missing
  | some o =>
    match kind.unwrap o.val with
    | none => (.keep, replyWrongtype)
    | some a => present o.expireAt a

/-- A command that only reads the value. -/
def read (kind : Kind α) (missing : Bytes) (reply : α → Bytes) : Option Robj → Update × Bytes :=
  kind.body (.keep, missing) fun _ a => (.keep, reply a)

/-- A command that changes the value in place and leaves a missing key alone. -/
def edit (kind : Kind α) (missing : Bytes) (act : α → α × Bytes) : Option Robj → Update × Bytes :=
  kind.body (.keep, missing) fun expireAt a =>
    (.write ⟨kind.wrap (act a).1, expireAt⟩, (act a).2)

/-- A command that takes elements out of the value and may empty it. -/
def shrink (kind : Kind α) (missing : Bytes) (act : α → α × Bytes) :
    Option Robj → Update × Bytes :=
  kind.body (.keep, missing) fun expireAt a =>
    (maybeDeleteKey ⟨kind.wrap (act a).1, expireAt⟩, (act a).2)

/-- A command that changes the value in place and first creates a missing one. -/
def upsert (kind : Kind α) (seed : Seed) (act : α → α × Bytes) : Option Robj → Update × Bytes :=
  kind.body
    (.store (robjNew (kind.wrap (act (kind.fresh seed)).1)), (act (kind.fresh seed)).2)
    fun expireAt a => (.write ⟨kind.wrap (act a).1, expireAt⟩, (act a).2)

end Kind

/-! ### Arguments -/

/-- A command's arguments as C strings; the first is its name. -/
abbrev Argv := List Bytes

/-- `cmd->argv[i]`. -/
def arg (argv : Argv) (i : Nat) : Bytes := argv.getD i []

/-- A command handler: environment, store and arguments to store and reply. -/
abbrev Handler := Env → Db → Argv → Db × Bytes

/-- `parse_double`. -/
def parseDouble (s : Bytes) : Option Double :=
  if s = [] then none
  else
    match Double.strtod s with
    | none => none
    | some conversion =>
      if conversion.range then none
      else if conversion.rest ≠ [] then none
      else if conversion.value.isNaN then none
      else some conversion.value

/-- `parse_score_arg`: an opening parenthesis makes the bound exclusive. -/
def parseScoreArg (s : Bytes) : Option (Double × Bool) :=
  match s with
  | 40 :: rest => (parseDouble rest).map fun value => (value, true)
  | _ => (parseDouble s).map fun value => (value, false)

/-- `range_normalize`; `none` is the empty range. -/
def rangeNormalize (len start stop : Int) : Option (Int × Int) :=
  let start := if start < 0 then len + start else start
  let stop := if stop < 0 then len + stop else stop
  let start := if start < 0 then 0 else start
  if start > stop ∨ start ≥ len then none
  else some (start, if stop ≥ len then len - 1 else stop)

/-- `range_normalize` on `long long`s; the outer `none` is an overflow. -/
def rangeNormalizeChecked (len start stop : Int) : Option (Option (Int × Int)) := do
  let start ← checkedIf (start < 0) (len + start) start
  let stop ← checkedIf (stop < 0) (len + stop) stop
  let start := if start < 0 then 0 else start
  if start > stop ∨ start ≥ len then some none
  else
    let stop ← checkedIf (stop ≥ len) (len - 1) stop
    some (some (start, stop))

/-- The `n` of a normalized range. -/
def rangeCount (start stop : Int) : Option Int := do
  let n ← checked (stop - start)
  checked (n + 1)

/-- The elements of a normalized range. -/
def slice {α : Type} (l : List α) (start stop : Int) : List α :=
  (l.drop start.toNat).take (stop - start + 1).toNat

/-! ### Periodic expiry -/

/-- `EXPIRE_CYCLE_MAX_KEYS`. -/
def expireCycleMaxKeys : Nat := 200

/-- One bucket of `db_expire_cycle`: the chain is walked as it was when the bucket was entered.
The `i`-th entry examined in the cycle reads the clock at place `i`. -/
def expireBucket (now : Nat → Int) (examined : Nat) :
    List (HashTable.Entry Bytes Robj) → Dict Robj → Nat × Dict Robj
  | [], d => (examined, d)
  | entry :: rest, d =>
    expireBucket now (examined + 1) rest
      (if keyExpired (now examined) entry.val then (d.delete entry.key).2 else d)

/-- The bucket loop of `db_expire_cycle`; `fuel` is the number of buckets left. -/
def expireLoop (now : Nat → Int) : Nat → Nat → Nat → Dict Robj → Nat × Dict Robj
  | 0, _, cursor, d => (cursor, d)
  | fuel + 1, examined, cursor, d =>
    if examined < expireCycleMaxKeys ∧ cursor < d.size then
      let (examined, d) := expireBucket now examined (d.chain cursor) d
      expireLoop now fuel examined (cursor + 1) d
    else (cursor, d)

/-- `db_expire_cycle`. -/
def dbExpireCycle (now : Nat → Int) (db : Db) : Db :=
  if db.d.size = 0 then { db with expireCursor := 0 }
  else
    let cursor := if db.expireCursor ≥ db.d.size then 0 else db.expireCursor
    let (cursor, d) := expireLoop now (db.d.size - cursor) 0 cursor db.d
    ⟨d, if cursor ≥ d.size then 0 else cursor⟩

end Miniredis
