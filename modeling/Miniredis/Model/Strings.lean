/-
**String, key and server commands (`db.c`).**

Each handler follows its source function: the arity test, the argument checks in their order, then
the lookup and the decision. `INCR`/`DECR`, `EXPIRE`/`PEXPIRE`, `EXPIREAT`/`PEXPIREAT` and
`TTL`/`PTTL` share a generic body as they do in the source. Sums of `int64_t` wrap.
-/

import Miniredis.Model.Db

namespace Miniredis

/-! ### Connection -/

def cmdPing : Handler := fun _ db argv =>
  if argv.length > 2 then (db, replyArity (text "ping"))
  else if argv.length = 2 then (db, replyBulkCstr (arg argv 1))
  else (db, replySimple (text "PONG"))

def cmdEcho : Handler := fun _ db argv =>
  if argv.length ≠ 2 then (db, replyArity (text "echo"))
  else (db, replyBulkCstr (arg argv 1))

def cmdSelect : Handler := fun _ db argv =>
  if argv.length ≠ 2 then (db, replyArity (text "select"))
  else
    match stringToLl (arg argv 1) with
    | none => (db, replyError (text "invalid DB index"))
    | some index =>
      if index < 0 then (db, replyError (text "invalid DB index")) else (db, replyOk)

/-! ### `SET` -/

/-- `INT64_MAX / 1000`. -/
def int64MaxSeconds : Int := 9223372036854775

/-- The options of `SET` read so far; `expireMs` is `-1` when none gave a time. -/
structure SetOptions where
  nx : Bool
  xx : Bool
  expireMs : Int

def invalidSetExpire : Bytes := replyError (text "invalid expire time in 'set' command")

def syntaxError : Bytes := replyError (text "syntax error")

/-- The time of an expiry option, relative to the clock where it is absolute. -/
def setExpireMs (now : Int) (option : Bytes) (v : Int) : Except Bytes Int :=
  if strcaseEq option (text "EX") then
    if v > int64MaxSeconds then .error invalidSetExpire else .ok (v * 1000)
  else if strcaseEq option (text "PX") then .ok v
  else if strcaseEq option (text "EXAT") then
    if v > int64MaxSeconds then .error invalidSetExpire else .ok (wrap64 (v * 1000 - now))
  else .ok (wrap64 (v - now))

def isSetExpireOption (a : Bytes) : Bool :=
  strcaseEq a (text "EX") || strcaseEq a (text "PX") || strcaseEq a (text "EXAT") ||
    strcaseEq a (text "PXAT")

/-- The option loop of `cmd_set`; an option at position `i` reads the clock at place `i`. -/
def setOptions (now : Nat → Int) : Nat → List Bytes → SetOptions → Except Bytes SetOptions
  | _, [], options => .ok options
  | _, [a], options =>
    if isSetExpireOption a then .error syntaxError
    else if strcaseEq a (text "NX") then .ok { options with nx := true }
    else if strcaseEq a (text "XX") then .ok { options with xx := true }
    else .error syntaxError
  | i, a :: t :: rest, options =>
    if isSetExpireOption a then
      match stringToLl t with
      | none => .error invalidSetExpire
      | some v =>
        if v ≤ 0 then .error invalidSetExpire
        else
          match setExpireMs (now i) a v with
          | .error reply => .error reply
          | .ok ms => setOptions now (i + 2) rest { options with expireMs := ms }
    else if strcaseEq a (text "NX") then
      setOptions now (i + 1) (t :: rest) { options with nx := true }
    else if strcaseEq a (text "XX") then
      setOptions now (i + 1) (t :: rest) { options with xx := true }
    else .error syntaxError

/-- The deadline a relative time gives; a negative one means no expiry. -/
def setDeadline (now ms : Int) : Int := if ms < 0 then -1 else wrap64 (now + ms)

/-- What `SET` does to its key once the options are read. -/
def setBody (options : SetOptions) (now : Int) (value : Bytes) (found : Option Robj) :
    Update × Bytes :=
  if options.nx && found.isSome then (.keep, replyNull)
  else if options.xx && found.isNone then (.keep, replyNull)
  else (.store ⟨.string value, setDeadline now options.expireMs⟩, replyOk)

def cmdSet : Handler := fun env db argv =>
  if argv.length < 3 then (db, replyArity (text "set"))
  else
    match setOptions env.now 3 (argv.drop 3) ⟨false, false, -1⟩ with
    | .error reply => (db, reply)
    | .ok options =>
      if options.nx && options.xx then (db, syntaxError)
      else
        onKey (env.now argv.length) db (arg argv 1)
          (setBody options (env.now (argv.length + 1)) (arg argv 2))

/-! ### Reading strings -/

def cmdGet : Handler := fun env db argv =>
  if argv.length ≠ 2 then (db, replyArity (text "get"))
  else
    onKey (env.now 0) db (arg argv 1) (stringKind.read replyNull replyBulk)

/-- The key loop of `MGET`. -/
def mgetLoop (now : Nat → Int) : Nat → List Bytes → Db → Db × Bytes
  | _, [], db => (db, [])
  | i, key :: rest, db =>
    let (found, db) := lookupKey (now i) db key
    let reply := match found with
      | some ⟨.string s, _⟩ => replyBulk s
      | _ => replyNull
    let (db, replies) := mgetLoop now (i + 1) rest db
    (db, reply ++ replies)

def cmdMget : Handler := fun env db argv =>
  if argv.length < 2 then (db, replyArity (text "mget"))
  else
    let (db, replies) := mgetLoop env.now 0 (argv.drop 1) db
    (db, replyArrayHeader (argv.length - 1) ++ replies)

def cmdStrlen : Handler := fun env db argv =>
  if argv.length ≠ 2 then (db, replyArity (text "strlen"))
  else
    onKey (env.now 0) db (arg argv 1)
      (stringKind.read (replyInteger 0) fun s => replyInteger s.length)

def notAnInteger : Bytes := replyError (text "value is not an integer or out of range")

/-- The reply of `GETRANGE` on a string. -/
def getrangeReply (start stop : Int) (s : Bytes) : Bytes :=
  let len : Int := s.length
  let start := if start < 0 then len + start else start
  let stop := if stop < 0 then len + stop else stop
  let start := if start < 0 then 0 else start
  let stop := if stop ≥ len then len - 1 else stop
  if start > stop ∨ start ≥ len then replyBulkCstr [] else replyBulk (slice s start stop)

def cmdGetrange : Handler := fun env db argv =>
  if argv.length ≠ 4 then (db, replyArity (text "getrange"))
  else
    match stringToLl (arg argv 2), stringToLl (arg argv 3) with
    | some start, some stop =>
      onKey (env.now 0) db (arg argv 1)
        (stringKind.read (replyBulkCstr []) (getrangeReply start stop))
    | _, _ => (db, notAnInteger)

/-! ### Writing strings -/

/-- The pair loop of `MSET`: no lookup, so an expired entry is simply replaced. -/
def msetLoop : List Bytes → Db → Db
  | key :: value :: rest, db =>
    msetLoop rest { db with d := (db.d.set key (robjNew (.string value))).2 }
  | _, db => db

def cmdMset : Handler := fun _ db argv =>
  if argv.length < 3 ∨ (argv.length - 1) % 2 = 1 then (db, replyArity (text "mset"))
  else (msetLoop (argv.drop 1) db, replyOk)

/-- `APPEND` on the bytes found; on a missing key it stores the value itself. -/
def appendBytes (value s : Bytes) : Bytes × Bytes :=
  (s ++ value, replyInteger (s.length + value.length : Nat))

def cmdAppend : Handler := fun env db argv =>
  if argv.length ≠ 3 then (db, replyArity (text "append"))
  else
    onKey (env.now 0) db (arg argv 1) (stringKind.upsert env.seed (appendBytes (arg argv 2)))

/-- The bytes `SETRANGE` leaves: the old ones, padded with zeros up to the end of the written
range, with `value` copied over at `offset`. -/
def setrangeBytes (s : Bytes) (offset : Nat) (value : Bytes) : Bytes :=
  let need := offset + value.length
  let grown := s ++ List.replicate (need - s.length) 0
  grown.take offset ++ value ++ grown.drop need

theorem setrangeBytes_length (s : Bytes) (offset : Nat) (value : Bytes) :
    (setrangeBytes s offset value).length = max s.length (offset + value.length) := by
  simp only [setrangeBytes, List.length_append, List.length_take, List.length_drop,
    List.length_replicate]
  omega

/-- The allocation limit: `malloc` hands out no block larger than `PTRDIFF_MAX`. -/
def mallocLimit : Nat := 2 ^ 63 - 1

/-- The string has to grow, to a size that `xmalloc` cannot give: the process ends. -/
def outgrows (offset : Nat) (value s : Bytes) : Bool :=
  s.length < offset + value.length && mallocLimit < offset + value.length + 1

/-- `SETRANGE` on the bytes found; a missing key starts empty. Where the process ends in `xmalloc`
nothing has been written and nothing is answered. -/
def setrangeString (offset : Nat) (value s : Bytes) : Bytes × Bytes :=
  if outgrows offset value s then (s, [])
  else (setrangeBytes s offset value, replyInteger (setrangeBytes s offset value).length)

theorem outgrows_of_lt {offset : Nat} {value : Bytes}
    (allowed : offset + value.length < mallocLimit) (s : Bytes) :
    outgrows offset value s = false := by
  rw [outgrows, decide_eq_false (p := mallocLimit < _) (by omega), Bool.and_false]

theorem setrangeString_of_lt {offset : Nat} {value : Bytes} (s : Bytes)
    (allowed : offset + value.length < mallocLimit) : setrangeString offset value s =
      (setrangeBytes s offset value, replyInteger (setrangeBytes s offset value).length) := by
  rw [setrangeString, outgrows_of_lt allowed, if_neg Bool.false_ne_true]

def cmdSetrange : Handler := fun env db argv =>
  if argv.length ≠ 4 then (db, replyArity (text "setrange"))
  else
    match stringToLl (arg argv 2) with
    | none => (db, replyError (text "offset is out of range"))
    | some offset =>
      if offset < 0 then (db, replyError (text "offset is out of range"))
      else
        onKey (env.now 0) db (arg argv 1)
          (stringKind.upsert env.seed (setrangeString offset.toNat (arg argv 3)))

/-- The process ends in this `SETRANGE`. -/
def cmdSetrangeAborts (env : Env) (db : Db) (argv : Argv) : Bool :=
  argv.length == 4 &&
    match stringToLl (arg argv 2), (lookupKey (env.now 0) db (arg argv 1)).1.map Robj.val with
    | some (.ofNat offset), none => outgrows offset (arg argv 3) []
    | some (.ofNat offset), some (.string s) => outgrows offset (arg argv 3) s
    | _, _ => false

/-- `RENAME`: the object moves with its expiry. -/
def cmdRename : Handler := fun env db argv =>
  if argv.length ≠ 3 then (db, replyArity (text "rename"))
  else if arg argv 1 = arg argv 2 then
    (db, replyError (text "source and destination objects are the same"))
  else
    match lookupKey (env.now 0) db (arg argv 1) with
    | (none, db) => (db, replyError (text "no such key"))
    | (some o, db) =>
      ({ db with d := ((db.d.delete (arg argv 1)).2.set (arg argv 2) o).2 }, replyOk)

def setnxBody (value : Bytes) (found : Option Robj) : Update × Bytes :=
  match found with
  | some _ => (.keep, replyInteger 0)
  | none => (.store (robjNew (.string value)), replyInteger 1)

def cmdSetnx : Handler := fun env db argv =>
  if argv.length ≠ 3 then (db, replyArity (text "setnx"))
  else onKey (env.now 0) db (arg argv 1) (setnxBody (arg argv 2))

/-- `SETEX`: no lookup. -/
def cmdSetex : Handler := fun env db argv =>
  if argv.length ≠ 4 then (db, replyArity (text "setex"))
  else
    match stringToLl (arg argv 2) with
    | none => (db, replyError (text "invalid expire time in 'setex' command"))
    | some secs =>
      if secs ≤ 0 ∨ secs > int64MaxSeconds then
        (db, replyError (text "invalid expire time in 'setex' command"))
      else
        ({ db with d := (db.d.set (arg argv 1)
            ⟨.string (arg argv 3), wrap64 (env.now 0 + secs * 1000)⟩).2 }, replyOk)

def getsetBody (value : Bytes) : Option Robj → Update × Bytes :=
  stringKind.body (.store (robjNew (.string value)), replyNull) fun _ s =>
    (.store (robjNew (.string value)), replyBulk s)

def cmdGetset : Handler := fun env db argv =>
  if argv.length ≠ 3 then (db, replyArity (text "getset"))
  else onKey (env.now 0) db (arg argv 1) (getsetBody (arg argv 2))

/-- The sum and the overflow test of `incr_decr` and `cmd_hincrby`. -/
def addChecked (v delta : Int) : Option Int :=
  let nv := wrap64 (v + delta)
  if (delta > 0 ∧ nv < v) ∨ (delta < 0 ∧ nv > v) then none else some nv

def wouldOverflow : Bytes := replyError (text "increment or decrement would overflow")

/-- The store of the sum in `incr_decr`; the expiry is carried over. -/
def incrDecrStep (delta v expireAt : Int) : Update × Bytes :=
  match addChecked v delta with
  | none => (.keep, wouldOverflow)
  | some nv => (.store ⟨.string (Decimal.renderInt nv), expireAt⟩, replyInteger nv)

def incrDecrBody (delta : Int) : Option Robj → Update × Bytes :=
  stringKind.body (incrDecrStep delta 0 (-1)) fun expireAt s =>
    match stringToLlN s with
    | none => (.keep, notAnInteger)
    | some v => incrDecrStep delta v expireAt

def incrDecr (delta : Int) : Handler := fun env db argv =>
  if argv.length ≠ 2 then (db, replyArity (arg argv 0))
  else onKey (env.now 0) db (arg argv 1) (incrDecrBody delta)

def cmdIncr : Handler := incrDecr 1

def cmdDecr : Handler := incrDecr (-1)

/-! ### Keys -/

/-- The key loop of `DEL`: no lookup, so an expired entry counts. -/
def delLoop : List Bytes → Db → Nat → Db × Nat
  | [], db, n => (db, n)
  | key :: rest, db, n =>
    let (dead, d) := db.d.delete key
    delLoop rest { db with d := d } (if dead.isSome then n + 1 else n)

def cmdDel : Handler := fun _ db argv =>
  if argv.length < 2 then (db, replyArity (text "del"))
  else
    let (db, n) := delLoop (argv.drop 1) db 0
    (db, replyInteger n)

/-- The key loop of `EXISTS`. -/
def existsLoop (now : Nat → Int) : Nat → List Bytes → Db → Nat → Db × Nat
  | _, [], db, n => (db, n)
  | i, key :: rest, db, n =>
    let (found, db) := lookupKey (now i) db key
    existsLoop now (i + 1) rest db (if found.isSome then n + 1 else n)

def cmdExists : Handler := fun env db argv =>
  if argv.length < 2 then (db, replyArity (text "exists"))
  else
    let (db, n) := existsLoop env.now 0 (argv.drop 1) db 0
    (db, replyInteger n)

def invalidExpire (name : Bytes) : Bytes :=
  replyError (text "invalid expire time in '" ++ name ++ text "' command")

def expireBody (isMs : Bool) (name : Bytes) (v now : Int) (found : Option Robj) :
    Update × Bytes :=
  match found with
  | none => (.keep, replyInteger 0)
  | some o =>
    if !isMs && v > int64MaxSeconds then (.keep, invalidExpire name)
    else
      let ms := if isMs then v else v * 1000
      (.write { o with expireAt := wrap64 (now + ms) }, replyInteger 1)

def cmdExpireGeneric (isMs : Bool) : Handler := fun env db argv =>
  if argv.length ≠ 3 then (db, replyArity (arg argv 0))
  else
    match stringToLl (arg argv 2) with
    | none => (db, invalidExpire (arg argv 0))
    | some v =>
      if v < 0 then (db, invalidExpire (arg argv 0))
      else onKey (env.now 0) db (arg argv 1) (expireBody isMs (arg argv 0) v (env.now 1))

def cmdExpire : Handler := cmdExpireGeneric false

def cmdPexpire : Handler := cmdExpireGeneric true

def expireatBody (deadline : Int) (found : Option Robj) : Update × Bytes :=
  match found with
  | none => (.keep, replyInteger 0)
  | some o => (.write { o with expireAt := deadline }, replyInteger 1)

def cmdExpireatGeneric (isMs : Bool) : Handler := fun env db argv =>
  if argv.length ≠ 3 then (db, replyArity (arg argv 0))
  else
    match stringToLl (arg argv 2) with
    | none => (db, invalidExpire (arg argv 0))
    | some ts =>
      if ts < 0 then (db, invalidExpire (arg argv 0))
      else if !isMs && ts > int64MaxSeconds then (db, invalidExpire (arg argv 0))
      else onKey (env.now 0) db (arg argv 1) (expireatBody (if isMs then ts else ts * 1000))

def cmdExpireat : Handler := cmdExpireatGeneric false

def cmdPexpireat : Handler := cmdExpireatGeneric true

def cmdTtlGeneric (isMs : Bool) : Handler := fun env db argv =>
  if argv.length ≠ 2 then (db, replyArity (arg argv 0))
  else
    onKey (env.now 0) db (arg argv 1) fun
      | none => (.keep, replyInteger (-2))
      | some o =>
        if o.expireAt < 0 then (.keep, replyInteger (-1))
        else
          let rem := wrap64 (o.expireAt - env.now 1)
          let rem := if rem < 0 then 0 else rem
          (.keep, replyInteger (if isMs then rem else Int.tdiv (wrap64 (rem + 500)) 1000))

def cmdTtl : Handler := cmdTtlGeneric false

def cmdPttl : Handler := cmdTtlGeneric true

/-- `type_name`. -/
def typeName : Value → Bytes
  | .string _ => text "string"
  | .list _ => text "list"
  | .hash _ => text "hash"
  | .set _ => text "set"
  | .zset _ => text "zset"

def cmdType : Handler := fun env db argv =>
  if argv.length ≠ 2 then (db, replyArity (text "type"))
  else
    onKey (env.now 0) db (arg argv 1) fun
      | none => (.keep, replySimple (text "none"))
      | some o => (.keep, replySimple (typeName o.val))

/-! ### Glob patterns -/

/-- The member loop of `glob_class`; the class ends at a bracket that is not its first byte. -/
def globClassLoop (c : UInt8) : Bool → Bool → Bytes → Bool × Bytes
  | _, matched, [] => (matched, [])
  | first, matched, lo :: 45 :: hi :: rest =>
    if !first && lo = 93 then (matched, lo :: 45 :: hi :: rest)
    else if hi ≠ 93 then globClassLoop c false (matched || (lo ≤ c && c ≤ hi)) rest
    else globClassLoop c false (matched || c = lo) (45 :: hi :: rest)
  | first, matched, lo :: rest =>
    if !first && lo = 93 then (matched, lo :: rest)
    else globClassLoop c false (matched || c = lo) rest

/-- `glob_class`, past the opening bracket: the verdict and the pattern after the class. -/
def globClass (pattern : Bytes) (c : UInt8) : Bool × Bytes :=
  let (negate, body) := match pattern with
    | 33 :: body => (true, body)
    | 94 :: body => (true, body)
    | body => (false, body)
  match globClassLoop c true false body with
  | (matched, 93 :: rest) => (matched ^^ negate, rest)
  | (_, rest) => (false, rest)

/-- `glob_rec`: every call consumes pattern bytes, so the pattern's length is enough fuel. A pattern
byte is a signed `char` compared with an unsigned one: from `128` on it equals nothing. -/
def globRec : Nat → Bytes → Bytes → Bool
  | _, [], s => s.isEmpty
  | 0, _ :: _, _ => false
  | fuel + 1, p :: pattern, s =>
    if p = 42 then
      let pattern := pattern.dropWhile (· == 42)
      if pattern = [] then true
      else s.tails.any fun rest => globRec fuel pattern rest
    else
      match s with
      | [] => false
      | c :: s =>
        if p = 63 then globRec fuel pattern s
        else if p = 91 then
          let (hit, pattern) := globClass pattern c
          if hit then globRec fuel pattern s else false
        else if p < 128 && p = c then globRec fuel pattern s
        else false

/-- `util_glob_match`. -/
def utilGlobMatch (pattern s : Bytes) : Bool := globRec pattern.length pattern s

/-- One pass of `KEYS` over the table, the `i`-th entry reading the clock at place `i`. -/
def keysPass (now : Nat → Int) (pattern : Bytes) : Nat → List (Bytes × Robj) → List Bytes
  | _, [] => []
  | i, (key, o) :: rest =>
    if !keyExpired (now i) o && utilGlobMatch pattern key then
      key :: keysPass now pattern (i + 1) rest
    else keysPass now pattern (i + 1) rest

/-- `KEYS` counts in one pass and prints in a second one. -/
def cmdKeys : Handler := fun env db argv =>
  if argv.length ≠ 2 then (db, replyArity (text "keys"))
  else
    let counted := keysPass env.now (arg argv 1) 0 db.d.pairs
    let printed := keysPass env.now (arg argv 1) db.d.pairs.length db.d.pairs
    (db, replyArrayHeader counted.length ++ printed.flatMap replyBulk)

/-! ### Server -/

def cmdFlushall : Handler := fun env db argv =>
  if argv.length ≠ 1 then (db, replyArity (text "flushall"))
  else ({ db with d := dictCreate env.seed }, replyOk)

def cmdDbsize : Handler := fun _ db argv =>
  if argv.length ≠ 1 then (db, replyArity (text "dbsize"))
  else (db, replyInteger (dictSize db.d))

def cmdInfo : Handler := fun env db _ =>
  let uptime := Int.tdiv (wrap64 (env.now 0 - env.serverStart)) 1000
  (db, replyBulk (text "# Server" ++ crlf ++ text "redis_version:6.2.0-miniredis" ++ crlf ++
    text "uptime_in_seconds:" ++ Decimal.renderInt uptime ++ crlf ++ crlf ++
    text "# Keyspace" ++ crlf ++ text "db0:keys=" ++ Decimal.render (dictSize db.d) ++
    text ",expires=0,avg_ttl=0" ++ crlf))

def cmdCommand : Handler := fun _ db _ => (db, replyArrayHeader 0)

end Miniredis
