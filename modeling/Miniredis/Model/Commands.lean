/-
**The command table and the rewrite of the log (`db.c`, `aof.c`).**

`commands` is the table in its order, with the flag that says which commands are logged. Data
commands are handlers on the store; the others act on the server.

The rewrite turns the store into commands that build it: a string is one `SET`, a container is
filled in batches of 64 elements, and a deadline follows as `PEXPIREAT`.
-/

import Miniredis.Model.Resp
import Miniredis.Model.SortedSets
import Miniredis.Model.Sets

namespace Miniredis

/-! ### The table -/

/-- What an entry of the table runs. -/
inductive Action where
  | data (handler : Handler)
  | quit
  | save
  | bgsave
  | rewriteaof
  | bgrewriteaof

/-- `cmd_entry`. -/
structure CmdEntry where
  name : Bytes
  isWrite : Bool
  fn : Action

/-- An entry for a data command. -/
def entry (name : String) (isWrite : Bool) (handler : Handler) : CmdEntry :=
  ⟨text name, isWrite, .data handler⟩

def commands : List CmdEntry :=
  [ entry "ping" false cmdPing,
    entry "echo" false cmdEcho,
    entry "select" false cmdSelect,
    ⟨text "quit", false, .quit⟩,
    entry "set" true cmdSet,
    entry "get" false cmdGet,
    entry "del" true cmdDel,
    entry "exists" false cmdExists,
    entry "incr" true cmdIncr,
    entry "decr" true cmdDecr,
    entry "mget" false cmdMget,
    entry "mset" true cmdMset,
    entry "append" true cmdAppend,
    entry "strlen" false cmdStrlen,
    entry "getrange" false cmdGetrange,
    entry "setrange" true cmdSetrange,
    entry "rename" true cmdRename,
    entry "setnx" true cmdSetnx,
    entry "setex" true cmdSetex,
    entry "getset" true cmdGetset,
    entry "expire" true cmdExpire,
    entry "pexpire" true cmdPexpire,
    entry "expireat" true cmdExpireat,
    entry "pexpireat" true cmdPexpireat,
    entry "ttl" false cmdTtl,
    entry "pttl" false cmdPttl,
    entry "type" false cmdType,
    entry "lpush" true cmdLpush,
    entry "rpush" true cmdRpush,
    entry "lpushx" true cmdLpushx,
    entry "rpushx" true cmdRpushx,
    entry "lpop" true cmdLpop,
    entry "rpop" true cmdRpop,
    entry "llen" false cmdLlen,
    entry "lrange" false cmdLrange,
    entry "lindex" false cmdLindex,
    entry "lset" true cmdLset,
    entry "ltrim" true cmdLtrim,
    entry "lrem" true cmdLrem,
    entry "linsert" true cmdLinsert,
    entry "hset" true cmdHset,
    entry "hmset" true cmdHmset,
    entry "hget" false cmdHget,
    entry "hmget" false cmdHmget,
    entry "hgetall" false cmdHgetall,
    entry "hkeys" false cmdHkeys,
    entry "hvals" false cmdHvals,
    entry "hlen" false cmdHlen,
    entry "hexists" false cmdHexists,
    entry "hdel" true cmdHdel,
    entry "hsetnx" true cmdHsetnx,
    entry "hincrby" true cmdHincrby,
    entry "hincrbyfloat" true cmdHincrbyfloat,
    entry "sadd" true cmdSadd,
    entry "srem" true cmdSrem,
    entry "sismember" false cmdSismember,
    entry "scard" false cmdScard,
    entry "smembers" false cmdSmembers,
    entry "spop" true cmdSpop,
    entry "sinter" false cmdSinter,
    entry "sunion" false cmdSunion,
    entry "sdiff" false cmdSdiff,
    entry "zadd" true cmdZadd,
    entry "zcard" false cmdZcard,
    entry "zscore" false cmdZscore,
    entry "zrem" true cmdZrem,
    entry "zrange" false cmdZrange,
    entry "zrevrange" false cmdZrevrange,
    entry "zrangebyscore" false cmdZrangebyscore,
    entry "zrank" false cmdZrank,
    entry "zrevrank" false cmdZrevrank,
    entry "zincrby" true cmdZincrby,
    entry "zcount" false cmdZcount,
    entry "keys" false cmdKeys,
    entry "flushall" true cmdFlushall,
    entry "dbsize" false cmdDbsize,
    entry "info" false cmdInfo,
    entry "command" false cmdCommand,
    ⟨text "save", false, .save⟩,
    ⟨text "bgsave", false, .bgsave⟩,
    ⟨text "rewriteaof", false, .rewriteaof⟩,
    ⟨text "bgrewriteaof", false, .bgrewriteaof⟩ ]

/-- The search of the table. -/
def lookupCommand (name : Bytes) : Option CmdEntry :=
  commands.find? fun e => strcaseEq e.name name

/-- No two names of the table are the same but for case. -/
theorem commands_distinct : (commands.map fun e => e.name.map toLower).Nodup := by decide +kernel

/-- A search finds the entry of that name. -/
theorem lookupCommand_eq {name : Bytes} {e : CmdEntry} (member : e ∈ commands)
    (same : strcaseEq e.name name = true) : lookupCommand name = some e := by
  have alike : ∀ {e : CmdEntry}, strcaseEq e.name name = true →
      e.name.map toLower = name.map toLower := fun same => eq_of_beq same
  cases found : lookupCommand name with
  | none => exact absurd same (by simpa using List.find?_eq_none.mp found e member)
  | some first =>
    have hit := List.find?_some found
    have there := List.mem_of_find?_eq_some found
    exact congrArg some (List.inj_on_of_nodup_map commands_distinct there member
      ((alike hit).trans (alike same).symm))

/-! ### The rewrite -/

/-- The batching loop: `batch` is the argument array filled so far. -/
def batchLoop {α : Type} (size : Nat) : List α → List α → List (List α)
  | batch, [] => if batch = [] then [] else [batch]
  | batch, x :: rest =>
    if batch.length = size then batch :: batchLoop size [x] rest
    else batchLoop size (batch ++ [x]) rest

/-- The batches of 64 elements. -/
def batches {α : Type} (l : List α) : List (List α) := batchLoop 64 [] l

/-- The commands that fill a container. -/
def fillCommands (name key : Bytes) (items : List (List Bytes)) : List Command :=
  (batches items).map fun batch => name :: key :: batch.flatten

/-- `aof_rewrite_key`. -/
def aofRewriteKey (key : Bytes) (o : Robj) : List Command :=
  let deadline := Decimal.renderInt o.expireAt
  let expire := if o.expireAt ≥ 0 then [[text "PEXPIREAT", key, deadline]] else []
  match o.val with
  | .string s =>
    if o.expireAt ≥ 0 then [[text "SET", key, s, text "PXAT", deadline]]
    else [[text "SET", key, s]]
  | .list l => fillCommands (text "RPUSH") key (l.map fun v => [v]) ++ expire
  | .hash h => fillCommands (text "HSET") key (h.pairs.map fun (field, v) => [field, v]) ++ expire
  | .set s => fillCommands (text "SADD") key (s.pairs.map fun (member, _) => [member]) ++ expire
  | .zset z =>
    fillCommands (text "ZADD") key (z.nodes.map fun node => [node.score.formatG17, node.member]) ++
      expire

/-- The commands of `aof_rewrite`, in the order of the table. -/
def aofRewriteCommands (db : Db) : List Command :=
  db.d.pairs.flatMap fun (key, o) => aofRewriteKey key o

/-- The bytes `aof_rewrite` writes. -/
def aofRewriteBytes (db : Db) : Bytes := (aofRewriteCommands db).flatMap awWriteCommand

end Miniredis
