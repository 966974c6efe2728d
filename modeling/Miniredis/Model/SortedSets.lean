/-
**Sorted-set commands (`db.c`, `zskiplist.c`).**

Ranks and score ranges are positions in the ordered chain. `ZADD` creates its key and adds members
one pair at a time before it meets a bad score, so a refused call may have had effects.
-/

import Miniredis.Model.Hashes

namespace Miniredis

/-! ### Adding and removing -/

structure ZaddFlags where
  nx : Bool
  xx : Bool
  ch : Bool
  incr : Bool

/-- The flag loop of `ZADD`: the flags and the arguments from the first that is none. -/
def zaddFlags : List Bytes → ZaddFlags → ZaddFlags × List Bytes
  | [], flags => (flags, [])
  | a :: rest, flags =>
    if strcaseEq a (text "NX") then zaddFlags rest { flags with nx := true }
    else if strcaseEq a (text "XX") then zaddFlags rest { flags with xx := true }
    else if strcaseEq a (text "CH") then zaddFlags rest { flags with ch := true }
    else if strcaseEq a (text "INCR") then zaddFlags rest { flags with incr := true }
    else (flags, a :: rest)

/-- The new score of an increment. -/
def bumpedScore (existing : Option Double) (by_ : Double) : Double :=
  match existing with
  | none => by_
  | some score => score.add by_

/-- The addition of an incremented score in `ZADD INCR` and `ZINCRBY`. -/
def zincrScore (z : Zset) (member : Bytes) (by_ : Double) : Zset × Bytes :=
  let s := bumpedScore (zsetScore z member) by_
  if s.isNaN then (z, replyError (text "resulting score is not a number (NaN)"))
  else ((zsetAdd z s member).2, replyDouble s)

/-- The pair loop of `ZADD`. -/
def zaddLoop (flags : ZaddFlags) : List Bytes → Zset → Nat → Nat → Zset × Bytes
  | s :: member :: rest, z, added, changed =>
    match parseDouble s with
    | none => (z, notAFloat)
    | some score =>
      let existing := zsetScore z member
      let skip := (flags.nx && existing.isSome) || (flags.xx && existing.isNone)
      if flags.incr then if skip then (z, replyNull) else zincrScore z member score
      else if skip then zaddLoop flags rest z added changed
      else
        let (res, z) := zsetAdd z score member
        zaddLoop flags rest z (if res = 1 then added + 1 else added)
          (if res = 2 then changed + 1 else changed)
  | _, z, added, changed => (z, replyInteger (if flags.ch then added + changed else added : Nat))

def cmdZadd : Handler := fun env db argv =>
  if argv.length < 4 then (db, replyArity (text "zadd"))
  else
    let (flags, pairs) := zaddFlags (argv.drop 2) ⟨false, false, false, false⟩
    if flags.nx && flags.xx then (db, syntaxError)
    else if pairs.length = 0 ∨ pairs.length % 2 = 1 then (db, syntaxError)
    else if flags.incr && pairs.length ≠ 2 then
      (db, replyError (text "INCR option supports a single increment-element pair"))
    else
      let add (z : Zset) := zaddLoop flags pairs z 0 0
      onKey (env.now 0) db (arg argv 1)
        (if flags.xx then zsetKind.edit (replyInteger 0) add else zsetKind.upsert env.seed add)

/-- The member loop of `ZREM`. -/
def zremLoop : List Bytes → Zset → Nat → Zset × Nat
  | [], z, removed => (z, removed)
  | member :: rest, z, removed =>
    zremLoop rest (zsetRemove z member).2
      (if (zsetRemove z member).1 then removed + 1 else removed)

def cmdZrem : Handler := fun env db argv =>
  if argv.length < 3 then (db, replyArity (text "zrem"))
  else
    onKey (env.now 0) db (arg argv 1) (zsetKind.shrink (replyInteger 0) fun z =>
      let (z, removed) := zremLoop (argv.drop 2) z 0
      (z, replyInteger removed))

def cmdZincrby : Handler := fun env db argv =>
  if argv.length ≠ 4 then (db, replyArity (text "zincrby"))
  else
    match parseDouble (arg argv 2) with
    | none => (db, notAFloat)
    | some by_ =>
      onKey (env.now 0) db (arg argv 1)
        (zsetKind.upsert env.seed fun z => zincrScore z (arg argv 3) by_)

/-! ### Reading -/

def cmdZcard : Handler := fun env db argv =>
  if argv.length ≠ 2 then (db, replyArity (text "zcard"))
  else
    onKey (env.now 0) db (arg argv 1)
      (zsetKind.read (replyInteger 0) fun z => replyInteger (zsetLen z))

def cmdZscore : Handler := fun env db argv =>
  if argv.length ≠ 3 then (db, replyArity (text "zscore"))
  else
    onKey (env.now 0) db (arg argv 1) (zsetKind.read replyNull fun z =>
      match zsetScore z (arg argv 2) with
      | none => replyNull
      | some score => replyDouble score)

/-- The members of a stretch of the chain, with their scores when asked for. -/
def replyNodes (withscores : Bool) (nodes : List ZNode) : Bytes :=
  nodes.flatMap fun node =>
    replyBulk node.member ++ if withscores then replyDouble node.score else []

/-- The array header over `n` nodes; a negative count is printed as the `size_t` it wraps to. -/
def replyNodeHeader (withscores : Bool) (n : Int) : Bytes :=
  let n := if withscores then n * 2 else n
  replyArrayHeader (if n < 0 then (n % 2 ^ 64).toNat else n.toNat)

def zrangeReply (reverse withscores : Bool) (start stop : Int) (z : Zset) : Bytes :=
  match rangeNormalize (zsetLen z) start stop with
  | none => replyArrayHeader 0
  | some (start, stop) =>
    let chain := if reverse then z.nodes.reverse else z.nodes
    replyNodeHeader withscores (stop - start + 1) ++
      replyNodes withscores (slice chain start stop)

def zrangeCommon (reverse : Bool) : Handler := fun env db argv =>
  if argv.length ≠ 4 ∧ argv.length ≠ 5 then (db, replyArity (arg argv 0))
  else if argv.length = 5 ∧ !strcaseEq (arg argv 4) (text "WITHSCORES") then (db, syntaxError)
  else
    match stringToLl (arg argv 2), stringToLl (arg argv 3) with
    | some start, some stop =>
      onKey (env.now 0) db (arg argv 1)
        (zsetKind.read (replyArrayHeader 0) (zrangeReply reverse (argv.length = 5) start stop))
    | _, _ => (db, notAnInteger)

def cmdZrange : Handler := zrangeCommon false

def cmdZrevrange : Handler := zrangeCommon true

/-- `zsl_get_rank`: the 1-based position of a node, `0` when it is not there. -/
def zslGetRank (z : Zset) (score : Double) (member : Bytes) : Nat :=
  let passed := (z.nodes.takeWhile fun node => node.before ⟨score, member⟩).length
  match z.nodes[passed]? with
  | none => 0
  | some node => if node.score.eq score && node.member = member then passed + 1 else 0

/-- `zsl_first_in_score_range`. -/
def zslFirstInScoreRange (z : Zset) (min : Double) (minex : Bool) : Option ZNode :=
  (z.nodes.dropWhile fun node => node.score.lt min || (minex && node.score.eq min)).head?

/-- `zsl_last_in_score_range`. -/
def zslLastInScoreRange (z : Zset) (max : Double) (maxex : Bool) : Option ZNode :=
  (z.nodes.takeWhile fun node => node.score.lt max || (!maxex && node.score.eq max)).getLast?

/-- The ranks of the first and the last node in a score range. -/
def scoreRange (z : Zset) (min max : Double × Bool) : Option (Nat × Nat) :=
  match zslFirstInScoreRange z min.1 min.2, zslLastInScoreRange z max.1 max.2 with
  | some first, some last =>
    let rfirst := zslGetRank z first.score first.member
    let rlast := zslGetRank z last.score last.member
    if rfirst = 0 ∨ rlast = 0 ∨ rfirst > rlast then none else some (rfirst, rlast)
  | _, _ => none

/-- `ZRANGEBYSCORE` on a set: an offset past the range makes the count negative, which the header
prints as a `size_t`. -/
def zrangebyscoreReply (min max : Double × Bool) (withscores : Bool) (offset limit : Int)
    (z : Zset) : Bytes :=
  match scoreRange z min max with
  | none => replyArrayHeader 0
  | some (rfirst, rlast) =>
    let total : Int := rlast - rfirst + 1
    let emit := if limit < 0 then total - offset else limit
    let emit := if emit < 0 then 0 else emit
    let emit := if emit > total - offset then total - offset else emit
    let range := (z.nodes.drop (rfirst - 1)).take total.toNat
    replyNodeHeader withscores emit ++
      replyNodes withscores ((range.drop offset.toNat).take emit.toNat)

/-- The `LIMIT` clause: offset and count, or the error. -/
def zrangeLimit : List Bytes → Except Bytes (Int × Int)
  | [] => .ok (0, -1)
  | a :: rest =>
    if strcaseEq a (text "LIMIT") then
      match rest with
      | o :: l :: rest =>
        match stringToLl o, stringToLl l with
        | some offset, some limit =>
          if offset < 0 ∨ limit < 0 then
            .error (replyError (text "LIMIT offset and count must be non-negative integers"))
          else if rest ≠ [] then .error syntaxError
          else .ok (offset, limit)
        | _, _ =>
          .error (replyError (text "LIMIT offset and count must be non-negative integers"))
      | _ => .error syntaxError
    else .error syntaxError

def badScoreRange : Bytes := replyError (text "min or max is not a float")

def cmdZrangebyscore : Handler := fun env db argv =>
  if argv.length < 4 then (db, replyArity (text "zrangebyscore"))
  else
    match parseScoreArg (arg argv 2), parseScoreArg (arg argv 3) with
    | some min, some max =>
      let withscores := argv.length > 4 && strcaseEq (arg argv 4) (text "WITHSCORES")
      match zrangeLimit (argv.drop (if withscores then 5 else 4)) with
      | .error reply => (db, reply)
      | .ok (offset, limit) =>
        onKey (env.now 0) db (arg argv 1) (zsetKind.read (replyArrayHeader 0)
          (zrangebyscoreReply min max withscores offset limit))
    | _, _ => (db, badScoreRange)

def cmdZcount : Handler := fun env db argv =>
  if argv.length ≠ 4 then (db, replyArity (text "zcount"))
  else
    match parseScoreArg (arg argv 2), parseScoreArg (arg argv 3) with
    | some min, some max =>
      onKey (env.now 0) db (arg argv 1) (zsetKind.read (replyInteger 0) fun z =>
        match scoreRange z min max with
        | none => replyInteger 0
        | some (rfirst, rlast) => replyInteger (rlast - rfirst + 1 : Nat))
    | _, _ => (db, badScoreRange)

/-- The rank of a member counted from one end. -/
def zrankReply (fromEnd : Bool) (member : Bytes) (z : Zset) : Bytes :=
  match zsetScore z member with
  | none => replyNull
  | some score =>
    let rank : Int := zslGetRank z score member
    replyInteger (if fromEnd then zsetLen z - rank else rank - 1)

def cmdZrank : Handler := fun env db argv =>
  if argv.length ≠ 3 then (db, replyArity (text "zrank"))
  else
    onKey (env.now 0) db (arg argv 1)
      (zsetKind.read replyNull (zrankReply false (arg argv 2)))

def cmdZrevrank : Handler := fun env db argv =>
  if argv.length ≠ 3 then (db, replyArity (text "zrevrank"))
  else
    onKey (env.now 0) db (arg argv 1)
      (zsetKind.read replyNull (zrankReply true (arg argv 2)))

end Miniredis
