/-
**The reading commands of sorted sets, in memory (`db.c`, `zskiplist.c`).**

What `ZRANGE`, `ZRANGEBYSCORE`, `ZCOUNT` and `ZRANK` compute once they have found their object:
ranks by spans, walks along `forward` and `backward`, indices in `long long`s. A `none` is undefined
behaviour, a step through `NULL` or an overflow. The command models in `SortedSets` read the answers
off the ordered chain.
-/

import Miniredis.Lib.Links
import Miniredis.Model.Skiplist
import Miniredis.Model.SortedSets

namespace Miniredis

namespace Zsl

/-- What the loop of `zrange_common` reads of a node. -/
def readNode (zsl : Zsl) (reverse : Bool) (x : Nat) : Option (ZNode × Option Nat) :=
  some (zsl.item x, if reverse then zsl.backward x else (zsl.lane 0).forward x)

/-- The loop of `ZRANGEBYSCORE` that skips `offset` nodes. -/
def skipNodes (zsl : Zsl) (last : Nat) : Nat → Option Nat → Option (Option Nat)
  | 0, x => some x
  | _ + 1, none => none
  | skip + 1, some x =>
    if x = last then some none else zsl.skipNodes last skip ((zsl.lane 0).forward x)

/-- The loop of `ZRANGEBYSCORE` that sends nodes. -/
def emitNodes (zsl : Zsl) (last : Nat) : Nat → Option Nat → List ZNode
  | 0, _ => []
  | _ + 1, none => []
  | emit + 1, some x =>
    zsl.item x :: if x = last then [] else zsl.emitNodes last emit ((zsl.lane 0).forward x)

end Zsl

namespace LinkedZset

/-- `zrange_common` on the object. -/
def zrange (reverse withscores : Bool) (start stop : Int) (zs : LinkedZset) : Option Bytes := do
  let length := toLongLong zs.len
  match ← rangeNormalizeChecked length start stop with
  | none => some (replyArrayHeader 0)
  | some (start, stop) =>
    let n ← rangeCount start stop
    let rank ← checked (if reverse then length - start else start + 1)
    let x := zs.zsl.getElementByRank (UInt64.ofInt rank)
    let nodes ← Links.collect (zs.zsl.readNode reverse) n.toNat x
    some (replyNodeHeader withscores n ++ replyNodes withscores nodes)

/-- `ZRANK` and `ZREVRANK` on the object. -/
def zrank (fromEnd : Bool) (member : Bytes) (zs : LinkedZset) : Option Bytes :=
  match zs.dict.get member with
  | none => some replyNull
  | some n => do
    let rank := toLongLong (zs.zsl.getRank (zs.zsl.item n).score (zs.zsl.item n).member)
    let answer ← checked (if fromEnd then toLongLong zs.len - rank else rank - 1)
    some (replyInteger answer)

/-- The first and the last node of a score range with their ranks, unless it is empty. -/
def scoreRange (zs : LinkedZset) (min max : Double × Bool) :
    Option ((Nat × Nat) × UInt64 × UInt64) :=
  match zs.zsl.firstInScoreRange min.1 min.2, zs.zsl.lastInScoreRange max.1 max.2 with
  | some first, some last =>
    let rfirst := zs.zsl.getRank (zs.zsl.item first).score (zs.zsl.item first).member
    let rlast := zs.zsl.getRank (zs.zsl.item last).score (zs.zsl.item last).member
    if rfirst = 0 ∨ rlast = 0 ∨ rfirst > rlast then none else some ((first, last), rfirst, rlast)
  | _, _ => none

/-- `ZCOUNT` on the object. -/
def zcount (min max : Double × Bool) (zs : LinkedZset) : Bytes :=
  match zs.scoreRange min max with
  | none => replyInteger 0
  | some (_, rfirst, rlast) => replyInteger (toLongLong (rlast - rfirst + 1))

/-- `ZRANGEBYSCORE` on the object. -/
def zrangebyscore (min max : Double × Bool) (withscores : Bool) (offset limit : Int)
    (zs : LinkedZset) : Option Bytes :=
  match zs.scoreRange min max with
  | none => some (replyArrayHeader 0)
  | some ((first, last), rfirst, rlast) => do
    let total := toLongLong (rlast - rfirst + 1)
    let x ← zs.zsl.skipNodes last offset.toNat (some first)
    let rest ← checked (total - offset)
    let emit := if limit < 0 then rest else limit
    let emit := if emit < 0 then 0 else emit
    let emit := if emit > rest then rest else emit
    some (replyNodeHeader withscores emit ++
      replyNodes withscores (zs.zsl.emitNodes last emit.toNat x))

end LinkedZset

end Miniredis
