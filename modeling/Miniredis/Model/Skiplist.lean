/-
**The skiplist and the sorted set in memory (`zskiplist.c`).**

`Zsl` is the skiplist with its nodes by address; `LinkedZset` is the object that the commands work
on, a dictionary from members to nodes beside the skiplist. Scores are compared as `double`s, so a
NaN is neither below nor equal to anything. `Zset` is what both represent.
-/

import Miniredis.Lib.SkiplistQuery
import Miniredis.Lib.SkiplistUpdate
import Miniredis.Model.Dict
import Miniredis.Model.Zset

namespace Miniredis

/-! ### The skiplist -/

/-- `ZSKIPLIST_MAXLEVEL`. -/
def zskiplistMaxlevel : Nat := 32

/-- The score and member of the header. -/
instance : Inhabited ZNode := ⟨⟨.zero, []⟩⟩

abbrev Zsl := Skiplist ZNode

/-- The loop of `zsl_random_level`, with `left` levels to go. -/
def zslRandomLevelLoop : Nat → (Nat → Nat) → Nat → Nat
  | 0, _, level => level
  | left + 1, rand, level =>
    -- (unsigned)(ZSKIPLIST_P * 0xFFFF)
    if rand 0 &&& 0xFFFF < 16383 then zslRandomLevelLoop left (fun n => rand (n + 1)) (level + 1)
    else level

/-- `zsl_random_level` on the outcomes of `rand()`. -/
def zslRandomLevel (rand : Nat → Nat) : Nat := zslRandomLevelLoop (zskiplistMaxlevel - 1) rand 1

/-- The condition on which a search passes a node. -/
def zslPasses (score : Double) (member : Bytes) (node : ZNode) : Bool :=
  node.score.lt score || (node.score.eq score && memberLt node.member member)

/-- The condition on which `zsl_delete` takes a node. -/
def zslFound (score : Double) (member : Bytes) (node : ZNode) : Bool :=
  node.score.eq score && node.member.length = member.length && node.member = member

/-- The condition on which `zsl_first_in_score_range` passes a node. -/
def zslBelow (min : Double) (minex : Bool) (node : ZNode) : Bool :=
  node.score.lt min || (minex && node.score.eq min)

/-- The condition on which `zsl_last_in_score_range` passes a node. -/
def zslWithin (max : Double) (maxex : Bool) (node : ZNode) : Bool :=
  node.score.lt max || (!maxex && node.score.eq max)

namespace Zsl

/-- `zsl_create`. -/
def create : Zsl := Skiplist.create zskiplistMaxlevel

/-- `zsl_insert`; the new node comes back. -/
def insert (zsl : Zsl) (score : Double) (member : Bytes) (rand : Nat → Nat) : Nat × Zsl :=
  Skiplist.insert zsl (zslPasses score member) ⟨score, member⟩ (zslRandomLevel rand)

/-- `zsl_delete`. -/
def delete (zsl : Zsl) (score : Double) (member : Bytes) : Bool × Zsl :=
  Skiplist.delete zsl (zslPasses score member) (zslFound score member)

/-- `zsl_get_rank`. -/
def getRank (zsl : Zsl) (score : Double) (member : Bytes) : UInt64 :=
  Skiplist.rank zsl (zslPasses score member) (zslFound score member)

/-- `zsl_get_element_by_rank`. -/
def getElementByRank (zsl : Zsl) (rank : UInt64) : Option Nat := Skiplist.element zsl rank

/-- `zsl_first_in_score_range`. -/
def firstInScoreRange (zsl : Zsl) (min : Double) (minex : Bool) : Option Nat :=
  Skiplist.first zsl (zslBelow min minex)

/-- `zsl_last_in_score_range`. -/
def lastInScoreRange (zsl : Zsl) (max : Double) (maxex : Bool) : Option Nat :=
  Skiplist.last zsl (zslWithin max maxex)

end Zsl

/-! ### The sorted set -/

/-- `zset`. -/
structure LinkedZset where
  dict : Dict Nat
  zsl : Zsl

namespace LinkedZset

/-- `zset_create`. -/
def create (seed : Seed) : LinkedZset := ⟨dictCreate seed, Zsl.create⟩

/-- `zset_len`. -/
def len (zs : LinkedZset) : UInt64 := zs.zsl.length

/-- The end of `zset_add`: insert a node and point the member at it. -/
def link (zs : LinkedZset) (score : Double) (member : Bytes) (rand : Nat → Nat) :
    Nat × LinkedZset :=
  let (n, zsl) := zs.zsl.insert score member rand
  (n, ⟨(zs.dict.set member n).2, zsl⟩)

/-- Delete a member's node, then its entry. -/
def unlink (zs : LinkedZset) (n : Nat) (member : Bytes) : LinkedZset :=
  let node := zs.zsl.item n
  let (_, zsl) := zs.zsl.delete node.score node.member
  ⟨(zs.dict.delete member).2, zsl⟩

/-- `zset_add`: the code, the node and the set. -/
def add (zs : LinkedZset) (score : Double) (member : Bytes) (rand : Nat → Nat) :
    Nat × Nat × LinkedZset :=
  match zs.dict.get member with
  | some n =>
    if (zs.zsl.item n).score.eq score then (0, n, zs)
    else (2, (zs.unlink n member).link score member rand)
  | none => (1, zs.link score member rand)

/-- `zset_remove`. -/
def remove (zs : LinkedZset) (member : Bytes) : Nat × LinkedZset :=
  match zs.dict.get member with
  | none => (0, zs)
  | some n => (1, zs.unlink n member)

/-- `zset_score`. -/
def score (zs : LinkedZset) (member : Bytes) : Option Double :=
  (zs.dict.get member).map fun n => (zs.zsl.item n).score

end LinkedZset

end Miniredis
