/-
**Lists in memory (`list.c`) and the loops of the list commands (`db.c`).**

What `LRANGE`, `LTRIM` and `LREM` do to the doubly linked list once they have found it, and the
indices of `GETRANGE`, all in `long long`s. A `none` is undefined behaviour: a step through `NULL`
or to a freed node, an overflow. The command models in `Lists` work on the list of the values.
-/

import Miniredis.Lib.DoublyLinked
import Miniredis.Model.Lists

namespace Miniredis

abbrev LinkedList := DoublyLinked Bytes

namespace LinkedList

/-- `list_node_at`, from the nearer end. -/
def nodeAt (index : Int) (l : LinkedList) : Option (Option Nat) := do
  let n := toLongLong l.len
  let index ← checkedIf (index < 0) (index + n) index
  if index < 0 ∨ index ≥ n then some none
  else if index ≤ n / 2 then Links.advance (l.read false) index.toNat l.head
  else
    let last ← checked (n - 1)
    Links.advance (l.read true) (last - index).toNat l.tail

/-- `LRANGE` on the object. -/
def lrange (start stop : Int) (l : LinkedList) : Option Bytes := do
  match ← rangeNormalizeChecked (toLongLong l.len) start stop with
  | none => some (replyArrayHeader 0)
  | some (start, stop) =>
    let n ← rangeCount start stop
    let x ← l.nodeAt start
    let values ← Links.collect (l.read false) n.toNat x
    some (replyArrayHeader n.toNat ++ values.flatMap replyBulk)

/-- The loop of `LTRIM` that detaches the nodes before the range. -/
def trimFront : Nat → Option Nat → LinkedList → Option LinkedList
  | 0, _, l => some l
  | _ + 1, none, l => some l
  | i + 1, some x, l => do
    let cell ← l.heap x
    let (_, l) ← l.detach x
    trimFront i cell.next l

/-- The loop of `LTRIM` that pops the nodes behind the range. -/
def trimBack (target : Int) : Nat → LinkedList → Option LinkedList
  | 0, l => if toLongLong l.len > target then none else some l
  | fuel + 1, l =>
    if toLongLong l.len > target then do
      let (_, l) ← l.popTail
      trimBack target fuel l
    else some l

/-- `LTRIM` on the object; a void range deletes the key. -/
def ltrim (start stop : Int) (l : LinkedList) : Option (Option LinkedList) := do
  match ← rangeNormalizeChecked (toLongLong l.len) start stop with
  | none => some none
  | some (start, stop) =>
    let l ← trimFront start.toNat l.head l
    let target ← rangeCount start stop
    let l ← trimBack target l.len.toNat l
    some (some l)

/-- The loop of `LREM` in one direction: the neighbour is read before the node may be freed. -/
def remLoop (target : Bytes) (goes : Int → Bool) (back : Bool) :
    Nat → Option Nat → Int → LinkedList → Option (LinkedList × Int)
  | _, none, removed, l => some (l, removed)
  | 0, some _, _, _ => none
  | fuel + 1, some x, removed, l =>
    if goes removed then do
      let (v, next) ← l.read back x
      if v = target then
        let (_, l) ← l.detach x
        let removed ← checked (removed + 1)
        remLoop target goes back fuel next removed l
      else remLoop target goes back fuel next removed l
    else some (l, removed)

/-- `LREM` on the object: the list and the number of nodes removed. -/
def lrem (count : Int) (target : Bytes) (l : LinkedList) : Option (LinkedList × Int) :=
  if count ≥ 0 then
    remLoop target (fun removed => count = 0 || removed < count) false l.fresh l.head 0 l
  else do
    let limit ← checked (-count)
    remLoop target (fun removed => removed < limit) true l.fresh l.tail 0 l

end LinkedList

/-! ### Calls of `list.c` -/

/-- A call; a node is named by its position, and is `NULL` where there is none. -/
inductive ListCall where
  | pushHead (value : Bytes)
  | pushTail (value : Bytes)
  | popHead
  | popTail
  | insertAfter (i : Nat) (value : Bytes)
  | detach (i : Nat)

def LinkedList.call (l : LinkedList) : ListCall → Option LinkedList
  | .pushHead value => l.pushHead value
  | .pushTail value => l.pushTail value
  | .popHead => l.popHead.map Prod.snd
  | .popTail => l.popTail.map Prod.snd
  | .insertAfter i value => do
    let node ← l.nodeAt i
    l.insertAfter node value
  | .detach i => do
    match ← l.nodeAt i with
    | none => some l
    | some node => (l.detach node).map Prod.snd

/-- A call with the pointers that the caller holds. -/
inductive NodeCall where
  | pushHead (value : Bytes)
  | pushTail (value : Bytes)
  | popHead
  | popTail
  | insertAfter (node : Option Nat) (value : Bytes)
  | detach (node : Option Nat)

/-- What the call returns, and the list. -/
def LinkedList.apply (l : LinkedList) : NodeCall → Option (Option Bytes × LinkedList)
  | .pushHead value => (l.pushHead value).map (none, ·)
  | .pushTail value => (l.pushTail value).map (none, ·)
  | .popHead => l.popHead
  | .popTail => l.popTail
  | .insertAfter node value => (l.insertAfter node value).map (none, ·)
  | .detach none => some (none, l)
  | .detach (some node) => (l.detach node).map fun (value, l) => (some value, l)

/-- Calls one after another, with what they return. -/
def LinkedList.applyAll : LinkedList → List NodeCall → Option (List (Option Bytes) × LinkedList)
  | l, [] => some ([], l)
  | l, call :: rest => do
    let (value, l) ← l.apply call
    let (values, l) ← l.applyAll rest
    return (value :: values, l)

/-! ### Strings -/

/-- `GETRANGE` on the bytes of a string. -/
def getrangeChecked (start stop : Int) (s : Bytes) : Option Bytes := do
  let len := toLongLong (UInt64.ofNat s.length)
  let start ← checkedIf (start < 0) (len + start) start
  let stop ← checkedIf (stop < 0) (len + stop) stop
  let start := if start < 0 then 0 else start
  let stop ← checkedIf (stop ≥ len) (len - 1) stop
  if start > stop ∨ start ≥ len then some (replyBulkCstr [])
  else
    let n ← rangeCount start stop
    some (replyBulk ((s.drop start.toNat).take n.toNat))

end Miniredis
