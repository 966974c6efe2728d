/-
**Linked lists represent sequences.**

A sequence has named items, the names being given in the order in which they were made (`Sequence`).
The calls of `list.c`, with pointers to nodes of the list, do to the nodes what they say.

* `Holds.apply` — one call;
* `list_represents` — any calls: walks in both directions, the length, the ends and `list_node_at`
  are those of the sequence.
-/

import Miniredis.Lib.Machine
import Miniredis.Structures.LinkedList

namespace Miniredis

open DoublyLinked (Holds orient)
open Links (start)

/-! ### Sequences -/

/-- Items with their names, and the number of items made so far. -/
structure Sequence where
  items : List (Nat × Bytes)
  made : Nat

namespace Sequence

def empty : Sequence := ⟨[], 0⟩

/-- The item at a position, from the end if it is negative. -/
def nth (q : Sequence) (index : Int) : Option (Nat × Bytes) :=
  let i := if index < 0 then q.items.length + index else index
  if i < 0 then none else q.items[i.toNat]?

/-- What a call means: the value it returns, and the sequence after it. -/
def apply (q : Sequence) : NodeCall → Option Bytes × Sequence
  | .pushHead value => (none, ⟨(q.made, value) :: q.items, q.made + 1⟩)
  | .pushTail value => (none, ⟨q.items ++ [(q.made, value)], q.made + 1⟩)
  | .popHead => (q.items.head?.map Prod.snd, { q with items := q.items.tail })
  | .popTail => (q.items.getLast?.map Prod.snd, { q with items := q.items.dropLast })
  | .insertAfter none value => (none, ⟨(q.made, value) :: q.items, q.made + 1⟩)
  | .insertAfter (some node) value =>
    (none, ⟨q.items.flatMap fun item =>
      if item.1 = node then [item, (q.made, value)] else [item], q.made + 1⟩)
  | .detach none => (none, q)
  | .detach (some node) =>
    ((q.items.find? fun item => item.1 = node).map Prod.snd,
      { q with items := q.items.filter fun item => item.1 ≠ node })

def applyAll (q : Sequence) (calls : List NodeCall) : List (Option Bytes) × Sequence :=
  Machine.trace apply q calls

/-- There are addresses for one more node of three pointers; otherwise `xmalloc` aborts. -/
def HasRoom (q : Sequence) : Prop := (q.items.length + 1) * 24 < 2 ^ 64

/-- A call returns if `xmalloc` does; a node it is given is one of the list. -/
def Admits (q : Sequence) : NodeCall → Prop
  | .pushHead _ | .pushTail _ | .insertAfter none _ => q.HasRoom
  | .insertAfter (some node) _ => q.HasRoom ∧ node ∈ q.items.map Prod.fst
  | .detach (some node) => node ∈ q.items.map Prod.fst
  | .popHead | .popTail | .detach none => True

def AdmitsAll : Sequence → List NodeCall → Prop
  | _, [] => True
  | q, call :: rest => q.Admits call ∧ (q.apply call).2.AdmitsAll rest

end Sequence

/-- The list is the sequence, from every side. -/
structure Enumerates (l : LinkedList) (q : Sequence) : Prop where
  forward : Links.collect (l.read false) q.items.length l.head = some (q.items.map Prod.snd)
  forwardEnd : Links.advance (l.read false) q.items.length l.head = some none
  backward : Links.collect (l.read true) q.items.length l.tail =
    some (q.items.map Prod.snd).reverse
  backwardEnd : Links.advance (l.read true) q.items.length l.tail = some none
  len : l.len.toNat = q.items.length
  head : l.head = none ↔ q.items = []
  tail : l.tail = none ↔ q.items = []
  node : ∀ index : Int, -(2 ^ 63) ≤ index → index < 2 ^ 63 →
    l.nodeAt index = some ((q.nth index).map Prod.fst)

section Calls

variable {l : LinkedList} {q : Sequence}

/-- The items around one of them. -/
theorem items_split {items : List (Nat × Bytes)} {node : Nat} (member : node ∈ items.map Prod.fst) :
    ∃ left value right, items = left ++ (node, value) :: right := by
  obtain ⟨⟨x, value⟩, inside, rfl⟩ := List.mem_map.mp member
  obtain ⟨left, right, rfl⟩ := List.append_of_mem inside
  exact ⟨left, value, right, rfl⟩

section Split

variable {left right : List (Nat × Bytes)} {node made : Nat} {value new : Bytes}

theorem notMem_name {items : List (Nat × Bytes)} (outside : node ∉ items.map Prod.fst) :
    ∀ item ∈ items, item.1 ≠ node := by
  rintro item member rfl
  exact outside (List.mem_map_of_mem member)

theorem filter_split (distinct : ((left ++ (node, value) :: right).map Prod.fst).Nodup) :
    (left ++ (node, value) :: right).filter (fun item => item.1 ≠ node) = left ++ right := by
  obtain ⟨_, _, before, after, _⟩ := DoublyLinked.nodup_parts distinct
  have kept {items : List (Nat × Bytes)} (outside : node ∉ items.map Prod.fst) :
      items.filter (fun item => item.1 ≠ node) = items :=
    List.filter_eq_self.mpr fun item member => decide_eq_true (notMem_name outside item member)
  rw [List.filter_append, List.filter_cons_of_neg (by simp), kept before, kept after]

theorem find_split (distinct : ((left ++ (node, value) :: right).map Prod.fst).Nodup) :
    (left ++ (node, value) :: right).find? (fun item => item.1 = node) = some (node, value) := by
  obtain ⟨_, _, before, _⟩ := DoublyLinked.nodup_parts distinct
  have missing : left.find? (fun item => decide (item.1 = node)) = none :=
    List.find?_eq_none.mpr fun item member => by simpa using notMem_name before item member
  rw [List.find?_append, missing, Option.none_or, List.find?_cons_of_pos (by simp)]

theorem flatMap_split (distinct : ((left ++ (node, value) :: right).map Prod.fst).Nodup) :
    ((left ++ (node, value) :: right).flatMap fun item =>
      if item.1 = node then [item, (made, new)] else [item]) =
      left ++ (node, value) :: (made, new) :: right := by
  obtain ⟨_, _, before, after, _⟩ := DoublyLinked.nodup_parts distinct
  have kept {items : List (Nat × Bytes)} (outside : node ∉ items.map Prod.fst) :
      (items.flatMap fun item => if item.1 = node then [item, (made, new)] else [item]) =
        items := by
    induction items with
    | nil => rfl
    | cons item rest ih =>
      rw [List.map_cons, List.mem_cons, not_or] at outside
      rw [List.flatMap_cons, if_neg (Ne.symm outside.1), ih outside.2]
      rfl
  rw [List.flatMap_append, List.flatMap_cons, if_pos rfl, kept before, kept after]
  rfl

end Split

/-- **One call.** -/
theorem apply_spec (holds : Holds l q.items) (names : l.fresh = q.made) {call : NodeCall}
    (admits : q.Admits call) :
    ∃ l', l.apply call = some ((q.apply call).1, l') ∧ Holds l' (q.apply call).2.items ∧
      l'.fresh = (q.apply call).2.made := by
  obtain ⟨items, made⟩ := q
  subst names
  dsimp only at holds admits
  cases call with
  | pushHead value =>
    obtain ⟨l', pushed, after, fresh⟩ := DoublyLinked.pushHead_spec holds value
    exact ⟨l', by rw [LinkedList.apply, pushed]; rfl, after, fresh⟩
  | pushTail value =>
    obtain ⟨l', pushed, after, fresh⟩ := DoublyLinked.pushTail_spec holds value
    exact ⟨l', by rw [LinkedList.apply, pushed]; rfl, after, fresh⟩
  | popHead =>
    cases items with
    | nil => exact ⟨l, by simp [LinkedList.apply, DoublyLinked.popHead, holds.head, start,
        Sequence.apply], holds, rfl⟩
    | cons item rest =>
      obtain ⟨l', popped, after, fresh⟩ := DoublyLinked.popHead_spec holds
      exact ⟨l', popped, after, fresh⟩
  | popTail =>
    rcases List.eq_nil_or_concat items with rfl | ⟨front, last, rfl⟩
    · exact ⟨l, by simp [LinkedList.apply, DoublyLinked.popTail, holds.tail, Sequence.apply],
        holds, rfl⟩
    · rw [List.concat_eq_append] at holds ⊢
      obtain ⟨l', popped, after, fresh⟩ := DoublyLinked.popTail_spec holds
      refine ⟨l', ?_, by simpa [Sequence.apply] using after, fresh⟩
      simp [LinkedList.apply, popped, Sequence.apply]
  | insertAfter node value =>
    cases node with
    | none =>
      obtain ⟨l', pushed, after, fresh⟩ := DoublyLinked.pushHead_spec holds value
      exact ⟨l', by rw [LinkedList.apply, DoublyLinked.insertAfter, pushed]; rfl, after, fresh⟩
    | some node =>
      obtain ⟨left, there, right, rfl⟩ := items_split admits.2
      obtain ⟨l', inserted, after, fresh⟩ := DoublyLinked.insertAfter_spec holds value
      refine ⟨l', by rw [LinkedList.apply, inserted]; rfl, ?_, fresh⟩
      rw [Sequence.apply]
      dsimp only
      rw [flatMap_split holds.distinct]
      exact after
  | detach node =>
    cases node with
    | none => exact ⟨l, rfl, holds, rfl⟩
    | some node =>
      obtain ⟨left, there, right, rfl⟩ := items_split admits
      obtain ⟨l', taken, after, fresh⟩ := DoublyLinked.detach_spec holds
      rw [Sequence.apply]
      dsimp only
      rw [find_split holds.distinct, filter_split holds.distinct]
      exact ⟨l', by rw [LinkedList.apply, taken]; rfl, after, fresh⟩

/-- The nodes fit the address space. -/
def Sequence.Small (q : Sequence) : Prop := q.items.length * 24 < 2 ^ 64

theorem small_apply (distinct : (q.items.map Prod.fst).Nodup) (small : q.Small) {call : NodeCall}
    (admits : q.Admits call) : (q.apply call).2.Small := by
  have shorter {items : List (Nat × Bytes)} (fewer : items.length ≤ q.items.length) :
      items.length * 24 < 2 ^ 64 := lt_of_le_of_lt (Nat.mul_le_mul_right 24 fewer) small
  cases call with
  | pushHead value => exact admits
  | pushTail value =>
    show (q.items ++ [(q.made, value)]).length * 24 < 2 ^ 64
    rw [List.length_append]
    exact admits
  | popHead => exact shorter (by rw [Sequence.apply, List.length_tail]; omega)
  | popTail => exact shorter (by rw [Sequence.apply, List.length_dropLast]; omega)
  | insertAfter node value =>
    cases node with
    | none => exact admits
    | some node =>
      obtain ⟨room, member⟩ := admits
      obtain ⟨left, there, right, split⟩ := items_split member
      unfold Sequence.HasRoom at room
      unfold Sequence.Small Sequence.apply
      dsimp only
      rw [split] at distinct room ⊢
      rw [flatMap_split distinct]
      simpa [Nat.add_assoc] using room
  | detach node =>
    cases node with
    | none => exact small
    | some node => exact shorter (List.length_filter_le _ _)

/-- **Any calls**, one after another. -/
theorem applyAll_spec (calls : List NodeCall) (holds : Holds l q.items) (names : l.fresh = q.made)
    (small : q.Small) (admits : q.AdmitsAll calls) :
    ∃ l', l.applyAll calls = some ((q.applyAll calls).1, l') ∧
      Holds l' (q.applyAll calls).2.items ∧ (q.applyAll calls).2.Small := by
  induction calls generalizing l q with
  | nil => exact ⟨l, rfl, holds, small⟩
  | cons call rest ih =>
    obtain ⟨l', applied, after, names'⟩ := apply_spec holds names admits.1
    obtain ⟨l'', ran, last, small'⟩ := ih after names'
      (small_apply holds.distinct small admits.1) admits.2
    refine ⟨l'', ?_, last, small'⟩
    rw [LinkedList.applyAll, applied]
    simp only [Option.bind_eq_bind, Option.bind_some]
    rw [ran]
    rfl

/-- A negative index counts from the end. -/
theorem nodeAt_negative {cells : List (Nat × Bytes)} (holds : Holds l cells)
    (few : cells.length < 2 ^ 63) {index : Int} (low : -(2 ^ 63) ≤ index) (negative : index < 0) :
    l.nodeAt index = if cells.length + index < 0 then some none else
      l.nodeAt (cells.length + index) := by
  have few' : (cells.length : Int) < 2 ^ 63 := by exact_mod_cast few
  unfold LinkedList.nodeAt
  dsimp only
  rw [longLen holds few, checkedIf_of_range fun _ => by omega, if_pos negative,
    Int.add_comm index]
  simp only [Option.bind_eq_bind, Option.bind_some]
  by_cases outside : (cells.length : Int) + index < 0
  · rw [if_pos outside, if_pos (Or.inl outside)]
  · rw [if_neg outside, checkedIf_of_range fun below => absurd below outside, if_neg outside,
      Option.bind_some]

/-- **A list in memory that holds the items of a sequence is the sequence from every side.** -/
theorem enumerates_of_holds (holds : Holds l q.items) (small : q.Small) : Enumerates l q := by
  have few : q.items.length < 2 ^ 63 := by
    unfold Sequence.Small at small
    omega
  have last : l.tail = start (orient true q.items) := holds.first true
  have size : (orient true q.items).length = q.items.length := List.length_reverse
  refine ⟨?_, ?_, ?_, ?_, ?_, ?_, ?_, fun index low high => ?_⟩
  · rw [holds.head]
    exact ((holds.leads false).collect le_rfl).trans (by rw [orient]; simp)
  · rw [holds.head]
    exact ((holds.leads false).advance le_rfl).trans (by rw [orient]; simp [start])
  · rw [last, ← size, (holds.leads true).collect le_rfl, List.take_length, orient]
    simp
  · rw [last, ← size, (holds.leads true).advance le_rfl, List.drop_length]
    rfl
  · rw [holds.len, UInt64.toNat_ofNat_of_lt' (few.trans (by decide))]
  · rw [holds.head]
    simp [start]
  · rw [last]
    simp [start, orient]
  · have inside (i : Nat) : l.nodeAt i = some ((q.items[i]?).map Prod.fst) := by
      rw [nodeAt_spec holds few, Links.start_drop]
    unfold Sequence.nth
    dsimp only
    by_cases negative : index < 0
    · rw [nodeAt_negative holds few low negative, if_pos negative]
      split
      · rfl
      · rename_i reached
        obtain ⟨i, same⟩ := Int.eq_ofNat_of_zero_le (not_lt.mp reached)
        rw [same]
        exact inside i
    · obtain ⟨i, rfl⟩ := Int.eq_ofNat_of_zero_le (not_lt.mp negative)
      rw [if_neg negative, if_neg negative]
      exact inside i

/-- **After any calls the list is the sequence that the calls say**, and they return its parts. -/
theorem list_represents (calls : List NodeCall) (admits : Sequence.empty.AdmitsAll calls) :
    ∃ l, LinkedList.applyAll DoublyLinked.create calls =
        some ((Sequence.empty.applyAll calls).1, l) ∧
      Enumerates l (Sequence.empty.applyAll calls).2 := by
  have small : Sequence.empty.Small := by
    unfold Sequence.Small
    decide
  obtain ⟨l, ran, holds, small⟩ := applyAll_spec calls Holds.create rfl small admits
  exact ⟨l, ran, enumerates_of_holds holds small⟩

/-- Two values at the tail, one between them, and the last node taken out. -/
def sampleNodeCalls : List NodeCall :=
  [.pushTail (text "a"), .pushTail (text "b"), .insertAfter (some 0) (text "c"), .detach (some 1)]

theorem list_represents_sample :
    ∃ l, LinkedList.applyAll DoublyLinked.create sampleNodeCalls =
        some ([none, none, none, some (text "b")], l) ∧
      Enumerates l ⟨[(0, text "a"), (2, text "c")], 3⟩ :=
  list_represents sampleNodeCalls (by
    simp [sampleNodeCalls, Sequence.AdmitsAll, Sequence.Admits, Sequence.HasRoom, Sequence.apply,
      Sequence.empty])

end Calls

end Miniredis
