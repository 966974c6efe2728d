/-
**The skiplist keeps its nodes sorted, linked and measured.**

* `zslRandomLevel_range` — the random level lies between `1` and `32`.
* `Zsl.insert_ordered`, `Zsl.delete_ordered` — an insertion puts the node at its place in the order,
  a deletion takes out the node it is asked for and no other.
* `zsl_invariant` — so, whatever was inserted and deleted, the skiplist is what a search relies on.
-/

import Miniredis.Model.Skiplist

namespace Miniredis

open Skiplist (Layout Chain header)

/-! ### The random level -/

theorem zslRandomLevelLoop_range (left : Nat) (rand : Nat → Nat) (level : Nat) :
    level ≤ zslRandomLevelLoop left rand level ∧
      zslRandomLevelLoop left rand level ≤ level + left := by
  induction left generalizing rand level with
  | zero => exact ⟨le_rfl, le_rfl⟩
  | succ left ih =>
    unfold zslRandomLevelLoop
    split
    · have := ih (fun n => rand (n + 1)) (level + 1)
      omega
    · omega

theorem zslRandomLevel_range (rand : Nat → Nat) :
    0 < zslRandomLevel rand ∧ zslRandomLevel rand ≤ zskiplistMaxlevel := by
  have range := zslRandomLevelLoop_range (zskiplistMaxlevel - 1) rand 1
  unfold zslRandomLevel
  have : zskiplistMaxlevel = 32 := rfl
  omega

/-! ### The order -/

section Order

variable {node : ZNode} {score : Double} {member : Bytes}

theorem zslPasses_iff (number : node.score.isNaN = false) (number' : score.isNaN = false) :
    zslPasses score member node = true ↔ node.place < (⟨score, member⟩ : ZNode).place := by
  rw [← ZNode.before_iff]
  simp [zslPasses, ZNode.before, Double.lt, Double.eq, number, number']

theorem zslPasses_nan (nan : score.isNaN = true) : zslPasses score member node = false := by
  simp [zslPasses, Double.lt, Double.eq, nan]

theorem zslFound_iff : zslFound score member node = true ↔
    node.score.eq score = true ∧ node.member = member := by
  simp only [zslFound, Bool.and_eq_true, decide_eq_true_eq, and_assoc]
  exact and_congr_right fun _ => ⟨fun both => both.2, fun same => ⟨congrArg List.length same, same⟩⟩

/-- A node that is found has the place of the one sought, and neither score is a NaN. -/
theorem zslFound_place (found : zslFound score member node = true) :
    node.score.isNaN = false ∧ score.isNaN = false ∧
      node.place = (⟨score, member⟩ : ZNode).place := by
  obtain ⟨equal, rfl⟩ := zslFound_iff.mp found
  simp only [Double.eq, Bool.and_eq_true, Bool.not_eq_true', decide_eq_true_eq] at equal
  exact ⟨equal.1.1, equal.1.2, by rw [ZNode.place, ZNode.place, equal.2]⟩

theorem zslFound_stops (found : zslFound score member node = true) :
    zslPasses score member node = false := by
  obtain ⟨number, number', place⟩ := zslFound_place found
  by_contra passed
  have less := (zslPasses_iff number number').mp (by simpa using passed)
  exact absurd place less.ne

end Order

/-- The nodes of a skiplist are laid out in the order of their items, none of which is a NaN. -/
structure Ordered (zsl : Zsl) (nodes : List Nat) : Prop where
  layout : Layout zskiplistMaxlevel zsl nodes
  sorted : (nodes.map zsl.item).Pairwise fun a b => a.place < b.place
  numbers : ∀ q ∈ nodes, (zsl.item q).score.isNaN = false

/-- A sorted order is cut where a search stops. -/
theorem cut {ι : Type} {item : ι → ZNode} {nodes : List ι} {passes : ZNode → Bool}
    (sorted : (nodes.map item).Pairwise fun a b => a.place < b.place)
    (down : ∀ p ∈ nodes, ∀ q ∈ nodes, (item p).place < (item q).place →
      passes (item q) = true → passes (item p) = true) :
    ∃ left right, nodes = left ++ right ∧ (∀ q ∈ left, passes (item q) = true) ∧
      ∀ q ∈ right, passes (item q) = false := by
  induction nodes with
  | nil => exact ⟨[], [], rfl, nofun, nofun⟩
  | cons p rest ih =>
    obtain ⟨first, later⟩ := List.pairwise_cons.mp sorted
    cases here : passes (item p) with
    | true =>
      obtain ⟨left, right, rfl, before, beyond⟩ := ih later fun a inside b inside' =>
        down a (List.mem_cons_of_mem _ inside) b (List.mem_cons_of_mem _ inside')
      refine ⟨p :: left, right, rfl, fun q member => ?_, beyond⟩
      rcases List.mem_cons.mp member with rfl | member
      · exact here
      · exact before q member
    | false =>
      refine ⟨[], p :: rest, rfl, nofun, fun q member => ?_⟩
      rcases List.mem_cons.mp member with rfl | later
      · exact here
      · by_contra passed
        have less := first _ (List.mem_map_of_mem later)
        have contrary := down p List.mem_cons_self q member less (by simpa using passed)
        rw [here] at contrary
        cases contrary

/-- The list after an insertion, from the place where the search stops. -/
theorem zslInsert_cut {new : ZNode} {left right : List ZNode}
    (before : ∀ node ∈ left, node.before new = true)
    (beyond : ∀ node ∈ right, node.before new = false) :
    zslInsert new (left ++ right) = left ++ new :: right := by
  induction left with
  | nil =>
    cases right with
    | nil => rfl
    | cons node rest => simp [zslInsert, beyond node List.mem_cons_self]
  | cons node rest ih =>
    rw [List.cons_append, zslInsert, if_pos (before node List.mem_cons_self),
      ih (List.forall_mem_cons.mp before).2, List.cons_append]

section Updates

variable {zsl : Zsl} {nodes : List Nat} {score : Double} {member : Bytes}

theorem Ordered.create : Ordered Zsl.create [] :=
  ⟨Skiplist.create_layout (by decide), List.Pairwise.nil, nofun⟩

theorem Ordered.cut_passes (ordered : Ordered zsl nodes) (score : Double) (member : Bytes) :
    ∃ left right, nodes = left ++ right ∧
      (∀ q ∈ left, zslPasses score member (zsl.item q) = true) ∧
      ∀ q ∈ right, zslPasses score member (zsl.item q) = false := by
  refine cut ordered.sorted fun p inside q inside' less passed => ?_
  cases nan : score.isNaN with
  | true =>
    rw [zslPasses_nan nan] at passed
    cases passed
  | false =>
    refine (zslPasses_iff (ordered.numbers p inside) nan).mpr (less.trans ?_)
    exact (zslPasses_iff (ordered.numbers q inside') nan).mp passed

/-- **An insertion puts the new node at its place.** -/
theorem Zsl.insert_ordered (ordered : Ordered zsl nodes) (number : score.isNaN = false)
    (absent : ∀ q ∈ nodes, (zsl.item q).member ≠ member) (rand : Nat → Nat) :
    ∃ left right, nodes = left ++ right ∧ (zsl.insert score member rand).1 = zsl.fresh ∧
      Ordered (zsl.insert score member rand).2 (left ++ zsl.fresh :: right) ∧
      (left ++ zsl.fresh :: right).map (zsl.insert score member rand).2.item =
        zslInsert ⟨score, member⟩ (nodes.map zsl.item) := by
  obtain ⟨left, right, rfl, before, beyond⟩ := ordered.cut_passes score member
  obtain ⟨positive, bound⟩ := zslRandomLevel_range rand
  obtain ⟨address, layout⟩ := Skiplist.insert_layout ordered.layout before beyond positive bound
    (⟨score, member⟩ : ZNode)
  have old : ∀ q ∈ left ++ right, (zsl.insert score member rand).2.item q = zsl.item q := by
    intro q inside
    have ne : q ≠ zsl.fresh := fun same =>
      ordered.layout.fresh_notMem (same ▸ List.mem_cons_of_mem _ inside)
    exact Function.update_of_ne ne ..
  have new : (zsl.insert score member rand).2.item zsl.fresh = ⟨score, member⟩ :=
    Function.update_self ..
  have agree : ∀ q ∈ left ++ right, ZNode.before (zsl.item q) ⟨score, member⟩ =
      zslPasses score member (zsl.item q) := fun q inside => by
    rw [Bool.eq_iff_iff, ZNode.before_iff, zslPasses_iff (ordered.numbers q inside) number]
  have items : (left ++ zsl.fresh :: right).map (zsl.insert score member rand).2.item =
      zslInsert ⟨score, member⟩ ((left ++ right).map zsl.item) := by
    have front : left.map (zsl.insert score member rand).2.item = left.map zsl.item :=
      List.map_congr_left fun q inside => old q (List.mem_append_left _ inside)
    have back : right.map (zsl.insert score member rand).2.item = right.map zsl.item :=
      List.map_congr_left fun q inside => old q (List.mem_append_right _ inside)
    rw [List.map_append, List.map_append, List.map_cons, new, front, back, zslInsert_cut]
    · intro node inside
      obtain ⟨q, here, rfl⟩ := List.mem_map.mp inside
      rw [agree q (List.mem_append_left _ here), before q here]
    · intro node inside
      obtain ⟨q, here, rfl⟩ := List.mem_map.mp inside
      rw [agree q (List.mem_append_right _ here), beyond q here]
  refine ⟨left, right, rfl, address, ⟨layout, ?_, fun q inside => ?_⟩, items⟩
  · rw [items]
    refine zslInsert_sorted _ _ ordered.sorted fun node inside => ?_
    obtain ⟨q, here, rfl⟩ := List.mem_map.mp inside
    exact absent q here
  · have cases : q = zsl.fresh ∨ q ∈ left ++ right := by
      simp only [List.mem_append, List.mem_cons] at inside ⊢
      tauto
    rcases cases with rfl | here
    · rw [new]
      exact number
    · rw [old q here]
      exact ordered.numbers q here

/-- **A deletion takes out the node sought, if there is one.** -/
theorem Zsl.delete_ordered (ordered : Ordered zsl nodes) (score : Double) (member : Bytes) :
    (∃ left q right, nodes = left ++ q :: right ∧ zslFound score member (zsl.item q) = true ∧
      (zsl.delete score member).1 = true ∧ (zsl.delete score member).2.item = zsl.item ∧
      Ordered (zsl.delete score member).2 (left ++ right)) ∨
    (∀ q ∈ nodes, zslFound score member (zsl.item q) = false) ∧
      zsl.delete score member = (false, zsl) := by
  obtain ⟨left, right, rfl, before, beyond⟩ := ordered.cut_passes score member
  have result := Skiplist.delete_spec (zslFound score member) ordered.layout before beyond
  have missed : ∀ q ∈ left, zslFound score member (zsl.item q) = false := fun q inside => by
    by_contra found
    have stops := zslFound_stops (by simpa using found)
    rw [before q inside] at stops
    cases stops
  cases right with
  | nil => exact .inr ⟨fun q inside => missed q (by simpa using inside), result⟩
  | cons x right =>
    simp only [List.head?_cons] at result
    cases here : zslFound score member (zsl.item x) with
    | true =>
      rw [here, if_pos rfl] at result
      refine .inl ⟨left, x, right, rfl, here, congrArg Prod.fst result, ?_, ?_⟩
      · exact congrArg (fun pair : Bool × Zsl => pair.2.item) result
      · have kept : (left ++ right).Sublist (left ++ x :: right) :=
          (List.sublist_cons_self ..).append_left left
        have after : (zsl.delete score member).2 =
            Skiplist.deleteNode zsl x (Skiplist.search zsl (zslPasses score member)) :=
          congrArg Prod.snd result
        rw [after]
        exact ⟨Skiplist.delete_layout ordered.layout before beyond, ordered.sorted.sublist
          (kept.map _), fun q inside => ordered.numbers q (kept.subset inside)⟩
    | false =>
      rw [here, if_neg (by simp)] at result
      refine .inr ⟨fun q inside => ?_, result⟩
      rcases List.mem_append.mp inside with front | back
      · exact missed q front
      rcases List.mem_cons.mp back with rfl | later
      · exact here
      · -- a node found behind would make the search pass this one
        by_contra found
        obtain ⟨_, number, place⟩ := zslFound_place (by simpa using found)
        have sorted := ordered.sorted
        rw [List.map_append, List.map_cons] at sorted
        have less := (List.pairwise_cons.mp (List.pairwise_append.mp sorted).2.1).1 _
          (List.mem_map_of_mem later)
        have passed := (zslPasses_iff (ordered.numbers x (by simp)) number).mpr
          (less.trans_eq place)
        rw [beyond x List.mem_cons_self] at passed
        cases passed

end Updates

/-! ### The invariant -/

/-- What holds of a skiplist with these nodes at its lowest level. -/
structure ZslInvariant (zsl : Zsl) (nodes : List Nat) : Prop where
  bottom : Chain (zsl.lane 0) header nodes
  /-- Ascending by score, then bytewise by member. -/
  ascending : nodes.Pairwise fun a b =>
    zslPasses (zsl.item b).score (zsl.item b).member (zsl.item a) = true
  levels : ∀ i < zskiplistMaxlevel,
    Chain (zsl.lane i) header (nodes.filter fun q => i < zsl.height q)
  /-- A link covers the nodes up to the one it leads to, a `NULL` link all that follow. -/
  spans : ∀ before x after, header :: nodes = before ++ x :: after →
    ∀ i < zsl.level, i < zsl.height x →
      match (zsl.lane i).forward x with
      | some y => ∃ skipped rest, after = skipped ++ y :: rest ∧
          (zsl.lane i).span x = UInt64.ofNat (skipped.length + 1)
      | none => (zsl.lane i).span x = UInt64.ofNat after.length
  backward : ∀ before x after, nodes = before ++ x :: after → zsl.backward x = before.getLast?
  tail : zsl.tail = nodes.getLast?
  length : zsl.length = UInt64.ofNat nodes.length
  heights : ∀ q ∈ nodes, 0 < zsl.height q ∧ zsl.height q ≤ zsl.level
  highest : (nodes = [] → zsl.level = 1) ∧ (nodes ≠ [] → ∃ q ∈ nodes, zsl.height q = zsl.level)
  level : zsl.level ≤ zskiplistMaxlevel

section Invariant

variable {zsl : Zsl} {nodes : List Nat}

theorem Ordered.invariant (ordered : Ordered zsl nodes) : ZslInvariant zsl nodes := by
  have layout := ordered.layout
  have tall : nodes.filter (zsl.tall 0) = nodes := List.filter_eq_self.mpr fun q inside => by
    simpa [Skiplist.tall] using (layout.heights q inside).1
  refine ⟨?_, ?_, fun i top => layout.chain top, fun before x after split i low here => ?_,
    fun before x after split => ?_, layout.tail, layout.length, layout.heights, ⟨?_, ?_⟩,
    layout.level⟩
  · have chain := layout.chain (i := 0) (by decide)
    rwa [tall] at chain
  · have sorted := List.pairwise_map.mp ordered.sorted
    refine sorted.imp_of_mem fun {a b} first second less => ?_
    exact (zslPasses_iff (ordered.numbers a first) (ordered.numbers b second)).mpr less
  · have linked := layout.linked i (low.trans_le layout.level)
    have measured := layout.measured i low
    rw [split] at linked measured
    exact Skiplist.Lane.linked_span linked measured (by simpa [Skiplist.tall] using here)
  · have backed := layout.backed
    rw [split] at backed
    have own := (Skiplist.Backed.append.mp backed).2.1
    rwa [Option.or_none] at own
  · rintro rfl
    rcases layout.highest with one | ⟨q, inside, _⟩
    · exact one
    · cases inside
  · intro some
    rcases layout.highest with one | there
    · obtain ⟨q, inside⟩ := List.exists_mem_of_ne_nil nodes some
      have bounds := layout.heights q inside
      exact ⟨q, inside, by omega⟩
    · exact there

/-- What the calls can make of a new skiplist. The caller of `zsl_insert` sees to it that the member
is not there. -/
inductive Zsl.Reachable : Zsl → Prop
  | create : Reachable .create
  | insert {zsl : Zsl} (before : Reachable zsl) (score : Double) (number : score.isNaN = false)
      (member : Bytes)
      (absent : ∀ nodes, Chain (zsl.lane 0) header nodes →
        ∀ q ∈ nodes, (zsl.item q).member ≠ member)
      (rand : Nat → Nat) : Reachable (zsl.insert score member rand).2
  | delete {zsl : Zsl} (before : Reachable zsl) (score : Double) (member : Bytes) :
      Reachable (zsl.delete score member).2

theorem Zsl.Reachable.ordered (reachable : Zsl.Reachable zsl) : ∃ nodes, Ordered zsl nodes := by
  induction reachable with
  | create => exact ⟨[], .create⟩
  | insert _ score number member absent rand ih =>
    obtain ⟨nodes, ordered⟩ := ih
    obtain ⟨left, right, _, _, after, _⟩ := Zsl.insert_ordered ordered number
      (absent nodes ordered.invariant.bottom) rand
    exact ⟨_, after⟩
  | delete _ score member ih =>
    obtain ⟨nodes, ordered⟩ := ih
    rcases Zsl.delete_ordered ordered score member with
      ⟨left, q, right, _, _, _, _, after⟩ | ⟨_, same⟩
    · exact ⟨_, after⟩
    · exact ⟨nodes, same.symm ▸ ordered⟩

/-- **Whatever is inserted and deleted, the skiplist keeps its invariant.** -/
theorem zsl_invariant (reachable : Zsl.Reachable zsl) : ∃ nodes, ZslInvariant zsl nodes := by
  obtain ⟨nodes, ordered⟩ := reachable.ordered
  exact ⟨nodes, ordered.invariant⟩

/-- Links lead through one list of nodes. -/
theorem chain_unique {lane : Skiplist.Lane} {x : Nat} {nodes nodes' : List Nat}
    (chain : Chain lane x nodes) (chain' : Chain lane x nodes') : nodes = nodes' := by
  induction nodes generalizing x nodes' with
  | nil =>
    cases nodes' with
    | nil => rfl
    | cons y rest => cases chain.symm.trans chain'.1
  | cons y rest ih =>
    cases nodes' with
    | nil => cases chain.1.symm.trans chain'
    | cons z rest' =>
      obtain rfl := Option.some.inj (chain.1.symm.trans chain'.1)
      rw [ih chain.2 chain'.2]

/-- `b` with height `3`, then `a` before it with height `1`. -/
def samplePair : Zsl :=
  ((Zsl.create.insert ⟨0x3ff0000000000000⟩ (text "b") fun n => if n < 2 then 0 else 0xFFFF).2.insert
    .zero (text "a") fun _ => 0xFFFF).2

theorem samplePair_reachable : Zsl.Reachable samplePair := by
  refine .insert (.insert .create _ (by decide) _ (fun nodes chain q inside => ?_) _) _
    (by decide) _ (fun nodes chain q inside => ?_) _
  · obtain rfl : nodes = [] := chain_unique chain rfl
    cases inside
  · obtain rfl : nodes = [1] := chain_unique chain ⟨rfl, rfl⟩
    obtain rfl := List.mem_singleton.mp inside
    decide

theorem zsl_invariant_sample :
    (∃ nodes, ZslInvariant (samplePair.delete .zero (text "a")).2 nodes) ∧
      Chain ((samplePair.delete .zero (text "a")).2.lane 0) header [1] :=
  ⟨zsl_invariant (.delete samplePair_reachable .zero (text "a")), rfl, rfl⟩

end Invariant

end Miniredis
