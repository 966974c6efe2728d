/-
**Queries on a sorted set in memory find what the ordered chain says.**

The queries add up spans and follow links. On a skiplist that inserts and deletes have built, spans
are distances and links lead to neighbours, so a rank is a position and a walk is a stretch of the
chain.

* `zsl_ranks` — `zsl_get_rank` and `zsl_get_element_by_rank` are exact and undo each other.
* `Backs.first`, `Backs.last` — the ends of a score range.
* `Backs.zrange`, `Backs.zrank`, `Backs.zcount`, `Backs.zrangebyscore` — the reading commands on the
  object give the replies that the command models give on the chain, without undefined behaviour.
-/

import Miniredis.Model.SortedSetWalks
import Miniredis.Structures.Ranges
import Miniredis.Structures.ZsetMap

namespace Miniredis

open Skiplist (Layout Chain header)

/-! ### Ranks -/

section Ranks

variable {zsl : Zsl} {nodes left right : List Nat} {q : Nat} {score : Double} {member : Bytes}

/-- The rank of a node is its position. -/
theorem Ordered.getRank (ordered : Ordered zsl (left ++ q :: right)) :
    zsl.getRank (zsl.item q).score (zsl.item q).member = UInt64.ofNat (left.length + 1) := by
  have number : ∀ p ∈ left ++ q :: right, (zsl.item p).score.isNaN = false := ordered.numbers
  have sorted := ordered.sorted
  rw [List.map_append, List.map_cons] at sorted
  obtain ⟨_, later, cross⟩ := List.pairwise_append.mp sorted
  have own : (zsl.item q).score.isNaN = false := number q (by simp)
  have before : ∀ p ∈ left,
      zslPasses (zsl.item q).score (zsl.item q).member (zsl.item p) = true := fun p inside =>
    (zslPasses_iff (number p (by simp [inside])) own).mpr
      (cross _ (List.mem_map_of_mem inside) _ List.mem_cons_self)
  have found : zslFound (zsl.item q).score (zsl.item q).member (zsl.item q) = true :=
    zslFound_iff.mpr ⟨by simp [Double.eq, own], rfl⟩
  have beyond : ∀ p ∈ q :: right,
      zslPasses (zsl.item q).score (zsl.item q).member (zsl.item p) = false := by
    intro p inside
    rcases List.mem_cons.mp inside with rfl | inside
    · exact zslFound_stops found
    · have less := (List.pairwise_cons.mp later).1 _ (List.mem_map_of_mem inside)
      by_contra passed
      have more := (zslPasses_iff (number p (by simp [inside])) own).mp (by simpa using passed)
      exact absurd more less.asymm
  refine (Skiplist.rank_spec ordered.layout before beyond _).trans ?_
  simp only [List.head?_cons, found, if_true]

/-- A pair that is not there has no rank. -/
theorem Ordered.getRank_absent (ordered : Ordered zsl nodes)
    (absent : ∀ q ∈ nodes, ¬((zsl.item q).score.eq score = true ∧ (zsl.item q).member = member)) :
    zsl.getRank score member = 0 := by
  obtain ⟨left, right, rfl, before, beyond⟩ := ordered.cut_passes score member
  refine (Skiplist.rank_spec ordered.layout before beyond _).trans ?_
  cases right with
  | nil => rfl
  | cons x rest =>
    have missed : ¬ zslFound score member (zsl.item x) = true := fun found =>
      absent x (by simp) (zslFound_iff.mp found)
    simp only [List.head?_cons, missed, Bool.false_eq_true, if_false]

/-- The node at a rank. -/
theorem Ordered.getElementByRank (ordered : Ordered zsl nodes) (few : nodes.length < 2 ^ 64)
    (rank : UInt64) :
    zsl.getElementByRank rank = if rank = 0 then none else nodes[rank.toNat - 1]? :=
  Skiplist.element_spec ordered.layout few rank

/-- **Ranks are positions and positions are ranks.** The content of the skiplist is `nodes`, in
order; ranks count from one, in an `unsigned long`. -/
theorem zsl_ranks (reachable : Zsl.Reachable zsl) :
    ∃ nodes, ZslInvariant zsl nodes ∧
      (∀ before q after, nodes = before ++ q :: after →
        zsl.getRank (zsl.item q).score (zsl.item q).member = UInt64.ofNat (before.length + 1)) ∧
      (∀ score member,
        (∀ q ∈ nodes, ¬((zsl.item q).score.eq score = true ∧ (zsl.item q).member = member)) →
        zsl.getRank score member = 0) ∧
      (nodes.length < 2 ^ 64 →
        (∀ rank : UInt64, rank = 0 ∨ nodes.length < rank.toNat →
          zsl.getElementByRank rank = none) ∧
        ∀ before q after, nodes = before ++ q :: after →
          (zsl.getRank (zsl.item q).score (zsl.item q).member).toNat = before.length + 1 ∧
          zsl.getElementByRank (UInt64.ofNat (before.length + 1)) = some q) := by
  obtain ⟨nodes, ordered⟩ := reachable.ordered
  refine ⟨nodes, ordered.invariant, ?_, fun score member => ordered.getRank_absent,
    fun few => ⟨fun rank other => ?_, ?_⟩⟩
  · rintro before q after rfl
    exact ordered.getRank
  · rw [ordered.getElementByRank few]
    rcases other with rfl | beyond
    · rfl
    · rw [List.getElem?_eq_none (by omega), ite_self]
  · rintro before q after rfl
    have inside : before.length + 1 < UInt64.size := by
      rw [List.length_append, List.length_cons] at few
      exact lt_of_le_of_lt (by omega) few
    have read : (UInt64.ofNat (before.length + 1)).toNat = before.length + 1 :=
      UInt64.toNat_ofNat_of_lt' inside
    have positive : UInt64.ofNat (before.length + 1) ≠ 0 := fun zero => by
      rw [zero] at read
      cases read
    refine ⟨by rw [ordered.getRank, read], ?_⟩
    rw [ordered.getElementByRank few, if_neg positive, read]
    simp

theorem zsl_ranks_sample :
    (∃ nodes, ZslInvariant samplePair nodes) ∧ samplePair.getRank .zero (text "a") = 1 ∧
      samplePair.getElementByRank 2 = some 1 ∧ samplePair.getElementByRank 3 = none := by
  obtain ⟨nodes, invariant, _⟩ := zsl_ranks samplePair_reachable
  exact ⟨⟨nodes, invariant⟩, by decide, by decide, by decide⟩

end Ranks

/-! ### Score ranges -/

section ScoreRanges

variable {node other : ZNode} {min max : Double} {exclusive : Bool}

/-- A node at or before another one in the order has at most its score. -/
theorem ZNode.rank_le (less : node.place < other.place) : node.score.rank ≤ other.score.rank := by
  rcases Prod.Lex.toLex_lt_toLex.mp less with less | same
  · exact less.le
  · exact same.1.le

/-- What lies before a node below the lower bound is below it too. -/
theorem zslBelow_down (less : node.place < other.place) (number : node.score.isNaN = false)
    (below : zslBelow min exclusive other = true) : zslBelow min exclusive node = true := by
  have order := ZNode.rank_le less
  simp only [zslBelow, Double.lt, Double.eq, number, Bool.not_false, Bool.true_and,
    Bool.or_eq_true, Bool.and_eq_true, decide_eq_true_eq] at below ⊢
  rcases below with ⟨⟨_, real⟩, strict⟩ | ⟨ex, ⟨_, real⟩, equal⟩
  · exact .inl ⟨real, by omega⟩
  · rcases lt_or_eq_of_le (order.trans_eq equal) with strict | equal
    · exact .inl ⟨real, strict⟩
    · exact .inr ⟨ex, real, equal⟩

/-- What lies before a node within the upper bound is within it too. -/
theorem zslWithin_down (less : node.place < other.place) (number : node.score.isNaN = false)
    (within : zslWithin max exclusive other = true) : zslWithin max exclusive node = true :=
  zslBelow_down less number within

variable {zs : LinkedZset} {z : Zset} {nodes : List Nat}

/-- The chain is cut where a search by score stops. -/
theorem Backs.cut (backs : Backs zs z nodes) (passes : ZNode → Bool)
    (down : ∀ node ∈ z.nodes, ∀ other ∈ z.nodes, node.place < other.place →
      node.score.isNaN = false → passes other = true → passes node = true) :
    ∃ left right, nodes = left ++ right ∧
      (∀ q ∈ left, passes (zs.zsl.item q) = true) ∧
      (∀ q ∈ right, passes (zs.zsl.item q) = false) ∧
      z.nodes.takeWhile passes = left.map zs.zsl.item ∧
      z.nodes.dropWhile passes = right.map zs.zsl.item := by
  have member : ∀ q ∈ nodes, zs.zsl.item q ∈ z.nodes := fun q inside =>
    backs.items ▸ List.mem_map_of_mem inside
  obtain ⟨left, right, rfl, before, beyond⟩ := Miniredis.cut backs.ordered.sorted
    fun p first q second less passed => down _ (member p first) _ (member q second) less
      (backs.ordered.numbers p first) passed
  have front : ∀ node ∈ left.map zs.zsl.item, passes node = true := fun node inside => by
    obtain ⟨q, here, rfl⟩ := List.mem_map.mp inside
    exact before q here
  refine ⟨left, right, rfl, before, beyond, ?_, ?_⟩
  · rw [← backs.items, List.map_append, List.takeWhile_append_of_pos front]
    cases right with
    | nil => simp
    | cons q rest => simp [beyond q List.mem_cons_self]
  · rw [← backs.items, List.map_append, List.dropWhile_append_of_pos front]
    cases right with
    | nil => simp
    | cons q rest => simp [beyond q List.mem_cons_self]

/-- The members below the lower bound, and those within the upper one. -/
def lowCount (z : Zset) (min : Double × Bool) : Nat :=
  (z.nodes.takeWhile (zslBelow min.1 min.2)).length

def highCount (z : Zset) (max : Double × Bool) : Nat :=
  (z.nodes.takeWhile (zslWithin max.1 max.2)).length

theorem highCount_le (z : Zset) (max : Double × Bool) : highCount z max ≤ z.nodes.length :=
  (List.takeWhile_prefix _).length_le

theorem Backs.length (backs : Backs zs z nodes) : nodes.length = z.nodes.length := by
  rw [← backs.items, List.length_map]

theorem Backs.len (backs : Backs zs z nodes) : zs.len = UInt64.ofNat z.nodes.length :=
  backs.ordered.layout.length.trans (congrArg UInt64.ofNat backs.length)

theorem Backs.getRank (backs : Backs zs z nodes) {i q : Nat} (here : nodes[i]? = some q) :
    zs.zsl.getRank (zs.zsl.item q).score (zs.zsl.item q).member = UInt64.ofNat (i + 1) := by
  obtain ⟨inside, rfl⟩ := List.getElem?_eq_some_iff.mp here
  have ordered := backs.ordered
  rw [← List.take_append_drop i nodes, List.drop_eq_getElem_cons inside] at ordered
  rw [ordered.getRank, List.length_take_of_le inside.le]

/-- The first node of a score range. -/
theorem Backs.first (backs : Backs zs z nodes) (min : Double × Bool) :
    zs.zsl.firstInScoreRange min.1 min.2 = nodes[lowCount z min]? := by
  obtain ⟨left, right, rfl, before, beyond, taken, _⟩ := backs.cut
    (zslBelow min.1 min.2) fun _ _ _ _ => zslBelow_down
  refine (Skiplist.first_spec backs.ordered.layout before beyond).trans ?_
  rw [lowCount, taken, List.length_map, List.getElem?_append_right le_rfl, Nat.sub_self,
    List.head?_eq_getElem?]

/-- The last node of a score range. -/
theorem Backs.last (backs : Backs zs z nodes) (max : Double × Bool) :
    zs.zsl.lastInScoreRange max.1 max.2 =
      if highCount z max = 0 then none else nodes[highCount z max - 1]? := by
  obtain ⟨left, right, rfl, before, beyond, taken, _⟩ := backs.cut
    (zslWithin max.1 max.2) fun _ _ _ _ => zslWithin_down
  refine (Skiplist.last_spec backs.ordered.layout before beyond).trans ?_
  rw [highCount, taken, List.length_map, List.getLast?_eq_getElem?]
  split
  · rename_i empty
    rw [List.length_eq_zero_iff.mp empty]
    rfl
  · rw [List.getElem?_append_left (by omega)]

/-- **A score range runs from the first member not below to the last one within.** -/
theorem Backs.scoreRange (backs : Backs zs z nodes) (few : z.nodes.length < 2 ^ 63)
    (min max : Double × Bool) :
    if lowCount z min < highCount z max then
      ∃ first last, nodes[lowCount z min]? = some first ∧
        nodes[highCount z max - 1]? = some last ∧
        zs.scoreRange min max = some ((first, last), UInt64.ofNat (lowCount z min + 1),
          UInt64.ofNat (highCount z max))
    else zs.scoreRange min max = none := by
  have bound := highCount_le z max
  have length := backs.length
  have small : ∀ {n : Nat}, n ≤ 2 ^ 63 → (UInt64.ofNat n).toNat = n := fun le =>
    UInt64.toNat_ofNat_of_lt' (lt_of_le_of_lt le (by decide))
  unfold LinkedZset.scoreRange
  rw [backs.first, backs.last]
  split
  · rename_i filled
    have inside : lowCount z min < nodes.length := by omega
    have inside' : highCount z max - 1 < nodes.length := by omega
    have first : nodes[lowCount z min]? = some nodes[lowCount z min] :=
      List.getElem?_eq_getElem inside
    have last : nodes[highCount z max - 1]? = some nodes[highCount z max - 1] :=
      List.getElem?_eq_getElem inside'
    refine ⟨_, _, first, last, ?_⟩
    rw [if_neg (by omega), first, last]
    dsimp only
    rw [backs.getRank first, backs.getRank last, Nat.sub_add_cancel (by omega), if_neg]
    simp only [← UInt64.toNat_inj, gt_iff_lt, UInt64.lt_iff_toNat_lt,
      small (show lowCount z min + 1 ≤ 2 ^ 63 by omega),
      small (show highCount z max ≤ 2 ^ 63 by omega)]
    simp
    omega
  · rename_i void
    split
    · rename_i first last found found'
      split at found'
      · cases found'
      · have rank := backs.getRank found
        have rank' := backs.getRank found'
        obtain ⟨inside, _⟩ := List.getElem?_eq_some_iff.mp found
        dsimp only
        rw [rank, rank', if_pos]
        refine .inr (.inr ?_)
        rw [gt_iff_lt, UInt64.lt_iff_toNat_lt, small (by omega), small (by omega)]
        omega
    · rfl

end ScoreRanges

/-! ### The same on the chain -/

section Chain

variable {z : Zset} {min max : Double × Bool}

/-- Scores are numbers. -/
def Zset.Numeric (z : Zset) : Prop := ∀ node ∈ z.nodes, node.score.isNaN = false

theorem Backs.numeric {zs : LinkedZset} {nodes : List Nat} (backs : Backs zs z nodes) :
    z.Numeric := by
  intro node inside
  rw [← backs.items] at inside
  obtain ⟨q, here, rfl⟩ := List.mem_map.mp inside
  exact backs.ordered.numbers q here

theorem zslGetRank_split {left right : List ZNode} {node : ZNode} (numeric : z.Numeric)
    (split : z.nodes = left ++ node :: right) :
    zslGetRank z node.score node.member = left.length + 1 := by
  have sorted := z.sorted
  rw [split] at sorted
  obtain ⟨_, _, cross⟩ := List.pairwise_append.mp sorted
  have passed : ∀ other ∈ left, other.before node = true := fun other inside =>
    (ZNode.before_iff _ _).mpr (cross other inside node List.mem_cons_self)
  have stops : node.before node = false := by
    by_contra before
    exact absurd ((ZNode.before_iff _ _).mp (by simpa using before)) (lt_irrefl _)
  have taken : (z.nodes.takeWhile fun other => other.before ⟨node.score, node.member⟩) = left := by
    rw [split, List.takeWhile_append_of_pos passed, List.takeWhile_cons_of_neg (by simp [stops]),
      List.append_nil]
  have number : node.score.isNaN = false := numeric node (by simp [split])
  have found : z.nodes[left.length]? = some node := by simp [split]
  simp only [zslGetRank, taken, found]
  simp [Double.eq, number]

/-- The ranks of a score range. -/
theorem scoreRange_eq (numeric : z.Numeric) (min max : Double × Bool) :
    scoreRange z min max =
      if lowCount z min < highCount z max then some (lowCount z min + 1, highCount z max)
      else none := by
  have whole := List.takeWhile_append_dropWhile (p := zslBelow min.1 min.2) (l := z.nodes)
  have whole' := List.takeWhile_append_dropWhile (p := zslWithin max.1 max.2) (l := z.nodes)
  have bound := highCount_le z max
  have first : zslFirstInScoreRange z min.1 min.2 =
      (z.nodes.dropWhile (zslBelow min.1 min.2)).head? := rfl
  have last : zslLastInScoreRange z max.1 max.2 =
      (z.nodes.takeWhile (zslWithin max.1 max.2)).getLast? := rfl
  unfold scoreRange
  rw [first, last]
  cases rest : z.nodes.dropWhile (zslBelow min.1 min.2) with
  | nil =>
    have all : lowCount z min = z.nodes.length := by
      rw [rest, List.append_nil] at whole
      rw [lowCount, whole]
    rw [if_neg (by omega)]
    rfl
  | cons node tail =>
    rw [rest] at whole
    have rank : zslGetRank z node.score node.member = lowCount z min + 1 :=
      zslGetRank_split numeric whole.symm
    rcases List.eq_nil_or_concat (z.nodes.takeWhile (zslWithin max.1 max.2)) with
      empty | ⟨init, final, ends⟩
    · have none : highCount z max = 0 := by rw [highCount, empty, List.length_nil]
      rw [empty, if_neg (by omega)]
      rfl
    · rw [List.concat_eq_append] at ends
      have length : highCount z max = init.length + 1 := by
        rw [highCount, ends, List.length_append, List.length_singleton]
      rw [ends, List.append_assoc, List.singleton_append] at whole'
      have rank' : zslGetRank z final.score final.member = highCount z max :=
        (zslGetRank_split numeric whole'.symm).trans length.symm
      rw [ends, List.getLast?_concat, List.head?_cons]
      dsimp only
      rw [rank, rank']
      by_cases filled : lowCount z min < highCount z max
      · rw [if_neg (by omega), if_pos filled]
      · rw [if_pos (by omega), if_neg filled]

end Chain

/-! ### Walks -/

section Walks

variable {zs : LinkedZset} {zsl : Zsl} {z : Zset} {nodes : List Nat}

theorem chain_next {lane : Skiplist.Lane} {x y : Nat} (before : List Nat) {after : List Nat}
    (chain : Chain lane x (before ++ y :: after)) : lane.forward y = after.head? := by
  induction before generalizing x with
  | nil =>
    cases after with
    | nil => exact chain.2
    | cons next rest => exact chain.2.1
  | cons first rest ih => exact ih chain.2

/-- The nodes in the direction of a walk. -/
def walkOrder (reverse : Bool) (nodes : List Nat) : List Nat :=
  if reverse then nodes.reverse else nodes

theorem Ordered.leads (ordered : Ordered zsl nodes) (reverse : Bool) :
    Links.Leads (zsl.readNode reverse)
      ((walkOrder reverse nodes).map fun x => (x, zsl.item x)) := by
  refine Links.Leads.of_next fun before x after split => ?_
  cases reverse with
  | false =>
    have forwards : nodes = before ++ x :: after := split
    exact chain_next _ (forwards ▸ ordered.invariant.bottom)
  | true =>
    have forwards : nodes = after.reverse ++ x :: before.reverse := by
      rw [← List.reverse_reverse nodes, show nodes.reverse = _ from split]
      simp
    have back := ordered.invariant.backward _ _ _ forwards
    rwa [List.getLast?_reverse] at back

/-- The stretch that `ZRANGEBYSCORE` walks: it ends at `last` and nowhere before. -/
def Stretch (zsl : Zsl) (last : Nat) : List Nat → Prop
  | [] => True
  | [x] => x = last
  | x :: y :: rest => x ≠ last ∧ (zsl.lane 0).forward x = some y ∧ Stretch zsl last (y :: rest)

theorem Stretch.tail {last x : Nat} {rest : List Nat} (stretch : Stretch zsl last (x :: rest)) :
    Stretch zsl last rest := by
  cases rest with
  | nil => trivial
  | cons y rest => exact stretch.2.2

theorem skipNodes_spec {last : Nat} {stretch : List Nat} (inside : Stretch zsl last stretch)
    (some : stretch ≠ []) (n : Nat) :
    zsl.skipNodes last n stretch.head? = Option.some (stretch.drop n).head? := by
  induction n generalizing stretch with
  | zero => rfl
  | succ n ih =>
    obtain ⟨x, rest, rfl⟩ := List.exists_cons_of_ne_nil some
    cases rest with
    | nil => simp [Zsl.skipNodes, show x = last from inside]
    | cons y rest =>
      obtain ⟨other, next, tail⟩ := inside
      have later := ih tail (by simp)
      simp only [List.head?_cons, Zsl.skipNodes, if_neg other, next, List.drop_succ_cons]
      exact later

theorem emitNodes_spec {last : Nat} {stretch : List Nat} (inside : Stretch zsl last stretch)
    (n : Nat) : zsl.emitNodes last n stretch.head? = (stretch.take n).map zsl.item := by
  induction n generalizing stretch with
  | zero => rfl
  | succ n ih =>
    cases stretch with
    | nil => rfl
    | cons x rest =>
      cases rest with
      | nil => simp [Zsl.emitNodes, show x = last from inside]
      | cons y rest =>
        obtain ⟨other, next, tail⟩ := inside
        have later := ih tail
        simp only [List.head?_cons, Zsl.emitNodes, if_neg other, next, List.take_succ_cons,
          List.map_cons]
        exact congrArg _ later

theorem Stretch.drop {last : Nat} {stretch : List Nat} (inside : Stretch zsl last stretch)
    (n : Nat) : Stretch zsl last (stretch.drop n) := by
  induction n generalizing stretch with
  | zero => exact inside
  | succ n ih =>
    cases stretch with
    | nil => exact inside
    | cons x rest => exact ih inside.tail

/-- The nodes up to one of them are a stretch. -/
theorem Ordered.stretch {before front after : List Nat} {last : Nat}
    (ordered : Ordered zsl (before ++ (front ++ last :: after))) :
    Stretch zsl last (front ++ [last]) := by
  induction front generalizing before with
  | nil => rfl
  | cons x front ih =>
    have shifted : before ++ (x :: front ++ last :: after) =
        (before ++ [x]) ++ (front ++ last :: after) := by simp
    have rest := ih (shifted ▸ ordered)
    have distinct := (List.nodup_cons.mp ordered.layout.distinct).2
    have other : x ≠ last := by
      have later := (List.nodup_append.mp distinct).2.1
      rw [List.cons_append, List.nodup_cons] at later
      exact fun same => later.1 (by simp [same])
    have next : (zsl.lane 0).forward x = (front ++ last :: after).head? :=
      chain_next before ordered.invariant.bottom
    cases front with
    | nil => exact ⟨other, next, rest⟩
    | cons y front => exact ⟨other, next, rest⟩

/-- The nodes from one position up to another one are a stretch. -/
theorem Ordered.stretch_between (ordered : Ordered zsl nodes) {low high last : Nat}
    (less : low < high) (there : nodes[high - 1]? = some last) :
    Stretch zsl last ((nodes.drop low).take (high - low)) := by
  obtain ⟨inside, rfl⟩ := List.getElem?_eq_some_iff.mp there
  have place : (nodes.drop low)[high - 1 - low]? = some nodes[high - 1] := by
    rw [List.getElem?_drop, show low + (high - 1 - low) = high - 1 by omega, there]
  obtain ⟨bound, value⟩ := List.getElem?_eq_some_iff.mp place
  have ends : (nodes.drop low).take (high - low) =
      (nodes.drop low).take (high - 1 - low) ++ [nodes[high - 1]] := by
    rw [show high - low = high - 1 - low + 1 by omega, List.take_succ_eq_append_getElem bound,
      value]
  have cut : nodes = nodes.take low ++ ((nodes.drop low).take (high - 1 - low) ++
      nodes[high - 1] :: (nodes.drop low).drop (high - 1 - low + 1)) := by
    rw [← value, ← List.drop_eq_getElem_cons bound, List.take_append_drop, List.take_append_drop]
  rw [ends]
  exact (cut ▸ ordered).stretch

end Walks

/-! ### The commands -/

section Commands

variable {zs : LinkedZset} {z : Zset} {nodes : List Nat} {start stop : Int}

theorem Backs.chain (backs : Backs zs z nodes) (reverse : Bool) :
    (walkOrder reverse nodes).map zs.zsl.item = if reverse then z.nodes.reverse else z.nodes := by
  rw [← backs.items]
  cases reverse
  · rfl
  · exact List.map_reverse

/-- The node that a walk starts at. -/
theorem Backs.getElementByRank (backs : Backs zs z nodes) (few : z.nodes.length < 2 ^ 63)
    (reverse : Bool) {i : Nat} (inside : i < z.nodes.length) :
    zs.zsl.getElementByRank (UInt64.ofInt (if reverse then z.nodes.length - i else i + 1)) =
      (walkOrder reverse nodes)[i]? := by
  have length := backs.length
  have rank : ∀ {r : Nat}, r ≤ z.nodes.length → 0 < r →
      zs.zsl.getElementByRank (UInt64.ofInt r) = nodes[r - 1]? := by
    intro r le positive
    have small : r < UInt64.size := (le.trans_lt few).trans (by decide)
    have read : (UInt64.ofNat r).toNat = r := UInt64.toNat_ofNat_of_lt' small
    have nonzero : UInt64.ofNat r ≠ 0 := fun zero => by
      rw [zero] at read
      exact positive.ne read
    have cast : UInt64.ofInt r = UInt64.ofNat r := by
      rw [UInt64.ofInt, Int.emod_eq_of_lt (by omega) (by omega), Int.toNat_natCast]
    rw [cast, backs.ordered.getElementByRank (by omega), if_neg nonzero, read]
  cases reverse with
  | false => simpa [walkOrder] using rank (r := i + 1) (by omega) (by omega)
  | true =>
    have cast : (z.nodes.length : Int) - i = (z.nodes.length - i : Nat) := by omega
    simp only [if_true, cast, walkOrder]
    rw [rank (by omega) (by omega), List.getElem?_reverse (by omega)]
    congr 1
    omega

/-- **`ZRANGE` and `ZREVRANGE` in memory**: no index overflows, the walk stays inside. -/
theorem Backs.zrange (backs : Backs zs z nodes) (few : z.nodes.length < 2 ^ 63)
    (start_fits : -(llongMax : Int) ≤ start ∧ start ≤ llongMax)
    (stop_fits : -(llongMax : Int) ≤ stop ∧ stop ≤ llongMax) (reverse withscores : Bool) :
    zs.zrange reverse withscores start stop =
      some (zrangeReply reverse withscores start stop z) := by
  have few' : (z.nodes.length : Int) < 2 ^ 63 := by exact_mod_cast few
  unfold LinkedZset.zrange zrangeReply
  dsimp only
  rw [backs.len, toLongLong_ofNat few,
    rangeNormalizeChecked_eq (by omega) few' start_fits stop_fits]
  simp only [Option.bind_eq_bind, Option.bind_some]
  rw [show ((zsetLen z : Nat) : Int) = z.nodes.length from rfl]
  cases range : rangeNormalize z.nodes.length start stop with
  | none => rfl
  | some bounds =>
    obtain ⟨first, last⟩ := bounds
    obtain ⟨low, ordered, high⟩ := rangeNormalize_some range
    obtain ⟨i, rfl⟩ := Int.eq_ofNat_of_zero_le low
    have inside : i < z.nodes.length := by omega
    dsimp only
    rw [rangeCount_eq low ordered (by omega), checked_of_range (by split <;> omega)
      (by split <;> omega)]
    simp only [Option.bind_some]
    have leads := (backs.ordered.leads reverse).drop i
    have begins : Links.start (((walkOrder reverse nodes).map fun x =>
        (x, zs.zsl.item x)).drop i) = (walkOrder reverse nodes)[i]? := by
      rw [Links.start, List.head?_drop, List.getElem?_map, Option.map_map]
      exact Option.map_id'
    have size : (walkOrder reverse nodes).length = z.nodes.length := by
      rw [← backs.length]
      cases reverse <;> simp [walkOrder]
    have walked := leads.collect (n := (last - i + 1).toNat)
      (by rw [List.length_drop, List.length_map, size]; omega)
    rw [begins] at walked
    rw [backs.getElementByRank few reverse inside, walked]
    have items : ((((walkOrder reverse nodes).map fun x => (x, zs.zsl.item x)).drop i).take
        (last - i + 1).toNat).map Prod.snd =
          slice (if reverse then z.nodes.reverse else z.nodes) i last := by
      rw [← backs.chain, slice, ← List.map_drop, ← List.map_take, ← List.map_drop,
        ← List.map_take, List.map_map]
      rfl
    rw [items]
    rfl

/-- A member's rank on the chain. -/
theorem Backs.zslGetRank (backs : Backs zs z nodes) {i q : Nat} (here : nodes[i]? = some q) :
    zslGetRank z (zs.zsl.item q).score (zs.zsl.item q).member = i + 1 := by
  obtain ⟨inside, rfl⟩ := List.getElem?_eq_some_iff.mp here
  have split : z.nodes = (nodes.take i).map zs.zsl.item ++
      zs.zsl.item nodes[i] :: (nodes.drop (i + 1)).map zs.zsl.item := by
    rw [← backs.items, ← List.map_cons, ← List.drop_eq_getElem_cons inside, ← List.map_append,
      List.take_append_drop]
  rw [zslGetRank_split backs.numeric split, List.length_map, List.length_take_of_le inside.le]

/-- **`ZRANK` and `ZREVRANK` in memory.** -/
theorem Backs.zrank (backs : Backs zs z nodes) (few : z.nodes.length < 2 ^ 63) (fromEnd : Bool)
    (member : Bytes) : zs.zrank fromEnd member = some (zrankReply fromEnd member z) := by
  have found := backs.score_eq member
  unfold LinkedZset.zrank zrankReply
  rw [← found, LinkedZset.score]
  cases entry : zs.dict.get member with
  | none => rfl
  | some q =>
    obtain ⟨inside, rfl⟩ := (backs.dict member q).mp entry
    obtain ⟨i, bound, here⟩ := List.getElem_of_mem inside
    have place : nodes[i]? = some q := List.getElem?_eq_some_iff.mpr ⟨bound, here⟩
    have length := backs.length
    have long : toLongLong (UInt64.ofNat (i + 1)) = (i + 1 : Nat) := toLongLong_ofNat (by omega)
    simp only [Option.map_some]
    rw [backs.getRank place, backs.zslGetRank place, backs.len, toLongLong_ofNat few, long,
      checked_of_range (by split <;> omega) (by split <;> omega)]
    rfl

theorem ofNat_count {low high : Nat} (less : low < high) :
    UInt64.ofNat high - UInt64.ofNat (low + 1) + 1 = UInt64.ofNat (high - low) := by
  obtain ⟨more, rfl⟩ := Nat.exists_eq_add_of_lt less
  rw [show low + more + 1 - low = more + 1 by omega]
  simp only [UInt64.ofNat_add]
  grind

/-- **`ZCOUNT` in memory.** -/
theorem Backs.zcount (backs : Backs zs z nodes) (few : z.nodes.length < 2 ^ 63)
    (min max : Double × Bool) :
    zs.zcount min max =
      match Miniredis.scoreRange z min max with
      | none => replyInteger 0
      | some (rfirst, rlast) => replyInteger (rlast - rfirst + 1 : Nat) := by
  have range := backs.scoreRange few min max
  have bound := highCount_le z max
  unfold LinkedZset.zcount
  rw [scoreRange_eq backs.numeric]
  split at range
  · rename_i filled
    obtain ⟨first, last, _, _, found⟩ := range
    rw [found, if_pos filled]
    dsimp only
    rw [ofNat_count filled, toLongLong_ofNat (by omega)]
    congr 2
    omega
  · rename_i void
    rw [range, if_neg void]

/-- **`ZRANGEBYSCORE` in memory.** -/
theorem Backs.zrangebyscore (backs : Backs zs z nodes) (few : z.nodes.length < 2 ^ 63)
    (min max : Double × Bool) (withscores : Bool) {offset limit : Int}
    (offset_fits : 0 ≤ offset ∧ offset ≤ llongMax) :
    zs.zrangebyscore min max withscores offset limit =
      some (zrangebyscoreReply min max withscores offset limit z) := by
  have range := backs.scoreRange few min max
  have bound := highCount_le z max
  have length := backs.length
  have limit' : (llongMax : Int) = 2 ^ 63 - 1 := by decide
  unfold LinkedZset.zrangebyscore zrangebyscoreReply
  rw [scoreRange_eq backs.numeric]
  split at range
  · rename_i filled
    obtain ⟨first, last, here, there, found⟩ := range
    have stretch := backs.ordered.stretch_between filled there
    have begins : ((nodes.drop (lowCount z min)).take (highCount z max - lowCount z min)).head? =
        some first := by
      rw [List.head?_take, if_neg (by omega), List.head?_drop, here]
    have skipped := skipNodes_spec stretch (fun empty => by simp [empty] at begins) offset.toNat
    rw [begins] at skipped
    rw [found, if_pos filled]
    dsimp only
    rw [ofNat_count filled, toLongLong_ofNat (by omega), skipped,
      checked_of_range (by omega) (by omega)]
    simp only [Option.bind_eq_bind, Option.bind_some, Option.some.injEq]
    rw [emitNodes_spec (stretch.drop _), List.map_take, List.map_drop, List.map_take, List.map_drop,
      backs.items]
    have total : (highCount z max : Int) - (lowCount z min + 1 : Nat) + 1 =
        (highCount z max - lowCount z min : Nat) := by omega
    rw [total, Int.toNat_natCast, Nat.add_sub_cancel]
  · rename_i void
    rw [range, if_neg void]

end Commands

end Miniredis
