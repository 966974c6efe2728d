/-
**Queries on skiplists with spans.**

A query descends through the levels as a search for an update does, without remembering where it
left them. Searches by item stop before the first node that may not be passed; the search by rank
has only the spans to go by.

* `first_spec`, `last_spec` — the nodes on both sides of the place where a search stops.
* `rank_spec` — the position of a node, added up from spans.
* `element_spec` — the node at a position: exact as long as positions fit the spans' type.
-/

import Miniredis.Lib.Skiplist

namespace Skiplist

variable {α : Type}

/-! ### Operations -/

/-- Follow links while they do not lead beyond `rank`. -/
def Lane.advance (lane : Lane) (rank : UInt64) : Nat → Nat × UInt64 → Nat × UInt64
  | 0, place => place
  | fuel + 1, (x, traversed) =>
    match lane.forward x with
    | some y =>
      if traversed + lane.span x ≤ rank then lane.advance rank fuel (y, traversed + lane.span x)
      else (x, traversed)
    | none => (x, traversed)

/-- From level `i - 1` down, until the rank is reached. -/
def elementLoop (s : Skiplist α) (rank : UInt64) : Nat → Nat × UInt64 → Option Nat
  | 0, _ => none
  | i + 1, place =>
    let place := (s.lane i).advance rank s.fresh place
    if place.2 = rank then some place.1 else s.elementLoop rank i place

/-- The node with this 1-based rank. -/
def element (s : Skiplist α) (rank : UInt64) : Option Nat :=
  if rank = 0 then none else s.elementLoop rank s.level (header, 0)

/-- The first node that may not be passed. -/
def first (s : Skiplist α) (passes : α → Bool) : Option Nat :=
  (s.lane 0).forward (s.search passes 0).1

/-- The last node that is passed. -/
def last (s : Skiplist α) (passes : α → Bool) : Option Nat :=
  if (s.search passes 0).1 = header then none else some (s.search passes 0).1

/-- The 1-based rank of the first node that may not be passed, if it is the one sought, else `0`. -/
def rank (s : Skiplist α) (passes found : α → Bool) : UInt64 :=
  match s.first passes with
  | some x => if found (s.item x) then (s.search passes 0).2 + 1 else 0
  | none => 0

/-! ### Searches by item -/

section Item

variable {maxLevel : Nat} {s : Skiplist α} {left right : List Nat} {passes : α → Bool}

/-- A search ends at the last node passed, with the number of nodes passed as its rank. -/
theorem search_zero (layout : Layout maxLevel s (left ++ right))
    (before : ∀ q ∈ left, passes (s.item q) = true)
    (beyond : ∀ q ∈ right, passes (s.item q) = false) :
    (s.search passes 0).2 = UInt64.ofNat left.length ∧
      ∃ a, header :: left = a ++ [(s.search passes 0).1] :=
  (search_spec layout before beyond layout.positive).zero fun q member =>
    (layout.heights q (List.mem_append_left _ member)).1

theorem first_spec (layout : Layout maxLevel s (left ++ right))
    (before : ∀ q ∈ left, passes (s.item q) = true)
    (beyond : ∀ q ∈ right, passes (s.item q) = false) : s.first passes = right.head? := by
  obtain ⟨_, a, ends⟩ := search_zero layout before beyond
  have top : 0 < maxLevel := layout.positive.trans_le layout.level
  have linked := layout.linked 0 top
  rw [← List.cons_append, ends, List.append_assoc, List.singleton_append] at linked
  have heights : ∀ q ∈ header :: (left ++ right), s.tall 0 q = true := by
    intro q member
    rcases List.mem_cons.mp member with rfl | member
    · simpa [tall, layout.top] using top
    · simpa [tall] using (layout.heights q member).1
  have leads : s.first passes = right.find? (s.tall 0) := by
    refine Threaded.at linked (heights _ ?_)
    rw [← List.cons_append, ends]
    simp
  rw [leads]
  cases right with
  | nil => rfl
  | cons x rest => exact List.find?_cons_of_pos (heights x (by simp))

theorem last_spec (layout : Layout maxLevel s (left ++ right))
    (before : ∀ q ∈ left, passes (s.item q) = true)
    (beyond : ∀ q ∈ right, passes (s.item q) = false) : s.last passes = left.getLast? := by
  obtain ⟨_, a, ends⟩ := search_zero layout before beyond
  unfold last
  cases a with
  | nil =>
    obtain ⟨here, rfl⟩ := List.cons.inj ends
    rw [if_pos here.symm]
    rfl
  | cons first rest =>
    obtain ⟨_, rfl⟩ := List.cons.inj ends
    have other : (s.search passes 0).1 ≠ header := by
      intro same
      have outside := (List.nodup_cons.mp layout.distinct).1
      exact outside (by simp [same])
    rw [if_neg other]
    exact List.getLast?_concat.symm

/-- **The rank of a node is its position.** -/
theorem rank_spec (layout : Layout maxLevel s (left ++ right))
    (before : ∀ q ∈ left, passes (s.item q) = true)
    (beyond : ∀ q ∈ right, passes (s.item q) = false) (found : α → Bool) :
    s.rank passes found =
      match right.head? with
      | some x => if found (s.item x) then UInt64.ofNat (left.length + 1) else 0
      | none => 0 := by
  unfold rank
  rw [first_spec layout before beyond, (search_zero layout before beyond).1, UInt64.ofNat_add]
  rfl

end Item

/-! ### The search by rank -/

section Element

theorem idxOf_middle {a b : List Nat} {x : Nat} (distinct : (a ++ x :: b).Nodup) :
    (a ++ x :: b).idxOf x = a.length := by
  have outside : x ∉ a := fun inside =>
    (List.nodup_append.mp distinct).2.2 x inside x List.mem_cons_self rfl
  rw [List.idxOf_append_of_notMem outside, List.idxOf_cons_self, Nat.add_zero]

/-- **Spans tell positions**: to follow them up to a rank is to pass the nodes at positions up to
it. -/
theorem Lane.advance_eq_walk {lane : Lane} {tall : Nat → Bool} {order a b : List Nat} {x : Nat}
    (linked : lane.Linked tall order) (measured : lane.Measured tall order)
    (distinct : order.Nodup) (few : order.length ≤ 2 ^ 64) (split : order = a ++ x :: b)
    (here : tall x = true) (rank : UInt64) (fuel : Nat) :
    lane.advance rank fuel (x, UInt64.ofNat a.length) =
      lane.walk (fun y => order.idxOf y ≤ rank.toNat) fuel (x, UInt64.ofNat a.length) := by
  induction fuel generalizing a b x with
  | zero => rfl
  | succ fuel ih =>
    have covers := Lane.linked_span (split ▸ linked) (split ▸ measured) here
    unfold advance walk
    cases leads : lane.forward x with
    | none => rfl
    | some y =>
      rw [leads] at covers
      obtain ⟨skipped, rest, rfl, span⟩ := covers
      have place : order = (a ++ x :: skipped) ++ y :: rest := by simp [split]
      have position : order.idxOf y = (a ++ x :: skipped).length :=
        place ▸ idxOf_middle (place ▸ distinct)
      have sum : UInt64.ofNat a.length + lane.span x =
          UInt64.ofNat (a ++ x :: skipped).length := by
        rw [span, ← UInt64.ofNat_add, List.length_append, List.length_cons]
      have small : (a ++ x :: skipped).length < UInt64.size := by
        show _ < 2 ^ 64
        rw [place, List.length_append, List.length_cons] at few
        omega
      have reaches : UInt64.ofNat (a ++ x :: skipped).length ≤ rank ↔
          order.idxOf y ≤ rank.toNat := by
        rw [UInt64.le_iff_toNat_le, UInt64.toNat_ofNat_of_lt' small, position]
      have tallNext : tall y = true := by
        have next : lane.forward x = (skipped ++ y :: rest).find? tall :=
          Threaded.at (split ▸ linked) here
        exact List.find?_some (next.symm.trans leads)
      simp only [sum, reaches, decide_eq_true_eq]
      split
      · exact ih place tallNext
      · rfl

variable {maxLevel : Nat} {s : Skiplist α} {nodes : List Nat}

/-- The positions up to a rank are those of the part that `take` keeps. -/
theorem mem_take_iff_position {order : List Nat} {x q : Nat} (member : q ∈ x :: order) (r : Nat) :
    q ∈ x :: order.take r ↔ (x :: order).idxOf q ≤ r := by
  rw [← List.take_succ_cons, List.mem_take_iff_idxOf_lt member, Nat.lt_succ_iff]

/-- On one level the search stops at the last node of the level before the rank. -/
theorem advance_spec (layout : Layout maxLevel s nodes) (few : nodes.length < 2 ^ 64)
    (rank : UInt64) {n : Nat} (low : n < s.level) {a b : List Nat} {x : Nat}
    (split : header :: nodes.take rank.toNat = a ++ x :: b) (tall : s.tall n x = true) :
    ∃ a' p b', (s.lane n).advance rank s.fresh (x, UInt64.ofNat a.length) =
        (p, UInt64.ofNat a'.length) ∧ header :: nodes.take rank.toNat = a' ++ p :: b' ∧
      s.tall n p = true ∧ ∀ q ∈ b', s.tall n q = false := by
  have linked := layout.linked n (by have := layout.level; omega)
  have measured := layout.measured n low
  have cut : header :: nodes = a ++ x :: b ++ nodes.drop rank.toNat := by
    rw [← split, List.cons_append, List.take_append_drop]
  have before : ∀ q ∈ b, (header :: nodes).idxOf q ≤ rank.toNat := fun q member => by
    refine (mem_take_iff_position ?_ _).mp ?_
    · rw [cut]
      simp [member]
    · rw [split]
      simp [member]
  have beyond : ∀ q ∈ nodes.drop rank.toNat, ¬ (header :: nodes).idxOf q ≤ rank.toNat := by
    intro q member near
    have inside : q ∈ header :: nodes := List.mem_cons_of_mem _ (List.mem_of_mem_drop member)
    have kept := (mem_take_iff_position inside _).mpr near
    have distinct := layout.distinct
    rw [cut, ← split] at distinct
    exact (List.nodup_append.mp distinct).2.2 q kept q member rfl
  have room : b.length ≤ s.fresh := by
    have short := layout.short
    have whole := congrArg List.length cut
    simp only [List.length_append, List.length_cons] at whole
    omega
  obtain ⟨a', p, b', stops, again, tall', rest⟩ := Lane.walk_spec
    (fun y => (header :: nodes).idxOf y ≤ rank.toNat) (cut ▸ linked) (cut ▸ measured) tall
    (fun q member => by simpa using before q member)
    (fun q member => by simpa using beyond q member)
    room
  have walked := Lane.advance_eq_walk linked measured layout.distinct
    (by rw [List.length_cons]; omega) (cut.trans (List.append_assoc ..)) tall rank s.fresh
  exact ⟨a', p, b', walked.trans stops, split.trans again, tall', rest⟩

/-- The levels below `n`, from a node before the rank; the nodes between them have no link above. -/
theorem elementLoop_spec (layout : Layout maxLevel s nodes) (few : nodes.length < 2 ^ 64)
    (rank : UInt64) (n : Nat) (low : n ≤ s.level) {a b : List Nat} {x : Nat}
    (split : header :: nodes.take rank.toNat = a ++ x :: b) (high : n ≤ s.height x)
    (between : ∀ q ∈ b, s.height q ≤ n) (short : UInt64.ofNat a.length ≠ rank) :
    s.elementLoop rank n (x, UInt64.ofNat a.length) =
      if (nodes.take rank.toNat).length = rank.toNat then
        (header :: nodes.take rank.toNat).getLast?
      else none := by
  have few' : (nodes.take rank.toNat).length < UInt64.size :=
    (List.length_take_le' ..).trans_lt few
  have count {a b : List Nat} {x : Nat} (split : header :: nodes.take rank.toNat = a ++ x :: b) :
      (nodes.take rank.toNat).length = a.length + b.length := by
    have whole := congrArg List.length split
    simp only [List.length_append, List.length_cons] at whole
    omega
  induction n generalizing a x b with
  | zero =>
    have empty : b = [] := by
      refine List.eq_nil_iff_forall_not_mem.mpr fun q member => ?_
      have inside := List.mem_of_mem_take (mem_of_split split member)
      have tall := (layout.heights q inside).1
      have none := between q member
      omega
    subst empty
    have all := count split
    rw [elementLoop, if_neg]
    intro full
    refine short (UInt64.toNat_inj.mp ?_)
    rw [UInt64.toNat_ofNat_of_lt' (by omega), ← full, all, List.length_nil, Nat.add_zero]
  | succ n ih =>
    have tall : s.tall n x = true := by simpa [Skiplist.tall] using high
    obtain ⟨a', p, b', stops, split', tall', rest⟩ := advance_spec layout few rank low split tall
    have all := count split'
    simp only [elementLoop, stops]
    split
    · rename_i reached
      have exact : a'.length = rank.toNat := by
        rw [← reached, UInt64.toNat_ofNat_of_lt' (by omega)]
      have bound : (nodes.take rank.toNat).length ≤ rank.toNat := List.length_take_le ..
      obtain rfl : b' = [] := List.length_eq_zero_iff.mp (by omega)
      rw [if_pos (by omega), split', List.getLast?_append_of_ne_nil _ (by simp)]
      rfl
    · rename_i missed
      simp only [Skiplist.tall, decide_eq_true_eq, decide_eq_false_iff_not, not_lt] at tall' rest
      exact ih (by omega) split' (by omega) rest missed

/-- **The node at a rank.** -/
theorem element_spec (layout : Layout maxLevel s nodes) (few : nodes.length < 2 ^ 64)
    (rank : UInt64) :
    s.element rank = if rank = 0 then none else nodes[rank.toNat - 1]? := by
  unfold element
  split
  · rfl
  · rename_i positive
    have start : rank.toNat ≠ 0 := fun zero => positive (UInt64.toNat_inj.mp zero)
    refine (elementLoop_spec layout few rank s.level le_rfl (a := []) rfl
      (layout.top.symm ▸ layout.level) (fun q member => ?_) fun same => positive same.symm).trans ?_
    · exact (layout.heights q (List.mem_of_mem_take member)).2
    · rw [List.length_take]
      split
      · rw [List.getLast?_cons, List.getLast?_take]
        simp only [start, if_false]
        rw [List.getElem?_eq_getElem (by omega)]
        simp
      · rw [List.getElem?_eq_none (by omega)]

end Element

end Skiplist
