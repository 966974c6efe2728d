/-
**Skiplists with spans.**

A skiplist keeps items in an order given by the caller's comparisons. Nodes have addresses and a
height each; level `i` links the nodes of height above `i`, from the header on, and every link
carries the number of nodes it covers. `search` descends through the levels and remembers where it
left each of them; `insert` and `delete` patch links, spans, back links, tail, level and length
there.

* `Layout` — the invariant: which nodes there are, in which order, and what every field then is.
* `search_spec` — a search stops, at every level, at the last tall node that may be passed.
-/

import Miniredis.Lib.SkipLane

/-- A skiplist: the nodes' fields by address, the links level by level. -/
structure Skiplist (α : Type) where
  item : Nat → α
  /-- The number of links that the node was allocated with. -/
  height : Nat → Nat
  lane : Nat → Skiplist.Lane
  backward : Nat → Option Nat
  tail : Option Nat
  length : UInt64
  level : Nat
  /-- The next address to be allocated. -/
  fresh : Nat

namespace Skiplist

variable {α : Type}

/-- The address of the header. -/
def header : Nat := 0

/-! ### Operations -/

/-- An empty skiplist whose header has `maxLevel` links. -/
def create [Inhabited α] (maxLevel : Nat) : Skiplist α where
  item _ := default
  height := Function.update (fun _ => 0) header maxLevel
  lane _ := ⟨fun _ => none, fun _ => 0⟩
  backward _ := none
  tail := none
  length := 0
  level := 1
  fresh := header + 1

/-- `for (i = lo; i < hi; i++) array[i] = f(i, array[i])`. -/
def forLevels {β : Type} (lo hi : Nat) (f : Nat → β → β) (array : Nat → β) : Nat → β :=
  (List.range' lo (hi - lo)).foldl (fun array i => Function.update array i (f i (array i))) array

/-- From level `i - 1` down: walk, remember where the walk ended, and how far from the header. -/
def descend (s : Skiplist α) (passes : α → Bool) :
    Nat → Nat × UInt64 → (Nat → Nat × UInt64) → Nat → Nat × UInt64
  | 0, _, path => path
  | i + 1, place, path =>
    let place := (s.lane i).walk (fun y => passes (s.item y)) s.fresh place
    s.descend passes i place (Function.update path i place)

/-- Where a search leaves each level. -/
def search (s : Skiplist α) (passes : α → Bool) : Nat → Nat × UInt64 :=
  s.descend passes s.level (header, 0) fun _ => (header, 0)

/-- Insert an item after the nodes that it passes. The address of its node comes back. -/
def insert (s : Skiplist α) (passes : α → Bool) (item : α) (height : Nat) : Nat × Skiplist α :=
  let path := s.search passes
  -- levels above the current one start at the header, whose link covers everything
  let path := forLevels s.level height (fun _ _ => (header, 0)) path
  let lane := forLevels s.level height
    (fun _ lane => lane.set header (lane.forward header) s.length) s.lane
  let level := max s.level height
  let x := s.fresh
  let lane := forLevels 0 height (fun _ lane => lane.set x none 0) lane
  let lane := forLevels 0 height
    (fun i lane => lane.link (path i).1 x ((path 0).2 - (path i).2)) lane
  let lane := forLevels height level (fun i lane => lane.widen (path i).1) lane
  let backward := Function.update s.backward x
    (if (path 0).1 = header then none else some (path 0).1)
  (x,
    { item := Function.update s.item x item
      height := Function.update s.height x height
      lane := lane
      backward := match (lane 0).forward x with
        | some y => Function.update backward y (some x)
        | none => backward
      tail := match (lane 0).forward x with
        | some _ => s.tail
        | none => some x
      length := s.length + 1
      level := level
      fresh := x + 1 })

/-- `while (level > 1 && header->level[level - 1].forward == NULL) level--`. -/
def shrink (lane : Nat → Lane) : Nat → Nat
  | 0 => 0
  | 1 => 1
  | n + 2 => if (lane (n + 1)).forward header = none then shrink lane (n + 1) else n + 2

/-- Unlink a node found by a search. -/
def deleteNode (s : Skiplist α) (x : Nat) (path : Nat → Nat × UInt64) : Skiplist α :=
  let lane := forLevels 0 s.level (fun i lane => lane.unlink (path i).1 x) s.lane
  { s with
    lane := lane
    backward := match (lane 0).forward x with
      | some y => Function.update s.backward y (s.backward x)
      | none => s.backward
    tail := match (lane 0).forward x with
      | some _ => s.tail
      | none => s.backward x
    level := shrink lane s.level
    length := s.length - 1 }

/-- Delete the first node that the search does not pass, if it is the one sought. -/
def delete (s : Skiplist α) (passes found : α → Bool) : Bool × Skiplist α :=
  let path := s.search passes
  match (s.lane 0).forward (path 0).1 with
  | none => (false, s)
  | some x => if found (s.item x) then (true, s.deleteNode x path) else (false, s)

/-! ### The invariant -/

/-- The node has a link at the level. -/
def tall (s : Skiplist α) (i x : Nat) : Bool := i < s.height x

/-- Back links invert an order that follows `previous`. -/
def Backed (backward : Nat → Option Nat) : Option Nat → List Nat → Prop
  | _, [] => True
  | previous, x :: rest => backward x = previous ∧ Backed backward (some x) rest

/-- The nodes of the skiplist, in order, and what every field then is. -/
structure Layout (maxLevel : Nat) (s : Skiplist α) (nodes : List Nat) : Prop where
  distinct : (header :: nodes).Nodup
  allocated : ∀ x ∈ header :: nodes, x < s.fresh
  top : s.height header = maxLevel
  heights : ∀ x ∈ nodes, 0 < s.height x ∧ s.height x ≤ s.level
  level : s.level ≤ maxLevel
  highest : s.level = 1 ∨ ∃ x ∈ nodes, s.height x = s.level
  linked : ∀ i < maxLevel, (s.lane i).Linked (s.tall i) (header :: nodes)
  measured : ∀ i < s.level, (s.lane i).Measured (s.tall i) (header :: nodes)
  backed : Backed s.backward none nodes
  tail : s.tail = nodes.getLast?
  length : s.length = UInt64.ofNat nodes.length

section Lemmas

/-! ### Loops and lists -/

theorem forLevels_apply {β : Type} (lo hi : Nat) (f : Nat → β → β) (array : Nat → β) (i : Nat) :
    forLevels lo hi f array i = if lo ≤ i ∧ i < hi then f i (array i) else array i := by
  have each : ∀ (l : List Nat) (array : Nat → β), l.Nodup →
      (l.foldl (fun array i => Function.update array i (f i (array i))) array) i =
        if i ∈ l then f i (array i) else array i := by
    intro l
    induction l with
    | nil => exact fun _ _ => rfl
    | cons j rest ih =>
      intro array distinct
      obtain ⟨fresh, distinct⟩ := List.nodup_cons.mp distinct
      rw [List.foldl_cons, ih _ distinct]
      by_cases same : i = j
      · subst same
        simp [fresh]
      · simp [same]
  rw [forLevels, each _ _ (List.nodup_range' ..)]
  refine if_congr ?_ rfl rfl
  rw [List.mem_range'_1]
  omega

theorem Backed.append {backward : Nat → Option Nat} {left right : List Nat}
    {previous : Option Nat} : Backed backward previous (left ++ right) ↔
      Backed backward previous left ∧ Backed backward (left.getLast?.or previous) right := by
  induction left generalizing previous with
  | nil => simp [Backed]
  | cons x rest ih =>
    have last : ((x :: rest).getLast?).or previous = rest.getLast?.or (some x) := by
      cases found : rest.getLast? <;> simp [List.getLast?_cons, found]
    rw [last, List.cons_append, Backed, Backed, ih, and_assoc]

theorem Backed.frame {backward backward' : Nat → Option Nat} {nodes : List Nat}
    {previous : Option Nat} (backed : Backed backward previous nodes)
    (kept : ∀ x ∈ nodes, backward' x = backward x) : Backed backward' previous nodes := by
  induction nodes generalizing previous with
  | nil => trivial
  | cons x rest ih =>
    exact ⟨(kept x List.mem_cons_self).trans backed.1,
      ih backed.2 (List.forall_mem_cons.mp kept).2⟩

end Lemmas

/-! ### Search -/

section Search

variable {maxLevel : Nat} {s : Skiplist α} {left right nodes : List Nat}

/-- The place where a search leaves level `i`: the last tall node of the header and `left`. -/
def Reached (s : Skiplist α) (left : List Nat) (i : Nat) (place : Nat × UInt64) : Prop :=
  ∃ a p b, place = (p, UInt64.ofNat a.length) ∧ header :: left = a ++ p :: b ∧
    s.tall i p = true ∧ ∀ q ∈ b, s.tall i q = false

theorem Layout.short (layout : Layout maxLevel s nodes) : nodes.length ≤ s.fresh := by
  have inside : header :: nodes ⊆ List.range s.fresh := fun x member =>
    List.mem_range.mpr (layout.allocated x member)
  have bound := (layout.distinct.subperm inside).length_le
  rw [List.length_range, List.length_cons] at bound
  omega

theorem Layout.positive (layout : Layout maxLevel s nodes) : 0 < s.level := by
  rcases layout.highest with one | ⟨x, member, same⟩
  · omega
  · have := (layout.heights x member).1
    omega

theorem mem_of_split {a b : List Nat} {p q : Nat} (split : header :: left = a ++ p :: b)
    (member : q ∈ b) : q ∈ left := by
  cases a with
  | nil =>
    cases split
    exact member
  | cons first rest =>
    obtain ⟨_, rfl⟩ := List.cons.inj split
    simp [member]

/-- From a node of height `n` at its rank, the levels below `n`. -/
theorem descend_spec {passes : α → Bool} (layout : Layout maxLevel s (left ++ right))
    (before : ∀ q ∈ left, passes (s.item q) = true)
    (beyond : ∀ q ∈ right, passes (s.item q) = false) (n : Nat) (low : n ≤ s.level)
    {a b : List Nat} {x : Nat} (split : header :: left = a ++ x :: b) (high : n ≤ s.height x)
    (path : Nat → Nat × UInt64) :
    (∀ i < n, Reached s left i (s.descend passes n (x, UInt64.ofNat a.length) path i)) ∧
      ∀ i, n ≤ i → s.descend passes n (x, UInt64.ofNat a.length) path i = path i := by
  induction n generalizing a x b path with
  | zero => exact ⟨nofun, fun _ _ => rfl⟩
  | succ n ih =>
    have linked := layout.linked n (by have := layout.level; omega)
    have measured := layout.measured n low
    rw [← List.cons_append, split] at linked measured
    have short : b.length ≤ s.fresh := by
      have whole := congrArg List.length split
      have bound := layout.short
      simp only [List.length_append, List.length_cons] at whole bound
      omega
    obtain ⟨a', p, b', walked, again, tall, rest⟩ := Lane.walk_spec
      (fun y => passes (s.item y)) linked measured (by simpa [Skiplist.tall] using high)
      (fun q member => before q (mem_of_split split member)) beyond short
    have split' := split.trans again
    have height : n ≤ s.height p := by
      simp only [Skiplist.tall, decide_eq_true_eq] at tall
      omega
    simp only [descend, walked]
    obtain ⟨lower, kept⟩ := ih (by omega) split' height
      (Function.update path n (p, UInt64.ofNat a'.length))
    refine ⟨fun i bound => ?_, fun i bound => ?_⟩
    · rcases Nat.lt_succ_iff_lt_or_eq.mp bound with less | rfl
      · exact lower i less
      · rw [kept i le_rfl, Function.update_self]
        exact ⟨a', p, b', rfl, split', tall, rest⟩
    · rw [kept i (by omega), Function.update_of_ne (by omega)]

/-- **A search leaves every level at the last tall node that may be passed.** -/
theorem search_spec {passes : α → Bool} (layout : Layout maxLevel s (left ++ right))
    (before : ∀ q ∈ left, passes (s.item q) = true)
    (beyond : ∀ q ∈ right, passes (s.item q) = false) {i : Nat} (low : i < s.level) :
    Reached s left i (s.search passes i) :=
  (descend_spec layout before beyond s.level le_rfl (a := []) rfl
    (layout.top.symm ▸ layout.level) _).1 i low

/-- At the lowest level a search is right before the nodes it may not pass. -/
theorem Reached.zero {place : Nat × UInt64} (heights : ∀ q ∈ left, 0 < s.height q)
    (reached : Reached s left 0 place) :
    place.2 = UInt64.ofNat left.length ∧ ∃ a, header :: left = a ++ [place.1] := by
  obtain ⟨a, p, b, rfl, split, _, rest⟩ := reached
  have empty : b = [] := by
    refine List.eq_nil_iff_forall_not_mem.mpr fun q member => ?_
    have tall := heights q (mem_of_split split member)
    have low := rest q member
    simp only [tall, Skiplist.tall, decide_true] at low
    cases low
  subst empty
  have whole := congrArg List.length split
  simp only [List.length_append, List.length_cons, List.length_nil] at whole
  exact ⟨congrArg UInt64.ofNat (by omega), a, split⟩

/-- Above the level, a search is at the header. -/
theorem Reached.above (layout : Layout maxLevel s (left ++ right)) {i : Nat} (high : s.level ≤ i)
    (bound : i < maxLevel) : Reached s left i (header, 0) := by
  refine ⟨[], header, left, rfl, rfl, ?_, fun q member => ?_⟩
  · simp [Skiplist.tall, layout.top, bound]
  · have := (layout.heights q (by simp [member])).2
    simp only [Skiplist.tall, decide_eq_false_iff_not]
    omega

end Search

end Skiplist
