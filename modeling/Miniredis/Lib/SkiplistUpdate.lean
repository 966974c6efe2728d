/-
**Updates of a skiplist keep its layout.**

* `insert_layout` — an inserted node comes after the nodes that it passes; every link, span and back
  link is again what the order of the nodes asks for.
* `delete_spec` — a deletion finds the first node that the search does not pass, and takes it out.
* `Layout.chain` — a level is the chain of the nodes of sufficient height.
-/

import Miniredis.Lib.Skiplist

namespace Skiplist

variable {α : Type} {maxLevel : Nat} {s : Skiplist α} {left right nodes : List Nat}

/-! ### Back links -/

section Backed

variable {backward : Nat → Option Nat} {x : Nat}

theorem Backed.insert (distinct : (left ++ x :: right).Nodup)
    (backed : Backed backward none (left ++ right)) :
    Backed
      (match right.head? with
      | some y => Function.update (Function.update backward x left.getLast?) y (some x)
      | none => Function.update backward x left.getLast?) none (left ++ x :: right) := by
  obtain ⟨front, back⟩ := Backed.append.mp backed
  obtain ⟨_, later, cross⟩ := List.nodup_append.mp distinct
  obtain ⟨fresh, rest⟩ := List.nodup_cons.mp later
  cases right with
  | nil =>
    refine Backed.append.mpr ⟨front.frame fun q member => ?_, ?_, trivial⟩
    · exact Function.update_of_ne (cross q member x (by simp)) ..
    · rw [Option.or_none]
      exact Function.update_self ..
  | cons y right =>
    have apart : x ≠ y := fun same => fresh (by simp [same])
    refine Backed.append.mpr ⟨front.frame fun q member => ?_, ?_, Function.update_self ..,
      back.2.frame fun q member => ?_⟩
    · exact (Function.update_of_ne (cross q member y (by simp)) ..).trans
        (Function.update_of_ne (cross q member x (by simp)) ..)
    · rw [Option.or_none]
      exact (Function.update_of_ne apart ..).trans (Function.update_self ..)
    · have other : q ≠ y := fun same => (List.nodup_cons.mp rest).1 (same ▸ member)
      have old : q ≠ x := fun same => fresh (by simp [← same, member])
      exact (Function.update_of_ne other ..).trans (Function.update_of_ne old ..)

theorem Backed.remove (distinct : (left ++ x :: right).Nodup)
    (backed : Backed backward none (left ++ x :: right)) :
    Backed
      (match right.head? with
      | some y => Function.update backward y (backward x)
      | none => backward) none (left ++ right) := by
  obtain ⟨front, own, back⟩ := Backed.append.mp backed
  obtain ⟨_, later, cross⟩ := List.nodup_append.mp distinct
  cases right with
  | nil => exact Backed.append.mpr ⟨front, trivial⟩
  | cons y right =>
    refine Backed.append.mpr ⟨front.frame fun q member => ?_,
      (Function.update_self ..).trans own, back.2.frame fun q member => ?_⟩
    · exact Function.update_of_ne (cross q member y (by simp)) ..
    · have rest := (List.nodup_cons.mp (List.nodup_cons.mp later).2).1
      have other : q ≠ y := fun same => rest (same ▸ member)
      exact Function.update_of_ne other ..

end Backed

/-! ### A new node -/

section Insert

variable {passes : α → Bool} {height : Nat} {x : Nat}

theorem Layout.fresh_notMem (layout : Layout maxLevel s nodes) : s.fresh ∉ header :: nodes :=
  fun member => absurd (layout.allocated _ member) (lt_irrefl _)

/-- The order with the new node. -/
theorem Layout.distinct_insert (layout : Layout maxLevel s (left ++ right)) :
    (header :: (left ++ s.fresh :: right)).Nodup := by
  have whole : (s.fresh :: header :: (left ++ right)).Nodup :=
    List.nodup_cons.mpr ⟨layout.fresh_notMem, layout.distinct⟩
  refine List.Perm.nodup_iff ?_ |>.mp whole
  exact (List.Perm.swap ..).trans (List.perm_middle.symm.cons header)

/-- The heights once the new node is allocated. -/
def raised (s : Skiplist α) (height : Nat) (i : Nat) (q : Nat) : Bool :=
  i < Function.update s.height s.fresh height q

theorem raised_fresh (s : Skiplist α) (height i : Nat) :
    raised s height i s.fresh = decide (i < height) := by
  simp [raised]

theorem raised_old (layout : Layout maxLevel s nodes) (height i : Nat) {q : Nat}
    (member : q ∈ header :: nodes) : raised s height i q = s.tall i q := by
  have ne : q ≠ s.fresh := fun same => layout.fresh_notMem (same ▸ member)
  simp [raised, Skiplist.tall, ne]

/-- Where the search left a level is the gap for the new node. -/
theorem Reached.gap (layout : Layout maxLevel s (left ++ right)) {i : Nat} {place : Nat × UInt64}
    (reached : Reached s left i place) (height : Nat) :
    ∃ a b, Gap (raised s height i) a place.1 b s.fresh right ∧
      header :: left = a ++ place.1 :: b ∧ place.2 = UInt64.ofNat a.length := by
  obtain ⟨a, p, b, rfl, split, tall, low⟩ := reached
  have inside : ∀ q ∈ p :: b, q ∈ header :: (left ++ right) := fun q member => by
    rw [← List.cons_append, split]
    simp only [List.mem_append, List.mem_cons] at member ⊢
    tauto
  refine ⟨a, b, ⟨?_, fun q member => ?_, ?_⟩, split, rfl⟩
  · exact (raised_old layout height i (inside p List.mem_cons_self)).trans tall
  · exact (raised_old layout height i (inside q (List.mem_cons_of_mem _ member))).trans
      (low q member)
  · have whole := layout.distinct_insert
    rwa [← List.cons_append, split, List.append_assoc, List.cons_append] at whole

theorem Lane.Linked.raise {lane lane' : Lane} {i : Nat} (height : Nat)
    (layout : Layout maxLevel s nodes)
    (linked : lane.Linked (s.tall i) (header :: nodes))
    (kept : ∀ q ∈ header :: nodes, lane'.forward q = lane.forward q) :
    lane'.Linked (raised s height i) (header :: nodes) := by
  refine Threaded.congr linked (fun q member => raised_old layout height i member) kept
    fun rest inside => ?_
  exact List.find?_congr fun q member => raised_old layout height i (inside q member)

theorem steps_congr {tall tall' : Nat → Bool} {order : List Nat}
    (same : ∀ q ∈ order, tall' q = tall q) : steps tall' order = steps tall order := by
  induction order with
  | nil => rfl
  | cons q rest ih =>
    rw [steps, steps, same q List.mem_cons_self,
      ih fun other member => same other (List.mem_cons_of_mem _ member)]

theorem Lane.Measured.raise {lane lane' : Lane} {i : Nat} (height : Nat)
    (layout : Layout maxLevel s nodes)
    (measured : lane.Measured (s.tall i) (header :: nodes))
    (kept : ∀ q ∈ header :: nodes, lane'.span q = lane.span q) :
    lane'.Measured (raised s height i) (header :: nodes) := by
  refine Threaded.congr measured (fun q member => raised_old layout height i member) kept
    fun rest inside => ?_
  exact congrArg UInt64.ofNat
    (steps_congr fun q member => raised_old layout height i (inside q member))

/-- The path of an insertion: the search, and the header above the level. -/
def insertPath (s : Skiplist α) (passes : α → Bool) (height : Nat) : Nat → Nat × UInt64 :=
  forLevels s.level height (fun _ _ => (header, 0)) (s.search passes)

/-- A level of the new node before it is linked in: its own link is empty and, above the level,
the header's covers everything. -/
def insertBase (s : Skiplist α) (i : Nat) : Lane :=
  (if s.level ≤ i then (s.lane i).set header ((s.lane i).forward header) s.length
    else s.lane i).set s.fresh none 0

theorem insert_lane (item : α) (i : Nat) :
    (s.insert passes item height).2.lane i =
      if i < height then
        (insertBase s i).link (insertPath s passes height i).1 s.fresh
          ((insertPath s passes height 0).2 - (insertPath s passes height i).2)
      else if i < s.level then (s.lane i).widen (insertPath s passes height i).1
      else s.lane i := by
  simp only [insert, forLevels_apply, insertBase, insertPath]
  by_cases inside : i < height
  · by_cases above : s.level ≤ i <;> simp [inside, above]
  · by_cases low : i < s.level <;> simp [inside, low, not_lt.mp inside]

section Place

variable (layout : Layout maxLevel s (left ++ right))
  (before : ∀ q ∈ left, passes (s.item q) = true)
  (beyond : ∀ q ∈ right, passes (s.item q) = false) (bound : height ≤ maxLevel)

include layout before beyond bound

theorem insertPath_spec {i : Nat} (inside : i < max s.level height) :
    Reached s left i (insertPath s passes height i) := by
  rw [insertPath, forLevels_apply]
  split
  · exact Reached.above layout (by omega) (by omega)
  · exact search_spec layout before beyond (by omega)

/-- The new node's distance from the place where the search left a level. -/
theorem insertPath_distance (positive : 0 < height) {a b : List Nat} {p : Nat} {r : UInt64}
    (split : header :: left = a ++ p :: b) (rank : r = UInt64.ofNat a.length) :
    (insertPath s passes height 0).2 - r = UInt64.ofNat b.length := by
  have zero := (insertPath_spec layout before beyond bound (i := 0) (by omega)).zero
    fun q member => (layout.heights q (by simp [member])).1
  have whole := congrArg List.length split
  simp only [List.length_append, List.length_cons] at whole
  have sum : left.length = a.length + b.length := by omega
  rw [zero.1, rank, sum, UInt64.ofNat_add]
  grind

end Place

/-- A level of the new node before it is linked in. -/
theorem insertBase_spec (layout : Layout maxLevel s nodes) (bound : height ≤ maxLevel) {i : Nat}
    (inside : i < height) :
    (insertBase s i).Linked (raised s height i) (header :: nodes) ∧
      (insertBase s i).Measured (raised s height i) (header :: nodes) := by
  have old : ∀ q ∈ header :: nodes, q ≠ s.fresh := fun q member same =>
    layout.fresh_notMem (same ▸ member)
  refine ⟨Lane.Linked.raise height layout (layout.linked i (by omega)) fun q member => ?_, ?_⟩
  · unfold insertBase
    rw [Lane.set_forward, if_neg (old q member)]
    split
    · rw [Lane.set_forward]
      split
      · rename_i same
        rw [same]
      · rfl
    · rfl
  · by_cases above : s.level ≤ i
    · have low : ∀ q ∈ nodes, raised s height i q = false := fun q member => by
        rw [raised_old layout height i (List.mem_cons_of_mem _ member)]
        have := (layout.heights q member).2
        simp only [Skiplist.tall, decide_eq_false_iff_not]
        omega
      have none := steps_append_low low []
      rw [List.append_nil, steps, Nat.add_zero] at none
      refine ⟨fun _ => ?_, List.append_nil nodes ▸ Threaded.low low trivial⟩
      show (insertBase s i).span header = UInt64.ofNat (steps (raised s height i) nodes)
      rw [insertBase, Lane.set_span, if_neg (old header List.mem_cons_self), if_pos above,
        Lane.set_span, if_pos rfl, none, layout.length]
    · refine Lane.Measured.raise height layout (layout.measured i (by omega)) fun q member => ?_
      unfold insertBase
      rw [Lane.set_span, if_neg (old q member), if_neg above]

/-- The levels above, where only the header has a link. -/
theorem insert_above (layout : Layout maxLevel s (left ++ right)) (item : α) {i : Nat}
    (high : max s.level height ≤ i) (top : i < maxLevel) :
    ((s.insert passes item height).2.lane i).Linked (raised s height i)
      (header :: (left ++ s.fresh :: right)) := by
  obtain ⟨a, b, gap, split, _⟩ := (Reached.above layout (i := i) (by omega) top).gap layout height
  have order : ∀ rest, header :: (left ++ rest) = a ++ header :: (b ++ rest) := fun rest => by
    rw [← List.cons_append, split, List.append_assoc, List.cons_append]
  have linked := Lane.Linked.raise height layout (layout.linked i top) fun _ _ => rfl
  have low : raised s height i s.fresh = false := by
    rw [raised_fresh]
    simp only [decide_eq_false_iff_not]
    omega
  rw [insert_lane, if_neg (by omega), if_neg (by omega), order]
  rw [order] at linked
  refine linked.insert gap (fun _ _ _ => rfl) ?_ fun high => ?_
  · rw [linked.last gap.last gap.low, List.find?_cons_of_neg (by simp [low])]
  · rw [low] at high
    cases high

section Result

variable (layout : Layout maxLevel s (left ++ right))
  (before : ∀ q ∈ left, passes (s.item q) = true)
  (beyond : ∀ q ∈ right, passes (s.item q) = false)
  (positive : 0 < height) (bound : height ≤ maxLevel)

include layout before beyond positive bound

/-- The levels that the insertion patches. -/
theorem insert_patched (item : α) {i : Nat} (inside : i < max s.level height) :
    ((s.insert passes item height).2.lane i).Linked (raised s height i)
        (header :: (left ++ s.fresh :: right)) ∧
      ((s.insert passes item height).2.lane i).Measured (raised s height i)
        (header :: (left ++ s.fresh :: right)) := by
  obtain ⟨a, b, gap, split, rank⟩ :=
    (insertPath_spec layout before beyond bound inside).gap layout height
  have order : ∀ rest, header :: (left ++ rest) =
      a ++ (insertPath s passes height i).1 :: (b ++ rest) := fun rest => by
    rw [← List.cons_append, split, List.append_assoc, List.cons_append]
  rw [insert_lane, order]
  by_cases low : i < height
  · obtain ⟨linked, measured⟩ := insertBase_spec layout bound low
    rw [order] at linked measured
    rw [if_pos low, insertPath_distance layout before beyond bound positive split rank]
    exact Lane.link_spec gap (by rw [raised_fresh, decide_eq_true low]) linked measured
  · have level : i < s.level := by omega
    have linked := Lane.Linked.raise height layout
      (layout.linked i (by have := layout.level; omega)) fun _ _ => rfl
    have measured := Lane.Measured.raise height layout
      (layout.measured i level) fun _ _ => rfl
    rw [order] at linked measured
    rw [if_neg low, if_pos level]
    exact Lane.widen_spec gap (by rw [raised_fresh, decide_eq_false low]) linked measured

/-- The link of the new node at the lowest level. -/
theorem insert_next (item : α) :
    ((s.insert passes item height).2.lane 0).forward s.fresh = right.head? := by
  have linked := (insert_patched layout before beyond positive bound item (i := 0) (by omega)).1
  rw [← List.cons_append] at linked
  have tall : ∀ q ∈ right, raised s height 0 q = true := fun q member => by
    rw [raised_old layout height 0 (by simp [member])]
    simpa [Skiplist.tall] using (layout.heights q (by simp [member])).1
  refine (Threaded.at linked (by rw [raised_fresh, decide_eq_true positive])).trans ?_
  cases right with
  | nil => rfl
  | cons y rest => rw [List.find?_cons_of_pos (tall y List.mem_cons_self), List.head?_cons]

/-- The back link of the new node. -/
theorem insert_previous :
    (if (insertPath s passes height 0).1 = header then none
      else some (insertPath s passes height 0).1) = left.getLast? := by
  obtain ⟨a, split⟩ := ((insertPath_spec layout before beyond bound (i := 0) (by omega)).zero
    fun q member => (layout.heights q (by simp [member])).1).2
  generalize (insertPath s passes height 0).1 = p at split
  cases a with
  | nil =>
    obtain ⟨rfl, rfl⟩ := List.cons.inj split
    rfl
  | cons first rest =>
    obtain ⟨rfl, rfl⟩ := List.cons.inj split
    have ne : p ≠ header := by
      rintro rfl
      have := layout.distinct
      simp at this
    rw [if_neg ne]
    exact (List.getLast?_concat ..).symm

/-- **A new node comes after the nodes that it passes.** -/
theorem insert_layout (item : α) : (s.insert passes item height).1 = s.fresh ∧
    Layout maxLevel (s.insert passes item height).2 (left ++ s.fresh :: right) := by
  have next := insert_next layout before beyond positive bound item
  have previous := insert_previous layout before beyond positive bound
  have distinct := layout.distinct_insert
  have patched := fun i => insert_patched layout before beyond positive bound item (i := i)
  have own : (s.insert passes item height).2.height s.fresh = height := Function.update_self ..
  have others : ∀ q ∈ header :: (left ++ right),
      (s.insert passes item height).2.height q = s.height q := fun q member => by
    have old : q ≠ s.fresh := fun same => layout.fresh_notMem (same ▸ member)
    exact Function.update_of_ne old ..
  have members : ∀ q ∈ left ++ s.fresh :: right, q = s.fresh ∨ q ∈ left ++ right := by
    intro q member
    simp only [List.mem_append, List.mem_cons] at member ⊢
    tauto
  refine ⟨rfl, distinct, fun q member => ?_, ?_, fun q member => ?_, ?_, ?_, fun i top => ?_,
    fun i inside => (patched i inside).2, ?_, ?_, ?_⟩
  · rcases List.mem_cons.mp member with rfl | member
    · exact (layout.allocated header List.mem_cons_self).trans (Nat.lt_succ_self _)
    rcases members q member with rfl | old
    · exact Nat.lt_succ_self _
    · exact (layout.allocated q (List.mem_cons_of_mem _ old)).trans (Nat.lt_succ_self _)
  · exact (others header List.mem_cons_self).trans layout.top
  · rcases members q member with rfl | old
    · exact ⟨own.symm ▸ positive, own.symm ▸ le_max_right ..⟩
    · rw [others q (List.mem_cons_of_mem _ old)]
      exact ⟨(layout.heights q old).1, (layout.heights q old).2.trans (le_max_left ..)⟩
  · exact max_le layout.level bound
  · by_cases tallest : s.level ≤ height
    · exact .inr ⟨s.fresh, by simp, own.trans (max_eq_right tallest).symm⟩
    · rcases layout.highest with one | ⟨q, old, same⟩
      · omega
      · refine .inr ⟨q, ?_, ?_⟩
        · simp only [List.mem_append, List.mem_cons] at old ⊢
          tauto
        · rw [others q (List.mem_cons_of_mem _ old), same]
          exact (max_eq_left (by omega)).symm
  · by_cases inside : i < max s.level height
    · exact (patched i inside).1
    · exact insert_above layout item (by omega) top
  · have backed := Backed.insert (List.nodup_cons.mp distinct).2 layout.backed
    rw [← next, ← previous] at backed
    exact backed
  · show (match ((s.insert passes item height).2.lane 0).forward s.fresh with
      | some _ => s.tail
      | none => some s.fresh) = _
    rw [next]
    cases right with
    | nil => simp
    | cons y rest => rw [List.head?_cons, layout.tail]; simp [List.getLast?_append]
  · show s.length + 1 = _
    rw [layout.length]
    simp only [List.length_append, List.length_cons, UInt64.ofNat_add]
    grind

end Result

end Insert

/-! ### A node goes -/

section Delete

variable {passes : α → Bool} {x : Nat}

/-- What lowering the level finds: nothing above it, and something at it unless it is the lowest. -/
theorem shrink_spec (lane : Nat → Lane) {n : Nat} (positive : 0 < n) :
    0 < shrink lane n ∧ shrink lane n ≤ n ∧
      (∀ i, shrink lane n ≤ i → i < n → (lane i).forward header = none) ∧
      (shrink lane n = 1 ∨ (lane (shrink lane n - 1)).forward header ≠ none) := by
  induction n with
  | zero => omega
  | succ n ih =>
    cases n with
    | zero =>
      refine ⟨Nat.one_pos, le_rfl, fun i low high => ?_, .inl rfl⟩
      simp only [shrink] at low
      omega
    | succ n =>
      rw [shrink]
      split
      · rename_i empty
        obtain ⟨above, below, cleared, last⟩ := ih (Nat.succ_pos n)
        refine ⟨above, by omega, fun i low high => ?_, last⟩
        rcases Nat.lt_succ_iff_lt_or_eq.mp high with less | rfl
        · exact cleared i low less
        · exact empty
      · rename_i there
        exact ⟨by omega, le_rfl, fun i low high => by omega, .inr there⟩

/-- The order without a node. -/
theorem distinct_remove (distinct : (header :: (left ++ x :: right)).Nodup) :
    (header :: (left ++ right)).Nodup :=
  distinct.sublist (((List.sublist_cons_self ..).append_left left).cons_cons _)

/-- Where the search left a level is the gap that the node leaves. -/
theorem Reached.gap_remove (layout : Layout maxLevel s (left ++ x :: right)) {i : Nat}
    {place : Nat × UInt64} (reached : Reached s left i place) :
    ∃ a b, Gap (s.tall i) a place.1 b x right ∧ header :: left = a ++ place.1 :: b := by
  obtain ⟨a, p, b, rfl, split, tall, low⟩ := reached
  refine ⟨a, b, ⟨tall, low, ?_⟩, split⟩
  have whole := layout.distinct
  rwa [← List.cons_append, split, List.append_assoc, List.cons_append] at whole

section Result

variable (layout : Layout maxLevel s (left ++ x :: right))
  (before : ∀ q ∈ left, passes (s.item q) = true)
  (beyond : ∀ q ∈ x :: right, passes (s.item q) = false)

include layout before beyond

/-- The levels that the deletion patches. -/
theorem delete_patched {i : Nat} (inside : i < s.level) :
    ((s.deleteNode x (s.search passes)).lane i).Linked (s.tall i) (header :: (left ++ right)) ∧
      ((s.deleteNode x (s.search passes)).lane i).Measured (s.tall i)
        (header :: (left ++ right)) := by
  obtain ⟨a, b, gap, split⟩ := (search_spec layout before beyond inside).gap_remove layout
  have order : ∀ rest, header :: (left ++ rest) =
      a ++ (s.search passes i).1 :: (b ++ rest) := fun rest => by
    rw [← List.cons_append, split, List.append_assoc, List.cons_append]
  have linked := layout.linked i (by have := layout.level; omega)
  have measured := layout.measured i inside
  have lane : (s.deleteNode x (s.search passes)).lane i =
      (s.lane i).unlink (s.search passes i).1 x := by
    simp [deleteNode, forLevels_apply, inside]
  rw [lane, order]
  rw [order] at linked measured
  exact Lane.unlink_spec gap linked measured

omit before beyond in
/-- The levels above, where only the header has a link. -/
theorem delete_above {i : Nat} (high : s.level ≤ i) (top : i < maxLevel)
    (path : Nat → Nat × UInt64) :
    ((s.deleteNode x path).lane i).Linked (s.tall i) (header :: (left ++ right)) := by
  obtain ⟨a, b, gap, split⟩ := (Reached.above layout high top).gap_remove layout
  have order : ∀ rest, header :: (left ++ rest) = a ++ header :: (b ++ rest) := fun rest => by
    rw [← List.cons_append, split, List.append_assoc, List.cons_append]
  have linked := layout.linked i top
  have low : s.tall i x = false := by
    have := (layout.heights x (by simp)).2
    simp only [Skiplist.tall, decide_eq_false_iff_not]
    omega
  have lane : (s.deleteNode x path).lane i = s.lane i := by
    simp [deleteNode, forLevels_apply, not_lt.mpr high]
  rw [lane, order]
  rw [order] at linked
  refine linked.remove gap (fun _ _ _ => rfl) ?_
  rw [linked.last gap.last gap.low, List.find?_cons_of_neg (by simp [low])]

/-- The link of the node at the lowest level, which its own deletion leaves as it is. -/
theorem delete_next :
    ((s.deleteNode x (s.search passes)).lane 0).forward x = right.head? := by
  have positive := layout.positive
  obtain ⟨a, b, gap, _⟩ := (search_spec layout before beyond positive).gap_remove layout
  have lane : ((s.deleteNode x (s.search passes)).lane 0).forward x = (s.lane 0).forward x := by
    simp only [deleteNode, forLevels_apply, Nat.le_refl, positive, and_self, if_true, Lane.unlink]
    split <;> simp [gap.apart]
  have tall : ∀ q ∈ x :: right, s.tall 0 q = true := fun q member => by
    simpa [Skiplist.tall] using (layout.heights q (List.mem_append_right _ member)).1
  have linked := layout.linked 0 (positive.trans_le layout.level)
  rw [← List.cons_append] at linked
  rw [lane]
  refine (Threaded.at linked (tall x List.mem_cons_self)).trans ?_
  cases right with
  | nil => rfl
  | cons y rest => rw [List.find?_cons_of_pos (tall y (by simp)), List.head?_cons]

/-- **A node that the search stops before is taken out.** -/
theorem delete_layout : Layout maxLevel (s.deleteNode x (s.search passes)) (left ++ right) := by
  have next := delete_next layout before beyond
  have distinct := distinct_remove layout.distinct
  have patched := fun i => delete_patched layout before beyond (i := i)
  have kept : ∀ q ∈ left ++ right, q ∈ left ++ x :: right := fun q member => by
    simp only [List.mem_append, List.mem_cons] at member ⊢
    tauto
  have linked : ∀ i < maxLevel, ((s.deleteNode x (s.search passes)).lane i).Linked (s.tall i)
      (header :: (left ++ right)) := fun i top => by
    by_cases inside : i < s.level
    · exact (patched i inside).1
    · exact delete_above layout (by omega) top _
  have leads : ∀ i < maxLevel, ((s.deleteNode x (s.search passes)).lane i).forward header =
      (left ++ right).find? (s.tall i) := fun i top =>
    (linked i top).1 (by simp [Skiplist.tall, layout.top, top])
  obtain ⟨above, below, cleared, last⟩ :=
    shrink_spec (s.deleteNode x (s.search passes)).lane layout.positive
  have bound := layout.level
  have heights : ∀ q ∈ left ++ right, 0 < s.height q ∧
      s.height q ≤ shrink (s.deleteNode x (s.search passes)).lane s.level := fun q member => by
    obtain ⟨positive, low⟩ := layout.heights q (kept q member)
    refine ⟨positive, ?_⟩
    by_contra high
    -- a node above the new level would be linked from the header
    have empty := cleared (s.height q - 1) (by omega) (by omega)
    rw [leads _ (by omega), List.find?_eq_none] at empty
    exact empty q member (by simp [Skiplist.tall]; omega)
  refine ⟨distinct, fun q member => ?_, layout.top, heights, below.trans bound, ?_, linked,
    fun i inside => (patched i (lt_of_lt_of_le inside below)).2, ?_, ?_, ?_⟩
  · rcases List.mem_cons.mp member with rfl | member
    · exact layout.allocated header List.mem_cons_self
    · exact layout.allocated q (List.mem_cons_of_mem _ (kept q member))
  · refine last.imp id fun there => ?_
    obtain ⟨q, hit⟩ := Option.ne_none_iff_exists'.mp there
    rw [leads _ (by omega)] at hit
    have member := List.mem_of_find?_eq_some hit
    have tall := List.find?_some hit
    have low := (heights q member).2
    simp only [Skiplist.tall, decide_eq_true_eq] at tall
    refine ⟨q, member, ?_⟩
    show s.height q = shrink (s.deleteNode x (s.search passes)).lane s.level
    omega
  · have backed := Backed.remove (List.nodup_cons.mp layout.distinct).2 layout.backed
    rw [← next] at backed
    exact backed
  · show (match ((s.deleteNode x (s.search passes)).lane 0).forward x with
      | some _ => s.tail
      | none => s.backward x) = _
    have own : s.backward x = left.getLast? := by
      have := (Backed.append.mp layout.backed).2.1
      rwa [Option.or_none] at this
    rw [next]
    cases right with
    | nil => simp [own]
    | cons y rest => rw [List.head?_cons, layout.tail]; simp [List.getLast?_append]
  · show s.length - 1 = _
    rw [layout.length]
    simp only [List.length_append, List.length_cons, UInt64.ofNat_add]
    grind

end Result

/-- **A deletion asks about the first node that the search does not pass.** -/
theorem delete_spec (found : α → Bool) {rest : List Nat} (layout : Layout maxLevel s (left ++ rest))
    (before : ∀ q ∈ left, passes (s.item q) = true)
    (beyond : ∀ q ∈ rest, passes (s.item q) = false) :
    s.delete passes found =
      match rest.head? with
      | none => (false, s)
      | some x =>
        if found (s.item x) then (true, s.deleteNode x (s.search passes)) else (false, s) := by
  have positive := layout.positive
  have heights : ∀ q ∈ left ++ rest, s.tall 0 q = true := fun q member => by
    simpa [Skiplist.tall] using (layout.heights q member).1
  obtain ⟨a, split⟩ := ((search_spec layout before beyond positive).zero fun q member =>
    (layout.heights q (by simp [member])).1).2
  have linked := layout.linked 0 (positive.trans_le layout.level)
  rw [← List.cons_append, split, List.append_assoc, List.singleton_append] at linked
  have tall : s.tall 0 (s.search passes 0).1 = true := by
    have member : (s.search passes 0).1 ∈ header :: left := by simp [split]
    rcases List.mem_cons.mp member with same | old
    · rw [same]
      simpa [Skiplist.tall, layout.top] using positive.trans_le layout.level
    · exact heights _ (by simp [old])
  have next : (s.lane 0).forward (s.search passes 0).1 = rest.head? := by
    refine (Threaded.at linked tall).trans ?_
    cases rest with
    | nil => rfl
    | cons x rest => rw [List.find?_cons_of_pos (heights x (by simp)), List.head?_cons]
  cases first : rest.head? with
  | none => simp only [delete, next, first]
  | some x => simp only [delete, next, first]

end Delete

/-! ### Chains -/

/-- The nodes that the links of a lane lead through. -/
def Chain (lane : Lane) : Nat → List Nat → Prop
  | x, [] => lane.forward x = none
  | x, y :: rest => lane.forward x = some y ∧ Chain lane y rest

theorem Lane.Linked.chain {lane : Lane} {tall : Nat → Bool} {x : Nat}
    (linked : lane.Linked tall (x :: nodes)) (here : tall x = true) :
    Chain lane x (nodes.filter tall) := by
  induction nodes generalizing x with
  | nil => exact linked.1 here
  | cons y rest ih =>
    have leads : lane.forward x = (y :: rest).find? tall := linked.1 here
    cases high : tall y with
    | true =>
      rw [List.find?_cons_of_pos high] at leads
      rw [List.filter_cons_of_pos high]
      exact ⟨leads, ih linked.2 high⟩
    | false =>
      rw [List.find?_cons_of_neg (by simp [high])] at leads
      rw [List.filter_cons_of_neg (by simp [high])]
      exact ih ⟨fun _ => leads, linked.2.2⟩ here

/-- **A level is the chain of the nodes that are tall enough.** -/
theorem Layout.chain (layout : Layout maxLevel s nodes) {i : Nat} (top : i < maxLevel) :
    Chain (s.lane i) header (nodes.filter (s.tall i)) :=
  (layout.linked i top).chain (by simp [Skiplist.tall, layout.top, top])

theorem create_layout [Inhabited α] (positive : 0 < maxLevel) :
    Layout maxLevel (create maxLevel : Skiplist α) [] where
  distinct := by simp
  allocated := by simp [create]
  top := by simp [create]
  heights := nofun
  level := positive
  highest := .inl rfl
  linked _ _ := ⟨fun _ => rfl, trivial⟩
  measured _ _ := ⟨fun _ => rfl, trivial⟩
  backed := trivial
  tail := rfl
  length := rfl

end Skiplist
