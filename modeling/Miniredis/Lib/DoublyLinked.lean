/-
**Doubly linked lists.**

A list keeps pointers to its first and last cell, and each cell to its neighbours. Cells live in a
heap by address; an operation that touches an address without a cell fails. `Holds` says which cells
a list consists of, and that every pointer is what it then has to be.

* `setNext_spec`, `setPrev_spec` — turning the pointers on either side of a gap.
* `detach_spec`, `popHead_spec`, `popTail_spec`, `pushHead_spec`, `pushTail_spec`,
  `insertAfter_spec` — each operation succeeds and does to the cells what it is for.
* `Holds.leads` — walks in both directions read the values in order.
-/

import Miniredis.Lib.Links

/-- A cell: its neighbours and its value. -/
structure Cell (α : Type) where
  prev : Option Nat
  next : Option Nat
  val : α

structure DoublyLinked (α : Type) where
  heap : Nat → Option (Cell α)
  head : Option Nat
  tail : Option Nat
  len : UInt64
  /-- The next address to be allocated. -/
  fresh : Nat

namespace DoublyLinked

variable {α : Type}

/-! ### Operations -/

def create : DoublyLinked α := ⟨fun _ => none, none, none, 0, 0⟩

/-- Write to the cell at an address. -/
def modify (l : DoublyLinked α) (x : Nat) (f : Cell α → Cell α) : Option (DoublyLinked α) :=
  (l.heap x).map fun cell => { l with heap := Function.update l.heap x (some (f cell)) }

/-- `if (x) x->next = next; else l->head = next;` -/
def setNext (l : DoublyLinked α) (x next : Option Nat) : Option (DoublyLinked α) :=
  match x with
  | some x => l.modify x fun cell => { cell with next := next }
  | none => some { l with head := next }

/-- `if (x) x->prev = prev; else l->tail = prev;` -/
def setPrev (l : DoublyLinked α) (x prev : Option Nat) : Option (DoublyLinked α) :=
  match x with
  | some x => l.modify x fun cell => { cell with prev := prev }
  | none => some { l with tail := prev }

/-- A new cell, at the next address. -/
def alloc (l : DoublyLinked α) (cell : Cell α) : DoublyLinked α :=
  { l with heap := Function.update l.heap l.fresh (some cell), fresh := l.fresh + 1 }

/-- The cell is freed and counted out. -/
def release (l : DoublyLinked α) (x : Nat) : DoublyLinked α :=
  { l with heap := Function.update l.heap x none, len := l.len - 1 }

def pushHead (l : DoublyLinked α) (val : α) : Option (DoublyLinked α) := do
  let l' ← (l.alloc ⟨none, l.head, val⟩).setPrev l.head (some l.fresh)
  some { l' with head := some l.fresh, len := l'.len + 1 }

def pushTail (l : DoublyLinked α) (val : α) : Option (DoublyLinked α) := do
  let l' ← (l.alloc ⟨l.tail, none, val⟩).setNext l.tail (some l.fresh)
  some { l' with tail := some l.fresh, len := l'.len + 1 }

/-- The value of the first cell, if there is one; the cell goes. -/
def popHead (l : DoublyLinked α) : Option (Option α × DoublyLinked α) :=
  match l.head with
  | none => some (none, l)
  | some x => do
    let cell ← l.heap x
    let l ← { l with head := cell.next }.setPrev cell.next none
    some (some cell.val, l.release x)

/-- The value of the last cell, if there is one; the cell goes. -/
def popTail (l : DoublyLinked α) : Option (Option α × DoublyLinked α) :=
  match l.tail with
  | none => some (none, l)
  | some x => do
    let cell ← l.heap x
    let l ← { l with tail := cell.prev }.setNext cell.prev none
    some (some cell.val, l.release x)

/-- A new cell after the given one, or at the front. -/
def insertAfter (l : DoublyLinked α) (node : Option Nat) (val : α) : Option (DoublyLinked α) :=
  match node with
  | none => l.pushHead val
  | some x => do
    let cell ← l.heap x
    let l' ← (l.alloc ⟨some x, cell.next, val⟩).setPrev cell.next (some l.fresh)
    let l' ← l'.modify x fun cell => { cell with next := some l.fresh }
    some { l' with len := l'.len + 1 }

/-- Take a cell out; its value comes back. -/
def detach (l : DoublyLinked α) (x : Nat) : Option (α × DoublyLinked α) := do
  let cell ← l.heap x
  let l ← l.setNext cell.prev cell.next
  let l ← l.setPrev cell.next cell.prev
  some (cell.val, l.release x)

/-- What a walk reads of a cell. -/
def read (l : DoublyLinked α) (back : Bool) (x : Nat) : Option (α × Option Nat) :=
  (l.heap x).map fun cell => (cell.val, if back then cell.prev else cell.next)

/-! ### Segments -/

/-- The address that a list of cells ends at. -/
def ends (cells : List (Nat × α)) : Option Nat := cells.getLast?.map Prod.fst

open Links (start)

/-- The cells are linked to each other, to `prev` in front and to `next` behind. -/
def Segment (heap : Nat → Option (Cell α)) : Option Nat → List (Nat × α) → Option Nat → Prop
  | _, [], _ => True
  | prev, (x, val) :: rest, next =>
    heap x = some ⟨prev, (start rest).or next, val⟩ ∧ Segment heap (some x) rest next

section Segment

variable {heap heap' : Nat → Option (Cell α)} {left right cells : List (Nat × α)}
  {prev next : Option Nat}

@[simp] theorem ends_nil : ends ([] : List (Nat × α)) = none := rfl

@[simp] theorem ends_concat (x : Nat) (val : α) : ends (cells ++ [(x, val)]) = some x := by
  simp [ends]

theorem ends_append (left right : List (Nat × α)) :
    ends (left ++ right) = (ends right).or (ends left) := by
  simp only [ends, List.getLast?_append]
  cases right.getLast? <;> simp

theorem start_append (left right : List (Nat × α)) :
    start (left ++ right) = (start left).or (start right) := by
  cases left <;> rfl

theorem Segment.append : Segment heap prev (left ++ right) next ↔
    Segment heap prev left ((start right).or next) ∧
      Segment heap ((ends left).or prev) right next := by
  induction left generalizing prev with
  | nil => simp [Segment]
  | cons cell rest ih =>
    have last : (ends (cell :: rest)).or prev = (ends rest).or (some cell.1) := by
      rw [← List.singleton_append, ends_append]
      cases ends rest <;> rfl
    rw [List.cons_append, Segment, Segment, ih, last, start_append, Option.or_assoc, and_assoc]

/-- A segment depends on its own cells only. -/
theorem Segment.frame (segment : Segment heap prev cells next)
    (kept : ∀ x ∈ cells.map Prod.fst, heap' x = heap x) : Segment heap' prev cells next := by
  induction cells generalizing prev with
  | nil => trivial
  | cons cell rest ih =>
    exact ⟨(kept cell.1 (by simp)).trans segment.1, ih segment.2 (List.forall_mem_cons.mp kept).2⟩

variable {l : DoublyLinked α}

/-- **The last cell of a segment gets another successor**; without one, the list another head. -/
theorem setNext_spec {old : Option Nat} (segment : Segment l.heap prev cells old)
    (distinct : (cells.map Prod.fst).Nodup) (next : Option Nat) :
    ∃ heap', l.setNext (ends cells) next =
        some { l with heap := heap', head := if cells = [] then next else l.head } ∧
      Segment heap' prev cells next ∧ ∀ x ∉ cells.map Prod.fst, heap' x = l.heap x := by
  rcases List.eq_nil_or_concat cells with rfl | ⟨front, last, rfl⟩
  · exact ⟨l.heap, rfl, trivial, fun _ _ => rfl⟩
  · rw [List.concat_eq_append] at segment distinct ⊢
    obtain ⟨before, here, _⟩ := Segment.append.mp segment
    have outside : last.1 ∉ front.map Prod.fst := by
      rw [List.map_append, List.map_singleton] at distinct
      exact fun inside => (List.nodup_append.mp distinct).2.2 _ inside _ List.mem_cons_self rfl
    refine ⟨Function.update l.heap last.1 (some ⟨(ends front).or prev, next, last.2⟩), ?_, ?_, ?_⟩
    · rw [show ends (front ++ [last]) = some last.1 from ends_concat ..]
      simp [setNext, modify, here]
    · refine Segment.append.mpr ⟨before.frame fun x inside => ?_, Function.update_self .., trivial⟩
      have other : x ≠ last.1 := fun same => outside (same ▸ inside)
      exact Function.update_of_ne other ..
    · intro x other
      exact Function.update_of_ne (fun same => other (by simp [same])) ..

/-- **The first cell of a segment gets another predecessor**; without one, the list another tail. -/
theorem setPrev_spec {old : Option Nat} (segment : Segment l.heap old cells next)
    (distinct : (cells.map Prod.fst).Nodup) (prev : Option Nat) :
    ∃ heap', l.setPrev (start cells) prev =
        some { l with heap := heap', tail := if cells = [] then prev else l.tail } ∧
      Segment heap' prev cells next ∧ ∀ x ∉ cells.map Prod.fst, heap' x = l.heap x := by
  cases cells with
  | nil => exact ⟨l.heap, rfl, trivial, fun _ _ => rfl⟩
  | cons first rest =>
    obtain ⟨here, after⟩ := segment
    have outside : first.1 ∉ rest.map Prod.fst := (List.nodup_cons.mp distinct).1
    refine ⟨Function.update l.heap first.1 (some ⟨prev, (start rest).or next, first.2⟩), ?_,
      ⟨Function.update_self .., after.frame fun x inside => ?_⟩, fun x other => ?_⟩
    · simp [setPrev, modify, here, start]
    · have apart : x ≠ first.1 := fun same => outside (same ▸ inside)
      exact Function.update_of_ne apart ..
    · exact Function.update_of_ne (fun same => other (by simp [same])) ..

end Segment

/-! ### The invariant -/

/-- The cells that the list consists of, in order. -/
structure Holds (l : DoublyLinked α) (cells : List (Nat × α)) : Prop where
  distinct : (cells.map Prod.fst).Nodup
  allocated : ∀ x ∈ cells.map Prod.fst, x < l.fresh
  linked : Segment l.heap none cells none
  head : l.head = start cells
  tail : l.tail = ends cells
  len : l.len = UInt64.ofNat cells.length

section Holds

variable {l : DoublyLinked α} {left right cells : List (Nat × α)} {x : Nat} {val : α}

theorem Holds.create : Holds (create : DoublyLinked α) [] :=
  ⟨List.nodup_nil, by simp, trivial, rfl, rfl, rfl⟩

/-- The cells around one of them, and what it holds. -/
theorem Holds.split (holds : Holds l (left ++ (x, val) :: right)) :
    Segment l.heap none left (some x) ∧ l.heap x = some ⟨ends left, start right, val⟩ ∧
      Segment l.heap (some x) right none := by
  obtain ⟨before, here, after⟩ := Segment.append.mp holds.linked
  rw [Option.or_none, Option.or_none] at here
  exact ⟨before, here, after⟩

theorem nodup_parts (distinct : ((left ++ (x, val) :: right).map Prod.fst).Nodup) :
    (left.map Prod.fst).Nodup ∧ (right.map Prod.fst).Nodup ∧ x ∉ left.map Prod.fst ∧
      x ∉ right.map Prod.fst ∧ ∀ y ∈ left.map Prod.fst, y ∉ right.map Prod.fst := by
  rw [List.map_append, List.map_cons] at distinct
  obtain ⟨first, later, cross⟩ := List.nodup_append.mp distinct
  obtain ⟨outside, second⟩ := List.nodup_cons.mp later
  refine ⟨first, second, fun inside => cross x inside x List.mem_cons_self rfl, outside, ?_⟩
  exact fun y inside inside' => cross y inside y (List.mem_cons_of_mem _ inside') rfl

/-- The head after what follows `left` has changed. -/
theorem head_splice (left right other : List (Nat × α)) :
    (if left = [] then start right else start (left ++ other)) = start (left ++ right) := by
  cases left <;> rfl

/-- The tail after what comes before `right` has changed. -/
theorem tail_splice (left right other : List (Nat × α)) :
    (if right = [] then ends left else ends (other ++ right)) = ends (left ++ right) := by
  rcases List.eq_nil_or_concat right with rfl | ⟨front, last, rfl⟩
  · simp
  · rw [if_neg (by simp), ends_append, ends_append, List.concat_eq_append, ends_append]
    rfl

/-- **A cell is taken out.** -/
theorem detach_spec (holds : Holds l (left ++ (x, val) :: right)) :
    ∃ l', l.detach x = some (val, l') ∧ Holds l' (left ++ right) ∧ l'.fresh = l.fresh := by
  obtain ⟨before, here, after⟩ := holds.split
  obtain ⟨first, second, outside, outside', cross⟩ := nodup_parts holds.distinct
  obtain ⟨heap₁, next, before, kept⟩ := setNext_spec before first (start right)
  have after : Segment heap₁ (some x) right none := after.frame fun y inside =>
    kept y fun there => cross y there inside
  obtain ⟨heap₂, prev, after, kept'⟩ := @setPrev_spec α right none
    { l with heap := heap₁, head := if left = [] then start right else l.head } _ after second
    (ends left)
  have before : Segment heap₂ none left (start right) :=
    before.frame fun y inside => kept' y (cross y inside)
  have sub : (left ++ right).Sublist (left ++ (x, val) :: right) :=
    (List.sublist_cons_self ..).append_left left
  refine ⟨{ l with
    heap := Function.update heap₂ x none
    head := if left = [] then start right else l.head
    tail := if right = [] then ends left else l.tail
    len := l.len - 1 }, ?_, ⟨(sub.map Prod.fst).nodup holds.distinct, fun y inside =>
      holds.allocated y ((sub.map Prod.fst).subset inside), ?_, ?_, ?_, ?_⟩, rfl⟩
  · simp only [detach, here, next, prev, Option.bind_eq_bind, Option.bind_some]
    rfl
  · refine Segment.append.mpr ⟨?_, ?_⟩
    · rw [Option.or_none]
      exact before.frame fun y inside =>
        Function.update_of_ne (fun same : y = x => outside (same ▸ inside)) ..
    · rw [Option.or_none]
      exact after.frame fun y inside =>
        Function.update_of_ne (fun same : y = x => outside' (same ▸ inside)) ..
  · exact holds.head ▸ head_splice ..
  · have shift : left ++ (x, val) :: right = (left ++ [(x, val)]) ++ right := by simp
    exact (holds.tail.trans (congrArg ends shift)) ▸ tail_splice ..
  · show l.len - 1 = _
    rw [holds.len, List.length_append, List.length_append, List.length_cons, ← Nat.add_assoc,
      UInt64.ofNat_add]
    grind

/-- To pop a cell is to take it out. -/
theorem popHead_eq (holds : Holds l ((x, val) :: right)) :
    l.popHead = (l.detach x).map fun taken => (some taken.1, taken.2) := by
  obtain ⟨_, here, _⟩ := @Holds.split α l [] right x val holds
  rw [popHead, holds.head]
  simp only [start, List.head?_cons, Option.map_some, here, ends_nil, Option.bind_eq_bind,
    Option.bind_some, detach, setNext, Option.map_bind]
  rfl

/-- The tail is none of the successors. -/
theorem setNext_tail (l : DoublyLinked α) (p next tail : Option Nat) :
    { l with tail := tail }.setNext p next =
      (l.setNext p next).map fun l' => { l' with tail := tail } := by
  cases p with
  | none => rfl
  | some p =>
    simp only [setNext, modify]
    cases l.heap p <;> rfl

theorem popTail_eq (holds : Holds l (left ++ [(x, val)])) :
    l.popTail = (l.detach x).map fun taken => (some taken.1, taken.2) := by
  obtain ⟨_, here, _⟩ := holds.split
  rw [popTail, holds.tail, ends_concat]
  simp only [here, Option.bind_eq_bind, Option.bind_some, detach, setNext_tail, start,
    List.head?_nil, Option.map_none, setPrev]
  cases l.setNext (ends left) none <;> rfl

/-- **The first cell is popped.** -/
theorem popHead_spec (holds : Holds l ((x, val) :: right)) :
    ∃ l', l.popHead = some (some val, l') ∧ Holds l' right ∧ l'.fresh = l.fresh := by
  obtain ⟨l', taken, after, same⟩ := @detach_spec α l [] right x val holds
  exact ⟨l', by rw [popHead_eq holds, taken]; rfl, after, same⟩

/-- **The last cell is popped.** -/
theorem popTail_spec (holds : Holds l (left ++ [(x, val)])) :
    ∃ l', l.popTail = some (some val, l') ∧ Holds l' left ∧ l'.fresh = l.fresh := by
  obtain ⟨l', taken, after, same⟩ := detach_spec holds
  rw [List.append_nil] at after
  exact ⟨l', by rw [popTail_eq holds, taken]; rfl, after, same⟩

/-- A cell at the next address, linked to its neighbours, which are linked to it. -/
theorem Holds.insert {l' : DoublyLinked α} (holds : Holds l (left ++ right))
    (before : Segment l'.heap none left (some l.fresh))
    (here : l'.heap l.fresh = some ⟨ends left, start right, val⟩)
    (after : Segment l'.heap (some l.fresh) right none)
    (fresh : l'.fresh = l.fresh + 1) (len : l'.len = l.len + 1)
    (head : l'.head = if left = [] then some l.fresh else l.head)
    (tail : l'.tail = if right = [] then some l.fresh else l.tail) :
    Holds l' (left ++ (l.fresh, val) :: right) where
  distinct := by
    rw [List.map_append, List.map_cons, List.perm_middle.nodup_iff, List.nodup_cons,
      ← List.map_append]
    exact ⟨fun inside => lt_irrefl _ (holds.allocated _ inside), holds.distinct⟩
  allocated y inside := by
    rw [fresh, Nat.lt_succ_iff]
    rw [List.map_append, List.map_cons, List.mem_append, List.mem_cons] at inside
    rcases inside with there | rfl | there
    · exact (holds.allocated y (by simp [there])).le
    · exact le_rfl
    · exact (holds.allocated y (by simp [there])).le
  linked := by
    refine Segment.append.mpr ⟨before, ?_, after⟩
    rw [here, Option.or_none, Option.or_none]
  head := by
    rw [head, holds.head]
    exact head_splice left ((l.fresh, val) :: right) right
  tail := by
    have shift : left ++ (l.fresh, val) :: right = (left ++ [(l.fresh, val)]) ++ right := by simp
    have last := tail_splice (left ++ [(l.fresh, val)]) right left
    rw [ends_concat] at last
    rw [tail, holds.tail, shift]
    exact last
  len := by
    rw [len, holds.len, List.length_append, List.length_append, List.length_cons, ← Nat.add_assoc]
    exact (UInt64.ofNat_add _ 1).symm

/-- The new cell is at no address of the list. -/
theorem Holds.alloc_heap (holds : Holds l cells) (cell : Cell α) :
    ∀ y ∈ cells.map Prod.fst, (l.alloc cell).heap y = l.heap y := fun y inside =>
  Function.update_of_ne (holds.allocated y inside).ne ..

theorem Holds.fresh_notMem (holds : Holds l cells) : l.fresh ∉ cells.map Prod.fst :=
  fun inside => lt_irrefl _ (holds.allocated _ inside)

/-- **A value comes to the front.** -/
theorem pushHead_spec (holds : Holds l cells) (val : α) :
    ∃ l', l.pushHead val = some l' ∧ Holds l' ((l.fresh, val) :: cells) ∧
      l'.fresh = l.fresh + 1 := by
  have linked := holds.linked.frame (holds.alloc_heap ⟨none, l.head, val⟩)
  obtain ⟨heap', prev, after, kept⟩ := setPrev_spec linked holds.distinct (some l.fresh)
  have here : heap' l.fresh = some ⟨none, start cells, val⟩ := by
    rw [kept _ holds.fresh_notMem, ← holds.head]
    exact Function.update_self ..
  rw [← holds.head] at prev
  refine ⟨{ l with
    heap := heap', head := some l.fresh, tail := if cells = [] then some l.fresh else l.tail
    len := l.len + 1, fresh := l.fresh + 1 }, ?_,
    @Holds.insert α l [] cells val _ holds trivial here after rfl rfl rfl rfl, rfl⟩
  rw [pushHead, prev]
  rfl

/-- **A value comes to the end.** -/
theorem pushTail_spec (holds : Holds l cells) (val : α) :
    ∃ l', l.pushTail val = some l' ∧ Holds l' (cells ++ [(l.fresh, val)]) ∧
      l'.fresh = l.fresh + 1 := by
  have linked := holds.linked.frame (holds.alloc_heap ⟨l.tail, none, val⟩)
  obtain ⟨heap', next, before, kept⟩ := setNext_spec linked holds.distinct (some l.fresh)
  have here : heap' l.fresh = some ⟨ends cells, none, val⟩ := by
    rw [kept _ holds.fresh_notMem, ← holds.tail]
    exact Function.update_self ..
  rw [← holds.tail] at next
  refine ⟨{ l with
    heap := heap', head := if cells = [] then some l.fresh else l.head, tail := some l.fresh
    len := l.len + 1, fresh := l.fresh + 1 }, ?_,
    @Holds.insert α l cells [] val _ (by rwa [List.append_nil]) before here trivial rfl rfl rfl rfl,
    rfl⟩
  rw [pushTail, next]
  rfl

/-- **A value comes after a cell.** -/
theorem insertAfter_spec (holds : Holds l (left ++ (x, val) :: right)) (new : α) :
    ∃ l', l.insertAfter (some x) new = some l' ∧
      Holds l' (left ++ (x, val) :: (l.fresh, new) :: right) ∧ l'.fresh = l.fresh + 1 := by
  obtain ⟨_, here, _⟩ := holds.split
  have shift : left ++ (x, val) :: right = (left ++ [(x, val)]) ++ right := by simp
  have linked := holds.linked.frame (holds.alloc_heap ⟨some x, start right, new⟩)
  have fresh := holds.fresh_notMem
  have distinct := holds.distinct
  rw [shift] at linked fresh distinct
  rw [List.map_append] at fresh distinct
  obtain ⟨first, second, cross⟩ := List.nodup_append.mp distinct
  obtain ⟨before, after⟩ := Segment.append.mp linked
  obtain ⟨heap₁, prev, after, kept⟩ := setPrev_spec after second (some l.fresh)
  have before := before.frame fun y inside => kept y fun there => cross y inside y there rfl
  have filled : left ++ [(x, val)] ≠ [] := by simp
  obtain ⟨heap₂, next, before, kept'⟩ := @setNext_spec α (left ++ [(x, val)]) none
    { l with
      heap := heap₁, tail := if right = [] then some l.fresh else l.tail, fresh := l.fresh + 1 }
    _ before first (some l.fresh)
  rw [ends_concat, if_neg filled] at next
  have after := after.frame fun y inside => kept' y fun there => cross y there y inside rfl
  have own : heap₂ l.fresh = some ⟨some x, start right, new⟩ := by
    refine (kept' _ fun inside => fresh (List.mem_append_left _ inside)).trans ?_
    refine (kept _ fun inside => fresh (List.mem_append_right _ inside)).trans ?_
    exact Function.update_self ..
  rw [shift] at holds
  have placed : Holds { l with
      heap := heap₂, tail := if right = [] then some l.fresh else l.tail
      len := l.len + 1, fresh := l.fresh + 1 } (left ++ [(x, val)] ++ (l.fresh, new) :: right) :=
    holds.insert before (by rw [ends_concat]; exact own) after rfl rfl (if_neg filled).symm rfl
  refine ⟨_, ?_, by simpa using placed, rfl⟩
  simp only [insertAfter, here, Option.bind_eq_bind, Option.bind_some]
  rw [prev]
  simp only [Option.bind_some]
  exact congrArg (fun result : Option (DoublyLinked α) =>
    result.bind fun l' => some { l' with len := l'.len + 1 }) next

/-! ### Walks -/

/-- The cells in the direction of a walk. -/
def orient (back : Bool) (cells : List (Nat × α)) : List (Nat × α) :=
  if back then cells.reverse else cells

theorem Segment.leads {heap : Nat → Option (Cell α)} {prev : Option Nat}
    (segment : Segment heap prev cells none) :
    Links.Leads (fun x => (heap x).map fun cell => (cell.val, cell.next)) cells := by
  induction cells generalizing prev with
  | nil => trivial
  | cons cell rest ih =>
    refine ⟨?_, ih segment.2⟩
    show (heap cell.1).map _ = _
    rw [segment.1, Option.or_none]
    rfl

theorem Segment.leads_back {heap : Nat → Option (Cell α)} {next : Option Nat}
    (segment : Segment heap none cells next) :
    Links.Leads (fun x => (heap x).map fun cell => (cell.val, cell.prev)) cells.reverse := by
  induction cells using List.reverseRecOn generalizing next with
  | nil => trivial
  | append_singleton front last ih =>
    obtain ⟨before, here, _⟩ := Segment.append.mp segment
    rw [List.reverse_append, List.reverse_singleton, List.singleton_append]
    refine ⟨?_, ih before⟩
    show (heap last.1).map _ = _
    rw [here, Option.or_none]
    simp [start, ends]

/-- **Walks in both directions read the values in order.** -/
theorem Holds.leads (holds : Holds l cells) (back : Bool) :
    Links.Leads (l.read back) (orient back cells) := by
  cases back with
  | false => exact holds.linked.leads
  | true => exact holds.linked.leads_back

/-- Where a walk starts. -/
theorem Holds.first (holds : Holds l cells) (back : Bool) :
    (if back then l.tail else l.head) = start (orient back cells) := by
  cases back with
  | false => exact holds.head
  | true =>
    refine holds.tail.trans ?_
    simp [ends, start, orient]

/-- A cell is taken out on the way. -/
theorem Holds.detach (back : Bool) (holds : Holds l (orient back (left ++ (x, val) :: right))) :
    ∃ l', l.detach x = some (val, l') ∧ Holds l' (orient back (left ++ right)) ∧
      l'.fresh = l.fresh := by
  cases back with
  | false => exact detach_spec holds
  | true =>
    simp only [orient, if_true, List.reverse_append, List.reverse_cons, List.append_assoc,
      List.singleton_append] at holds ⊢
    exact detach_spec holds

end Holds

end DoublyLinked
