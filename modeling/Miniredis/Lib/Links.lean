/-
**Walks along links.**

Nodes are read by address: a value and the address of the next node. `collect` reads a given number
of nodes from a pointer on, `advance` steps over them; both fail at `NULL` or at an address where
there is no node. `Leads` says that the nodes at some addresses follow one another and hold some
values.

* `Leads.collect`, `Leads.advance` — a walk that stays inside reads the values in order, and ends
  where it should.
* `Leads.of_next` — links that are known place by place.
-/

import Mathlib.Tactic

namespace Links

variable {α : Type}

/-- Read `n` nodes from `x` on. -/
def collect (node : Nat → Option (α × Option Nat)) : Nat → Option Nat → Option (List α)
  | 0, _ => some []
  | _ + 1, none => none
  | n + 1, some x =>
    match node x with
    | none => none
    | some (value, next) => (collect node n next).map (value :: ·)

/-- Follow `n` links from `x` on. -/
def advance (node : Nat → Option (α × Option Nat)) : Nat → Option Nat → Option (Option Nat)
  | 0, x => some x
  | _ + 1, none => none
  | n + 1, some x =>
    match node x with
    | none => none
    | some (_, next) => advance node n next

/-- The address that a list of cells starts at. -/
def start (cells : List (Nat × α)) : Option Nat := cells.head?.map Prod.fst

/-- Every cell holds its value and the address of the one after it. -/
def Leads (node : Nat → Option (α × Option Nat)) : List (Nat × α) → Prop
  | [] => True
  | (x, value) :: rest => node x = some (value, start rest) ∧ Leads node rest

section Lemmas

variable {node : Nat → Option (α × Option Nat)} {cells : List (Nat × α)}

theorem Leads.drop (leads : Leads node cells) (n : Nat) : Leads node (cells.drop n) := by
  induction n generalizing cells with
  | zero => exact leads
  | succ n ih =>
    cases cells with
    | nil => exact leads
    | cons cell rest => exact ih leads.2

/-- **A walk that stays inside reads the values in order.** -/
theorem Leads.collect (leads : Leads node cells) {n : Nat} (inside : n ≤ cells.length) :
    collect node n (start cells) = some ((cells.take n).map Prod.snd) := by
  induction n generalizing cells with
  | zero => rfl
  | succ n ih =>
    cases cells with
    | nil => cases inside
    | cons cell rest =>
      have tail := ih leads.2 (Nat.le_of_succ_le_succ inside)
      simp only [start, List.head?_cons, Option.map_some, Links.collect, leads.1]
      rw [show rest.head?.map Prod.fst = start rest from rfl, tail]
      rfl

/-- A walk that stays inside ends where it should. -/
theorem Leads.advance (leads : Leads node cells) {n : Nat} (inside : n ≤ cells.length) :
    advance node n (start cells) = some (start (cells.drop n)) := by
  induction n generalizing cells with
  | zero => rfl
  | succ n ih =>
    cases cells with
    | nil => cases inside
    | cons cell rest =>
      have tail := ih leads.2 (Nat.le_of_succ_le_succ inside)
      simp only [start, List.head?_cons, Option.map_some, Links.advance, leads.1]
      exact tail

theorem start_drop (cells : List (Nat × α)) (n : Nat) :
    start (cells.drop n) = cells[n]?.map Prod.fst := by
  rw [start, List.head?_drop]

/-- Links that are known place by place. -/
theorem Leads.of_next {value : Nat → α} {next : Nat → Option Nat} {order : List Nat}
    (known : ∀ before x after, order = before ++ x :: after → next x = after.head?) :
    Leads (fun x => some (value x, next x)) (order.map fun x => (x, value x)) := by
  induction order with
  | nil => trivial
  | cons x rest ih =>
    refine ⟨?_, ih fun before y after split => known (x :: before) y after (by rw [split]; rfl)⟩
    show some (value x, next x) = _
    rw [known [] x rest rfl]
    cases rest with
    | nil => rfl
    | cons y rest => rfl

end Lemmas

end Links
