/-
**One level of a skiplist.**

The nodes of a skiplist stand in one order, the header first; a level links those of them that are
tall enough for it, and each link carries the number of steps it covers in the whole order. Links
are kept by address, as a lane: where the link of a node leads and its span.

* `Lane.walk_spec`: a walk along a lane stops at the last tall node that it may pass, with the
  number of steps made.
* `Lane.link_spec`, `Lane.widen_spec`, `Lane.unlink_spec`: what the updates of links and spans at
  that node make of the lane when a node comes or goes.
-/

import Mathlib.Tactic

namespace Skiplist

/-- The links of one level: `x->level[i].forward` and `x->level[i].span` by the address of `x`. -/
structure Lane where
  forward : Nat → Option Nat
  span : Nat → UInt64

namespace Lane

/-- Set the link of a node. -/
def set (lane : Lane) (x : Nat) (forward : Option Nat) (span : UInt64) : Lane :=
  ⟨Function.update lane.forward x forward, Function.update lane.span x span⟩

/-- Link `x` in after `p`, at a distance of `d` nodes. -/
def link (lane : Lane) (p x : Nat) (d : UInt64) : Lane :=
  (lane.set x (lane.forward p) (lane.span p - d)).set p (some x) (d + 1)

/-- The link of `p` covers one more node. -/
def widen (lane : Lane) (p : Nat) : Lane := lane.set p (lane.forward p) (lane.span p + 1)

/-- Take `x` out of the link of `p`, which leads to it or past it. -/
def unlink (lane : Lane) (p x : Nat) : Lane :=
  if lane.forward p = some x then
    lane.set p (lane.forward x) (lane.span p + (lane.span x - 1))
  else lane.set p (lane.forward p) (lane.span p - 1)

/-- Follow links while the next node may be passed, adding up spans. -/
def walk (lane : Lane) (passes : Nat → Bool) : Nat → Nat × UInt64 → Nat × UInt64
  | 0, place => place
  | fuel + 1, (x, rank) =>
    match lane.forward x with
    | some y => if passes y then lane.walk passes fuel (y, rank + lane.span x) else (x, rank)
    | none => (x, rank)

end Lane

/-! ### Orders and their tall nodes -/

section Threaded

variable {β : Type} {tall : Nat → Bool}

/-- The steps to the first tall node, or to the end. -/
def steps (tall : Nat → Bool) : List Nat → Nat
  | [] => 0
  | p :: rest => if tall p then 1 else steps tall rest + 1

theorem steps_append_low {low : List Nat} (none : ∀ q ∈ low, tall q = false) (rest : List Nat) :
    steps tall (low ++ rest) = low.length + steps tall rest := by
  induction low with
  | nil => simp
  | cons q low ih =>
    rw [List.cons_append, steps, if_neg (by simp [none q List.mem_cons_self]),
      ih (List.forall_mem_cons.mp none).2, List.length_cons]
    omega

theorem find_append_low {low : List Nat} (none : ∀ q ∈ low, tall q = false) (rest : List Nat) :
    (low ++ rest).find? tall = rest.find? tall := by
  have empty : low.find? tall = Option.none :=
    List.find?_eq_none.mpr fun q member => by simp [none q member]
  rw [List.find?_append, empty, Option.none_or]

/-- Every tall node of the order has the value that the rest of the order asks for. -/
def Threaded (tall : Nat → Bool) (value : Nat → β) (expected : List Nat → β) : List Nat → Prop
  | [] => True
  | p :: rest => (tall p = true → value p = expected rest) ∧ Threaded tall value expected rest

variable {value value' : Nat → β} {expected : List Nat → β}

theorem Threaded.at {before after : List Nat} {p : Nat}
    (threaded : Threaded tall value expected (before ++ p :: after)) (here : tall p = true) :
    value p = expected after := by
  induction before with
  | nil => exact threaded.1 here
  | cons q before ih => exact ih threaded.2

theorem Threaded.right {before after : List Nat}
    (threaded : Threaded tall value expected (before ++ after)) :
    Threaded tall value expected after := by
  induction before with
  | nil => exact threaded
  | cons q before ih => exact ih threaded.2

theorem Threaded.congr {tall' : Nat → Bool} {expected' : List Nat → β} {order : List Nat}
    (threaded : Threaded tall value expected order) (same : ∀ q ∈ order, tall' q = tall q)
    (kept : ∀ q ∈ order, value' q = value q)
    (asks : ∀ rest : List Nat, (∀ q ∈ rest, q ∈ order) → expected' rest = expected rest) :
    Threaded tall' value' expected' order := by
  induction order with
  | nil => trivial
  | cons p rest ih =>
    refine ⟨fun here => ?_, ih threaded.2 (List.forall_mem_cons.mp same).2
      (List.forall_mem_cons.mp kept).2
      fun tail inside => asks tail fun q member => List.mem_cons_of_mem _ (inside q member)⟩
    rw [kept p List.mem_cons_self, asks rest fun q member => List.mem_cons_of_mem _ member]
    exact threaded.1 ((same p List.mem_cons_self).symm.trans here)

/-- Nodes that are not tall have nothing to say. -/
theorem Threaded.low {low rest : List Nat} (none : ∀ q ∈ low, tall q = false)
    (threaded : Threaded tall value expected rest) :
    Threaded tall value expected (low ++ rest) := by
  induction low with
  | nil => exact threaded
  | cons q low ih =>
    refine ⟨fun here => ?_, ih (List.forall_mem_cons.mp none).2⟩
    rw [none q List.mem_cons_self] at here
    cases here

/-- **What follows a tall node can be replaced**: the nodes before it look no further than it. -/
theorem Threaded.splice {before after after' : List Nat} {p : Nat}
    (threaded : Threaded tall value expected (before ++ p :: after))
    (near : ∀ front : List Nat, expected (front ++ p :: after') = expected (front ++ p :: after))
    (kept : ∀ q ∈ before, value' q = value q) (new : value' p = expected after')
    (rest : Threaded tall value' expected after') :
    Threaded tall value' expected (before ++ p :: after') := by
  induction before with
  | nil => exact ⟨fun _ => new, rest⟩
  | cons q before ih =>
    refine ⟨fun tallHead => ?_, ih threaded.2 (List.forall_mem_cons.mp kept).2⟩
    exact (kept q List.mem_cons_self).trans ((threaded.1 tallHead).trans (near before).symm)

/-- The place where `x` comes or goes: `p` is the last tall node before it. -/
structure Gap (tall : Nat → Bool) (a : List Nat) (p : Nat) (b : List Nat) (x : Nat)
    (right : List Nat) : Prop where
  last : tall p = true
  low : ∀ q ∈ b, tall q = false
  distinct : (a ++ p :: (b ++ x :: right)).Nodup

variable {a b right : List Nat} {p x : Nat}

theorem Gap.apart (gap : Gap tall a p b x right) : x ≠ p := by
  obtain ⟨outside, _⟩ := List.nodup_cons.mp (List.nodup_append.mp gap.distinct).2.1
  exact fun same => outside (by simp [same])

theorem Gap.away (gap : Gap tall a p b x right) {q : Nat} (member : q ∈ a ∨ q ∈ right) :
    q ≠ p ∧ q ≠ x := by
  obtain ⟨_, later, cross⟩ := List.nodup_append.mp gap.distinct
  obtain ⟨outside, rest⟩ := List.nodup_cons.mp later
  obtain ⟨fresh, _⟩ := List.nodup_cons.mp (List.nodup_append.mp rest).2.1
  rcases member with front | back
  · exact ⟨cross q front p (by simp), cross q front x (by simp)⟩
  · exact ⟨fun same => outside (by simp [← same, back]), fun same => fresh (same ▸ back)⟩

/-- A node comes: what has to hold of it and of the last tall node before it. -/
theorem Gap.insert (gap : Gap tall a p b x right)
    (near : ∀ after after' front : List Nat,
      expected (front ++ p :: after') = expected (front ++ p :: after))
    (kept : ∀ q, q ≠ p → q ≠ x → value' q = value q) (new : value' p = expected (b ++ x :: right))
    (own : tall x = true → value' x = expected right)
    (threaded : Threaded tall value expected (a ++ p :: (b ++ right))) :
    Threaded tall value' expected (a ++ p :: (b ++ x :: right)) := by
  refine threaded.splice (near _ _) (fun q member => ?_) new (Threaded.low gap.low ⟨own, ?_⟩)
  · exact kept q (gap.away (.inl member)).1 (gap.away (.inl member)).2
  · refine (Threaded.right (Threaded.right threaded).2).congr (fun _ _ => rfl) (fun q member => ?_)
      fun _ _ => rfl
    exact kept q (gap.away (.inr member)).1 (gap.away (.inr member)).2

/-- A node goes: what has to hold of the last tall node before it. -/
theorem Gap.remove (gap : Gap tall a p b x right)
    (near : ∀ after after' front : List Nat,
      expected (front ++ p :: after') = expected (front ++ p :: after))
    (kept : ∀ q, q ≠ p → q ≠ x → value' q = value q) (new : value' p = expected (b ++ right))
    (threaded : Threaded tall value expected (a ++ p :: (b ++ x :: right))) :
    Threaded tall value' expected (a ++ p :: (b ++ right)) := by
  refine threaded.splice (near _ _) (fun q member => ?_) new (Threaded.low gap.low ?_)
  · exact kept q (gap.away (.inl member)).1 (gap.away (.inl member)).2
  · refine (Threaded.right (Threaded.right threaded).2).2.congr (fun _ _ => rfl)
      (fun q member => ?_) fun _ _ => rfl
    exact kept q (gap.away (.inr member)).1 (gap.away (.inr member)).2

end Threaded

namespace Lane

/-- Each tall node links to the next one. -/
def Linked (lane : Lane) (tall : Nat → Bool) : List Nat → Prop :=
  Threaded tall lane.forward (List.find? tall)

/-- Each tall node's span is the number of steps to the next one, or to the end. -/
def Measured (lane : Lane) (tall : Nat → Bool) : List Nat → Prop :=
  Threaded tall lane.span fun rest => UInt64.ofNat (steps tall rest)

section Moves

variable {lane lane' : Lane} {tall : Nat → Bool} {a b right order : List Nat} {p x : Nat}

theorem find_near (here : tall p = true) (after after' front : List Nat) :
    (front ++ p :: after').find? tall = (front ++ p :: after).find? tall := by
  rw [List.find?_append, List.find?_append, List.find?_cons_of_pos here,
    List.find?_cons_of_pos here]

theorem steps_near (here : tall p = true) (after after' front : List Nat) :
    steps tall (front ++ p :: after') = steps tall (front ++ p :: after) := by
  induction front with
  | nil => simp [steps, here]
  | cons q front ih => rw [List.cons_append, List.cons_append, steps, steps, ih]

@[simp]
theorem set_forward (lane : Lane) (x : Nat) (forward : Option Nat) (span : UInt64) (y : Nat) :
    (lane.set x forward span).forward y = if y = x then forward else lane.forward y :=
  Function.update_apply ..

@[simp]
theorem set_span (lane : Lane) (x : Nat) (forward : Option Nat) (span : UInt64) (y : Nat) :
    (lane.set x forward span).span y = if y = x then span else lane.span y :=
  Function.update_apply ..

/-- A link and its span, read off the order. -/
theorem linked_span {before after : List Nat}
    (linked : lane.Linked tall (before ++ x :: after))
    (measured : lane.Measured tall (before ++ x :: after)) (here : tall x = true) :
    match lane.forward x with
    | some y => ∃ skipped rest, after = skipped ++ y :: rest ∧
        lane.span x = UInt64.ofNat (skipped.length + 1)
    | none => lane.span x = UInt64.ofNat after.length := by
  have leads : lane.forward x = after.find? tall := Threaded.at linked here
  have covers : lane.span x = UInt64.ofNat (steps tall after) := Threaded.at measured here
  rw [leads]
  cases found : after.find? tall with
  | none =>
    have low : ∀ q ∈ after, tall q = false := fun q inside => by
      simpa using List.find?_eq_none.mp found q inside
    have steps := steps_append_low low []
    rw [List.append_nil] at steps
    exact covers.trans (congrArg UInt64.ofNat steps)
  | some y =>
    obtain ⟨high, skipped, rest, rfl, passed⟩ := List.find?_eq_some_iff_append.mp found
    refine ⟨skipped, rest, rfl, covers.trans ?_⟩
    rw [steps_append_low (fun q inside => by simpa using passed q inside), steps, if_pos high]

/-! ### The walk -/

/-- **A walk stops at the last tall node before those that may not be passed**, with the number of
steps to it as its rank. -/
theorem walk_spec (passes : Nat → Bool) (linked : lane.Linked tall (a ++ x :: b ++ right))
    (measured : lane.Measured tall (a ++ x :: b ++ right)) (here : tall x = true)
    (before : ∀ q ∈ b, passes q = true) (beyond : ∀ q ∈ right, passes q = false)
    {fuel : Nat} (enough : b.length ≤ fuel) :
    ∃ a' p b', lane.walk passes fuel (x, UInt64.ofNat a.length) = (p, UInt64.ofNat a'.length) ∧
      a ++ x :: b = a' ++ p :: b' ∧ tall p = true ∧ ∀ q ∈ b', tall q = false := by
  induction fuel generalizing a x b with
  | zero =>
    obtain rfl : b = [] := List.length_eq_zero_iff.mp (by omega)
    exact ⟨a, x, [], rfl, rfl, here, nofun⟩
  | succ fuel ih =>
    rw [List.append_assoc, List.cons_append] at linked measured
    have leads : lane.forward x = (b ++ right).find? tall := Threaded.at linked here
    cases found : b.find? tall with
    | none =>
      have low : ∀ q ∈ b, tall q = false := fun q member => by
        simpa using List.find?_eq_none.mp found q member
      refine ⟨a, x, b, ?_, rfl, here, low⟩
      rw [find_append_low low] at leads
      unfold walk
      rw [leads]
      cases last : right.find? tall with
      | none => rfl
      | some y => simp [beyond y (List.mem_of_find?_eq_some last)]
    | some y =>
      obtain ⟨tallNext, low, rest, rfl, skipped⟩ := List.find?_eq_some_iff_append.mp found
      have low_lane : ∀ q ∈ low, tall q = false := fun q member => by simpa using skipped q member
      have length : lane.span x = UInt64.ofNat (low.length + 1) := by
        rw [show lane.span x = _ from Threaded.at measured here, List.append_assoc,
          steps_append_low low_lane, List.cons_append, steps, if_pos tallNext]
      have rank : UInt64.ofNat a.length + lane.span x = UInt64.ofNat (a ++ x :: low).length := by
        rw [length, ← UInt64.ofNat_add, List.length_append, List.length_cons]
      have split : a ++ x :: (low ++ y :: rest) = (a ++ x :: low) ++ y :: rest := by simp
      have whole : a ++ x :: (low ++ y :: rest ++ right) = (a ++ x :: low) ++ y :: rest ++ right :=
        by simp
      rw [whole] at linked measured
      have next : lane.forward x = some y := by
        rw [leads, List.find?_append, found, Option.some_or]
      have short : rest.length ≤ fuel := by
        rw [List.length_append, List.length_cons] at enough
        omega
      rw [walk, next]
      simp only [before y (by simp), if_true, rank, split]
      exact ih linked measured tallNext (fun q member => before q (by simp [member])) short

/-! ### A node comes or goes -/

theorem Linked.last (linked : lane.Linked tall (a ++ p :: (b ++ order))) (here : tall p = true)
    (low : ∀ q ∈ b, tall q = false) : lane.forward p = order.find? tall :=
  (Threaded.at linked here).trans (find_append_low low order)

theorem Measured.last (measured : lane.Measured tall (a ++ p :: (b ++ order)))
    (here : tall p = true) (low : ∀ q ∈ b, tall q = false) :
    lane.span p = UInt64.ofNat b.length + UInt64.ofNat (steps tall order) := by
  rw [← UInt64.ofNat_add, ← steps_append_low low]
  exact Threaded.at measured here

theorem Linked.insert (gap : Gap tall a p b x right)
    (linked : lane.Linked tall (a ++ p :: (b ++ right)))
    (kept : ∀ q, q ≠ p → q ≠ x → lane'.forward q = lane.forward q)
    (new : lane'.forward p = (x :: right).find? tall)
    (own : tall x = true → lane'.forward x = right.find? tall) :
    lane'.Linked tall (a ++ p :: (b ++ x :: right)) :=
  gap.insert (find_near gap.last) kept (new.trans (find_append_low gap.low _).symm) own linked

theorem Measured.insert (gap : Gap tall a p b x right)
    (measured : lane.Measured tall (a ++ p :: (b ++ right)))
    (kept : ∀ q, q ≠ p → q ≠ x → lane'.span q = lane.span q)
    (new : lane'.span p = UInt64.ofNat b.length + UInt64.ofNat (steps tall (x :: right)))
    (own : tall x = true → lane'.span x = UInt64.ofNat (steps tall right)) :
    lane'.Measured tall (a ++ p :: (b ++ x :: right)) := by
  refine gap.insert (fun after after' front => congrArg UInt64.ofNat
    (steps_near gap.last after after' front)) kept ?_ own measured
  rw [new, ← UInt64.ofNat_add, ← steps_append_low gap.low]

theorem Linked.remove (gap : Gap tall a p b x right)
    (linked : lane.Linked tall (a ++ p :: (b ++ x :: right)))
    (kept : ∀ q, q ≠ p → q ≠ x → lane'.forward q = lane.forward q)
    (new : lane'.forward p = right.find? tall) :
    lane'.Linked tall (a ++ p :: (b ++ right)) :=
  gap.remove (find_near gap.last) kept (new.trans (find_append_low gap.low _).symm) linked

theorem Measured.remove (gap : Gap tall a p b x right)
    (measured : lane.Measured tall (a ++ p :: (b ++ x :: right)))
    (kept : ∀ q, q ≠ p → q ≠ x → lane'.span q = lane.span q)
    (new : lane'.span p = UInt64.ofNat b.length + UInt64.ofNat (steps tall right)) :
    lane'.Measured tall (a ++ p :: (b ++ right)) := by
  refine gap.remove (fun after after' front => congrArg UInt64.ofNat
    (steps_near gap.last after after' front)) kept ?_ measured
  rw [new, ← UInt64.ofNat_add, ← steps_append_low gap.low]

/-- **A tall node comes.** -/
theorem link_spec (gap : Gap tall a p b x right) (here : tall x = true)
    (linked : lane.Linked tall (a ++ p :: (b ++ right)))
    (measured : lane.Measured tall (a ++ p :: (b ++ right))) :
    (lane.link p x (UInt64.ofNat b.length)).Linked tall (a ++ p :: (b ++ x :: right)) ∧
      (lane.link p x (UInt64.ofNat b.length)).Measured tall (a ++ p :: (b ++ x :: right)) := by
  have apart := gap.apart
  constructor
  · refine linked.insert gap (fun q other away => ?_) ?_ fun _ => ?_
    · simp [link, other, away]
    · simp [link, here]
    · simp [link, apart, linked.last gap.last gap.low]
  · refine measured.insert gap (fun q other away => ?_) ?_ fun _ => ?_
    · simp [link, other, away]
    · simp [link, steps, here]
    · simp only [link, set_span, apart, if_false, if_true, measured.last gap.last gap.low]
      grind

/-- **A node that is not tall comes.** -/
theorem widen_spec (gap : Gap tall a p b x right) (here : tall x = false)
    (linked : lane.Linked tall (a ++ p :: (b ++ right)))
    (measured : lane.Measured tall (a ++ p :: (b ++ right))) :
    (lane.widen p).Linked tall (a ++ p :: (b ++ x :: right)) ∧
      (lane.widen p).Measured tall (a ++ p :: (b ++ x :: right)) := by
  constructor
  · refine linked.insert gap (fun q other _ => ?_) ?_ fun high => ?_
    · simp [widen, other]
    · simp [widen, here, linked.last gap.last gap.low]
    · simp [here] at high
  · refine measured.insert gap (fun q other _ => ?_) ?_ fun high => ?_
    · simp [widen, other]
    · simp only [widen, set_span, if_true, measured.last gap.last gap.low, steps, here,
        Bool.false_eq_true, if_false, UInt64.ofNat_add]
      grind
    · simp [here] at high

/-- **A node goes**, whether the link before it leads to it or past it. -/
theorem unlink_spec (gap : Gap tall a p b x right)
    (linked : lane.Linked tall (a ++ p :: (b ++ x :: right)))
    (measured : lane.Measured tall (a ++ p :: (b ++ x :: right))) :
    (lane.unlink p x).Linked tall (a ++ p :: (b ++ right)) ∧
      (lane.unlink p x).Measured tall (a ++ p :: (b ++ right)) := by
  have leads := linked.last gap.last gap.low
  have length := measured.last gap.last gap.low
  have kept : ∀ q, q ≠ p → (lane.unlink p x).forward q = lane.forward q ∧
      (lane.unlink p x).span q = lane.span q := by
    intro q other
    unfold unlink
    split <;> simp [other]
  cases here : tall x with
  | true =>
    have hit : lane.forward p = some x := by rw [leads, List.find?_cons_of_pos here]
    have linkedX : lane.forward x = right.find? tall :=
      (Threaded.right (Threaded.right linked).2).1 here
    have spanX : lane.span x = UInt64.ofNat (steps tall right) :=
      (Threaded.right (Threaded.right measured).2).1 here
    refine ⟨linked.remove gap (fun q other _ => (kept q other).1) ?_,
      measured.remove gap (fun q other _ => (kept q other).2) ?_⟩
    · simp [unlink, hit, linkedX]
    · simp only [unlink, hit, if_true, set_span, length, spanX, steps, here]
      grind
  | false =>
    have past : lane.forward p = right.find? tall := by
      rw [leads, List.find?_cons_of_neg (by simp [here])]
    have miss : lane.forward p ≠ some x := by
      rw [past]
      intro found
      exact (gap.away (.inr (List.mem_of_find?_eq_some found))).2 rfl
    refine ⟨linked.remove gap (fun q other _ => (kept q other).1) ?_,
      measured.remove gap (fun q other _ => (kept q other).2) ?_⟩
    · rw [unlink, if_neg miss]
      simp [past]
    · simp only [unlink, miss, if_false, if_true, set_span, length, steps, here,
        Bool.false_eq_true, UInt64.ofNat_add]
      grind

end Moves

end Lane

end Skiplist
