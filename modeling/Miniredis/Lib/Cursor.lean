/-
**A cursor in a buffer.**

An action moves a cursor forward in a buffer and may read the bytes behind it; it ends with a value
or with a failure. It has no outcome at all once it reads outside the buffer. The cursor keeps the
positions it has been at and counts the rounds of the loops.

* `Reads` — an action does what a reader does on the rest of the buffer, stays inside, and pays for
  its rounds with the elements it consumes;
* `Reads.bind`, `Reads.take`, `Reads.loop` — how the actions compose.
-/

import Mathlib.Tactic
import Miniredis.Lib.Block
import Miniredis.Lib.Readers

structure Cursor where
  pos : Nat
  trail : List Nat
  rounds : Nat

namespace Cursor

/-- An action: `none` outside the buffer, a failure inside. -/
abbrev Action (α : Type) := OptionT (StateT Cursor Option) α

variable {α β γ σ : Type}

/-- `n` more elements, if the buffer has them. -/
def need (len n : Nat) : Action Unit := do
  let c ← get
  if n > Buffer.sub len c.pos then failure
  else set { c with pos := (c.pos + n) % 2 ^ 64, trail := (c.pos + n) % 2 ^ 64 :: c.trail }

/-- The last `n` elements before the cursor. -/
def behind (buf : List β) (n : Nat) : Action (List β) := fun c =>
  (Buffer.slice buf (Buffer.sub c.pos n) n).map fun elements => (some elements, c)

/-- One more round of a loop. -/
def round : Action Unit := modify fun c => { c with rounds := c.rounds + 1 }

/-- `n` rounds over an accumulator. -/
def loop (item : σ → Action σ) : Nat → σ → Action σ
  | 0, acc => pure acc
  | n + 1, acc => do
    round
    let acc ← item acc
    loop item n acc

/-- The cursor went forward and stayed inside. -/
structure Stays (buf : List β) (c c' : Cursor) : Prop where
  onward : c.pos ≤ c'.pos
  inside : c'.pos ≤ buf.length
  trail : ∀ p ∈ c'.trail, p ∈ c.trail ∨ p ≤ buf.length

theorem Stays.trans {buf : List β} {c c' c'' : Cursor} (first : Stays buf c c')
    (second : Stays buf c' c'') : Stays buf c c'' where
  onward := first.onward.trans second.onward
  inside := second.inside
  trail p member := (second.trail p member).elim (first.trail p) .inr

theorem Stays.within {buf : List β} {c c' : Cursor} (stays : Stays buf c c')
    (before : ∀ p ∈ c.trail, p ≤ buf.length) : ∀ p ∈ c'.trail, p ≤ buf.length :=
  fun p member => (stays.trail p member).elim (before p) id

/-- The action reads what the reader reads from the rest of the buffer. A value leaves `paid` of the
consumed elements unspent on rounds; a failure may owe `slack` of them. -/
structure Reads (buf : List β) (paid slack : Nat) (f : Action α)
    (r : List β → Option (α × List β)) : Prop where
  value : ∀ c, c.pos ≤ buf.length → ∀ a rest, r (buf.drop c.pos) = some (a, rest) →
    ∃ c', f c = some (some a, c') ∧ Stays buf c c' ∧ buf.drop c'.pos = rest ∧
      c'.rounds + c.pos + paid ≤ c.rounds + c'.pos
  fails : ∀ c, c.pos ≤ buf.length → r (buf.drop c.pos) = none →
    ∃ c', f c = some (none, c') ∧ Stays buf c c' ∧ c'.rounds + c.pos ≤ c.rounds + c'.pos + slack

section Rules

variable {buf : List β} {paid paid' slack slack' : Nat} {f : Action α}
  {r : List β → Option (α × List β)}

theorem Reads.weaken (reads : Reads buf paid slack f r) (less : paid' ≤ paid)
    (more : slack ≤ slack') : Reads buf paid' slack' f r where
  value c inside a rest found := by
    obtain ⟨c', run, stays, left, cost⟩ := reads.value c inside a rest found
    exact ⟨c', run, stays, left, by omega⟩
  fails c inside refused := by
    obtain ⟨c', run, stays, cost⟩ := reads.fails c inside refused
    exact ⟨c', run, stays, by omega⟩

theorem reads_pure (a : α) : Reads buf 0 slack (pure a) fun rest => some (a, rest) where
  value c inside b rest found := by
    cases found
    exact ⟨c, rfl, ⟨le_rfl, inside, fun p member => .inl member⟩, rfl, by omega⟩
  fails c inside refused := by cases refused

theorem reads_failure : Reads buf paid slack (failure : Action α) fun _ => none where
  value c inside a rest found := by cases found
  fails c inside refused :=
    ⟨c, rfl, ⟨le_rfl, inside, fun p member => .inl member⟩, Nat.le_add_right _ _⟩

theorem bind_value {g : α → Action γ} {c c' : Cursor} {a : α} (run : f c = some (some a, c')) :
    (f >>= g) c = g a c' := by
  change Option.bind (f c) _ = _
  rw [run]
  rfl

theorem bind_failure {g : α → Action γ} {c c' : Cursor} (run : f c = some (none, c')) :
    (f >>= g) c = some (none, c') := by
  change Option.bind (f c) _ = _
  rw [run]
  rfl

theorem Reads.bind {g : α → Action γ} {s : α → List β → Option (γ × List β)}
    (first : Reads buf paid slack f r) (next : ∀ a, Reads buf paid' slack (g a) (s a)) :
    Reads buf (paid + paid') slack (f >>= g) (Readers.andThen r s) where
  value c inside b rest found := by
    obtain ⟨⟨a, left⟩, front, back⟩ := Option.bind_eq_some_iff.mp found
    obtain ⟨c', run, stays, rfl, cost⟩ := first.value c inside a left front
    obtain ⟨c'', run', stays', left', cost'⟩ := (next a).value c' stays.inside b rest back
    exact ⟨c'', (bind_value run).trans run', stays.trans stays', left', by omega⟩
  fails c inside refused := by
    rcases front : r (buf.drop c.pos) with _ | ⟨a, left⟩
    · obtain ⟨c', run, stays, cost⟩ := first.fails c inside front
      exact ⟨c', bind_failure run, stays, cost⟩
    · obtain ⟨c', run, stays, rfl, cost⟩ := first.value c inside a left front
      have back : s a (buf.drop c'.pos) = none := by
        rw [Readers.andThen, front] at refused
        exact refused
      obtain ⟨c'', run', stays', cost'⟩ := (next a).fails c' stays.inside back
      exact ⟨c'', (bind_value run).trans run', stays.trans stays', by omega⟩

theorem Reads.map (reads : Reads buf paid slack f r) (g : α → γ) :
    Reads buf paid slack (do let a ← f; pure (g a)) (Readers.map g r) :=
  reads.bind fun a => reads_pure (g a)

/-- A round is paid for with one element. -/
theorem Reads.round (reads : Reads buf (paid + 1) slack f r) :
    Reads buf paid (slack + 1) (do round; f) r where
  value c inside a rest found := by
    obtain ⟨c', run, stays, left, cost⟩ :=
      reads.value { c with rounds := c.rounds + 1 } inside a rest found
    dsimp only at cost
    exact ⟨c', run, ⟨stays.onward, stays.inside, stays.trail⟩, left, by omega⟩
  fails c inside refused := by
    obtain ⟨c', run, stays, cost⟩ :=
      reads.fails { c with rounds := c.rounds + 1 } inside refused
    dsimp only at cost
    exact ⟨c', run, ⟨stays.onward, stays.inside, stays.trail⟩, by omega⟩

theorem Reads.loop {item : σ → Action σ} {s : σ → List β → Option (σ × List β)}
    (each : ∀ acc, Reads buf 1 slack (item acc) (s acc)) (n : Nat) (acc : σ) :
    Reads buf 0 (slack + 1) (loop item n acc) (Readers.loop s n acc) := by
  induction n generalizing acc with
  | zero => exact reads_pure acc
  | succ n ih => exact (each acc).round.bind ih

theorem need_short {len n : Nat} {c : Cursor} (short : n > Buffer.sub len c.pos) :
    need len n c = some (none, c) := by
  change (if n > Buffer.sub len c.pos then failure else _ : Action Unit) c = _
  rw [if_pos short]
  rfl

theorem need_enough {len n : Nat} {c : Cursor} (enough : ¬ n > Buffer.sub len c.pos) :
    need len n c = some (some (), { c with
      pos := (c.pos + n) % 2 ^ 64, trail := (c.pos + n) % 2 ^ 64 :: c.trail }) := by
  change (if n > Buffer.sub len c.pos then failure else _ : Action Unit) c = _
  rw [if_neg enough]
  rfl

/-- The elements behind the cursor, once it has moved over them. -/
theorem reads_take (addressable : buf.length < 2 ^ 64) (n : Nat) :
    Reads buf n 0 (do need buf.length n; behind buf n) (Readers.take n) where
  value c inside bytes rest found := by
    unfold Readers.take at found
    split_ifs at found with short
    cases found
    rw [List.length_drop] at short
    have enough : ¬ n > Buffer.sub buf.length c.pos := by
      rwa [Buffer.sub_of_le inside addressable]
    have moved : (c.pos + n) % 2 ^ 64 = c.pos + n := Nat.mod_eq_of_lt (by omega)
    have slice : Buffer.slice buf (Buffer.sub (c.pos + n) n) n =
        some ((buf.drop c.pos).take n) := by
      rw [Buffer.sub_of_le (by omega) (by omega), Nat.add_sub_cancel,
        Buffer.slice_of_le (by omega)]
    refine ⟨{ c with pos := c.pos + n, trail := (c.pos + n) :: c.trail }, ?_, ?_, ?_, ?_⟩
    · rw [bind_value (need_enough enough), moved, behind, slice]
      rfl
    · refine ⟨Nat.le_add_right _ _, by dsimp only; omega, fun p member => ?_⟩
      rcases List.mem_cons.mp member with rfl | before
      · exact .inr (by omega)
      · exact .inl before
    · exact List.drop_drop.symm
    · dsimp only
      omega
  fails c inside refused := by
    unfold Readers.take at refused
    split_ifs at refused with short
    rw [List.length_drop, ← Buffer.sub_of_le inside addressable] at short
    exact ⟨c, bind_failure (need_short short), ⟨le_rfl, inside, fun p member => .inl member⟩,
      by omega⟩

end Rules

end Cursor
