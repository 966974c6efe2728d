/-
**Readers.**

A reader takes a value from the front of a list and leaves the rest, or fails.

* `Parses` — it takes exactly the pieces that a relation describes; `Parses.map`, `Parses.andThen`
  and `Parses.loop` for the composed readers;
* `Parses.stable`, `Parses.cut` — what follows a piece does not matter, and a proper part of a piece
  is refused;
* `Completes` — it refuses nothing but parts: what it refuses, more elements complete.
-/

import Mathlib.Data.List.Basic
import Mathlib.Data.List.Infix

namespace Readers

variable {β α γ σ : Type}

/-- The first `n` elements. -/
def take (n : Nat) (buf : List β) : Option (List β × List β) :=
  if n > buf.length then none else some (buf.take n, buf.drop n)

def map (f : α → γ) (r : List β → Option (α × List β)) (buf : List β) : Option (γ × List β) :=
  (r buf).bind fun found => some (f found.1, found.2)

/-- A reader and then one that depends on what it has read. -/
def andThen (r : List β → Option (α × List β)) (s : α → List β → Option (γ × List β))
    (buf : List β) : Option (γ × List β) :=
  (r buf).bind fun found => s found.1 found.2

/-- `n` readers over an accumulator. -/
def loop (item : σ → List β → Option (σ × List β)) : Nat → σ → List β → Option (σ × List β)
  | 0, acc => fun buf => some (acc, buf)
  | n + 1, acc => andThen (item acc) (loop item n)

/-! ### Pieces -/

/-- The reader takes exactly the pieces described. -/
def Parses (r : List β → Option (α × List β)) (describes : α → List β → Prop) : Prop :=
  ∀ buf a rest, r buf = some (a, rest) ↔ ∃ piece, describes a piece ∧ buf = piece ++ rest

section Parses

variable {r : List β → Option (α × List β)} {s : α → List β → Option (γ × List β)}
  {describes describes' : α → List β → Prop} {describesNext : α → γ → List β → Prop}

theorem Parses.congr (parses : Parses r describes)
    (same : ∀ a piece, describes a piece ↔ describes' a piece) : Parses r describes' := by
  intro buf a rest
  rw [parses]
  exact exists_congr fun piece => and_congr_left fun _ => same a piece

theorem parses_take (n : Nat) :
    Parses (take n) fun (bytes piece : List β) => bytes = piece ∧ piece.length = n := by
  intro buf bytes rest
  unfold take
  constructor
  · intro found
    split_ifs at found with short
    cases found
    exact ⟨buf.take n, ⟨rfl, List.length_take_of_le (by omega)⟩, (List.take_append_drop n buf).symm⟩
  · rintro ⟨piece, ⟨rfl, rfl⟩, rfl⟩
    rw [if_neg (by simp), List.take_left, List.drop_left]

theorem Parses.map (parses : Parses r describes) (f : α → γ) :
    Parses (map f r) fun b piece => ∃ a, b = f a ∧ describes a piece := by
  intro buf b rest
  unfold Readers.map
  rw [Option.bind_eq_some_iff]
  constructor
  · rintro ⟨⟨a, left⟩, found, same⟩
    cases same
    obtain ⟨piece, described, shape⟩ := (parses buf a left).mp found
    exact ⟨piece, ⟨a, rfl, described⟩, shape⟩
  · rintro ⟨piece, ⟨a, rfl, described⟩, shape⟩
    exact ⟨(a, rest), (parses buf a rest).mpr ⟨piece, described, shape⟩, rfl⟩

theorem Parses.andThen (first : Parses r describes) (next : ∀ a, Parses (s a) (describesNext a)) :
    Parses (andThen r s) fun b piece => ∃ a front back,
      describes a front ∧ describesNext a b back ∧ piece = front ++ back := by
  intro buf b rest
  unfold Readers.andThen
  rw [Option.bind_eq_some_iff]
  constructor
  · rintro ⟨⟨a, left⟩, found, later⟩
    obtain ⟨front, described, rfl⟩ := (first buf a left).mp found
    obtain ⟨back, follows, rfl⟩ := (next a left b rest).mp later
    exact ⟨front ++ back, ⟨a, front, back, described, follows, rfl⟩,
      (List.append_assoc front back rest).symm⟩
  · rintro ⟨piece, ⟨a, front, back, described, follows, rfl⟩, rfl⟩
    refine ⟨(a, back ++ rest), ?_, ?_⟩
    · exact (first _ _ _).mpr ⟨front, described, List.append_assoc front back rest⟩
    · exact (next a _ _ _).mpr ⟨back, follows, rfl⟩

/-- A loop takes its items one after another. -/
theorem Parses.loop {item : σ → List β → Option (σ × List β)} {add : σ → α → σ}
    {valid : α → Prop} {write : α → List β}
    (each : ∀ acc, Parses (item acc) fun acc' piece =>
      ∃ a, acc' = add acc a ∧ valid a ∧ piece = write a) (n : Nat) (acc : σ) :
    Parses (loop item n acc) fun acc' piece => ∃ items : List α, items.length = n ∧
      acc' = items.foldl add acc ∧ (∀ a ∈ items, valid a) ∧ piece = items.flatMap write := by
  induction n generalizing acc with
  | zero =>
    intro buf acc' rest
    constructor
    · intro found
      cases found
      exact ⟨[], ⟨[], rfl, rfl, by simp, rfl⟩, rfl⟩
    · rintro ⟨piece, ⟨items, none, rfl, _, rfl⟩, rfl⟩
      rw [List.length_eq_zero_iff.mp none]
      rfl
  | succ n ih =>
    refine ((each acc).andThen ih).congr fun acc' piece => ?_
    constructor
    · rintro ⟨_, front, back, ⟨a, rfl, valid, rfl⟩, ⟨items, rfl, rfl, valids, rfl⟩, rfl⟩
      exact ⟨a :: items, rfl, rfl, List.forall_mem_cons.mpr ⟨valid, valids⟩, rfl⟩
    · rintro ⟨items, count, rfl, valids, rfl⟩
      cases items with
      | nil => cases count
      | cons a items =>
        obtain ⟨valid, valids⟩ := List.forall_mem_cons.mp valids
        exact ⟨_, _, _, ⟨a, rfl, valid, rfl⟩, ⟨items, Nat.succ.inj count, rfl, valids, rfl⟩, rfl⟩

/-- What follows a piece does not matter. -/
theorem Parses.stable (parses : Parses r describes) {buf rest : List β} {a : α}
    (found : r buf = some (a, rest)) (more : List β) :
    r (buf ++ more) = some (a, rest ++ more) := by
  obtain ⟨piece, described, rfl⟩ := (parses buf a rest).mp found
  exact (parses _ _ _).mpr ⟨piece, described, List.append_assoc piece rest more⟩

/-- A proper part of a piece is refused. -/
theorem Parses.cut (parses : Parses r describes) {piece part : List β} {a : α}
    (whole : r piece = some (a, [])) (start : part <+: piece) (proper : part ≠ piece) :
    r part = none := by
  obtain ⟨more, rfl⟩ := start
  rcases found : r part with _ | ⟨b, rest⟩
  · rfl
  · have longer := parses.stable found more
    rw [whole] at longer
    have nothing : rest ++ more = [] := (Prod.mk.inj (Option.some.inj longer)).2.symm
    exact absurd (by rw [(List.append_eq_nil_iff.mp nothing).2, List.append_nil]) proper

end Parses

/-! ### Parts -/

/-- What the reader refuses, more elements complete to a piece. -/
def Completes (r : List β → Option (α × List β)) : Prop :=
  ∀ buf, r buf = none → ∃ more a, r (buf ++ more) = some (a, [])

section Completes

variable {r : List β → Option (α × List β)} {s : α → List β → Option (γ × List β)}
  {describes : α → List β → Prop} {describesNext : α → γ → List β → Prop}

theorem completes_take [Inhabited β] (n : Nat) :
    Completes (take n : List β → Option (List β × List β)) := by
  intro buf refused
  unfold take at refused
  split_ifs at refused with short
  let more := List.replicate (n - buf.length) (default : β)
  have length : (buf ++ more).length = n := by
    rw [List.length_append, List.length_replicate]
    omega
  refine ⟨more, buf ++ more, ?_⟩
  exact (parses_take n _ _ _).mpr ⟨buf ++ more, ⟨rfl, length⟩, by rw [List.append_nil]⟩

theorem Completes.map (completes : Completes r) (f : α → γ) : Completes (map f r) := by
  intro buf refused
  unfold Readers.map at refused ⊢
  rcases found : r buf with _ | ⟨a, left⟩
  · obtain ⟨more, a, whole⟩ := completes buf found
    exact ⟨more, f a, by rw [whole]; rfl⟩
  · rw [found] at refused
    cases refused

/-- Some list is a piece. -/
theorem Completes.exists_piece (completes : Completes r) (parses : Parses r describes) :
    ∃ piece a, r piece = some (a, []) := by
  rcases found : r [] with _ | ⟨a, rest⟩
  · exact completes [] found
  · obtain ⟨piece, _, nothing⟩ := (parses [] a rest).mp found
    rw [(List.append_eq_nil_iff.mp nothing.symm).2] at found
    exact ⟨[], a, found⟩

theorem Completes.andThen (completes : Completes r) (next : ∀ a, Completes (s a))
    (parses : Parses r describes) (parsesNext : ∀ a, Parses (s a) (describesNext a)) :
    Completes (andThen r s) := by
  intro buf refused
  unfold Readers.andThen at refused ⊢
  rcases found : r buf with _ | ⟨a, left⟩
  · obtain ⟨more, a, whole⟩ := completes buf found
    obtain ⟨piece, b, later⟩ := (next a).exists_piece (parsesNext a)
    refine ⟨more ++ piece, b, ?_⟩
    rw [← List.append_assoc, parses.stable whole piece]
    exact later
  · rw [found] at refused
    obtain ⟨more, b, later⟩ := next a left refused
    refine ⟨more, b, ?_⟩
    rw [parses.stable found more]
    exact later

theorem Completes.loop {item : σ → List β → Option (σ × List β)} {add : σ → α → σ}
    {valid : α → Prop} {write : α → List β} (completes : ∀ acc, Completes (item acc))
    (each : ∀ acc, Parses (item acc) fun acc' piece =>
      ∃ a, acc' = add acc a ∧ valid a ∧ piece = write a) (n : Nat) (acc : σ) :
    Completes (loop item n acc) := by
  induction n generalizing acc with
  | zero =>
    intro buf refused
    cases refused
  | succ n ih => exact (completes acc).andThen ih (each acc) (Parses.loop each n)

end Completes

end Readers
