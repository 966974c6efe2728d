/-
**What the commands on one key have in common (`db.c`).**

A command on one key either answers at once, or looks its key up, decides and acts. For every such
decision three things are asked: that its reply is one value of the protocol; that an error leaves
the object it found; that without an error no empty container is stored. They are shown here for the
shapes of `Kind` and carried to the handlers (`Handler.Tame`), some of which are excused from one of
them on some of their arguments.
-/

import Miniredis.Dispatch.Replies

namespace Miniredis

/-! ### Decisions -/

section Decisions

/-- The update leaves the object that was found. -/
def Update.Harmless (found : Option Robj) : Update → Prop
  | .keep => True
  | .write o => found = some o
  | .store _ | .remove => False

/-- The update puts no empty container. -/
def Update.Fills : Update → Prop
  | .store o | .write o => o.val.isEmpty = false
  | .keep | .remove => True

/-- The object, if there is one, is no empty container. -/
def Filled (found : Option Robj) : Prop := ∀ o, found = some o → o.val.isEmpty = false

/-- A decision does what is asked; `words` is when its reply must be well formed, `excused` when an
error may do harm. -/
structure Tame (words excused : Prop) (found : Option Robj) (decision : Update × Bytes) : Prop where
  reply : words → WellFormed decision.2
  fails : ¬ excused → IsError decision.2 → decision.1.Harmless found
  fills : Filled found → ¬ IsError decision.2 → decision.1.Fills

/-- Every decision of the body does what is asked. -/
def TameBody (words : Prop) (excused : Option Robj → Prop) (body : Option Robj → Update × Bytes) :
    Prop :=
  ∀ found, Tame words (excused found) found (body found)

variable {words excused : Prop} {found : Option Robj} {out : Bytes} {o : Robj}

theorem Tame.keep (reply : words → WellFormed out) : Tame words excused found (.keep, out) :=
  ⟨reply, fun _ _ => trivial, fun _ _ => trivial⟩

theorem Tame.remove (reply : words → WellFormed out) (succeeds : ¬ IsError out) :
    Tame words excused found (.remove, out) :=
  ⟨reply, fun _ wrong => absurd wrong succeeds, fun _ _ => trivial⟩

theorem Tame.store (reply : words → WellFormed out) (succeeds : ¬ IsError out)
    (fills : o.val.isEmpty = false) : Tame words excused found (.store o, out) :=
  ⟨reply, fun _ wrong => absurd wrong succeeds, fun _ _ => fills⟩

theorem Tame.write (reply : words → WellFormed out) (succeeds : ¬ IsError out)
    (fills : Filled found → o.val.isEmpty = false) : Tame words excused found (.write o, out) :=
  ⟨reply, fun _ wrong => absurd wrong succeeds, fun full _ => fills full⟩

theorem Tame.maybeDelete (reply : words → WellFormed out) (succeeds : ¬ IsError out) :
    Tame words excused found (maybeDeleteKey o, out) := by
  refine ⟨reply, fun _ wrong => absurd wrong succeeds, fun _ _ => ?_⟩
  unfold maybeDeleteKey
  split_ifs with empty
  · trivial
  · exact Bool.eq_false_of_not_eq_true empty

end Decisions

/-! ### Commands on one type of value -/

namespace Kind

variable {α : Type}

/-- A value of the type is the one it wraps. -/
def Exact (kind : Kind α) : Prop := ∀ v a, kind.unwrap v = some a → v = kind.wrap a

theorem stringKind_exact : stringKind.Exact := by
  rintro (_ | _ | _ | _ | _) a ⟨⟩
  rfl

theorem listKind_exact : listKind.Exact := by
  rintro (_ | _ | _ | _ | _) a ⟨⟩
  rfl

theorem hashKind_exact : hashKind.Exact := by
  rintro (_ | _ | _ | _ | _) a ⟨⟩
  rfl

theorem setKind_exact : setKind.Exact := by
  rintro (_ | _ | _ | _ | _) a ⟨⟩
  rfl

theorem zsetKind_exact : zsetKind.Exact := by
  rintro (_ | _ | _ | _ | _) a ⟨⟩
  rfl

variable {kind : Kind α} {words : Prop} {excused : Option Robj → Prop}

theorem body_tame (exact : kind.Exact) {missing : Update × Bytes}
    {present : Int → α → Update × Bytes} (absent : Tame words (excused none) none missing)
    (there : ∀ expireAt a, Tame words (excused (some ⟨kind.wrap a, expireAt⟩))
      (some ⟨kind.wrap a, expireAt⟩) (present expireAt a)) :
    TameBody words excused (kind.body missing present) := by
  intro found
  cases found with
  | none => exact absent
  | some o =>
    unfold body
    dsimp only
    cases typed : kind.unwrap o.val with
    | none => exact .keep fun _ => wellFormed_wrongtype
    | some a =>
      have same : o = ⟨kind.wrap a, o.expireAt⟩ := by rw [← exact _ _ typed]
      have done := there o.expireAt a
      rwa [← same] at done

theorem read_tame (exact : kind.Exact) {missing : Bytes} {reply : α → Bytes}
    (absent : words → WellFormed missing) (there : words → ∀ a, WellFormed (reply a)) :
    TameBody words excused (kind.read missing reply) :=
  body_tame exact (.keep absent) fun _ a => .keep fun worded => there worded a

/-- What is asked of a change to a value that is there. -/
structure Changes (kind : Kind α) (a : α) (result : α × Bytes) : Prop where
  reply : WellFormed result.2
  fails : IsError result.2 → result.1 = a
  fills : (kind.wrap a).isEmpty = false → ¬ IsError result.2 →
    (kind.wrap result.1).isEmpty = false

theorem Changes.refuses {a : α} {out : Bytes} (reply : WellFormed out) : kind.Changes a (a, out) :=
  ⟨reply, fun _ => rfl, fun full _ => full⟩

theorem Changes.sets {a after : α} {out : Bytes} (reply : WellFormed out)
    (succeeds : ¬ IsError out)
    (fills : (kind.wrap a).isEmpty = false → (kind.wrap after).isEmpty = false) :
    kind.Changes a (after, out) :=
  ⟨reply, fun wrong => absurd wrong succeeds, fun full _ => fills full⟩

theorem Changes.write {a : α} {result : α × Bytes} {excused : Prop}
    (changes : kind.Changes a result) (expireAt : Int) :
    Tame words excused (some ⟨kind.wrap a, expireAt⟩)
      (.write ⟨kind.wrap result.1, expireAt⟩, result.2) where
  reply _ := changes.reply
  fails _ wrong := by
    rw [changes.fails wrong]
    rfl
  fills full succeeds := changes.fills (full _ rfl) succeeds

theorem edit_tame (exact : kind.Exact) {missing : Bytes} {act : α → α × Bytes}
    (absent : WellFormed missing) (changes : ∀ a, kind.Changes a (act a)) :
    TameBody words excused (kind.edit missing act) :=
  body_tame exact (.keep fun _ => absent) fun expireAt a => (changes a).write expireAt

theorem shrink_tame (exact : kind.Exact) {missing : Bytes} {act : α → α × Bytes}
    (absent : WellFormed missing) (reply : ∀ a, WellFormed (act a).2)
    (succeeds : ∀ a, ¬ IsError (act a).2) : TameBody words excused (kind.shrink missing act) :=
  body_tame exact (.keep fun _ => absent) fun _ a =>
    .maybeDelete (fun _ => reply a) (succeeds a)

theorem upsert_tame (exact : kind.Exact) {seed : Seed} {act : α → α × Bytes}
    (fresh : ¬ excused none → ¬ IsError (act (kind.fresh seed)).2)
    (filled : ¬ IsError (act (kind.fresh seed)).2 →
      (kind.wrap (act (kind.fresh seed)).1).isEmpty = false)
    (changes : ∀ a, kind.Changes a (act a)) : TameBody words excused (kind.upsert seed act) :=
  body_tame exact
    ⟨fun _ => (changes _).reply, fun asked wrong => absurd wrong (fresh asked),
      fun _ succeeds => filled succeeds⟩
    fun expireAt a => (changes a).write expireAt

/-- A change that always succeeds and always leaves something. -/
structure Puts (kind : Kind α) (act : α → α × Bytes) (a : α) : Prop where
  reply : WellFormed (act a).2
  succeeds : ¬ IsError (act a).2
  fills : (kind.wrap (act a).1).isEmpty = false

theorem Puts.changes {act : α → α × Bytes} {a : α} (puts : kind.Puts act a) :
    kind.Changes a (act a) :=
  .sets puts.reply puts.succeeds fun _ => puts.fills

theorem puts_tame (exact : kind.Exact) {seed : Seed} {act : α → α × Bytes}
    (puts : ∀ a, kind.Puts act a) : TameBody words excused (kind.upsert seed act) :=
  upsert_tame exact (fun _ => (puts _).succeeds) (fun _ => (puts _).fills) fun a => (puts a).changes

end Kind

/-! ### Handlers -/

section Handlers

variable {env : Env} {argv : Argv} {words : Prop} {excused : Option Robj → Prop}

/-- What a handler does once its arguments are known: it answers at once, or acts on its key. -/
inductive Planned (env : Env) (argv : Argv) (words : Prop) (excused : Option Robj → Prop) :
    (Db → Db × Bytes) → Prop
  | reply {out : Bytes} (whole : WellFormed out) :
      Planned env argv words excused fun db => (db, out)
  | onKey (i : Nat) {body : Option Robj → Update × Bytes} (named : 2 ≤ argv.length)
      (tame : TameBody words excused body) :
      Planned env argv words excused fun db => onKey (env.now i) db (arg argv 1) body

/-- An argument check that answers at once. -/
theorem Planned.check {c : Prop} [Decidable c] {out : Bytes} {rest : Db → Db × Bytes}
    (whole : WellFormed out) (passes : ¬ c → Planned env argv words excused rest) :
    Planned env argv words excused fun db => if c then (db, out) else rest db := by
  by_cases fails : c
  · simp only [if_pos fails]
    exact .reply whole
  · simp only [if_neg fails]
    exact passes fails

/-- A command that acts on one key at most. -/
def Handler.Tame (h : Handler) (words : Argv → Prop) (excused : Argv → Option Robj → Prop) : Prop :=
  ∀ env argv, 13 ∉ arg argv 0 →
    Planned env argv (words argv) (excused argv) fun db => h env db argv

/-- What the command does is settled before it sees the store. -/
theorem Handler.Tame.plan {h : Handler} {words : Argv → Prop} {excused : Argv → Option Robj → Prop}
    (tame : h.Tame words excused) (env : Env) {argv : Argv} (free : 13 ∉ arg argv 0) :
    (∃ out, WellFormed out ∧ ∀ db, h env db argv = (db, out)) ∨
      ∃ i body, 2 ≤ argv.length ∧ TameBody (words argv) (excused argv) body ∧
        ∀ db, h env db argv = onKey (env.now i) db (arg argv 1) body := by
  have planned := tame env argv free
  generalize act : (fun db => h env db argv) = run at planned
  cases planned with
  | reply whole => exact .inl ⟨_, whole, congrFun act⟩
  | onKey i named body => exact .inr ⟨i, _, named, body, congrFun act⟩

end Handlers

end Miniredis
