/-
**What glob patterns match.**

A pattern is a list of parts (`GlobReads`): stars, question marks, bracket classes, other bytes. A
subject matches if it can be split so that each part takes its piece (`Splits`).

* `globRecNested_splits` — the matcher comes to an end, at a depth that the length of the pattern
  bounds, and finds a split if there is one;
* `glob_matches_declared` — for a pattern whose bytes outside classes are ASCII it decides the
  declared meaning;
* `literal_match_iff` — a literal byte from `0x80` on matches nothing, not even itself.
-/

import Miniredis.Lib.Splits
import Miniredis.Structures.IntegerTexts

namespace Miniredis

/-! ### Patterns -/

/-- A member of a bracket class. -/
inductive ClassMember where
  | byte (b : UInt8)
  | range (lo hi : UInt8)

def ClassMember.contains : ClassMember → UInt8 → Bool
  | byte b, c => c = b
  | range lo hi, c => lo ≤ c && c ≤ hi

/-- The text of members up to the closing bracket, which is no member unless it comes first. A dash
between two bytes makes a range. -/
inductive ClassMembers : Bool → Bytes → List ClassMember → Prop
  | close : ClassMembers false [] []
  | range {first : Bool} {lo hi : UInt8} {rest : Bytes} {members : List ClassMember}
      (inside : first = false → lo ≠ 93) (upper : hi ≠ 93)
      (later : ClassMembers false rest members) :
      ClassMembers first (lo :: 45 :: hi :: rest) (.range lo hi :: members)
  | byte {first : Bool} {lo : UInt8} {rest : Bytes} {members : List ClassMember}
      (inside : first = false → lo ≠ 93) (single : ∀ hi later, rest ≠ 45 :: hi :: later)
      (later : ClassMembers false rest members) :
      ClassMembers first (lo :: rest) (.byte lo :: members)

/-- The text between the brackets: a mark that negates, or none, and the members. -/
inductive ClassText : Bytes → Bool → List ClassMember → Prop
  | plain {text : Bytes} {members : List ClassMember} (first : text.head? ≠ some 33)
      (first' : text.head? ≠ some 94) (inside : ClassMembers true text members) :
      ClassText text false members
  | negated {mark : UInt8} {text : Bytes} {members : List ClassMember}
      (marked : mark = 33 ∨ mark = 94) (inside : ClassMembers true text members) :
      ClassText (mark :: text) true members

inductive GlobPart where
  | star
  | any
  | cls (negated : Bool) (members : List ClassMember)
  | byte (b : UInt8)
  | unclosed

/-- The parts of a pattern. A bracket that no class closes is the last of them. -/
inductive GlobReads : Bytes → List GlobPart → Prop
  | done : GlobReads [] []
  | star {pattern : Bytes} {parts : List GlobPart} (later : GlobReads pattern parts) :
      GlobReads (42 :: pattern) (.star :: parts)
  | any {pattern : Bytes} {parts : List GlobPart} (later : GlobReads pattern parts) :
      GlobReads (63 :: pattern) (.any :: parts)
  | cls {text pattern : Bytes} {negated : Bool} {members : List ClassMember}
      {parts : List GlobPart} (inside : ClassText text negated members)
      (later : GlobReads pattern parts) :
      GlobReads (91 :: (text ++ 93 :: pattern)) (.cls negated members :: parts)
  | byte {b : UInt8} {pattern : Bytes} {parts : List GlobPart} (star : b ≠ 42) (any : b ≠ 63)
      (bracket : b ≠ 91) (later : GlobReads pattern parts) :
      GlobReads (b :: pattern) (.byte b :: parts)
  | unclosed {pattern : Bytes} (never : ∀ text rest negated members,
      ClassText text negated members → pattern ≠ text ++ 93 :: rest) :
      GlobReads (91 :: pattern) [.unclosed]

/-- What a part takes. -/
def GlobPart.Takes : GlobPart → Bytes → Prop
  | star, _ => True
  | any, piece => ∃ c, piece = [c]
  | cls negated members, piece =>
    ∃ c, piece = [c] ∧ ((∃ m ∈ members, m.contains c = true) ↔ negated = false)
  | byte b, piece => piece = [b]
  | unclosed, _ => False

/-- What the matcher lets a part take: a literal is compared as a plain `char`. -/
def GlobPart.Hits : GlobPart → Bytes → Prop
  | byte b, piece => ∃ c, piece = [c] ∧ plainChar b = c.toNat
  | part, piece => part.Takes piece

/-! ### Classes -/

section Classes

variable {c : UInt8} {first matched negated : Bool} {text rest pattern : Bytes}
  {members : List ClassMember}

theorem globClassLoop_end : globClassLoop c false matched (93 :: rest) = (matched, 93 :: rest) := by
  unfold globClassLoop
  split
  · rename_i same; cases same
  · rename_i same
    cases same
    exact if_pos rfl
  · rename_i same
    cases same
    exact if_pos rfl

theorem globClassLoop_range {lo hi : UInt8} (inside : first = false → lo ≠ 93) (upper : hi ≠ 93) :
    globClassLoop c first matched (lo :: 45 :: hi :: rest) =
      globClassLoop c false (matched || (lo ≤ c && c ≤ hi)) rest := by
  have goes : ¬ (!first && decide (lo = 93)) = true := by
    cases first <;> simp_all
  rw [globClassLoop, if_neg goes, if_pos upper]

theorem globClassLoop_byte {lo : UInt8} (inside : first = false → lo ≠ 93)
    (single : ∀ hi later, rest = 45 :: hi :: later → hi = 93) :
    globClassLoop c first matched (lo :: rest) =
      globClassLoop c false (matched || decide (c = lo)) rest := by
  have goes : ¬ (!first && decide (lo = 93)) = true := by
    cases first <;> simp_all
  rw [globClassLoop.eq_def]
  split
  · rename_i same; cases same
  · rename_i same
    cases same
    rw [if_neg goes, if_neg (not_not.mpr (single _ _ rfl))]
  · rename_i same
    cases same
    rw [if_neg goes]

/-- **The member loop on a class that is closed.** -/
theorem globClassLoop_members (inside : ClassMembers first text members) (matched : Bool) :
    globClassLoop c first matched (text ++ 93 :: rest) =
      (matched || members.any (·.contains c), 93 :: rest) := by
  induction inside generalizing matched with
  | close => rw [List.nil_append, globClassLoop_end, List.any_nil, Bool.or_false]
  | range notEnd upper _ ih =>
    simp only [List.cons_append]
    rw [globClassLoop_range notEnd upper, ih, List.any_cons, Bool.or_assoc]
    rfl
  | @byte _ lo text _ notEnd single _ ih =>
    have next : ∀ hi later, text ++ 93 :: rest = 45 :: hi :: later → hi = 93 := by
      intro hi later same
      rcases text with _ | ⟨dash, _ | ⟨upper, text⟩⟩
      · cases same
      · cases same
        rfl
      · cases same
        exact absurd rfl (single _ _)
    rw [List.cons_append, globClassLoop_byte notEnd next, ih, List.any_cons, Bool.or_assoc]
    rfl

theorem not_classMembers_bracket : ¬ ClassMembers false (93 :: text) members := by
  intro inside
  cases inside with
  | range notEnd _ _ => exact notEnd rfl rfl
  | byte notEnd _ _ => exact notEnd rfl rfl

/-- Otherwise it runs to the end of the pattern. -/
theorem globClassLoop_open (first : Bool) (pattern : Bytes) :
    (∃ text members rest, pattern = text ++ 93 :: rest ∧ ClassMembers first text members) ∨
      ∀ c matched, (globClassLoop c first matched pattern).2 = [] := by
  induction size : pattern.length using Nat.strong_induction_on generalizing first pattern with
  | _ n ih =>
    subst size
    cases pattern with
    | nil =>
      refine .inr fun c matched => ?_
      rw [globClassLoop]
    | cons lo q =>
      by_cases ends : first = false ∧ lo = 93
      · obtain ⟨rfl, rfl⟩ := ends
        exact .inl ⟨[], [], q, rfl, .close⟩
      have inside : first = false → lo ≠ 93 := fun later same => ends ⟨later, same⟩
      by_cases ranged : ∃ hi later, q = 45 :: hi :: later ∧ hi ≠ 93
      · obtain ⟨hi, later, rfl, upper⟩ := ranged
        rcases ih later.length (by simp; omega) false later rfl with
          ⟨text, members, rest, rfl, closed⟩ | runs
        · exact .inl ⟨lo :: 45 :: hi :: text, _, rest, rfl, .range inside upper closed⟩
        · refine .inr fun c matched => ?_
          rw [globClassLoop_range inside upper]
          exact runs c _
      have single : ∀ hi later, q = 45 :: hi :: later → hi = 93 := by
        intro hi later same
        by_contra upper
        exact ranged ⟨hi, later, same, upper⟩
      rcases ih q.length (by simp) false q rfl with ⟨text, members, rest, rfl, closed⟩ | runs
      · refine .inl ⟨lo :: text, _, rest, rfl, .byte inside ?_ closed⟩
        -- a dash before the closing bracket stands for itself
        rintro hi later rfl
        obtain rfl := single hi _ rfl
        cases closed with
        | byte _ _ closed => exact not_classMembers_bracket closed
      · refine .inr fun c matched => ?_
        rw [globClassLoop_byte inside single]
        exact runs c _

/-- What `glob_class` makes of the member loop behind the marks. -/
structure ClassVerdict (pattern : Bytes) (c : UInt8) (negate : Bool) (body : Bytes) : Prop where
  closed : ∀ matched rest, globClassLoop c true false body = (matched, 93 :: rest) →
    globClass pattern c = (matched ^^ negate, rest)
  unclosed : (globClassLoop c true false body).2 = [] → (globClass pattern c).1 = false

theorem globClass_marked {mark : UInt8} (marked : mark = 33 ∨ mark = 94) (body : Bytes)
    (c : UInt8) : ClassVerdict (mark :: body) c true body := by
  constructor
  · intro matched rest stops
    rcases marked with rfl | rfl
    · simp [globClass, stops]
    · simp [globClass, stops]
  · intro runs
    generalize loop : globClassLoop c true false body = looped at runs
    obtain ⟨matched, left⟩ := looped
    dsimp only at runs
    subst runs
    rcases marked with rfl | rfl
    · simp [globClass, loop]
    · simp [globClass, loop]

theorem globClass_plain (first : pattern.head? ≠ some 33) (first' : pattern.head? ≠ some 94)
    (c : UInt8) : ClassVerdict pattern c false pattern := by
  constructor
  · intro matched rest stops
    unfold globClass
    split
    rename_i negate body shape
    split at shape
    · exact absurd rfl first
    · exact absurd rfl first'
    · cases shape
      simp [stops]
  · intro runs
    unfold globClass
    split
    rename_i negate body shape
    split at shape
    · exact absurd rfl first
    · exact absurd rfl first'
    · cases shape
      generalize globClassLoop c true false pattern = looped at runs ⊢
      obtain ⟨matched, left⟩ := looped
      dsimp only at runs
      subst runs
      rfl

/-- **A closed class decides a byte and is passed.** -/
theorem globClass_closed (inside : ClassText text negated members) (c : UInt8) :
    globClass (text ++ 93 :: rest) c = (members.any (·.contains c) ^^ negated, rest) := by
  cases inside with
  | plain first first' inside =>
    have filled : text ≠ [] := by
      rintro rfl
      cases inside
    have same : (text ++ 93 :: rest).head? = text.head? := by
      obtain ⟨byte, later, rfl⟩ := List.exists_cons_of_ne_nil filled
      rfl
    have verdict := globClass_plain (same ▸ first) (same ▸ first') c
    exact verdict.closed _ _ (globClassLoop_members inside false)
  | negated marked inside =>
    exact (globClass_marked marked _ c).closed _ _ (globClassLoop_members inside false)

/-- **A class that is not closed matches nothing.** -/
theorem globClass_unclosed (never : ∀ text rest negated members,
    ClassText text negated members → pattern ≠ text ++ 93 :: rest) (c : UInt8) :
    (globClass pattern c).1 = false := by
  by_cases marked : ∃ mark body, (mark = 33 ∨ mark = 94) ∧ pattern = mark :: body
  · obtain ⟨mark, body, marked, rfl⟩ := marked
    rcases globClassLoop_open true body with ⟨text, members, rest, rfl, inside⟩ | runs
    · exact absurd rfl (never (mark :: text) rest true members (.negated marked inside))
    · exact (globClass_marked marked body c).unclosed (runs c false)
  · have unmarked : ∀ mark, (mark = 33 ∨ mark = 94) → pattern.head? ≠ some mark := by
      intro mark isMark head
      obtain ⟨body, rfl⟩ := List.head?_eq_some_iff.mp head
      exact marked ⟨mark, body, isMark, rfl⟩
    rcases globClassLoop_open true pattern with ⟨text, members, rest, rfl, inside⟩ | runs
    · obtain ⟨byte, later, rfl⟩ : ∃ byte later, text = byte :: later := by
        cases inside <;> exact ⟨_, _, rfl⟩
      exact absurd rfl (never _ rest false members
        (.plain (unmarked 33 (.inl rfl)) (unmarked 94 (.inr rfl)) inside))
    · exact (globClass_plain (unmarked 33 (.inl rfl)) (unmarked 94 (.inr rfl)) c).unclosed
        (runs c false)

/-- A class that accepts a byte is passed. -/
theorem globClass_passed (c : UInt8) (hit : (globClass pattern c).1 = true) :
    (globClass pattern c).2.length ≤ pattern.length := by
  by_cases closed : ∃ text rest negated members,
      ClassText text negated members ∧ pattern = text ++ 93 :: rest
  · obtain ⟨text, rest, negated, members, inside, rfl⟩ := closed
    rw [globClass_closed inside, List.length_append, List.length_cons]
    dsimp only
    omega
  · rw [globClass_unclosed (fun text rest negated members inside same =>
      closed ⟨text, rest, negated, members, inside, same⟩) c] at hit
    cases hit

end Classes

/-! ### The matcher -/

/-- An answer is there, and is right. -/
def Settles (answer : Option Bool) (holds : Prop) : Prop :=
  ∃ b, answer = some b ∧ (b = true ↔ holds)

section Matcher

variable {pattern : Bytes} {parts : List GlobPart}

theorem Settles.congr {answer : Option Bool} {holds holds' : Prop} (settles : Settles answer holds)
    (same : holds ↔ holds') : Settles answer holds' := by
  obtain ⟨b, found, right⟩ := settles
  exact ⟨b, found, right.trans same⟩

theorem Settles.anyM {α : Type} {ask : α → Option Bool} {holds : α → Prop} {l : List α}
    (each : ∀ a ∈ l, Settles (ask a) (holds a)) : Settles (l.anyM ask) (∃ a ∈ l, holds a) := by
  induction l with
  | nil => exact ⟨false, rfl, by simp⟩
  | cons a rest ih =>
    obtain ⟨b, found, right⟩ := each a List.mem_cons_self
    obtain ⟨b', found', right'⟩ := ih (List.forall_mem_cons.mp each).2
    cases b with
    | true =>
      refine ⟨true, by simp [List.anyM, found], iff_of_true rfl ?_⟩
      exact ⟨a, List.mem_cons_self, right.mp rfl⟩
    | false =>
      refine ⟨b', by simp [List.anyM, found, found'], right'.trans ?_⟩
      have fails : ¬ holds a := fun yes => Bool.false_ne_true (right.mpr yes)
      rw [List.exists_mem_cons_iff]
      exact (or_iff_right fails).symm

/-- Every pattern has its parts. -/
theorem globReads_total (pattern : Bytes) : ∃ parts, GlobReads pattern parts := by
  induction size : pattern.length using Nat.strong_induction_on generalizing pattern with
  | _ n ih =>
    subst size
    cases pattern with
    | nil => exact ⟨[], .done⟩
    | cons p pattern =>
      obtain ⟨parts, later⟩ := ih pattern.length (by simp) pattern rfl
      by_cases star : p = 42
      · subst star
        exact ⟨_, .star later⟩
      by_cases any : p = 63
      · subst any
        exact ⟨_, .any later⟩
      by_cases bracket : p = 91
      · subst bracket
        by_cases closed : ∃ text rest negated members,
            ClassText text negated members ∧ pattern = text ++ 93 :: rest
        · obtain ⟨text, rest, negated, members, inside, rfl⟩ := closed
          obtain ⟨parts, later⟩ := ih rest.length (by simp; omega) rest rfl
          exact ⟨_, .cls inside later⟩
        · exact ⟨_, .unclosed fun text rest negated members inside same =>
            closed ⟨text, rest, negated, members, inside, same⟩⟩
      · exact ⟨_, .byte star any bracket later⟩

/-- A run of stars is one. -/
theorem globReads_stars (reads : GlobReads pattern parts) :
    ∃ parts', GlobReads (pattern.dropWhile (· == 42)) parts' ∧ ∀ s,
      Splits GlobPart.Hits (.star :: parts) s ↔ Splits GlobPart.Hits (.star :: parts') s := by
  induction reads with
  | star _ ih =>
    obtain ⟨parts', later, same⟩ := ih
    refine ⟨parts', later, fun s => ?_⟩
    rw [Splits.twice_iff fun _ => trivial, same]
  | done => exact ⟨_, .done, fun _ => Iff.rfl⟩
  | any later _ => exact ⟨_, .any later, fun _ => Iff.rfl⟩
  | cls inside later _ => exact ⟨_, .cls inside later, fun _ => Iff.rfl⟩
  | @byte b _ _ star any bracket later _ =>
    rw [List.dropWhile_cons_of_neg (by simpa using star)]
    exact ⟨_, .byte star any bracket later, fun _ => Iff.rfl⟩
  | unclosed never => exact ⟨_, .unclosed never, fun _ => Iff.rfl⟩

/-- A part that takes one byte, behind which the matcher goes on. -/
theorem Settles.step {part : GlobPart} {accepts : UInt8 → Prop} {c : UInt8} {s : Bytes}
    {answer : Option Bool} (single : ∀ piece, part.Hits piece ↔ ∃ a, piece = [a] ∧ accepts a)
    (settles : Settles answer (accepts c ∧ Splits GlobPart.Hits parts s)) :
    Settles answer (Splits GlobPart.Hits (part :: parts) (c :: s)) := by
  refine settles.congr ?_
  rw [Splits.single_iff single]
  constructor
  · rintro ⟨accepted, later⟩
    exact ⟨c, s, rfl, accepted, later⟩
  · rintro ⟨a, rest, same, accepted, later⟩
    cases same
    exact ⟨accepted, later⟩

/-- No part that takes one byte matches an empty subject. -/
theorem settles_empty {part : GlobPart} {accepts : UInt8 → Prop}
    (single : ∀ piece, part.Hits piece ↔ ∃ a, piece = [a] ∧ accepts a) :
    Settles (some false) (Splits GlobPart.Hits (part :: parts) []) := by
  refine ⟨false, rfl, iff_of_false Bool.false_ne_true ?_⟩
  rw [Splits.single_iff single]
  rintro ⟨a, rest, same, _⟩
  cases same

theorem hits_any (piece : Bytes) : GlobPart.any.Hits piece ↔ ∃ c, piece = [c] ∧ True := by
  simp [GlobPart.Hits, GlobPart.Takes]

theorem hits_unclosed (piece : Bytes) :
    GlobPart.unclosed.Hits piece ↔ ∃ c, piece = [c] ∧ False := by
  simp [GlobPart.Hits, GlobPart.Takes]

theorem globRecNested_star (depth : Nat) (pattern s : Bytes) :
    globRecNested (depth + 1) (42 :: pattern) s =
      if pattern.dropWhile (· == 42) = [] then some true
      else s.tails.anyM fun rest => globRecNested depth (pattern.dropWhile (· == 42)) rest := by
  rw [globRecNested.eq_def]
  exact if_pos rfl

theorem globRecNested_nil (depth : Nat) {p : UInt8} (other : p ≠ 42) (pattern : Bytes) :
    globRecNested (depth + 1) (p :: pattern) [] = some false := by
  rw [globRecNested.eq_def]
  exact if_neg other

theorem globRecNested_cons (depth : Nat) {p : UInt8} (other : p ≠ 42) (pattern : Bytes) (c : UInt8)
    (s : Bytes) : globRecNested (depth + 1) (p :: pattern) (c :: s) =
      if p = 63 then globRecNested depth pattern s
      else if p = 91 then
        if (globClass pattern c).1 then globRecNested depth (globClass pattern c).2 s
        else some false
      else if plainChar p = c.toNat then globRecNested depth pattern s
      else some false := by
  rw [globRecNested.eq_def]
  exact if_neg other

/-- **The matcher ends and finds a split if there is one.** -/
theorem globRecNested_splits (reads : GlobReads pattern parts) {depth : Nat}
    (deep : pattern.length < depth) (s : Bytes) :
    Settles (globRecNested depth pattern s) (Splits GlobPart.Hits parts s) := by
  induction depth generalizing pattern parts s with
  | zero => cases deep
  | succ depth ih =>
    cases reads with
    | done =>
      refine ⟨s.isEmpty, rfl, ?_⟩
      rw [Splits.nil_iff, List.isEmpty_iff]
    | @star pattern parts later =>
      obtain ⟨parts', reads', same⟩ := globReads_stars later
      have short : (pattern.dropWhile (· == 42)).length < depth :=
        lt_of_le_of_lt (List.dropWhile_sublist _).length_le (Nat.lt_of_succ_lt_succ deep)
      rw [globRecNested_star]
      refine Settles.congr ?_ (same s).symm
      by_cases last : pattern.dropWhile (· == 42) = []
      · rw [if_pos last]
        rw [last] at reads'
        cases reads'
        refine ⟨true, rfl, iff_of_true rfl ?_⟩
        exact (Splits.suffix_iff fun _ => trivial).mpr ⟨[], List.nil_suffix, Splits.nil_iff.mpr rfl⟩
      · rw [if_neg last]
        refine (Settles.anyM fun rest _ => ih reads' short rest).congr ?_
        rw [Splits.suffix_iff fun _ => trivial]
        simp only [List.mem_tails]
    | any later =>
      have short := Nat.lt_of_succ_lt_succ deep
      cases s with
      | nil =>
        rw [globRecNested_nil depth (by decide)]
        exact settles_empty hits_any
      | cons c s =>
        rw [globRecNested_cons depth (by decide), if_pos rfl]
        exact .step hits_any ((ih later short s).congr (and_iff_right trivial).symm)
    | @cls text pattern negated members parts inside later =>
      have single (piece : Bytes) : (GlobPart.cls negated members).Hits piece ↔
          ∃ c, piece = [c] ∧ ((∃ m ∈ members, m.contains c = true) ↔ negated = false) := Iff.rfl
      cases s with
      | nil =>
        rw [globRecNested_nil depth (by decide)]
        exact settles_empty single
      | cons c s =>
        have short : pattern.length < depth := by
          simp at deep
          omega
        have accepted : (members.any (·.contains c) ^^ negated) = true ↔
            ((∃ m ∈ members, m.contains c = true) ↔ negated = false) := by
          rw [← List.any_eq_true]
          cases members.any (·.contains c) <;> cases negated <;> decide
        rw [globRecNested_cons depth (by decide), if_neg (by decide), if_pos rfl,
          globClass_closed inside]
        refine .step single ?_
        by_cases hit : (members.any (·.contains c) ^^ negated) = true
        · rw [if_pos hit]
          exact (ih later short s).congr (and_iff_right (accepted.mp hit)).symm
        · rw [if_neg hit]
          exact ⟨false, rfl, iff_of_false Bool.false_ne_true fun both => hit (accepted.mpr both.1)⟩
    | @byte b pattern parts star any bracket later =>
      have single (piece : Bytes) : (GlobPart.byte b).Hits piece ↔
          ∃ c, piece = [c] ∧ plainChar b = c.toNat := Iff.rfl
      have short := Nat.lt_of_succ_lt_succ deep
      cases s with
      | nil =>
        rw [globRecNested_nil depth star]
        exact settles_empty single
      | cons c s =>
        rw [globRecNested_cons depth star, if_neg any, if_neg bracket]
        refine .step single ?_
        by_cases hit : plainChar b = c.toNat
        · rw [if_pos hit]
          exact (ih later short s).congr (and_iff_right hit).symm
        · rw [if_neg hit]
          exact ⟨false, rfl, iff_of_false Bool.false_ne_true fun both => hit both.1⟩
    | @unclosed pattern never =>
      cases s with
      | nil =>
        rw [globRecNested_nil depth (by decide)]
        exact settles_empty hits_unclosed
      | cons c s =>
        rw [globRecNested_cons depth (by decide), if_neg (by decide), if_pos rfl,
          globClass_unclosed never c]
        exact .step hits_unclosed ⟨false, rfl, by simp⟩

/-- The comparison of a plain `char` with an `unsigned char`. -/
theorem plainChar_hits (p c : UInt8) :
    plainChar p = c.toNat ↔ (decide (p < 128) && decide (p = c)) = true := by
  have bound := p.toNat_lt
  rw [Bool.and_eq_true, decide_eq_true_iff, decide_eq_true_iff, UInt8.lt_iff_toNat_lt]
  show _ ↔ p.toNat < 128 ∧ p = c
  rcases Nat.lt_or_ge p.toNat 128 with small | large
  · rw [plainChar_of_small small, Nat.cast_inj, UInt8.toNat_inj, and_iff_right small]
  · rw [plainChar_of_large large]
    omega

/-- The matcher of `KEYS` is the same, with the length of the pattern for its depth. -/
theorem globRecNested_eq {depth : Nat} {pattern : Bytes} (deep : pattern.length ≤ depth)
    (s : Bytes) : globRecNested (depth + 1) pattern s = some (globRec depth pattern s) := by
  induction depth generalizing pattern s with
  | zero =>
    obtain rfl := List.length_eq_zero_iff.mp (Nat.le_zero.mp deep)
    rfl
  | succ depth ih =>
    cases pattern with
    | nil => rfl
    | cons p pattern =>
      have short : pattern.length ≤ depth := Nat.le_of_succ_le_succ deep
      rw [globRec.eq_def]
      dsimp only
      by_cases star : p = 42
      · subst star
        have rest : (pattern.dropWhile (· == 42)).length ≤ depth :=
          (List.dropWhile_sublist _).length_le.trans short
        have each : (fun tail => globRecNested (depth + 1) (pattern.dropWhile (· == 42)) tail) =
            fun tail => some (globRec depth (pattern.dropWhile (· == 42)) tail) :=
          funext fun tail => ih rest tail
        rw [globRecNested_star, if_pos rfl, each]
        split
        · rfl
        · exact List.anyM_pure
      rw [if_neg star]
      cases s with
      | nil => exact globRecNested_nil _ star pattern
      | cons c s =>
        rw [globRecNested_cons _ star]
        simp only [plainChar_hits, ih short]
        by_cases hit : (globClass pattern c).1 = true
        · rw [if_pos hit, if_pos hit, ih ((globClass_passed c hit).trans short)]
          split_ifs <;> rfl
        · rw [if_neg hit, if_neg hit]
          split_ifs <;> rfl

end Matcher

/-! ### Calls -/

/-- The call returns, with this answer. -/
def GlobReturns (pat s : Bytes) (answer : Bool) : Prop :=
  ∃ depth, ∀ more, utilGlobMatchNested (depth + more) pat s = some answer

section Calls

variable {pat s w : Bytes} {parts : List GlobPart}

/-- **A call returns, and tells whether there is a split.** -/
theorem globReturns_splits (reads : GlobReads (cstr pat) parts) (s : Bytes) :
    ∃ answer, GlobReturns pat s answer ∧ (answer = true ↔ Splits GlobPart.Hits parts s) := by
  have deep (more : Nat) : (cstr pat).length < (cstr pat).length + 1 + more := by omega
  obtain ⟨answer, found, right⟩ := globRecNested_splits reads (deep 0) s
  refine ⟨answer, ⟨(cstr pat).length + 1, fun more => ?_⟩, right⟩
  obtain ⟨answer', found', right'⟩ := globRecNested_splits reads (deep more) s
  have same : answer' = answer := Bool.eq_iff_iff.mpr (right'.trans right.symm)
  exact found'.trans (congrArg some same)

/-- A call returns one answer. -/
theorem GlobReturns.unique {answer answer' : Bool} (returns : GlobReturns pat s answer)
    (returns' : GlobReturns pat s answer') : answer = answer' := by
  obtain ⟨depth, found⟩ := returns
  obtain ⟨depth', found'⟩ := returns'
  have same := (found depth').symm.trans (Nat.add_comm depth depth' ▸ found' depth)
  exact Option.some.inj same

theorem globReturns_true (reads : GlobReads (cstr pat) parts) :
    GlobReturns pat s true ↔ Splits GlobPart.Hits parts s := by
  obtain ⟨answer, returns, right⟩ := globReturns_splits reads s
  constructor
  · intro yes
    exact right.mp (returns.unique yes)
  · intro split
    rwa [right.mpr split] at returns

/-- The model of `util_glob_match` gives the answer of the call. -/
theorem globReturns_utilGlobMatch (pat s : Bytes) :
    GlobReturns pat s (utilGlobMatch (cstr pat) s) := by
  obtain ⟨parts, reads⟩ := globReads_total (cstr pat)
  obtain ⟨answer, returns, right⟩ := globReturns_splits reads s
  obtain ⟨answer', found, right'⟩ := globRecNested_splits reads (Nat.lt_succ_self _) s
  have same : utilGlobMatch (cstr pat) s = answer' :=
    Option.some.inj ((globRecNested_eq le_rfl s).symm.trans found)
  rwa [same, Bool.eq_iff_iff.mpr (right'.trans right.symm)]

/-- A part that is an ASCII byte or none takes what it is declared to take. -/
theorem hits_iff_takes (ascii : ∀ b, .byte b ∈ parts → b < 128) :
    ∀ part ∈ parts, ∀ piece, part.Hits piece ↔ part.Takes piece := by
  intro part member piece
  cases part with
  | byte b =>
    have small := UInt8.lt_iff_toNat_lt.mp (ascii b member)
    show (∃ c, piece = [c] ∧ plainChar b = c.toNat) ↔ piece = [b]
    rw [plainChar_of_small small]
    simp only [Nat.cast_inj, UInt8.toNat_inj]
    constructor
    · rintro ⟨c, rfl, rfl⟩
      rfl
    · rintro rfl
      exact ⟨b, rfl, rfl⟩
  | star | any | cls | unclosed => exact Iff.rfl

/-- **Glob patterns match what they are declared to match.** -/
theorem glob_matches_declared (pat s : Bytes) :
    (∃ answer, GlobReturns pat s answer) ∧ (∃ parts, GlobReads (cstr pat) parts) ∧
    ∀ parts, GlobReads (cstr pat) parts → (∀ b, .byte b ∈ parts → b < 128) →
      (GlobReturns pat s true ↔ Splits GlobPart.Takes parts s) ∧
      (.unclosed ∈ parts → GlobReturns pat s false) := by
  refine ⟨⟨_, globReturns_utilGlobMatch pat s⟩, globReads_total _, fun parts reads ascii => ?_⟩
  refine ⟨(globReturns_true reads).trans (Splits.congr (hits_iff_takes ascii)), fun unclosed => ?_⟩
  obtain ⟨answer, returns, right⟩ := globReturns_splits reads s
  have never : ¬ Splits GlobPart.Hits parts s := by
    intro splits
    obtain ⟨piece, taken⟩ := splits.taken unclosed
    exact taken
  rwa [Bool.eq_false_iff.mpr (mt right.mp never)] at returns

/-! ### Literals -/

/-- A byte without a meaning of its own in a pattern. -/
def IsLiteral (b : UInt8) : Prop := b ≠ 0 ∧ b ≠ 42 ∧ b ≠ 63 ∧ b ≠ 91

instance (b : UInt8) : Decidable (IsLiteral b) := inferInstanceAs (Decidable (_ ∧ _))

/-- Literals in front of a pattern. -/
theorem globReads_literals (literal : ∀ b ∈ w, IsLiteral b) {pattern : Bytes}
    (later : GlobReads pattern parts) : GlobReads (w ++ pattern) (w.map .byte ++ parts) := by
  induction w with
  | nil => exact later
  | cons b w ih =>
    obtain ⟨_, star, any, bracket⟩ := literal b List.mem_cons_self
    exact .byte star any bracket (ih fun x member => literal x (List.mem_cons_of_mem _ member))

/-- **Literals take themselves**, if they are ASCII. -/
theorem splits_literals (w : Bytes) (parts : List GlobPart) (s : Bytes) :
    Splits GlobPart.Hits (w.map .byte ++ parts) s ↔
      (∀ b ∈ w, b < 128) ∧ ∃ rest, s = w ++ rest ∧ Splits GlobPart.Hits parts rest := by
  induction w generalizing s with
  | nil => simp
  | cons b w ih =>
    have hits (c : UInt8) : plainChar b = c.toNat ↔ b < 128 ∧ b = c := by
      rw [plainChar_hits, Bool.and_eq_true, decide_eq_true_iff, decide_eq_true_iff]
    have single (piece : Bytes) : (GlobPart.byte b).Hits piece ↔
        ∃ c, piece = [c] ∧ plainChar b = c.toNat := Iff.rfl
    rw [List.map_cons, List.cons_append, Splits.single_iff single]
    simp only [hits, ih, List.forall_mem_cons]
    constructor
    · rintro ⟨c, s, rfl, ⟨small, rfl⟩, later, rest, rfl, splits⟩
      exact ⟨⟨small, later⟩, rest, rfl, splits⟩
    · rintro ⟨⟨small, later⟩, rest, rfl, splits⟩
      exact ⟨b, w ++ rest, rfl, ⟨small, rfl⟩, later, rest, rfl, splits⟩

theorem cstr_literals (literal : ∀ b ∈ w, IsLiteral b) : cstr w = w :=
  cstr_of_zero_notMem fun member => (literal 0 member).1 rfl

theorem globReturns_literal (literal : ∀ b ∈ w, IsLiteral b) :
    GlobReturns w s true ↔ (∀ b ∈ w, b < 128) ∧ s = w := by
  have reads := globReads_literals literal .done
  rw [List.append_nil, ← cstr_literals literal] at reads
  rw [globReturns_true reads, cstr_literals literal, splits_literals]
  simp [Splits.nil_iff]

theorem globReturns_prefix (literal : ∀ b ∈ w, IsLiteral b) :
    GlobReturns (w ++ [42]) s true ↔ (∀ b ∈ w, b < 128) ∧ w <+: s := by
  have free : cstr (w ++ [42]) = w ++ [42] := cstr_of_zero_notMem (by
    rw [List.mem_append, not_or]
    exact ⟨fun member => (literal 0 member).1 rfl, by decide⟩)
  have reads := globReads_literals literal (.star .done)
  rw [← free] at reads
  have ends (rest : Bytes) : Splits GlobPart.Hits [.star] rest :=
    (Splits.suffix_iff fun _ => trivial).mpr ⟨[], List.nil_suffix, Splits.nil_iff.mpr rfl⟩
  rw [globReturns_true reads, splits_literals]
  simp only [ends, and_true]
  exact and_congr_right fun _ => ⟨fun ⟨rest, same⟩ => ⟨rest, same.symm⟩,
    fun ⟨rest, same⟩ => ⟨rest, same.symm⟩⟩

/-- **A literal pattern matches itself only if it is ASCII**, and so does one with a star behind
it. -/
theorem literal_match_iff (w s : Bytes) (literal : ∀ b ∈ w, IsLiteral b) :
    ((GlobReturns w s true ↔ s = w) ∧ (GlobReturns (w ++ [42]) s true ↔ w <+: s)) ↔
      ((∀ b ∈ w, b < 128) ∨ ¬ w <+: s) := by
  rw [globReturns_literal literal, globReturns_prefix literal]
  by_cases ascii : ∀ b ∈ w, b < 128
  · exact iff_of_true ⟨and_iff_right ascii, and_iff_right ascii⟩ (.inl ascii)
  constructor
  · rintro ⟨_, starts⟩
    exact .inr fun front => ascii (starts.mpr front).1
  · rintro (always | other)
    · exact absurd always ascii
    · refine ⟨iff_of_false (fun both => ascii both.1) ?_,
        iff_of_false (fun both => ascii both.1) other⟩
      rintro rfl
      exact other (List.prefix_refl _)

/-- An ASCII word matches itself. -/
theorem literal_match_word : GlobReturns [97, 98] [97, 98] true :=
  (((literal_match_iff [97, 98] [97, 98]
    (List.forall_mem_cons.mpr ⟨by decide, List.forall_mem_singleton.mpr (by decide)⟩)).mpr
    (.inl (List.forall_mem_cons.mpr ⟨by decide, List.forall_mem_singleton.mpr (by decide)⟩))).1).mpr
    rfl

/-- The pattern `é` in UTF-8 does not match itself. -/
theorem literal_utf8_misses : ¬ (GlobReturns [0xC3, 0xA9] [0xC3, 0xA9] true ↔
    ([0xC3, 0xA9] : Bytes) = [0xC3, 0xA9]) := by
  have literal : ∀ b ∈ ([0xC3, 0xA9] : Bytes), IsLiteral b :=
    List.forall_mem_cons.mpr ⟨by decide, List.forall_mem_singleton.mpr (by decide)⟩
  rw [globReturns_literal literal]
  intro same
  exact absurd ((same.mpr rfl).1 0xC3 List.mem_cons_self) (by decide)

end Calls

end Miniredis
