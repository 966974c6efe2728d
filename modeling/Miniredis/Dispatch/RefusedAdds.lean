/-
**What a refused `ZADD` leaves behind (`cmd_zadd`).**

The command creates a missing key before its pair loop, and the loop parses each score right before
it adds the member. A score that is not a number is therefore met with the key created and the
earlier pairs applied. Every other error (options, an odd number of arguments, the type, a sum that
is not a number) is replied before anything is written.

* `zadd_atomic_iff` — an error leaves the data as it was unless a bad score is met at a key that was
  missing, or at a set where the earlier pairs change the score of a member.
* `refused_zadd_adds` — one good pair before a bad one creates the key.
-/

import Mathlib.Data.List.DropRight
import Miniredis.Dispatch.Containers
import Miniredis.Dispatch.Expiration

namespace Miniredis

/-! ### Members and the scores given for them -/

section Members

variable {flags : ZaddFlags}

/-- What a score given for a member makes of the score it has. -/
def zaddScore (flags : ZaddFlags) (stored : Option Double) (score : Double) : Option Double :=
  if (flags.nx && stored.isSome) || (flags.xx && stored.isNone) then stored
  else if stored.any (·.eq score) then stored
  else some score

/-- The scores given leave a member its score: each equals it, or the run of equal ones at the end
begins with it. Equal scores are the same unless they are zeros of two signs, so this says that the
last score given is the member's. -/
def Regained (old : Double) (given : List Double) : Prop :=
  (∀ score ∈ given, old.eq score = true) ∨ (given.rtakeWhile (old.eq ·)).head? = some old

/-- The scores given for a member change nothing. -/
def ZaddFlags.Spares (flags : ZaddFlags) (given : List Double) : Option Double → Prop
  | none => given = [] ∨ flags.xx = true
  | some old => flags.nx = true ∨ Regained old given

theorem doubleEq_iff {a b : Double} :
    a.eq b = true ↔ a.isNaN = false ∧ b.isNaN = false ∧ a.rank = b.rank := by
  simp [Double.eq, and_assoc]

/-- A score given that is not equal to the present one takes its place. -/
def overwrite (present score : Double) : Double := if present.eq score then present else score

theorem foldl_zaddScore_some (given : List Double) (old : Double) :
    given.foldl (zaddScore flags) (some old) =
      some (if flags.nx then old else given.foldl overwrite old) := by
  induction given generalizing old with
  | nil => simp
  | cons score rest ih =>
    have first : zaddScore flags (some old) score =
        some (if flags.nx then old else overwrite old score) := by
      unfold zaddScore overwrite
      cases flags.nx <;> by_cases same : old.eq score = true <;> simp [same]
    rw [List.foldl_cons, List.foldl_cons, first, ih]
    cases flags.nx <;> rfl

/-- The present score is equal to the last one given. -/
theorem overwrite_eq (present : Double) {score : Double} (number : score.isNaN = false) :
    (overwrite present score).eq score = true := by
  unfold overwrite
  split_ifs with same
  · exact same
  · exact doubleEq_iff.mpr ⟨number, number, rfl⟩

/-- The present score is equal to the stored one exactly when the last score given was. -/
theorem foldl_overwrite_eq {given : List Double} (numbers : ∀ score ∈ given, score.isNaN = false)
    {old score : Double} (equal : old.eq score = true) :
    (given.foldl overwrite old).eq score = true ↔
      (given.rtakeWhile (old.eq ·) = [] → given = []) := by
  rcases List.eq_nil_or_concat given with rfl | ⟨front, last, rfl⟩
  · exact iff_of_true equal fun _ => rfl
  have last := overwrite_eq (front.foldl overwrite old) (numbers last (by simp))
  simp only [List.concat_eq_append, List.foldl_concat, List.rtakeWhile_concat] at last ⊢
  rw [doubleEq_iff] at equal last
  simp [doubleEq_iff, equal, last, @eq_comm _ score.rank]

theorem regained_iff {given : List Double} (numbers : ∀ score ∈ given, score.isNaN = false)
    (old : Double) : given.foldl overwrite old = old ↔ Regained old given := by
  induction given using List.reverseRecOn with
  | nil => exact iff_of_true rfl (.inl (by simp))
  | append_singleton front score ih =>
    obtain ⟨earlier, number⟩ := List.forall_mem_append.mp numbers
    replace number := number score List.mem_cons_self
    rw [List.foldl_concat]
    by_cases equal : old.eq score = true
    · have present := foldl_overwrite_eq earlier equal
      rw [Regained, List.rtakeWhile_concat_pos _ _ _ equal, List.forall_mem_append, overwrite]
      split_ifs with same
      · rw [ih earlier, Regained]
        cases run : front.rtakeWhile (old.eq ·) with
        | nil => simp [present.mp same run, equal]
        | cons => simp [equal]
      · obtain ⟨run, filled⟩ := Classical.not_imp.mp (same ∘ present.mpr)
        have other : ¬ ∀ score ∈ front, old.eq score = true := fun all =>
          filled (run ▸ (List.rtakeWhile_eq_self_iff.mpr all).symm)
        simp [run, other]
    · rw [Regained, List.rtakeWhile_concat_neg _ _ _ equal, overwrite]
      refine iff_of_false ?_ (by simp [equal])
      split_ifs with same
      · intro kept
        exact equal (kept ▸ same)
      · rintro rfl
        exact equal (doubleEq_iff.mpr ⟨number, number, rfl⟩)

/-- **A member keeps its score** through the scores given for it under the options' condition. -/
theorem foldl_zaddScore_iff {given : List Double}
    (numbers : ∀ score ∈ given, score.isNaN = false) (stored : Option Double) :
    given.foldl (zaddScore flags) stored = stored ↔ flags.Spares given stored := by
  cases stored with
  | some old =>
    rw [foldl_zaddScore_some, Option.some_inj]
    cases nx : flags.nx with
    | true => exact iff_of_true rfl (.inl nx)
    | false => simp [ZaddFlags.Spares, nx, regained_iff numbers]
  | none =>
    cases xx : flags.xx with
    | true =>
      refine iff_of_true (List.foldl_fixed' (fun score => ?_) given) (.inr xx)
      simp [zaddScore, xx]
    | false =>
      cases given with
      | nil => exact iff_of_true rfl (.inl rfl)
      | cons score rest =>
        have first : zaddScore flags none score = some score := by simp [zaddScore, xx]
        rw [List.foldl_cons, first, foldl_zaddScore_some]
        simp [ZaddFlags.Spares, xx]

end Members

/-! ### Pairs -/

section Pairs

variable {flags : ZaddFlags} {z z' : Zset}

/-- The pairs before the first score that is not a number, when there is such a score. -/
def pairsBeforeBad : List Bytes → Option (List (Double × Bytes))
  | s :: member :: rest =>
    match parseDouble s with
    | none => some []
    | some score => (pairsBeforeBad rest).map ((score, member) :: ·)
  | _ => none

/-- The scores that the pairs give for a member. -/
def scoresGiven (member : Bytes) (pairs : List (Double × Bytes)) : List Double :=
  (pairs.filter (·.2 = member)).map Prod.fst

/-- Sorted sets with the same scores are equal. -/
theorem Zset.eq_of_scores (same : zsetScore z = zsetScore z') : z = z' := by
  have nodes : z.nodes = z'.nodes := by
    refine List.Pairwise.eq_of_mem_iff z.sorted z'.sorted fun node => ?_
    rw [← score_eq_some_iff z node.member node.score, same, score_eq_some_iff]
  cases z
  cases z'
  cases nodes
  rfl

theorem pairsBeforeBad_none {s : Bytes} (bad : parseDouble s = none) (member : Bytes)
    (rest : List Bytes) : pairsBeforeBad (s :: member :: rest) = some [] := by
  rw [pairsBeforeBad, bad]

theorem pairsBeforeBad_some {s : Bytes} {score : Double} (parsed : parseDouble s = some score)
    (member : Bytes) (rest : List Bytes) :
    pairsBeforeBad (s :: member :: rest) =
      (pairsBeforeBad rest).map ((score, member) :: ·) := by
  rw [pairsBeforeBad, parsed]

theorem pairsBeforeBad_single {s member : Bytes} {before : List (Double × Bytes)} :
    pairsBeforeBad [s, member] = some before ↔ parseDouble s = none ∧ before = [] := by
  cases parsed : parseDouble s with
  | none => simp [pairsBeforeBad_none parsed, eq_comm]
  | some score =>
    rw [pairsBeforeBad_some parsed]
    simp [pairsBeforeBad]

/-- A round of the loop. -/
theorem zaddLoop_pair (plain : flags.incr = false) {s : Bytes} {score : Double}
    (parsed : parseDouble s = some score) (member : Bytes) (rest : List Bytes) (z : Zset)
    (n m : Nat) :
    ∃ next n' m', (∀ other, zsetScore next other =
        if other = member then zaddScore flags (zsetScore z member) score
        else zsetScore z other) ∧
      zsetLen next + n = zsetLen z + n' ∧
      zaddLoop flags (s :: member :: rest) z n m = zaddLoop flags rest next n' m' := by
  rw [zaddLoop, parsed]
  simp only [plain, Bool.false_eq_true, if_false]
  by_cases skip : ((flags.nx && (zsetScore z member).isSome) ||
      (flags.xx && (zsetScore z member).isNone)) = true
  · refine ⟨z, n, m, fun other => ?_, rfl, if_pos skip⟩
    split_ifs with here
    · rw [here, zaddScore, if_pos skip]
    · rfl
  · refine ⟨(zsetAdd z score member).2, if (zsetAdd z score member).1 = 1 then n + 1 else n,
      if (zsetAdd z score member).1 = 2 then m + 1 else m, fun other => ?_, ?_, if_neg skip⟩
    · rw [score_add, zaddScore, if_neg skip]
      cases zsetScore z member <;> simp
    · rw [zsetLen_add]
      split_ifs <;> omega

/-- **The loop stops at the first bad score**, with the scores before it given. -/
theorem zaddLoop_bad (plain : flags.incr = false) {pairs : List Bytes}
    {before : List (Double × Bytes)} (bad : pairsBeforeBad pairs = some before) (n m : Nat) :
    (zaddLoop flags pairs z n m).2 = notAFloat ∧
      ∀ member, (zsetScore (zaddLoop flags pairs z n m).1 member =
          (scoresGiven member before).foldl (zaddScore flags) (zsetScore z member)) ∧
        ∀ score ∈ scoresGiven member before, score.isNaN = false := by
  induction pairs using List.twoStepInduction generalizing z before n m with
  | nil => cases bad
  | singleton s => cases bad
  | cons_cons s member rest ih _ =>
    cases parsed : parseDouble s with
    | none =>
      rw [pairsBeforeBad_none parsed] at bad
      cases bad
      rw [zaddLoop, parsed]
      exact ⟨rfl, fun _ => ⟨rfl, by simp [scoresGiven]⟩⟩
    | some score =>
      rw [pairsBeforeBad_some parsed] at bad
      obtain ⟨later, badLater, rfl⟩ := Option.map_eq_some_iff.mp bad
      obtain ⟨next, n', m', scores, -, goes⟩ := zaddLoop_pair plain parsed member rest z n m
      rw [goes]
      obtain ⟨reply, given⟩ := ih (z := next) badLater n' m'
      refine ⟨reply, fun other => ?_⟩
      rw [(given other).1, scores]
      by_cases here : member = other
      · subst here
        simpa [scoresGiven, parseDouble_number parsed] using (given member).2
      · simpa [scoresGiven, here, Ne.symm here] using (given other).2

/-- Without a bad score the loop answers a count. -/
theorem zaddLoop_good (plain : flags.incr = false) {pairs : List Bytes}
    (good : pairsBeforeBad pairs = none) (n m : Nat) :
    ¬ IsError (zaddLoop flags pairs z n m).2 := by
  induction pairs using List.twoStepInduction generalizing z n m with
  | nil => exact not_isError_replyInteger _
  | singleton s => exact not_isError_replyInteger _
  | cons_cons s member rest ih _ =>
    cases parsed : parseDouble s with
    | none =>
      rw [pairsBeforeBad_none parsed] at good
      cases good
    | some score =>
      rw [pairsBeforeBad_some parsed] at good
      obtain ⟨next, n', m', -, -, goes⟩ := zaddLoop_pair plain parsed member rest z n m
      rw [goes]
      exact ih (Option.map_eq_none_iff.mp good) n' m'

/-- An increment that fails leaves the set. -/
theorem zaddLoop_incr (incr : flags.incr = true) (pairs : List Bytes) (n m : Nat)
    (wrong : IsError (zaddLoop flags pairs z n m).2) : (zaddLoop flags pairs z n m).1 = z := by
  rcases pairs with _ | ⟨s, _ | ⟨member, rest⟩⟩
  · rfl
  · rfl
  rw [zaddLoop] at wrong ⊢
  cases parsed : parseDouble s with
  | none => rfl
  | some score =>
    simp only [parsed, incr, if_true] at wrong ⊢
    split_ifs at wrong ⊢
    · rfl
    · exact (zincrScore_changes member score z).fails wrong

/-- A single increment of a set without members fails at a bad score only. -/
theorem zaddLoop_incr_fresh (incr : flags.incr = true) (s member : Bytes) (n m : Nat) :
    IsError (zaddLoop flags [s, member] zsetCreate n m).2 ↔ parseDouble s = none := by
  rw [zaddLoop]
  cases parsed : parseDouble s with
  | none => exact ⟨fun _ => rfl, fun _ => isError_replyError _⟩
  | some score =>
    refine ⟨fun wrong => absurd wrong ?_, fun none => by cases none⟩
    simp only [incr, if_true]
    split_ifs
    · exact not_isError_replyNull
    · have number : ¬ (bumpedScore (zsetScore zsetCreate member) score).isNaN :=
        Bool.not_eq_true _ ▸ parseDouble_number parsed
      have same : zincrScore zsetCreate member score = ((zsetAdd _ _ member).2, replyDouble _) :=
        if_neg number
      rw [same]
      exact not_isError_replyDouble _

end Pairs

/-! ### The command -/

section Command

variable {t : Int} {db : Db} {key : Bytes}

/-- The options and pairs of a call that passes the checks made before the key is looked up. -/
def zaddArgs (argv : Argv) : Option (ZaddFlags × List Bytes) :=
  let parsed := zaddFlags (argv.drop 2) ⟨false, false, false, false⟩
  if argv.length < 4 ∨ (parsed.1.nx && parsed.1.xx) = true ∨ parsed.2.length = 0 ∨
    parsed.2.length % 2 = 1 ∨ (parsed.1.incr && parsed.2.length ≠ 2) = true then none
  else some parsed

/-- An error of the loop leaves what the key holds: a bad score is met with no effect so far. -/
def RefusesCleanly (flags : ZaddFlags) (pairs : List Bytes) (found : Option Robj) : Prop :=
  ∀ before, pairsBeforeBad pairs = some before →
    match found with
    | none => flags.xx = true
    | some ⟨.zset z, _⟩ =>
      ∀ member, flags.Spares (scoresGiven member before) (zsetScore z member)
    | some _ => True

theorem cmdZadd_unchecked {argv : Argv} (fails : zaddArgs argv = none) (env : Env) :
    (cmdZadd env db argv).1 = db := by
  unfold zaddArgs at fails
  unfold cmdZadd
  dsimp only at fails ⊢
  split_ifs at fails ⊢ <;> first | rfl | (exfalso; tauto)

theorem cmdZadd_checked {argv : Argv} {flags : ZaddFlags} {pairs : List Bytes}
    (checked : zaddArgs argv = some (flags, pairs)) :
    (flags.incr = true → pairs.length = 2) ∧ ∀ env db,
      cmdZadd env db argv = onKey (env.now 0) db (arg argv 1)
        (if flags.xx then zsetKind.edit (replyInteger 0) fun z => zaddLoop flags pairs z 0 0
          else zsetKind.upsert env.seed fun z => zaddLoop flags pairs z 0 0) := by
  unfold zaddArgs at checked
  dsimp only at checked
  split_ifs at checked with fails
  have parsed := Option.some.inj checked
  simp only [parsed, not_or, Bool.and_eq_true, decide_eq_true_eq, not_and, not_not] at fails
  obtain ⟨long, exclusive, some, even, single⟩ := fails
  refine ⟨single, fun env db => ?_⟩
  unfold cmdZadd
  rw [if_neg long, parsed]
  dsimp only
  rw [if_neg (by simpa using exclusive), if_neg (by omega), if_neg (by simpa using single)]

/-- At a missing key the loop fails at a bad score, and at nothing else. -/
theorem isError_zaddLoop_fresh {flags : ZaddFlags} {pairs : List Bytes}
    (single : flags.incr = true → pairs.length = 2) :
    IsError (zaddLoop flags pairs zsetCreate 0 0).2 ↔
      ∃ before, pairsBeforeBad pairs = some before := by
  cases incr : flags.incr with
  | true =>
    obtain ⟨s, member, rfl⟩ := List.length_eq_two.mp (single incr)
    simp [zaddLoop_incr_fresh incr, pairsBeforeBad_single]
  | false =>
    cases bad : pairsBeforeBad pairs with
    | none => exact iff_of_false (zaddLoop_good incr bad 0 0) (by simp)
    | some before =>
      rw [(zaddLoop_bad incr bad 0 0).1]
      exact iff_of_true (isError_replyError _) ⟨before, rfl⟩

/-- At a set the loop fails without effect when the pairs before the bad score have none. -/
theorem zaddLoop_keeps_iff {flags : ZaddFlags} {pairs : List Bytes}
    (single : flags.incr = true → pairs.length = 2) (z : Zset) :
    (IsError (zaddLoop flags pairs z 0 0).2 → (zaddLoop flags pairs z 0 0).1 = z) ↔
      ∀ before, pairsBeforeBad pairs = some before →
        ∀ member, flags.Spares (scoresGiven member before) (zsetScore z member) := by
  cases incr : flags.incr with
  | true =>
    refine iff_of_true (zaddLoop_incr incr pairs 0 0) fun before bad => ?_
    -- only the first score can be bad, so no pair comes before it
    obtain ⟨s, member, rfl⟩ := List.length_eq_two.mp (single incr)
    obtain ⟨-, rfl⟩ := pairsBeforeBad_single.mp bad
    exact fun member => (foldl_zaddScore_iff (by simp [scoresGiven]) _).mp rfl
  | false =>
    cases bad : pairsBeforeBad pairs with
    | none =>
      refine iff_of_true (fun wrong => absurd wrong (zaddLoop_good incr bad 0 0)) fun _ some => ?_
      cases some
    | some before =>
      obtain ⟨reply, given⟩ := zaddLoop_bad (z := z) incr bad 0 0
      have spares (member : Bytes) :
          zsetScore (zaddLoop flags pairs z 0 0).1 member = zsetScore z member ↔
            flags.Spares (scoresGiven member before) (zsetScore z member) := by
        rw [(given member).1, foldl_zaddScore_iff (given member).2]
      rw [reply]
      constructor
      · rintro keeps _ ⟨⟩ member
        exact (spares member).mp (congrArg (zsetScore · member) (keeps (isError_replyError _)))
      · intro clean _
        exact Zset.eq_of_scores (funext fun member => (spares member).mpr (clean before rfl member))

/-- **When an error of `ZADD` leaves no trace**: exactly when no bad score is met, or it is met at
a set each member of which the pairs before it spare, or `XX` spares a missing key. -/
theorem zadd_atomic_iff (env : Env) (db : Db) (argv : Argv) :
    (IsError (cmdZadd env db argv).2 →
        live (env.now 0) (cmdZadd env db argv).1 = live (env.now 0) db) ↔
      ∀ flags pairs, zaddArgs argv = some (flags, pairs) →
        RefusesCleanly flags pairs (live (env.now 0) db (arg argv 1)) := by
  cases checked : zaddArgs argv with
  | none =>
    refine iff_of_true (fun _ => ?_) fun _ _ some => ?_
    · rw [cmdZadd_unchecked checked]
    · cases some
  | some call =>
    obtain ⟨flags, pairs⟩ := call
    obtain ⟨single, runs⟩ := cmdZadd_checked checked
    have only (P : ZaddFlags → List Bytes → Prop) :
        (∀ flags' pairs', some (flags, pairs) = some (flags', pairs') → P flags' pairs') ↔
          P flags pairs := by
      constructor
      · exact fun all => all flags pairs rfl
      · rintro one _ _ ⟨⟩
        exact one
    rw [only, runs, (onKey_live ..).1, (onKey_live ..).2]
    cases found : live (env.now 0) db (arg argv 1) with
    | none =>
      cases xx : flags.xx with
      | true => exact iff_of_true (fun _ => rfl) fun _ _ => xx
      | false =>
        -- the key is created, so the call is clean only when nothing is refused
        have created : (Update.store (robjNew (.zset (zaddLoop flags pairs zsetCreate 0 0).1))).act
            (env.now 0) (live (env.now 0) db) (arg argv 1) ≠ live (env.now 0) db :=
          act_store_ne found
        constructor
        · intro clean before bad
          exact absurd (clean ((isError_zaddLoop_fresh single).mpr ⟨before, bad⟩)) created
        · intro clean wrong
          obtain ⟨before, bad⟩ := (isError_zaddLoop_fresh single).mp wrong
          exact absurd (xx.symm.trans (clean before bad)) Bool.false_ne_true
    | some o =>
      obtain ⟨val, expireAt⟩ := o
      cases val with
      | zset z =>
        have decided : (if flags.xx = true
            then zsetKind.edit (replyInteger 0) fun z => zaddLoop flags pairs z 0 0
            else zsetKind.upsert env.seed fun z => zaddLoop flags pairs z 0 0)
              (some ⟨.zset z, expireAt⟩) =
            (.write ⟨.zset (zaddLoop flags pairs z 0 0).1, expireAt⟩,
              (zaddLoop flags pairs z 0 0).2) := by
          cases flags.xx <;> rfl
        rw [decided, act_write_eq_iff found, Value.zset.injEq]
        exact zaddLoop_keeps_iff single z
      | _ =>
        refine iff_of_true (fun _ => ?_) fun _ _ => trivial
        cases flags.xx <;> rfl

/-- A refused call of one good pair and a bad one creates the key with the first member. -/
theorem refused_zadd_adds :
    let argv := [text "zadd", text "k", text "inf", text "a", text "x", text "b"]
    let after := cmdZadd sampleEnv ⟨dictCreate sampleSeed, 0⟩ argv
    live (sampleEnv.now 0) ⟨dictCreate sampleSeed, 0⟩ (text "k") = none ∧
      after.2 = notAFloat ∧ IsError after.2 ∧
      live (sampleEnv.now 0) after.1 (text "k") ≠ none := by
  decide

end Command

end Miniredis
