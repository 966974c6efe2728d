/-
**The commands on one hash, set or sorted set are tame (`db.c`).**

A container that was created is filled before the command answers. Three handlers are excused:
`ZADD` from leaving the store alone on an error, `HINCRBYFLOAT` from it on a missing key and an
infinite increment, `ZRANGEBYSCORE` from announcing as many elements as it prints when it has a
`LIMIT`.
-/

import Miniredis.Dispatch.Keyed

namespace Miniredis

variable {words : Argv → Prop} {excused : Argv → Option Robj → Prop}

/-! ### Hashes -/

section Hashes

/-- A dictionary with a key is not empty. -/
theorem dictSize_ne_zero {α : Type} {d : Dict α} : dictSize d ≠ 0 ↔ ∃ key, (d.get key).isSome := by
  rw [dictSize, Ne, d.used_eq_zero_iff, not_forall]
  simp only [Option.isSome_iff_ne_none, ne_eq]

theorem hash_filled {h : Dict Bytes} :
    (Value.hash h).isEmpty = false ↔ ∃ key, (h.get key).isSome := by
  rw [← dictSize_ne_zero]
  simp [Value.isEmpty]

theorem isSome_get_set {α : Type} {d : Dict α} {key other : Bytes} {val : α}
    (present : other = key ∨ (d.get other).isSome) : ((d.set key val).2.get other).isSome := by
  rw [HashTable.Table.get_set]
  split_ifs with same
  · rfl
  · exact present.resolve_left same

theorem hashSetLoop_present (args : List Bytes) {h : Dict Bytes} (n : Nat) {key : Bytes}
    (present : (h.get key).isSome) : ((hashSetLoop args h n).1.get key).isSome := by
  fun_induction hashSetLoop args h n with
  | case1 h n field value rest ih => exact ih (isSome_get_set (.inr present))
  | case2 => exact present

theorem hashSetMany_tame (ok : Bool) : Handler.Tame (hashSetMany ok) words excused := by
  intro env argv free
  unfold hashSetMany
  refine .check (wellFormed_arity free) fun long => .onKey 0 (by omega) ?_
  obtain ⟨field, value, rest, args⟩ : ∃ field value rest, argv.drop 2 = field :: value :: rest := by
    rcases shape : argv.drop 2 with _ | ⟨field, _ | ⟨value, rest⟩⟩
    all_goals
      have size := congrArg List.length shape
      simp only [List.length_drop, List.length_cons, List.length_nil] at size
    · omega
    · omega
    · exact ⟨field, value, rest, rfl⟩
  refine Kind.puts_tame Kind.hashKind_exact fun h =>
    ⟨.ite wellFormed_replyOk (wellFormed_integer _), ?_, ?_⟩
  · dsimp only
    split_ifs
    · exact not_isError_replyOk
    · exact not_isError_replyInteger _
  · rw [args, hashSetLoop]
    exact hash_filled.mpr ⟨field, hashSetLoop_present rest _ (isSome_get_set (.inl rfl))⟩

theorem cmdHdel_tame : Handler.Tame cmdHdel words excused := fun _ _ _ =>
  .check (wellFormed_arity (by decide)) fun long => .onKey 0 (by omega)
    (Kind.shrink_tame Kind.hashKind_exact (wellFormed_integer 0) (fun _ => wellFormed_integer _)
      fun _ => not_isError_replyInteger _)

theorem cmdHsetnx_tame : Handler.Tame cmdHsetnx words excused := by
  intro env argv free
  unfold cmdHsetnx
  refine .check (wellFormed_arity (by decide)) fun long => .onKey 0 (by omega) ?_
  refine Kind.puts_tame Kind.hashKind_exact fun h => ?_
  by_cases present : (h.get (arg argv 2)).isSome = true
  · have same : hsetnxHash (arg argv 2) (arg argv 3) h = (h, replyInteger 0) := if_pos present
    constructor
    all_goals rw [same]
    · exact wellFormed_integer 0
    · exact not_isError_replyInteger 0
    · exact hash_filled.mpr ⟨_, present⟩
  · have same : hsetnxHash (arg argv 2) (arg argv 3) h =
        ((h.set (arg argv 2) (arg argv 3)).2, replyInteger 1) := if_neg present
    constructor
    all_goals rw [same]
    · exact wellFormed_integer 1
    · exact not_isError_replyInteger 1
    · exact hash_filled.mpr ⟨_, isSome_get_set (.inl rfl)⟩

theorem set_filled_hash (h : Dict Bytes) (field value : Bytes) :
    (hashKind.wrap (h.set field value).2).isEmpty = false :=
  hash_filled.mpr ⟨field, isSome_get_set (.inl rfl)⟩

/-- What `HINCRBY` does to a hash: it refuses and leaves it, or sets the field. -/
theorem hincrbyHash_changes (field : Bytes) (delta : Int) (h : Dict Bytes) :
    hashKind.Changes h (hincrbyHash field delta h) := by
  unfold hincrbyHash
  split
  · exact .refuses (wellFormed_error (by decide))
  split
  · exact .refuses (wellFormed_error (by decide))
  · exact .sets (wellFormed_integer _) (not_isError_replyInteger _) fun _ =>
      set_filled_hash h field _

/-- Zero takes every increment. -/
theorem addChecked_zero {delta : Int} {text : Bytes} (parsed : stringToLl text = some delta) :
    addChecked 0 delta = some delta := by
  have range := stringToLl_range parsed
  have limit : (llongMax : Int) < 2 ^ 63 := by decide
  unfold addChecked
  rw [zero_add, wrap64_of_range (by omega) (by omega)]
  simp only [ite_eq_right_iff, reduceCtorEq, imp_false, not_or, not_and]
  omega

theorem cmdHincrby_tame : Handler.Tame cmdHincrby words excused := by
  intro env argv free
  unfold cmdHincrby
  refine .check (wellFormed_arity (by decide)) fun long => ?_
  cases parsed : stringToLl (arg argv 3) with
  | none => exact .reply wellFormed_notAnInteger
  | some delta =>
    have fresh : hincrbyHash (arg argv 2) delta (hashKind.fresh env.seed) =
        (((hashKind.fresh env.seed).set (arg argv 2) (Decimal.renderInt delta)).2,
          replyInteger delta) := by
      rw [hincrbyHash, show hashInteger (hashKind.fresh env.seed) (arg argv 2) = some 0 from rfl]
      dsimp only
      rw [addChecked_zero parsed]
    refine .onKey 0 (by omega) (Kind.upsert_tame Kind.hashKind_exact (fun _ => ?_) (fun _ => ?_)
      (hincrbyHash_changes _ delta))
    · rw [fresh]
      exact not_isError_replyInteger delta
    · rw [fresh]
      exact set_filled_hash _ _ _

theorem wellFormed_notAFloat : WellFormed notAFloat := wellFormed_error (by decide)

theorem hincrbyfloatHash_changes (field : Bytes) (delta : Double) (h : Dict Bytes) :
    hashKind.Changes h (hincrbyfloatHash field delta h) := by
  unfold hincrbyfloatHash
  split
  · exact .refuses (wellFormed_error (by decide))
  dsimp only
  split
  · exact .refuses (wellFormed_error (by decide))
  · exact .sets (wellFormed_bulkCstr _) (not_isError_replyBulkCstr _) fun _ =>
      set_filled_hash h field _

theorem parseDouble_number {s : Bytes} {d : Double} (parsed : parseDouble s = some d) :
    d.isNaN = false := by
  unfold parseDouble at parsed
  split_ifs at parsed
  split at parsed
  · cases parsed
  · split_ifs at parsed with range rest number
    cases parsed
    exact Bool.eq_false_of_not_eq_true number

/-- What `HINCRBYFLOAT` does to a hash it has just created. -/
theorem hincrbyfloatHash_fresh (field : Bytes) (delta : Double) (seed : Seed) :
    hincrbyfloatHash field delta (hashKind.fresh seed) =
      if ((Double.zero.add delta).isNaN || (Double.zero.add delta).isInf) = true then
        (hashKind.fresh seed, replyError (text "increment would produce NaN or Infinity"))
      else
        (((hashKind.fresh seed).set field (Double.zero.add delta).formatG17).2,
          replyBulkCstr (Double.zero.add delta).formatG17) := rfl

/-- The increment of the command is an infinity. -/
def InfiniteIncrement (argv : Argv) : Prop :=
  argv.length = 4 ∧ ∃ delta, parseDouble (arg argv 3) = some delta ∧ delta.isInf = true

theorem cmdHincrbyfloat_tame
    (allows : ∀ argv, InfiniteIncrement argv → excused argv none) :
    Handler.Tame cmdHincrbyfloat words excused := by
  intro env argv free
  unfold cmdHincrbyfloat
  refine .check (wellFormed_arity (by decide)) fun long => ?_
  cases parsed : parseDouble (arg argv 3) with
  | none => exact .reply wellFormed_notAFloat
  | some delta =>
    refine .onKey 0 (by omega) (Kind.upsert_tame Kind.hashKind_exact (fun asked => ?_) ?_
      (hincrbyfloatHash_changes _ delta))
    · -- a finite increment of zero is finite
      have bounded : delta.isInf = false := by
        by_contra infinite
        refine asked (allows argv ⟨by omega, delta, parsed, ?_⟩)
        exact Bool.eq_true_of_not_eq_false infinite
      have finite := Double.finite_iff.mpr ⟨parseDouble_number parsed, bounded⟩
      rw [← Double.zero_add_magnitude finite] at finite
      obtain ⟨number, size⟩ := Double.finite_iff.mp finite
      rw [hincrbyfloatHash_fresh, number, size]
      exact not_isError_replyBulkCstr _
    · rw [hincrbyfloatHash_fresh]
      split_ifs
      · exact fun wrong => absurd (isError_replyError _) wrong
      · exact fun _ => set_filled_hash _ _ _

theorem wellFormed_replyField (v : Option Bytes) : WellFormed (replyField v) := by
  cases v with
  | none => exact wellFormed_null
  | some v => exact wellFormed_bulk v

theorem cmdHget_tame : Handler.Tame cmdHget words excused := fun _ _ _ =>
  .check (wellFormed_arity (by decide)) fun long => .onKey 0 (by omega)
    (Kind.read_tame Kind.hashKind_exact (fun _ => wellFormed_null)
      fun _ _ => wellFormed_replyField _)

theorem cmdHmget_tame : Handler.Tame cmdHmget words excused := fun _ _ _ =>
  .check (wellFormed_arity (by decide)) fun long => .onKey 0 (by omega)
    (Kind.read_tame Kind.hashKind_exact
      (fun _ => wellFormed_array (fun _ => wellFormed_null) rfl)
      fun _ h => wellFormed_array (fun field => wellFormed_replyField (h.get field)) rfl)

theorem cmdHgetall_tame : Handler.Tame cmdHgetall words excused := by
  intro env argv free
  unfold cmdHgetall
  refine .check (wellFormed_arity (by decide)) fun long => .onKey 0 (by omega)
    (Kind.read_tame Kind.hashKind_exact (fun _ => wellFormed_array_zero) fun _ h => ?_)
  have items := WellFormedAll.flatMap (f := fun pair : Bytes × Bytes =>
    replyBulk pair.1 ++ replyBulk pair.2) (fun pair =>
      (wellFormed_bulk pair.1).one.append (wellFormed_bulk pair.2).one) h.pairs
  rw [h.pairs_length] at items
  exact items.array

theorem hashKeysOrVals_tame (vals : Bool) : Handler.Tame (hashKeysOrVals vals) words excused :=
  fun _ _ free => .check (wellFormed_arity free) fun long => .onKey 0 (by omega)
    (Kind.read_tame Kind.hashKind_exact (fun _ => wellFormed_array_zero)
      fun _ h => wellFormed_array (fun _ => wellFormed_bulk _) h.pairs_length)

theorem cmdHlen_tame : Handler.Tame cmdHlen words excused := fun _ _ _ =>
  .check (wellFormed_arity (by decide)) fun long => .onKey 0 (by omega)
    (Kind.read_tame Kind.hashKind_exact (fun _ => wellFormed_integer 0)
      fun _ _ => wellFormed_integer _)

theorem cmdHexists_tame : Handler.Tame cmdHexists words excused := fun _ _ _ =>
  .check (wellFormed_arity (by decide)) fun long => .onKey 0 (by omega)
    (Kind.read_tame Kind.hashKind_exact (fun _ => wellFormed_integer 0)
      fun _ _ => wellFormed_integer _)

end Hashes

/-! ### Sets -/

section Sets

theorem set_filled {s : Dict Unit} :
    (Value.set s).isEmpty = false ↔ ∃ member, (s.get member).isSome := by
  rw [← dictSize_ne_zero]
  simp [Value.isEmpty]

theorem saddLoop_present (args : List Bytes) {s : Dict Unit} (n : Nat) {member : Bytes}
    (present : member ∈ args ∨ (s.get member).isSome) :
    ((saddLoop args s n).1.get member).isSome := by
  induction args generalizing s n with
  | nil => exact present.resolve_left List.not_mem_nil
  | cons first rest ih =>
    rw [saddLoop]
    rw [List.mem_cons] at present
    split_ifs with new
    · refine ih (n + 1) ?_
      rcases present with (rfl | later) | inside
      · exact .inr (isSome_get_set (.inl rfl))
      · exact .inl later
      · exact .inr (isSome_get_set (.inr inside))
    · refine ih n ?_
      rcases present with (rfl | later) | inside
      · exact .inr (Option.isSome_iff_ne_none.mpr (by simpa using new))
      · exact .inl later
      · exact .inr inside

theorem cmdSadd_tame : Handler.Tame cmdSadd words excused := by
  intro env argv free
  unfold cmdSadd
  refine .check (wellFormed_arity (by decide)) fun long => .onKey 0 (by omega) ?_
  have some : argv.drop 2 ≠ [] := by
    refine List.ne_nil_of_length_pos ?_
    rw [List.length_drop]
    omega
  obtain ⟨member, inside⟩ := List.exists_mem_of_ne_nil _ some
  exact Kind.puts_tame Kind.setKind_exact fun s =>
    ⟨wellFormed_integer _, not_isError_replyInteger _,
      set_filled.mpr ⟨member, saddLoop_present _ 0 (.inl inside)⟩⟩

theorem cmdSrem_tame : Handler.Tame cmdSrem words excused := fun _ _ _ =>
  .check (wellFormed_arity (by decide)) fun long => .onKey 0 (by omega)
    (Kind.shrink_tame Kind.setKind_exact (wellFormed_integer 0) (fun _ => wellFormed_integer _)
      fun _ => not_isError_replyInteger _)

theorem spopBody_tame {words : Prop} {excused : Option Robj → Prop} (count : Int)
    (rand : Nat → Nat) : TameBody words excused (spopBody count rand) := by
  refine Kind.body_tame Kind.setKind_exact
    (.keep fun _ => .ite wellFormed_null wellFormed_array_zero) fun expireAt s => ?_
  split_ifs
  · cases (dictRandomEntry s rand).1 with
    | none => exact .keep fun _ => wellFormed_null
    | some entry =>
      exact .maybeDelete (fun _ => wellFormed_bulk _) (not_isError_replyBulk _)
  all_goals
    refine .maybeDelete (fun _ => wellFormed_array wellFormed_bulk ?_) (not_isError_array _ _)
    exact (spopLoop_counts _ s rand (by omega)).1

theorem cmdSpop_tame : Handler.Tame cmdSpop words excused := by
  intro env argv free
  unfold cmdSpop
  refine .check (wellFormed_arity (by decide)) fun long => ?_
  cases popCount argv with
  | none => exact .reply wellFormed_notPositive
  | some count => exact .onKey 0 (by omega) (spopBody_tame count env.rand)

theorem cmdSismember_tame : Handler.Tame cmdSismember words excused := fun _ _ _ =>
  .check (wellFormed_arity (by decide)) fun long => .onKey 0 (by omega)
    (Kind.read_tame Kind.setKind_exact (fun _ => wellFormed_integer 0)
      fun _ _ => wellFormed_integer _)

theorem cmdScard_tame : Handler.Tame cmdScard words excused := fun _ _ _ =>
  .check (wellFormed_arity (by decide)) fun long => .onKey 0 (by omega)
    (Kind.read_tame Kind.setKind_exact (fun _ => wellFormed_integer 0)
      fun _ _ => wellFormed_integer _)

theorem length_members (s : Dict Unit) : (members s).length = dictSize s := by
  rw [members, List.length_map]
  exact s.pairs_length

theorem cmdSmembers_tame : Handler.Tame cmdSmembers words excused := fun _ _ _ =>
  .check (wellFormed_arity (by decide)) fun long => .onKey 0 (by omega)
    (Kind.read_tame Kind.setKind_exact (fun _ => wellFormed_array_zero)
      fun _ s => wellFormed_array wellFormed_bulk (length_members s))

end Sets

/-! ### Sorted sets -/

section SortedSets

theorem zset_filled {z : Zset} :
    (Value.zset z).isEmpty = false ↔ ∃ member, (zsetScore z member).isSome := by
  have empty := zsetLen_eq_zero_iff z
  simp only [Value.isEmpty, decide_eq_false_iff_not, empty, not_forall,
    Option.isSome_iff_ne_none, ne_eq]

theorem isSome_score_add {z : Zset} {score : Double} {member other : Bytes}
    (present : other = member ∨ (zsetScore z other).isSome) :
    (zsetScore (zsetAdd z score member).2 other).isSome := by
  rw [score_add]
  split_ifs with same
  · cases zsetScore z member with
    | none => rfl
    | some old =>
      dsimp only
      split_ifs <;> rfl
  · exact present.resolve_left same

theorem zsetAdd_filled (z : Zset) (score : Double) (member : Bytes) :
    (zsetKind.wrap (zsetAdd z score member).2).isEmpty = false :=
  zset_filled.mpr ⟨member, isSome_score_add (.inl rfl)⟩

/-- An increment is refused and leaves the set, or sets the score. -/
theorem zincrScore_changes (member : Bytes) (by_ : Double) (z : Zset) :
    zsetKind.Changes z (zincrScore z member by_) := by
  unfold zincrScore
  dsimp only
  split
  · exact .refuses (wellFormed_error (by decide))
  · exact .sets (wellFormed_double _) (not_isError_replyDouble _) fun _ =>
      zsetAdd_filled z _ member

theorem zincrScore_filled {z : Zset} {member : Bytes} {by_ : Double}
    (succeeds : ¬ IsError (zincrScore z member by_).2) :
    (zsetKind.wrap (zincrScore z member by_).1).isEmpty = false := by
  unfold zincrScore at succeeds ⊢
  dsimp only at succeeds ⊢
  split_ifs at succeeds ⊢
  · exact absurd (isError_replyError _) succeeds
  · exact zsetAdd_filled z _ member

theorem cmdZincrby_tame : Handler.Tame cmdZincrby words excused := by
  intro env argv free
  unfold cmdZincrby
  refine .check (wellFormed_arity (by decide)) fun long => ?_
  cases parsed : parseDouble (arg argv 2) with
  | none => exact .reply wellFormed_notAFloat
  | some by_ =>
    refine .onKey 0 (by omega) (Kind.upsert_tame Kind.zsetKind_exact (fun _ => ?_)
      zincrScore_filled (zincrScore_changes (arg argv 3) by_))
    -- a new member takes the increment itself, which is no NaN
    have number : ¬ (bumpedScore (zsetScore (zsetKind.fresh env.seed) (arg argv 3)) by_).isNaN :=
      Bool.not_eq_true _ ▸ parseDouble_number parsed
    have same : zincrScore (zsetKind.fresh env.seed) (arg argv 3) by_ =
        ((zsetAdd _ _ (arg argv 3)).2, replyDouble _) := if_neg number
    rw [same]
    exact not_isError_replyDouble _

theorem wellFormed_zaddLoop (flags : ZaddFlags) (args : List Bytes) (z : Zset) (n m : Nat) :
    WellFormed (zaddLoop flags args z n m).2 := by
  fun_induction zaddLoop flags args z n m with
  | case1 => exact wellFormed_notAFloat
  | case2 => exact wellFormed_null
  | case3 s member rest z n m score parsed existing skip incr goes =>
    exact (zincrScore_changes member score z).reply
  | case4 s member rest z n m score parsed existing skip incr goes ih => exact ih
  | case5 s member rest z n m score parsed existing skip incr goes res z' added ih => exact ih
  | case6 => exact wellFormed_integer _

/-- A set that has a member keeps one, whatever is added. -/
theorem zaddLoop_filled (flags : ZaddFlags) (args : List Bytes) {z : Zset} (n m : Nat)
    (full : (Value.zset z).isEmpty = false) :
    ¬ IsError (zaddLoop flags args z n m).2 →
      (Value.zset (zaddLoop flags args z n m).1).isEmpty = false := by
  fun_induction zaddLoop flags args z n m with
  | case1 => exact fun _ => full
  | case2 => exact fun _ => full
  | case3 s member rest z n m score parsed existing skip incr goes =>
    exact fun succeeds => zincrScore_filled succeeds
  | case4 s member rest z n m score parsed existing skip incr goes ih => exact ih full
  | case5 s member rest z n m score parsed existing skip incr goes res z' added ih =>
    refine ih ?_
    have filled := zsetAdd_filled z score member
    rw [added] at filled
    exact filled
  | case6 => exact fun _ => full

/-- Without `XX` the first pair is added to a set that was empty. -/
theorem zaddLoop_fresh {flags : ZaddFlags} (plain : flags.xx = false) {args : List Bytes}
    (pairs : args ≠ []) (even : args.length % 2 = 0) :
    ¬ IsError (zaddLoop flags args zsetCreate 0 0).2 →
      (Value.zset (zaddLoop flags args zsetCreate 0 0).1).isEmpty = false := by
  rcases args with _ | ⟨s, _ | ⟨member, rest⟩⟩
  · exact absurd rfl pairs
  · cases even
  rw [zaddLoop]
  cases parsed : parseDouble s with
  | none => exact fun succeeds => absurd (isError_replyError _) succeeds
  | some score =>
    dsimp only
    rw [score_create, plain]
    simp only [Option.isSome_none, Bool.and_false, Bool.or_self, Bool.false_eq_true, if_false,
      Option.isNone_none, Bool.false_and]
    by_cases incr : flags.incr = true
    · rw [if_pos incr]
      exact zincrScore_filled
    · rw [if_neg incr]
      exact zaddLoop_filled flags rest _ _ (zsetAdd_filled zsetCreate score member)

theorem cmdZadd_tame (allows : ∀ argv found, excused argv found) :
    Handler.Tame cmdZadd words excused := by
  intro env argv free
  unfold cmdZadd
  refine .check (wellFormed_arity (by decide)) fun long => ?_
  rcases parsed : zaddFlags (argv.drop 2) ⟨false, false, false, false⟩ with ⟨flags, pairs⟩
  dsimp only
  refine .check wellFormed_syntaxError fun _ => .check wellFormed_syntaxError fun even =>
    .check (wellFormed_error (by decide)) fun _ => .onKey 0 (by omega) ?_
  have there (expireAt : Int) (z : Zset) :
      Miniredis.Tame (words argv) (excused argv (some ⟨.zset z, expireAt⟩))
        (some ⟨.zset z, expireAt⟩)
        (.write ⟨.zset (zaddLoop flags pairs z 0 0).1, expireAt⟩, (zaddLoop flags pairs z 0 0).2) :=
    ⟨fun _ => wellFormed_zaddLoop flags pairs z 0 0, fun asked => absurd (allows _ _) asked,
      fun full => zaddLoop_filled flags pairs 0 0 (full _ rfl)⟩
  by_cases xx : flags.xx = true
  · rw [if_pos xx]
    exact Kind.body_tame Kind.zsetKind_exact (.keep fun _ => wellFormed_integer 0) there
  · rw [if_neg xx]
    refine Kind.body_tame Kind.zsetKind_exact ⟨fun _ => wellFormed_zaddLoop flags pairs _ 0 0,
      fun asked => absurd (allows _ _) asked, fun _ => ?_⟩ there
    refine zaddLoop_fresh (Bool.eq_false_of_not_eq_true xx) (fun none => ?_) (by omega)
    rw [none] at even
    exact even (.inl rfl)

theorem cmdZrem_tame : Handler.Tame cmdZrem words excused := fun _ _ _ =>
  .check (wellFormed_arity (by decide)) fun long => .onKey 0 (by omega)
    (Kind.shrink_tame Kind.zsetKind_exact (wellFormed_integer 0) (fun _ => wellFormed_integer _)
      fun _ => not_isError_replyInteger _)

theorem cmdZcard_tame : Handler.Tame cmdZcard words excused := fun _ _ _ =>
  .check (wellFormed_arity (by decide)) fun long => .onKey 0 (by omega)
    (Kind.read_tame Kind.zsetKind_exact (fun _ => wellFormed_integer 0)
      fun _ _ => wellFormed_integer _)

theorem cmdZscore_tame : Handler.Tame cmdZscore words excused := by
  intro env argv free
  unfold cmdZscore
  refine .check (wellFormed_arity (by decide)) fun long => .onKey 0 (by omega)
    (Kind.read_tame Kind.zsetKind_exact (fun _ => wellFormed_null) fun _ z => ?_)
  cases zsetScore z (arg argv 2) with
  | none => exact wellFormed_null
  | some score => exact wellFormed_double score

/-- A header over as many nodes as are printed. -/
theorem wellFormed_nodes (withscores : Bool) {nodes : List ZNode} {n : Int}
    (count : (nodes.length : Int) = n) :
    WellFormed (replyNodeHeader withscores n ++ replyNodes withscores nodes) := by
  subst count
  unfold replyNodeHeader replyNodes
  cases withscores with
  | true =>
    have items := WellFormedAll.flatMap (f := fun node : ZNode =>
      replyBulk node.member ++ replyDouble node.score) (fun node =>
        (wellFormed_bulk node.member).one.append (wellFormed_double node.score).one) nodes
    have size : (if (nodes.length : Int) * 2 < 0 then ((nodes.length : Int) * 2 % 2 ^ 64).toNat
        else ((nodes.length : Int) * 2).toNat) = nodes.length * 2 := by
      rw [if_neg (by omega)]
      omega
    simp only [if_true, size]
    exact items.array
  | false =>
    have size : (if (nodes.length : Int) < 0 then ((nodes.length : Int) % 2 ^ 64).toNat
        else (nodes.length : Int).toNat) = nodes.length := by
      rw [if_neg (by omega)]
      omega
    simp only [Bool.false_eq_true, if_false, size, List.append_nil]
    exact wellFormed_array (fun node : ZNode => wellFormed_bulk node.member) rfl

theorem zrangeCommon_tame (reverse : Bool) :
    Handler.Tame (zrangeCommon reverse) words excused := by
  intro env argv free
  unfold zrangeCommon
  refine .check (wellFormed_arity free) fun long => .check wellFormed_syntaxError fun _ => ?_
  cases stringToLl (arg argv 2) with
  | none => exact .reply wellFormed_notAnInteger
  | some start =>
    cases stringToLl (arg argv 3) with
    | none => exact .reply wellFormed_notAnInteger
    | some stop =>
      refine .onKey 0 (by omega) (Kind.read_tame Kind.zsetKind_exact
        (fun _ => wellFormed_array_zero) fun _ z => ?_)
      unfold zrangeReply
      cases range : rangeNormalize (zsetLen z) start stop with
      | none => exact wellFormed_array_zero
      | some bounds =>
        obtain ⟨low, ordered, high⟩ := rangeNormalize_some range
        refine wellFormed_nodes _ ?_
        have size : (if reverse then z.nodes.reverse else z.nodes).length = zsetLen z := by
          cases reverse <;> simp [zsetLen]
        rw [length_slice low ordered (by rw [size]; exact high)]
        omega

/-- A rank is a position in the chain. -/
theorem zslGetRank_le (z : Zset) (score : Double) (member : Bytes) :
    zslGetRank z score member ≤ z.nodes.length := by
  unfold zslGetRank
  dsimp only
  split
  · exact Nat.zero_le _
  · rename_i node found
    obtain ⟨inside, _⟩ := List.getElem?_eq_some_iff.mp found
    split_ifs
    · exact inside
    · exact Nat.zero_le _

theorem scoreRange_some {z : Zset} {min max : Double × Bool} {first last : Nat}
    (found : scoreRange z min max = some (first, last)) :
    1 ≤ first ∧ first ≤ last ∧ last ≤ z.nodes.length := by
  unfold scoreRange at found
  split at found
  · dsimp only at found
    split_ifs at found with void
    cases found
    have bound := zslGetRank_le z
    refine ⟨?_, ?_, bound _ _⟩
    · omega
    · omega
  · cases found

/-- Without a `LIMIT` the whole range is announced and printed. -/
theorem wellFormed_zrangebyscoreReply (min max : Double × Bool) (withscores : Bool) (z : Zset) :
    WellFormed (zrangebyscoreReply min max withscores 0 (-1) z) := by
  unfold zrangebyscoreReply
  cases found : scoreRange z min max with
  | none => exact wellFormed_array_zero
  | some bounds =>
    obtain ⟨first, last⟩ := bounds
    obtain ⟨low, ordered, high⟩ := scoreRange_some found
    refine wellFormed_nodes withscores ?_
    simp only [List.length_take, List.length_drop]
    split_ifs <;> omega

/-- The command has a `LIMIT` clause. -/
def HasLimit (argv : Argv) : Prop :=
  strcaseEq (arg argv 4) (text "LIMIT") = true ∨
    strcaseEq (arg argv 4) (text "WITHSCORES") = true ∧ strcaseEq (arg argv 5) (text "LIMIT") = true

theorem zrangeLimit_ok {args : List Bytes} {offset limit : Int}
    (read : zrangeLimit args = .ok (offset, limit))
    (plain : strcaseEq (args.getD 0 []) (text "LIMIT") = false) : offset = 0 ∧ limit = -1 := by
  cases args with
  | nil =>
    cases read
    exact ⟨rfl, rfl⟩
  | cons a rest =>
    have other : ¬ strcaseEq a (text "LIMIT") = true := by
      rw [show strcaseEq a (text "LIMIT") = false from plain]
      decide
    unfold zrangeLimit at read
    simp only [if_neg other] at read
    cases read

theorem zrangeLimit_error {args : List Bytes} {reply : Bytes}
    (failed : zrangeLimit args = .error reply) : WellFormed reply := by
  unfold zrangeLimit at failed
  split at failed
  · cases failed
  · split_ifs at failed
    · split at failed
      · split at failed
        · split_ifs at failed
          · exact Except.error.inj failed ▸ wellFormed_error (by decide)
          · exact Except.error.inj failed ▸ wellFormed_syntaxError
        · exact Except.error.inj failed ▸ wellFormed_error (by decide)
      · exact Except.error.inj failed ▸ wellFormed_syntaxError
    · exact Except.error.inj failed ▸ wellFormed_syntaxError

theorem cmdZrangebyscore_tame (unlimited : ∀ argv, words argv → ¬ HasLimit argv) :
    Handler.Tame cmdZrangebyscore words excused := by
  intro env argv free
  unfold cmdZrangebyscore
  refine .check (wellFormed_arity (by decide)) fun long => ?_
  cases parseScoreArg (arg argv 2) with
  | none => exact .reply (wellFormed_error (by decide))
  | some min =>
    cases parseScoreArg (arg argv 3) with
    | none => exact .reply (wellFormed_error (by decide))
    | some max =>
      dsimp only
      generalize scores : (decide (argv.length > 4) && strcaseEq (arg argv 4) (text "WITHSCORES")) =
        withscores
      cases read : zrangeLimit (argv.drop (if withscores then 5 else 4)) with
      | error reply => exact .reply (zrangeLimit_error read)
      | ok clause =>
        obtain ⟨offset, limit⟩ := clause
        refine .onKey 0 (by omega) (Kind.read_tame Kind.zsetKind_exact
          (fun _ => wellFormed_array_zero) fun worded z => ?_)
        have none := unlimited argv worded
        unfold HasLimit at none
        obtain ⟨rfl, rfl⟩ := zrangeLimit_ok read (by
          rw [List.getD_eq_getElem?_getD, List.getElem?_drop, ← List.getD_eq_getElem?_getD]
          rw [not_or, not_and, Bool.not_eq_true, Bool.not_eq_true] at none
          cases withscores with
          | true => exact none.2 (by simpa using (Bool.and_eq_true_iff.mp scores).2)
          | false => exact none.1)
        exact wellFormed_zrangebyscoreReply min max withscores z

theorem cmdZcount_tame : Handler.Tame cmdZcount words excused := by
  intro env argv free
  unfold cmdZcount
  refine .check (wellFormed_arity (by decide)) fun long => ?_
  cases parseScoreArg (arg argv 2) with
  | none => exact .reply (wellFormed_error (by decide))
  | some min =>
    cases parseScoreArg (arg argv 3) with
    | none => exact .reply (wellFormed_error (by decide))
    | some max =>
      refine .onKey 0 (by omega) (Kind.read_tame Kind.zsetKind_exact
        (fun _ => wellFormed_integer 0) fun _ z => ?_)
      cases scoreRange z min max with
      | none => exact wellFormed_integer 0
      | some bounds => exact wellFormed_integer _

theorem wellFormed_zrankReply (fromEnd : Bool) (member : Bytes) (z : Zset) :
    WellFormed (zrankReply fromEnd member z) := by
  unfold zrankReply
  cases zsetScore z member with
  | none => exact wellFormed_null
  | some score => exact wellFormed_integer _

theorem cmdZrank_tame : Handler.Tame cmdZrank words excused := fun _ _ _ =>
  .check (wellFormed_arity (by decide)) fun long => .onKey 0 (by omega)
    (Kind.read_tame Kind.zsetKind_exact (fun _ => wellFormed_null)
      fun _ => wellFormed_zrankReply false _)

theorem cmdZrevrank_tame : Handler.Tame cmdZrevrank words excused := fun _ _ _ =>
  .check (wellFormed_arity (by decide)) fun long => .onKey 0 (by omega)
    (Kind.read_tame Kind.zsetKind_exact (fun _ => wellFormed_null)
      fun _ => wellFormed_zrankReply true _)

end SortedSets

end Miniredis
