/-
**Ranges of sorted sets are slices and filters.**

What the reading commands answer about a key whose set was built by any adds and removes, and what
they do in memory to find it. `ZsetCall` is such an add or remove; `zsetBuilt` is the set it leads
to.

* `sorted_reads_agree` — `ZRANGE`, `ZREVRANGE`, `ZRANK` and `ZREVRANK` speak about one sequence.
* `score_range_filters` — `ZCOUNT` and `ZRANGEBYSCORE` count and list the members between bounds.
* `score_limit_iff` — with `LIMIT`, the answer is a slice of these unless the offset lies beyond
  them: then the number of elements announced is a negative count printed as a `size_t`.
-/

import Miniredis.Dispatch.Containers
import Miniredis.Dispatch.Expiration
import Miniredis.Structures.ZsetQueries

namespace Miniredis

/-! ### Sets built by adds and removes -/

section Built

/-- The set after a call. -/
def zsetAfter (z : Zset) : ZsetCall → Zset
  | .add score _ member _ => (zsetAdd z score member).2
  | .remove member => (zsetRemove z member).2

/-- The set after some calls, from the empty one. -/
def zsetBuilt (calls : List ZsetCall) : Zset := calls.foldl zsetAfter zsetCreate

/-- The object in memory after the same calls. -/
def linkedBuilt (seed : Seed) (calls : List ZsetCall) : LinkedZset :=
  (Machine.trace zsetCall (.create seed) calls).2

theorem trace_backs {zs : LinkedZset} {z : Zset} (calls : List ZsetCall)
    (backs : ∃ nodes, Backs zs z nodes) :
    ∃ nodes, Backs (Machine.trace zsetCall zs calls).2 (calls.foldl zsetAfter z) nodes := by
  induction calls generalizing zs z with
  | nil => exact backs
  | cons call rest ih =>
    obtain ⟨nodes, backs⟩ := backs
    refine ih ?_
    cases call with
    | add score number member rand => exact (LinkedZset.add_backs backs number member rand).2
    | remove member => exact (LinkedZset.remove_backs backs member).2

theorem built_backs (seed : Seed) (calls : List ZsetCall) :
    ∃ nodes, Backs (linkedBuilt seed calls) (zsetBuilt calls) nodes :=
  trace_backs calls ⟨[], .create seed⟩

theorem built_numeric (calls : List ZsetCall) : (zsetBuilt calls).Numeric := by
  obtain ⟨nodes, backs⟩ := built_backs (Vector.replicate 16 0) calls
  exact backs.numeric

end Built

/-! ### Replies -/

section Replies

/-- An array of members, with their scores when asked for. -/
def replyRange (withscores : Bool) (nodes : List ZNode) : Bytes :=
  replyNodeHeader withscores nodes.length ++ replyNodes withscores nodes

/-- What the words after the bounds ask for, where nothing but `WITHSCORES` may stand. -/
def scoresAsked : List Bytes → Option Bool
  | [] => some false
  | [word] => if strcaseEq word (text "WITHSCORES") then some true else none
  | _ => none

theorem replyRange_nil (withscores : Bool) : replyRange withscores [] = replyArrayHeader 0 := by
  cases withscores <;> rfl

/-- `ZRANGE` and `ZREVRANGE` answer with a range of the chain. -/
theorem zrangeReply_eq (reverse withscores : Bool) (start stop : Int) (z : Zset) :
    zrangeReply reverse withscores start stop z =
      replyRange withscores
        (rangeOf (if reverse then z.nodes.reverse else z.nodes) start stop) := by
  have length : (if reverse then z.nodes.reverse else z.nodes).length = zsetLen z := by
    cases reverse
    · rfl
    · exact List.length_reverse
  unfold zrangeReply
  rw [rangeOf_eq, length]
  cases range : rangeNormalize (zsetLen z) start stop with
  | none => exact (replyRange_nil withscores).symm
  | some bounds =>
    obtain ⟨first, last⟩ := bounds
    obtain ⟨low, ordered, high⟩ := rangeNormalize_some range
    dsimp only
    rw [replyRange, length_slice low ordered (by rw [length]; exact high),
      Int.toNat_of_nonneg (by omega)]

/-- The rank of the member at a position. -/
theorem zrankReply_eq {z : Zset} (numeric : z.Numeric) {i : Nat} {node : ZNode}
    (here : z.nodes[i]? = some node) (fromEnd : Bool) :
    zrankReply fromEnd node.member z =
      replyInteger (if fromEnd then z.nodes.length - 1 - i else i : Int) := by
  obtain ⟨inside, rfl⟩ := List.getElem?_eq_some_iff.mp here
  have found : zsetScore z z.nodes[i].member = some z.nodes[i].score :=
    (score_eq_some_iff ..).mpr (List.getElem_mem inside)
  have split : z.nodes = z.nodes.take i ++ z.nodes[i] :: z.nodes.drop (i + 1) := by
    rw [← List.drop_eq_getElem_cons inside, List.take_append_drop]
  have rank := zslGetRank_split numeric split
  rw [List.length_take_of_le inside.le] at rank
  simp only [zrankReply, found, rank, zsetLen]
  congr 1
  split <;> omega

end Replies

/-! ### Positions -/

section Positions

variable {env : Env} {db : Db} {key a b : Bytes} {expireAt start stop : Int}

/-- What follows the bounds is checked first. -/
theorem scoresAsked_cases {options : List Bytes} {withscores : Bool}
    (asked : scoresAsked options = some withscores) :
    options = [] ∧ withscores = false ∨
      ∃ word, options = [word] ∧ strcaseEq word (text "WITHSCORES") = true ∧ withscores = true := by
  unfold scoresAsked at asked
  split at asked
  · exact .inl ⟨rfl, (Option.some.inj asked).symm⟩
  · rename_i word
    split at asked
    · rename_i asks
      exact .inr ⟨word, rfl, asks, (Option.some.inj asked).symm⟩
    · cases asked
  · cases asked

theorem zrangeCommon_reply {z : Zset} {options : List Bytes} {withscores : Bool}
    (holds : live (env.now 0) db key = some ⟨.zset z, expireAt⟩)
    (first : stringToLl a = some start) (second : stringToLl b = some stop)
    (asked : scoresAsked options = some withscores) (reverse : Bool) (name : Bytes) :
    (zrangeCommon reverse env db (name :: key :: a :: b :: options)).2 =
      zrangeReply reverse withscores start stop z := by
  have read : (onKey (env.now 0) db key (zsetKind.read (replyArrayHeader 0)
      (zrangeReply reverse withscores start stop))).2 =
        zrangeReply reverse withscores start stop z := by
    rw [(onKey_live ..).2, holds]
    rfl
  rw [← read]
  rcases scoresAsked_cases asked with ⟨rfl, rfl⟩ | ⟨word, rfl, asks, rfl⟩
  · simp [zrangeCommon, arg, first, second]
  · simp [zrangeCommon, arg, first, second, asks]

/-- **`ZRANGE`, `ZREVRANGE`, `ZRANK` and `ZREVRANK` speak about one sequence.** In memory they find
it without reading past an end of the chain, and without overflow as long as a length fits a
`long long`. -/
theorem sorted_reads_agree (calls : List ZsetCall)
    (holds : live (env.now 0) db key = some ⟨.zset (zsetBuilt calls), expireAt⟩)
    (first : stringToLl a = some start) (second : stringToLl b = some stop) :
    (∀ name options withscores, scoresAsked options = some withscores →
      (cmdZrange env db (name :: key :: a :: b :: options)).2 =
          replyRange withscores (rangeOf (zsetBuilt calls).nodes start stop) ∧
        (cmdZrevrange env db (name :: key :: a :: b :: options)).2 =
          replyRange withscores (rangeOf (zsetBuilt calls).nodes.reverse start stop)) ∧
    (∀ name (i : Nat) node, (zsetBuilt calls).nodes[i]? = some node →
      (cmdZrank env db [name, key, node.member]).2 = replyInteger i ∧
        (cmdZrevrank env db [name, key, node.member]).2 =
          replyInteger ((zsetBuilt calls).nodes.length - 1 - i)) ∧
    ((zsetBuilt calls).nodes.length < 2 ^ 63 → ∀ seed,
      (∀ withscores,
        (linkedBuilt seed calls).zrange false withscores start stop =
            some (replyRange withscores (rangeOf (zsetBuilt calls).nodes start stop)) ∧
          (linkedBuilt seed calls).zrange true withscores start stop =
            some (replyRange withscores (rangeOf (zsetBuilt calls).nodes.reverse start stop))) ∧
      ∀ (i : Nat) node, (zsetBuilt calls).nodes[i]? = some node →
        (linkedBuilt seed calls).zrank false node.member = some (replyInteger i) ∧
          (linkedBuilt seed calls).zrank true node.member =
            some (replyInteger ((zsetBuilt calls).nodes.length - 1 - i))) := by
  have numeric := built_numeric calls
  refine ⟨fun name options withscores asked => ?_, fun name i node here => ?_, fun few seed => ?_⟩
  · have common : ∀ reverse, (zrangeCommon reverse env db (name :: key :: a :: b :: options)).2 =
        zrangeReply reverse withscores start stop (zsetBuilt calls) :=
      fun reverse => zrangeCommon_reply holds first second asked reverse name
    refine ⟨(common false).trans ?_, (common true).trans ?_⟩
    · exact zrangeReply_eq ..
    · exact zrangeReply_eq ..
  · have common : ∀ fromEnd, (onKey (env.now 0) db key
        (zsetKind.read replyNull (zrankReply fromEnd node.member))).2 =
          zrankReply fromEnd node.member (zsetBuilt calls) := fun fromEnd => by
      rw [(onKey_live ..).2, holds]
      rfl
    refine ⟨(common false).trans ?_, (common true).trans ?_⟩
    · exact zrankReply_eq numeric here false
    · exact zrankReply_eq numeric here true
  · obtain ⟨nodes, backs⟩ := built_backs seed calls
    refine ⟨fun withscores => ?_, fun i node here => ?_⟩
    · have common := fun reverse => backs.zrange few (stringToLl_range first)
        (stringToLl_range second) reverse withscores
      refine ⟨(common false).trans ?_, (common true).trans ?_⟩
      · rw [zrangeReply_eq]
        rfl
      · rw [zrangeReply_eq]
        rfl
    · refine ⟨(backs.zrank few false _).trans ?_, (backs.zrank few true _).trans ?_⟩
      · rw [zrankReply_eq numeric here]
        rfl
      · rw [zrankReply_eq numeric here]
        rfl

/-- Three members, two of them with one score, and one that leaves again. -/
def sampleMembers : List ZsetCall :=
  [.add .zero (by decide) (text "b") (fun _ => 0xFFFF),
    .add ⟨0x3ff0000000000000⟩ (by decide) (text "c") (fun _ => 0),
    .add .zero (by decide) (text "a") (fun _ => 0xFFFF),
    .add .zero (by decide) (text "d") (fun _ => 0xFFFF), .remove (text "d")]

theorem sorted_reads_agree_sample :
    (cmdZrevrange sampleEnv (singleStore "z" (.zset (zsetBuilt sampleMembers)))
        (["ZREVRANGE", "z", "-3", "1"].map text)).2 =
      replyRange false (rangeOf (zsetBuilt sampleMembers).nodes.reverse (-3) 1) ∧
    (linkedBuilt sampleSeed sampleMembers).zrank true (text "c") = some (replyInteger 0) := by
  obtain ⟨ranges, _, memory⟩ := sorted_reads_agree sampleMembers
    (live_singleStore (sampleEnv.now 0) "z" _) (show stringToLl (text "-3") = some (-3) by decide)
    (show stringToLl (text "1") = some 1 by decide)
  refine ⟨(ranges (text "ZREVRANGE") [] false rfl).2, ?_⟩
  have last := (memory (by decide) sampleSeed).2 2 ⟨⟨0x3ff0000000000000⟩, text "c"⟩ (by decide)
  exact last.2

end Positions

/-! ### Scores -/

section Scores

/-- The score lies above a lower bound. -/
def aboveMin (min : Double × Bool) (score : Double) : Bool :=
  min.1.lt score || (!min.2 && min.1.eq score)

/-- The score lies below an upper bound. -/
def belowMax (max : Double × Bool) (score : Double) : Bool :=
  score.lt max.1 || (!max.2 && score.eq max.1)

/-- The members whose scores satisfy both bounds, in order. -/
def membersBetween (z : Zset) (min max : Double × Bool) : List ZNode :=
  z.nodes.filter fun node => aboveMin min node.score && belowMax max node.score

variable {z : Zset} {min max : Double × Bool}

theorem aboveMin_iff {node : ZNode} (number : node.score.isNaN = false)
    (bound : min.1.isNaN = false) :
    aboveMin min node.score = !zslBelow min.1 min.2 node := by
  rw [Bool.eq_iff_iff]
  simp only [aboveMin, zslBelow, Double.lt, Double.eq, number, bound]
  cases min.2 <;> simp <;> omega

/-- On a sorted chain a test that holds of every earlier node is a cut. -/
theorem filter_takeWhile (numeric : z.Numeric) {passes : ZNode → Bool}
    (down : ∀ {node other : ZNode}, node.place < other.place → node.score.isNaN = false →
      passes other = true → passes node = true) :
    z.nodes.filter passes = z.nodes.takeWhile passes ∧
      z.nodes.filter (fun node => !passes node) = z.nodes.dropWhile passes := by
  have sorted := z.sorted
  obtain ⟨left, right, whole, before, beyond⟩ := @cut ZNode id z.nodes passes
    (by rwa [List.map_id]) fun p inside q _ less passed => down less (numeric p inside) passed
  simp only [id] at before beyond
  rw [whole, List.filter_append, List.filter_append, List.filter_eq_self.mpr before,
    List.takeWhile_append_of_pos before, List.dropWhile_append_of_pos before,
    List.filter_eq_nil_iff.mpr (by simpa using beyond),
    List.filter_eq_nil_iff.mpr (by simpa using before),
    List.filter_eq_self.mpr (by simpa using beyond)]
  cases right with
  | nil => simp
  | cons node rest => simp [beyond node List.mem_cons_self]

/-- **The members between two bounds are a stretch of the chain.** -/
theorem membersBetween_eq (numeric : z.Numeric) (bound : min.1.isNaN = false) :
    membersBetween z min max =
      (z.nodes.drop (lowCount z min)).take (highCount z max - lowCount z min) := by
  have whole := List.takeWhile_append_dropWhile (p := zslBelow min.1 min.2) (l := z.nodes)
  have within : z.nodes.filter (fun node => belowMax max node.score) =
      z.nodes.take (highCount z max) :=
    (filter_takeWhile numeric zslWithin_down).1.trans
      (List.prefix_iff_eq_take.mp (List.takeWhile_prefix _))
  have rest : z.nodes.drop (lowCount z min) = z.nodes.dropWhile (zslBelow min.1 min.2) := by
    conv_lhs => rw [← whole]
    exact List.drop_left
  -- what lies below the lower bound is left out, and nothing after it
  have before : ∀ node ∈ z.nodes.takeWhile (zslBelow min.1 min.2),
      ¬ aboveMin min node.score = true := fun node inside => by
    have number := numeric node ((List.takeWhile_prefix _).subset inside)
    rw [aboveMin_iff number bound, List.mem_takeWhile_imp inside]
    simp
  have beyond : ∀ node ∈ z.nodes.dropWhile (zslBelow min.1 min.2),
      aboveMin min node.score = true := fun node inside => by
    have number := numeric node ((List.dropWhile_suffix _).subset inside)
    rw [← (filter_takeWhile numeric zslBelow_down).2] at inside
    rw [aboveMin_iff number bound]
    exact (List.mem_filter.mp inside).2
  have split : z.nodes.take (highCount z max) =
      (z.nodes.takeWhile (zslBelow min.1 min.2)).take (highCount z max) ++
        (z.nodes.dropWhile (zslBelow min.1 min.2)).take (highCount z max - lowCount z min) := by
    conv_lhs => rw [← whole]
    exact List.take_append
  unfold membersBetween
  rw [← List.filter_filter, within, split, List.filter_append,
    List.filter_eq_nil_iff.mpr fun node inside => before node (List.mem_of_mem_take inside),
    List.filter_eq_self.mpr fun node inside => beyond node (List.mem_of_mem_take inside),
    List.nil_append, rest]

theorem length_membersBetween (numeric : z.Numeric) (bound : min.1.isNaN = false) :
    (membersBetween z min max).length = highCount z max - lowCount z min := by
  have inside := highCount_le z max
  rw [membersBetween_eq numeric bound, List.length_take, List.length_drop]
  omega

/-- The ranks at the ends of a score range count its members. -/
theorem scoreRange_counts (numeric : z.Numeric) (bound : min.1.isNaN = false)
    (max : Double × Bool) :
    (scoreRange z min max = none ∧ (membersBetween z min max).length = 0) ∨
      ∃ rfirst rlast, scoreRange z min max = some (rfirst, rlast) ∧
        (membersBetween z min max).length = rlast - rfirst + 1 := by
  rw [scoreRange_eq numeric, length_membersBetween numeric bound]
  by_cases filled : lowCount z min < highCount z max
  · exact .inr ⟨_, _, if_pos filled, by omega⟩
  · exact .inl ⟨if_neg filled, by omega⟩

/-- The number of elements that `ZRANGEBYSCORE` announces for a range of `total` members. -/
def emitted (total offset limit : Int) : Int :=
  let emit := if limit < 0 then total - offset else limit
  let emit := if emit < 0 then 0 else emit
  if emit > total - offset then total - offset else emit

/-- `ZRANGEBYSCORE` in terms of the members between the bounds. -/
theorem zrangebyscoreReply_eq (numeric : z.Numeric) (bound : min.1.isNaN = false)
    (withscores : Bool) (offset limit : Int) :
    zrangebyscoreReply min max withscores offset limit z =
      if membersBetween z min max = [] then replyArrayHeader 0
      else
        replyNodeHeader withscores (emitted (membersBetween z min max).length offset limit) ++
          replyNodes withscores (((membersBetween z min max).drop offset.toNat).take
            (emitted (membersBetween z min max).length offset limit).toNat) := by
  have length : (membersBetween z min max).length = highCount z max - lowCount z min :=
    length_membersBetween numeric bound
  unfold zrangebyscoreReply
  rw [scoreRange_eq numeric]
  by_cases filled : lowCount z min < highCount z max
  · have some : membersBetween z min max ≠ [] := fun empty => by
      rw [empty, List.length_nil] at length
      omega
    have total : (highCount z max : Int) - (lowCount z min + 1 : Nat) + 1 =
        (membersBetween z min max).length := by omega
    have range : (z.nodes.drop (lowCount z min + 1 - 1)).take
        (membersBetween z min max).length = membersBetween z min max := by
      rw [length, Nat.add_sub_cancel, membersBetween_eq numeric bound]
    rw [if_pos filled, if_neg some]
    dsimp only
    rw [total, Int.toNat_natCast, range]
    rfl
  · have empty : membersBetween z min max = [] := List.length_eq_zero_iff.mp (by omega)
    rw [if_neg filled, if_pos empty]

/-- Without a `LIMIT`, all of them. -/
theorem zrangebyscoreReply_all (numeric : z.Numeric) (bound : min.1.isNaN = false)
    (withscores : Bool) :
    zrangebyscoreReply min max withscores 0 (-1) z =
      replyRange withscores (membersBetween z min max) := by
  have count : emitted (membersBetween z min max).length 0 (-1) =
      (membersBetween z min max).length := by
    unfold emitted
    dsimp only
    split_ifs <;> omega
  rw [zrangebyscoreReply_eq numeric bound, count]
  split
  · rename_i empty
    rw [empty, replyRange_nil]
  · rw [Int.toNat_natCast, Int.toNat_zero, List.drop_zero, List.take_length, replyRange]

/-- With a `LIMIT` whose offset is not beyond them, a slice. -/
theorem zrangebyscoreReply_slice (numeric : z.Numeric) (bound : min.1.isNaN = false)
    (withscores : Bool) {offset limit : Int} (low : 0 ≤ offset) (count : 0 ≤ limit)
    (inside : membersBetween z min max = [] ∨ offset ≤ (membersBetween z min max).length) :
    zrangebyscoreReply min max withscores offset limit z =
      replyRange withscores
        (((membersBetween z min max).drop offset.toNat).take limit.toNat) := by
  rw [zrangebyscoreReply_eq numeric bound]
  split
  · rename_i empty
    rw [empty, List.drop_nil, List.take_nil, replyRange_nil]
  · rename_i some
    have inside := inside.resolve_left some
    have same : ((membersBetween z min max).drop offset.toNat).take
        (emitted (membersBetween z min max).length offset limit).toNat =
          ((membersBetween z min max).drop offset.toNat).take limit.toNat := by
      rw [List.take_eq_take_iff, List.length_drop]
      unfold emitted
      dsimp only
      split_ifs <;> omega
    have size : emitted (membersBetween z min max).length offset limit =
        (((membersBetween z min max).drop offset.toNat).take limit.toNat).length := by
      rw [List.length_take, List.length_drop]
      unfold emitted
      dsimp only
      split_ifs <;> omega
    rw [same, size, replyRange]

/-- **With an offset beyond them, the array announces more than it holds.** -/
theorem zrangebyscoreReply_beyond (numeric : z.Numeric) (bound : min.1.isNaN = false)
    (withscores : Bool) {offset limit : Int} (fits : offset ≤ llongMax) (count : 0 ≤ limit)
    (some : membersBetween z min max ≠ [])
    (beyond : (membersBetween z min max).length < offset) :
    zrangebyscoreReply min max withscores offset limit z ≠ replyRange withscores [] := by
  have limit' : (llongMax : Int) = 2 ^ 63 - 1 := by decide
  have positive : 0 < (membersBetween z min max).length := List.length_pos_iff.mpr some
  have negative : emitted (membersBetween z min max).length offset limit =
      (membersBetween z min max).length - offset := by
    unfold emitted
    dsimp only
    split_ifs <;> omega
  rw [zrangebyscoreReply_eq numeric bound, if_neg some, negative, Int.toNat_of_nonpos (by omega),
    replyRange_nil, List.take_zero]
  unfold replyNodeHeader replyNodes
  simp only [List.flatMap_nil, List.append_nil, replyArrayHeader]
  intro same
  have digits := Decimal.render_injective
    (List.append_cancel_left (List.append_cancel_right same))
  split at digits
  · split at digits <;> omega
  · split at digits <;> omega

theorem parseScoreArg_number {s : Bytes} {bound : Double × Bool}
    (parsed : parseScoreArg s = some bound) : bound.1.isNaN = false := by
  unfold parseScoreArg at parsed
  split at parsed
  · obtain ⟨value, read, rfl⟩ := Option.map_eq_some_iff.mp parsed
    exact parseDouble_number read
  · obtain ⟨value, read, rfl⟩ := Option.map_eq_some_iff.mp parsed
    exact parseDouble_number read

variable {env : Env} {db : Db} {key a b : Bytes} {expireAt : Int} {options : List Bytes}
  {withscores : Bool}

/-- `ZRANGEBYSCORE` once its words are read. -/
theorem cmdZrangebyscore_reply (clause : List Bytes) {offset limit : Int}
    (holds : live (env.now 0) db key = some ⟨.zset z, expireAt⟩)
    (lower : parseScoreArg a = some min) (upper : parseScoreArg b = some max)
    (asked : scoresAsked options = some withscores)
    (other : strcaseEq (arg clause 0) (text "WITHSCORES") = false)
    (clauses : zrangeLimit clause = .ok (offset, limit)) (name : Bytes) :
    (cmdZrangebyscore env db (name :: key :: a :: b :: (options ++ clause))).2 =
      zrangebyscoreReply min max withscores offset limit z := by
  have read : (onKey (env.now 0) db key (zsetKind.read (replyArrayHeader 0)
      (zrangebyscoreReply min max withscores offset limit))).2 =
        zrangebyscoreReply min max withscores offset limit z := by
    rw [(onKey_live ..).2, holds]
    rfl
  rw [← read]
  rcases scoresAsked_cases asked with ⟨rfl, rfl⟩ | ⟨word, rfl, asks, rfl⟩
  · have plain : strcaseEq (clause[0]?.getD []) (text "WITHSCORES") = false := by
      rwa [arg, List.getD_eq_getElem?_getD] at other
    have long : ¬ clause.length + 1 + 1 + 1 + 1 < 4 := by omega
    simp [cmdZrangebyscore, arg, lower, upper, clauses, plain, long]
  · have long : ¬ clause.length + 1 + 1 + 1 + 1 + 1 < 4 := by omega
    simp [cmdZrangebyscore, arg, lower, upper, clauses, asks, long]

/-- **Score ranges are filters**: `ZCOUNT` counts the members between the bounds, `ZRANGEBYSCORE`
lists them in ascending order. In memory both come from two searches and two ranks. -/
theorem score_range_filters (calls : List ZsetCall)
    (holds : live (env.now 0) db key = some ⟨.zset (zsetBuilt calls), expireAt⟩)
    (lower : parseScoreArg a = some min) (upper : parseScoreArg b = some max) :
    (∀ name, (cmdZcount env db [name, key, a, b]).2 =
      replyInteger (membersBetween (zsetBuilt calls) min max).length) ∧
    (∀ name options withscores, scoresAsked options = some withscores →
      (cmdZrangebyscore env db (name :: key :: a :: b :: options)).2 =
        replyRange withscores (membersBetween (zsetBuilt calls) min max)) ∧
    ((membersBetween (zsetBuilt calls) min max).Pairwise fun a b => a.place < b.place) ∧
    ((zsetBuilt calls).nodes.length < 2 ^ 63 → ∀ seed,
      (linkedBuilt seed calls).zcount min max =
          replyInteger (membersBetween (zsetBuilt calls) min max).length ∧
        ∀ withscores, (linkedBuilt seed calls).zrangebyscore min max withscores 0 (-1) =
          some (replyRange withscores (membersBetween (zsetBuilt calls) min max))) := by
  have numeric := built_numeric calls
  have bound := parseScoreArg_number lower
  have counted := scoreRange_counts numeric bound max
  refine ⟨fun name => ?_, fun name options withscores asked => ?_, ?_, fun few seed => ?_⟩
  · unfold cmdZcount
    rw [if_neg (by simp), show arg [name, key, a, b] 2 = a from rfl,
      show arg [name, key, a, b] 3 = b from rfl, lower, upper]
    dsimp only
    rw [(onKey_live ..).2, show arg [name, key, a, b] 1 = key from rfl, holds]
    simp only [Kind.read, Kind.body, zsetKind]
    rcases counted with ⟨empty, length⟩ | ⟨rfirst, rlast, found, length⟩
    · rw [empty, length]
      rfl
    · rw [found, length]
  · have reply := cmdZrangebyscore_reply [] holds lower upper asked rfl rfl name
    rw [List.append_nil] at reply
    rw [reply, zrangebyscoreReply_all numeric bound]
  · exact (zsetBuilt calls).sorted.filter _
  · obtain ⟨nodes, backs⟩ := built_backs seed calls
    refine ⟨?_, fun withscores => ?_⟩
    · rw [backs.zcount few min max]
      rcases counted with ⟨empty, length⟩ | ⟨rfirst, rlast, found, length⟩
      · rw [empty, length]
        rfl
      · rw [found, length]
    · rw [backs.zrangebyscore few min max withscores ⟨le_rfl, by decide⟩,
        zrangebyscoreReply_all numeric bound]

/-- The bounds `-inf` and `(inf`. -/
def sampleMin : Double × Bool := (⟨0xfff0000000000000⟩, false)

def sampleMax : Double × Bool := (⟨0x7ff0000000000000⟩, true)

theorem score_range_filters_sample :
    (cmdZcount sampleEnv (singleStore "z" (.zset (zsetBuilt sampleMembers)))
        (["ZCOUNT", "z", "-inf", "(inf"].map text)).2 =
      replyInteger (membersBetween (zsetBuilt sampleMembers) sampleMin sampleMax).length ∧
    (membersBetween (zsetBuilt sampleMembers) sampleMin sampleMax).map ZNode.member =
      ["a", "b", "c"].map text := by
  obtain ⟨counts, _⟩ := score_range_filters sampleMembers
    (live_singleStore (sampleEnv.now 0) "z" _)
    (show parseScoreArg (text "-inf") = some sampleMin by decide)
    (show parseScoreArg (text "(inf") = some sampleMax by decide)
  exact ⟨counts (text "ZCOUNT"), by decide⟩

/-- A `LIMIT` clause is read as its two numbers. -/
theorem zrangeLimit_eq {word o c : Bytes} {offset count : Int}
    (limit : strcaseEq word (text "LIMIT") = true) (first : stringToLl o = some offset)
    (second : stringToLl c = some count) (low : 0 ≤ offset) (some : 0 ≤ count) :
    zrangeLimit [word, o, c] = .ok (offset, count) := by
  unfold zrangeLimit
  simp only [limit, if_true, first, second]
  rw [if_neg (by omega), if_neg (by simp)]

/-- **`LIMIT` takes a slice exactly when its offset is not beyond the members in range.** -/
theorem score_limit_iff (calls : List ZsetCall)
    (holds : live (env.now 0) db key = some ⟨.zset (zsetBuilt calls), expireAt⟩)
    (lower : parseScoreArg a = some min) (upper : parseScoreArg b = some max)
    (asked : scoresAsked options = some withscores) {word o c : Bytes} {offset count : Int}
    (limit : strcaseEq word (text "LIMIT") = true) (first : stringToLl o = some offset)
    (second : stringToLl c = some count) (low : 0 ≤ offset) (some : 0 ≤ count) (name : Bytes) :
    (WellFormed (cmdZrangebyscore env db
          (name :: key :: a :: b :: (options ++ [word, o, c]))).2 ∧
      (cmdZrangebyscore env db (name :: key :: a :: b :: (options ++ [word, o, c]))).2 =
        replyRange withscores (((membersBetween (zsetBuilt calls) min max).drop
          offset.toNat).take count.toNat)) ↔
      membersBetween (zsetBuilt calls) min max = [] ∨
        offset ≤ (membersBetween (zsetBuilt calls) min max).length := by
  have numeric := built_numeric calls
  have bound := parseScoreArg_number lower
  have other : strcaseEq word (text "WITHSCORES") = false := by
    have same : word.map toLower = (text "LIMIT").map toLower := by
      simpa [strcaseEq] using limit
    rw [strcaseEq, same]
    decide
  rw [cmdZrangebyscore_reply [word, o, c] holds lower upper asked other
    (zrangeLimit_eq limit first second low some) name]
  by_cases inside : membersBetween (zsetBuilt calls) min max = [] ∨
      offset ≤ (membersBetween (zsetBuilt calls) min max).length
  · rw [zrangebyscoreReply_slice numeric bound withscores low some inside]
    exact iff_of_true ⟨wellFormed_nodes withscores rfl, rfl⟩ inside
  · refine iff_of_false ?_ inside
    rintro ⟨_, same⟩
    obtain ⟨filled, beyond⟩ := not_or.mp inside
    refine zrangebyscoreReply_beyond numeric bound withscores (stringToLl_range first).2 some
      filled (not_le.mp beyond) ?_
    rw [same, List.drop_eq_nil_of_le (by omega), List.take_nil]

theorem score_limit_iff_sample :
    WellFormed (cmdZrangebyscore sampleEnv (singleStore "z" (.zset (zsetBuilt sampleMembers)))
        (["ZRANGEBYSCORE", "z", "-inf", "(inf", "LIMIT", "2", "5"].map text)).2 ∧
      (cmdZrangebyscore sampleEnv (singleStore "z" (.zset (zsetBuilt sampleMembers)))
        (["ZRANGEBYSCORE", "z", "-inf", "(inf", "LIMIT", "2", "5"].map text)).2 =
          replyRange false (((membersBetween (zsetBuilt sampleMembers) sampleMin sampleMax).drop
            (2 : Int).toNat).take (5 : Int).toNat) :=
  (score_limit_iff sampleMembers (live_singleStore (sampleEnv.now 0) "z" _)
    (show parseScoreArg (text "-inf") = some sampleMin by decide)
    (show parseScoreArg (text "(inf") = some sampleMax by decide)
    (show scoresAsked [] = some false from rfl)
    (show strcaseEq (text "LIMIT") (text "LIMIT") = true by decide)
    (show stringToLl (text "2") = some 2 by decide) (show stringToLl (text "5") = some 5 by decide)
    (by decide) (by decide) (text "ZRANGEBYSCORE")).mpr (.inr (by decide))

/-- Three members in range, an offset of four: the header announces `2 ^ 64 - 1` elements and none
follows. -/
theorem limit_beyond_announces :
    (cmdZrangebyscore sampleEnv (singleStore "z" (.zset (zsetBuilt sampleMembers)))
        (["ZRANGEBYSCORE", "z", "-inf", "(inf", "LIMIT", "4", "5"].map text)).2 =
      text "*18446744073709551615\r\n" ∧
    replyRange false (((membersBetween (zsetBuilt sampleMembers) sampleMin sampleMax).drop
      4).take 5) = text "*0\r\n" := by
  decide

end Scores

end Miniredis
