/-
**Sorted sets (`zskiplist.c`), as the ordered sequence the skiplist represents.**

A sorted set is the level-0 chain of its skiplist: nodes ascending by score, then bytewise by
member, no member twice. Both facts are fields. The member dictionary of the source is the lookup
by member in that chain. Scores are compared by `Double.rank`, which is `<` and `==` away from NaN;
no command stores a NaN (`parse_double` and the sums reject it).

* `score_eq_some_iff` — a lookup finds exactly the nodes;
* `score_add`, `score_remove` — the member-to-score map after an update.
-/

import Miniredis.Lib.Binary64
import Miniredis.Model.Util
import Mathlib.Data.List.Lex
import Mathlib.Data.Prod.Lex
import Mathlib.Order.Lex

namespace Miniredis

/-- `member_cmp(a, b) < 0`. -/
def memberLt : Bytes → Bytes → Bool
  | [], [] => false
  | [], _ :: _ => true
  | _ :: _, [] => false
  | x :: xs, y :: ys => if x < y then true else if y < x then false else memberLt xs ys

structure ZNode where
  score : Double
  member : Bytes
deriving DecidableEq

/-- The walk of `zsl_insert` passes `node` on its way to the place of `new`. -/
def ZNode.before (node new : ZNode) : Bool :=
  node.score.rank < new.score.rank ||
    (node.score.rank = new.score.rank && memberLt node.member new.member)

/-- The place of a node in the order. -/
def ZNode.place (node : ZNode) : Int ×ₗ List Nat :=
  toLex (node.score.rank, node.member.map UInt8.toNat)

theorem memberLt_iff (a b : Bytes) :
    memberLt a b = true ↔ a.map UInt8.toNat < b.map UInt8.toNat := by
  induction a generalizing b with
  | nil =>
    cases b with
    | nil => simp [memberLt]
    | cons y ys => simp [memberLt]
  | cons x xs ih =>
    cases b with
    | nil => simp [memberLt]
    | cons y ys =>
      unfold memberLt
      rw [List.map_cons, List.map_cons, List.cons_lt_cons_iff]
      by_cases less : x < y
      · simp [less, UInt8.lt_iff_toNat_lt.mp less]
      · by_cases more : y < x
        · have far := UInt8.lt_iff_toNat_lt.mp more
          simp only [if_neg less, if_pos more, Bool.false_eq_true, false_iff, not_or, not_and]
          exact ⟨by omega, fun same => absurd same (by omega)⟩
        · have same : x = y := by
            rw [UInt8.lt_iff_toNat_lt] at less more
            exact UInt8.toNat_inj.mp (by omega)
          subst same
          simp [ih]

theorem ZNode.before_iff (node new : ZNode) : node.before new = true ↔ node.place < new.place := by
  unfold ZNode.before ZNode.place
  rw [Prod.Lex.toLex_lt_toLex]
  simp [memberLt_iff]

theorem ZNode.place_injective {a b : ZNode} (member : a.place = b.place) : a.member = b.member := by
  have pair := toLex.injective member
  have second : a.member.map UInt8.toNat = b.member.map UInt8.toNat := congrArg Prod.snd pair
  exact List.map_injective_iff.mpr (fun _ _ same => UInt8.toNat_inj.mp same) second

/-- The list after `zsl_insert`. -/
def zslInsert (new : ZNode) : List ZNode → List ZNode
  | [] => [new]
  | node :: rest => if node.before new then node :: zslInsert new rest else new :: node :: rest

theorem zslInsert_perm (new : ZNode) (nodes : List ZNode) :
    (zslInsert new nodes).Perm (new :: nodes) := by
  induction nodes with
  | nil => exact List.Perm.refl _
  | cons node rest ih =>
    unfold zslInsert
    split
    · exact (ih.cons node).trans (List.Perm.swap new node rest)
    · exact List.Perm.refl _

theorem zslInsert_sorted (new : ZNode) (nodes : List ZNode)
    (sorted : nodes.Pairwise fun a b => a.place < b.place)
    (fresh : ∀ node ∈ nodes, node.member ≠ new.member) :
    (zslInsert new nodes).Pairwise fun a b => a.place < b.place := by
  induction nodes with
  | nil => simp [zslInsert]
  | cons node rest ih =>
    obtain ⟨first, later⟩ := List.pairwise_cons.mp sorted
    unfold zslInsert
    split
    · rename_i passes
      refine List.pairwise_cons.mpr ⟨fun other member => ?_,
        ih later (List.forall_mem_cons.mp fresh).2⟩
      rcases List.mem_cons.mp ((zslInsert_perm new rest).subset member) with rfl | member
      · exact (ZNode.before_iff _ _).mp passes
      · exact first other member
    · rename_i stops
      have above : new.place < node.place := by
        rcases lt_trichotomy node.place new.place with less | same | more
        · exact absurd ((ZNode.before_iff _ _).mpr less) stops
        · exact absurd (ZNode.place_injective same) (fresh node List.mem_cons_self)
        · exact more
      refine List.pairwise_cons.mpr ⟨fun other member => ?_, sorted⟩
      rcases List.mem_cons.mp member with rfl | member
      · exact above
      · exact above.trans (first other member)

/-- A sorted set. -/
structure Zset where
  nodes : List ZNode
  sorted : nodes.Pairwise fun a b => a.place < b.place
  distinct : (nodes.map ZNode.member).Nodup

/-- `zset_create`. -/
def zsetCreate : Zset := ⟨[], List.Pairwise.nil, List.nodup_nil⟩

/-- `zset_len`. -/
def zsetLen (z : Zset) : Nat := z.nodes.length

/-- `zset_score`: the member's node through the dictionary. -/
def zsetScore (z : Zset) (member : Bytes) : Option Double :=
  (z.nodes.find? fun node => node.member = member).map ZNode.score

/-- The set without a member. -/
def Zset.erase (z : Zset) (member : Bytes) : Zset where
  nodes := z.nodes.filter fun node => node.member ≠ member
  sorted := z.sorted.filter _
  distinct := (List.filter_sublist.map ZNode.member).nodup z.distinct

/-- The set with a member it did not have. -/
def Zset.insert (z : Zset) (new : ZNode) (fresh : ∀ node ∈ z.nodes, node.member ≠ new.member) :
    Zset where
  nodes := zslInsert new z.nodes
  sorted := zslInsert_sorted new z.nodes z.sorted fresh
  distinct := by
    refine ((zslInsert_perm new z.nodes).map ZNode.member).nodup_iff.mpr ?_
    rw [List.map_cons, List.nodup_cons]
    refine ⟨fun member => ?_, z.distinct⟩
    obtain ⟨node, inside, same⟩ := List.mem_map.mp member
    exact fresh node inside same

theorem Zset.erase_fresh (z : Zset) (member : Bytes) :
    ∀ node ∈ (z.erase member).nodes, node.member ≠ member := by
  intro node inside
  have kept := (List.mem_filter.mp inside).2
  simpa using kept

/-- Unlink any node of the member, then insert it at its place. -/
def Zset.put (z : Zset) (score : Double) (member : Bytes) : Zset :=
  (z.erase member).insert ⟨score, member⟩ (z.erase_fresh member)

/-- `zset_add`: `1` for a new member, `2` for a changed score, `0` for an equal score. -/
def zsetAdd (z : Zset) (score : Double) (member : Bytes) : Nat × Zset :=
  match zsetScore z member with
  | some old => if old.eq score then (0, z) else (2, z.put score member)
  | none => (1, z.put score member)

/-- `zset_remove`. -/
def zsetRemove (z : Zset) (member : Bytes) : Bool × Zset :=
  match zsetScore z member with
  | some _ => (true, z.erase member)
  | none => (false, z)

/-! ### The member-to-score map -/

/-- **A lookup finds exactly the nodes.** -/
theorem score_eq_some_iff (z : Zset) (member : Bytes) (score : Double) :
    zsetScore z member = some score ↔ ⟨score, member⟩ ∈ z.nodes := by
  unfold zsetScore
  rw [Option.map_eq_some_iff]
  constructor
  · rintro ⟨node, hit, rfl⟩
    have same : node.member = member := by simpa using List.find?_some hit
    rw [← same]
    exact List.mem_of_find?_eq_some hit
  · intro inside
    cases hit : z.nodes.find? fun node => node.member = member with
    | none =>
      have missed := List.find?_eq_none.mp hit _ inside
      simp at missed
    | some node =>
      have same : node.member = member := by simpa using List.find?_some hit
      have equal := List.inj_on_of_nodup_map z.distinct (List.mem_of_find?_eq_some hit) inside same
      exact ⟨node, rfl, by rw [equal]⟩

@[simp] theorem score_create (member : Bytes) : zsetScore zsetCreate member = none := rfl

theorem mem_erase {z : Zset} {member : Bytes} {node : ZNode} :
    node ∈ (z.erase member).nodes ↔ node ∈ z.nodes ∧ node.member ≠ member := by
  unfold Zset.erase
  rw [List.mem_filter, decide_eq_true_eq]

theorem score_erase (z : Zset) (member other : Bytes) :
    zsetScore (z.erase member) other = if other = member then none else zsetScore z other := by
  ext score
  rw [score_eq_some_iff, mem_erase]
  split
  · rename_i same
    simp [same]
  · rename_i ne
    rw [score_eq_some_iff]
    exact ⟨fun both => both.1, fun inside => ⟨inside, ne⟩⟩

theorem score_put (z : Zset) (score : Double) (member other : Bytes) :
    zsetScore (z.put score member) other =
      if other = member then some score else zsetScore z other := by
  have membership : ∀ node, node ∈ (z.put score member).nodes ↔
      node = ⟨score, member⟩ ∨ (node ∈ z.nodes ∧ node.member ≠ member) := by
    intro node
    rw [← mem_erase, ← List.mem_cons]
    exact (zslInsert_perm _ _).mem_iff
  ext found
  rw [score_eq_some_iff, membership]
  split
  · rename_i same
    subst same
    simp [eq_comm]
  · rename_i ne
    rw [score_eq_some_iff]
    simp [ne]

/-- **The scores after `zset_add`**: an equal score keeps the stored one. -/
theorem score_add (z : Zset) (score : Double) (member other : Bytes) :
    zsetScore (zsetAdd z score member).2 other =
      if other = member then
        (match zsetScore z member with
          | some old => if old.eq score then some old else some score
          | none => some score)
      else zsetScore z other := by
  unfold zsetAdd
  cases found : zsetScore z member with
  | none => rw [score_put]
  | some old =>
    by_cases same : old.eq score = true
    · simp only [same, if_true]
      split
      · rename_i here
        rw [here, found]
      · rfl
    · simp only [same, if_false, Bool.false_eq_true]
      rw [score_put]

/-- **The scores after `zset_remove`.** -/
theorem score_remove (z : Zset) (member other : Bytes) :
    zsetScore (zsetRemove z member).2 other =
      if other = member then none else zsetScore z other := by
  unfold zsetRemove
  cases found : zsetScore z member with
  | some old => exact score_erase z member other
  | none =>
    show zsetScore z other = _
    split
    · rename_i here
      rw [here, found]
    · rfl

/-- The sorted set after adding the nodes of a list in order. -/
def zsetAddAll (nodes : List ZNode) (start : Zset) : Zset :=
  nodes.foldl (fun z node => (zsetAdd z node.score node.member).2) start

theorem score_addAll_other {nodes : List ZNode} (z : Zset) {member : Bytes}
    (fresh : member ∉ nodes.map ZNode.member) :
    zsetScore (zsetAddAll nodes z) member = zsetScore z member := by
  induction nodes generalizing z with
  | nil => rfl
  | cons node rest ih =>
    rw [List.map_cons, List.mem_cons, not_or] at fresh
    exact (ih _ fresh.2).trans ((score_add ..).trans (if_neg fresh.1))

theorem score_addAll_mem {nodes : List ZNode} (z : Zset) {score : Double} {member : Bytes}
    (distinct : (nodes.map ZNode.member).Nodup) (inside : ⟨score, member⟩ ∈ nodes)
    (absent : zsetScore z member = none) :
    zsetScore (zsetAddAll nodes z) member = some score := by
  induction nodes generalizing z with
  | nil => cases inside
  | cons node rest ih =>
    rw [List.map_cons, List.nodup_cons] at distinct
    rcases List.mem_cons.mp inside with rfl | later
    · refine (score_addAll_other _ distinct.1).trans ?_
      rw [score_add, if_pos rfl, absent]
    · have other : member ≠ node.member := fun same =>
        distinct.1 (same ▸ List.mem_map_of_mem later)
      exact ih _ distinct.2 later ((score_add ..).trans ((if_neg other).trans absent))

/-- **Adding the nodes of a sorted set to an empty one rebuilds its scores.** -/
theorem score_rebuild (z : Zset) (member : Bytes) :
    zsetScore (zsetAddAll z.nodes zsetCreate) member = zsetScore z member := by
  cases found : zsetScore z member with
  | some score =>
    exact score_addAll_mem _ z.distinct ((score_eq_some_iff z member score).mp found) rfl
  | none =>
    refine score_addAll_other zsetCreate fun there => ?_
    obtain ⟨node, inside, same⟩ := List.mem_map.mp there
    have hit := (score_eq_some_iff z node.member node.score).mpr inside
    rw [same, found] at hit
    cases hit

/-- An empty sorted set has no members. -/
theorem zsetLen_eq_zero_iff (z : Zset) : zsetLen z = 0 ↔ ∀ member, zsetScore z member = none := by
  unfold zsetLen
  rw [List.length_eq_zero_iff]
  constructor
  · intro empty member
    unfold zsetScore
    rw [empty]
    rfl
  · intro none
    refine List.eq_nil_iff_forall_not_mem.mpr fun node inside => ?_
    have found := (score_eq_some_iff z node.member node.score).mpr inside
    rw [none] at found
    cases found

/-! ### The number of members -/

section Length

variable {z : Zset} {member : Bytes}

theorem zsetLen_erase_present {score : Double} (found : zsetScore z member = some score) :
    zsetLen z = zsetLen (z.erase member) + 1 := by
  have distinct : z.nodes.Nodup := List.Nodup.of_map _ z.distinct
  have fresh : (⟨score, member⟩ : ZNode) ∉ (z.erase member).nodes := fun inside =>
    (mem_erase.mp inside).2 rfl
  have split : z.nodes.Perm (⟨score, member⟩ :: (z.erase member).nodes) := by
    refine (List.perm_ext_iff_of_nodup distinct (List.nodup_cons.mpr
      ⟨fresh, List.Nodup.of_map _ (z.erase member).distinct⟩)).mpr fun node => ?_
    rw [List.mem_cons, mem_erase]
    constructor
    · intro inside
      by_cases same : node.member = member
      · have scored := (score_eq_some_iff z node.member node.score).mpr inside
        rw [same, found] at scored
        refine .inl ?_
        rw [Option.some.inj scored, ← same]
      · exact .inr ⟨inside, same⟩
    · rintro (rfl | ⟨inside, -⟩)
      · exact (score_eq_some_iff z member score).mp found
      · exact inside
  exact split.length_eq

theorem zsetLen_erase_absent (absent : zsetScore z member = none) :
    zsetLen (z.erase member) = zsetLen z := by
  have all : (z.erase member).nodes = z.nodes := by
    refine List.filter_eq_self.mpr fun node inside => ?_
    rw [decide_eq_true_eq]
    intro same
    have scored := (score_eq_some_iff z node.member node.score).mpr inside
    rw [same, absent] at scored
    cases scored
  rw [zsetLen, all, zsetLen]

theorem zsetLen_put (z : Zset) (score : Double) (member : Bytes) :
    zsetLen (z.put score member) = zsetLen (z.erase member) + 1 :=
  (zslInsert_perm _ _).length_eq

/-- An addition counts if the member is new. -/
theorem zsetLen_add (z : Zset) (score : Double) (member : Bytes) :
    zsetLen (zsetAdd z score member).2 =
      zsetLen z + if (zsetAdd z score member).1 = 1 then 1 else 0 := by
  unfold zsetAdd
  cases found : zsetScore z member with
  | none => exact (zsetLen_put z score member).trans (by rw [zsetLen_erase_absent found]; rfl)
  | some old =>
    by_cases equal : old.eq score = true
    · simp only [if_pos equal]
      rfl
    · simp only [if_neg equal]
      exact (zsetLen_put z score member).trans (zsetLen_erase_present found).symm

/-- A removal counts if the member was there. -/
theorem zsetLen_remove (z : Zset) (member : Bytes) :
    zsetLen z = zsetLen (zsetRemove z member).2 + if (zsetRemove z member).1 then 1 else 0 := by
  unfold zsetRemove
  cases found : zsetScore z member with
  | none => rfl
  | some old => exact zsetLen_erase_present found

end Length

end Miniredis
