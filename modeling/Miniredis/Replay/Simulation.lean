/-
**The dataset, and stores that agree on it.**

`Content` is what a value means to a client, free of table layouts and hash seeds; `dataset` is the
map from keys to contents. Two stores are similar on a set of keys when their objects there have
the same content and their expiries are related. The relation on expiries is a parameter: it is
trivial where only contents matter and an equality of signs where it matters which keys expire.

The commands compute on one key at a time, so similarity is kept key by key: a body that answers
similar objects with similar updates keeps the stores similar (`onKey_simOn`), and each shape of
body does that if its own step does (`Kind.edit_sim`, `Kind.shrink_sim`, `Kind.upsert_sim`).
-/

import Miniredis.Model.Server
import Mathlib.Data.Option.Basic
import Mathlib.Data.Set.Basic

namespace Miniredis

open HashTable (Table)

/-! ### Contents -/

/-- What a value means to a client. -/
inductive Content where
  | string (s : Bytes)
  | list (l : List Bytes)
  | hash (h : Bytes → Option Bytes)
  | set (s : Set Bytes)
  | zset (z : Bytes → Option Double)

def Value.content : Value → Content
  | .string s => .string s
  | .list l => .list l
  | .hash h => .hash h.get
  | .set s => .set { member | (s.get member).isSome }
  | .zset z => .zset (zsetScore z)

/-- The keys of a store and their contents. -/
def dataset (db : Db) : Bytes → Option Content := fun key => (db.d.get key).map (·.val.content)

/-- A container without elements. -/
def Content.Empty : Content → Prop
  | .string _ => False
  | .list l => l = []
  | .hash h => ∀ field, h field = none
  | .set s => ∀ member, member ∉ s
  | .zset z => ∀ member, z member = none

theorem Value.isEmpty_iff (v : Value) : v.isEmpty = true ↔ v.content.Empty := by
  cases v with
  | string s => simp [Value.isEmpty, Value.content, Content.Empty]
  | list l => simp [Value.isEmpty, Value.content, Content.Empty]
  | hash h => exact decide_eq_true_iff.trans h.used_eq_zero_iff
  | set s =>
    refine (decide_eq_true_iff.trans s.used_eq_zero_iff).trans (forall_congr' fun member => ?_)
    exact Option.not_isSome_iff_eq_none.symm
  | zset z => exact decide_eq_true_iff.trans (zsetLen_eq_zero_iff z)

theorem Value.isEmpty_of_content {v w : Value} (same : v.content = w.content) :
    v.isEmpty = w.isEmpty := by
  rw [Bool.eq_iff_iff, v.isEmpty_iff, w.isEmpty_iff, same]

/-! ### Similar objects and updates -/

/-- Two objects with the same content, and expiries related by `E`. -/
structure Robj.Sim (E : Int → Int → Prop) (o o' : Robj) : Prop where
  content : o.val.content = o'.val.content
  expire : E o.expireAt o'.expireAt

/-- Two updates of one kind with similar objects. -/
inductive Update.Sim (E : Int → Int → Prop) : Update → Update → Prop
  | keep : Update.Sim E .keep .keep
  | store {o o' : Robj} (sim : o.Sim E o') : Update.Sim E (.store o) (.store o')
  | write {o o' : Robj} (sim : o.Sim E o') : Update.Sim E (.write o) (.write o')
  | remove : Update.Sim E .remove .remove

/-- Two bodies that answer similar objects with similar updates. -/
def BodySim (E : Int → Int → Prop) (body body' : Option Robj → Update × Bytes) : Prop :=
  ∀ found found', Option.Rel (Robj.Sim E) found found' →
    Update.Sim E (body found).1 (body' found').1

section Kinds

variable {α : Type} {E : Int → Int → Prop}

theorem Robj.sim_new (clean : E (-1) (-1)) {v w : Value} (same : v.content = w.content) :
    (robjNew v).Sim E (robjNew w) := ⟨same, clean⟩

theorem maybeDeleteKey_sim {o o' : Robj} (sim : o.Sim E o') :
    Update.Sim E (maybeDeleteKey o) (maybeDeleteKey o') := by
  unfold maybeDeleteKey
  rw [Value.isEmpty_of_content sim.content]
  split
  · exact .remove
  · exact .write sim

namespace Kind

/-- Two values of one type with the same content. -/
def Same (kind : Kind α) (a a' : α) : Prop := (kind.wrap a).content = (kind.wrap a').content

/-- The type test depends on the content only. -/
structure Lawful (kind : Kind α) : Prop where
  unwrap : ∀ {v v' : Value}, v.content = v'.content →
    Option.Rel kind.Same (kind.unwrap v) (kind.unwrap v')
  fresh : ∀ seed seed', kind.Same (kind.fresh seed) (kind.fresh seed')

variable {kind : Kind α}

theorem body_sim (lawful : kind.Lawful) {missing missing' : Update × Bytes}
    {present present' : Int → α → Update × Bytes} (absent : Update.Sim E missing.1 missing'.1)
    (found : ∀ {e e' a a'}, E e e' → kind.Same a a' →
      Update.Sim E (present e a).1 (present' e' a').1) :
    BodySim E (kind.body missing present) (kind.body missing' present') := by
  intro o o' sim
  cases sim with
  | none => exact absent
  | @some o o' sim =>
    have same := lawful.unwrap sim.content
    simp only [body]
    cases first : kind.unwrap o.val <;> cases second : kind.unwrap o'.val <;>
      rw [first, second] at same <;> cases same
    · exact .keep
    · exact found sim.expire (by assumption)

theorem edit_sim (lawful : kind.Lawful) {missing missing' : Bytes} {act act' : α → α × Bytes}
    (acts : ∀ {a a'}, kind.Same a a' → kind.Same (act a).1 (act' a').1) :
    BodySim E (kind.edit missing act) (kind.edit missing' act') :=
  body_sim lawful .keep fun expire same => .write ⟨acts same, expire⟩

theorem shrink_sim (lawful : kind.Lawful) {missing missing' : Bytes} {act act' : α → α × Bytes}
    (acts : ∀ {a a'}, kind.Same a a' → kind.Same (act a).1 (act' a').1) :
    BodySim E (kind.shrink missing act) (kind.shrink missing' act') :=
  body_sim lawful .keep fun expire same => maybeDeleteKey_sim ⟨acts same, expire⟩

theorem upsert_sim (lawful : kind.Lawful) (clean : E (-1) (-1)) {seed seed' : Seed}
    {act act' : α → α × Bytes}
    (acts : ∀ {a a'}, kind.Same a a' → kind.Same (act a).1 (act' a').1) :
    BodySim E (kind.upsert seed act) (kind.upsert seed' act') :=
  body_sim lawful (.store (Robj.sim_new clean (acts (lawful.fresh seed seed'))))
    fun expire same => .write ⟨acts same, expire⟩

end Kind

/-- The value of one type at a key. -/
def valueAt (kind : Kind α) (db : Db) (key : Bytes) : Option α :=
  (db.d.get key).bind fun o => kind.unwrap o.val

/-- The dataset determines the values at a key. -/
theorem valueAt_same {kind : Kind α} (lawful : kind.Lawful) {db db' : Db} {key : Bytes}
    (same : dataset db key = dataset db' key) :
    Option.Rel kind.Same (valueAt kind db key) (valueAt kind db' key) := by
  unfold dataset at same
  unfold valueAt
  cases first : db.d.get key with
  | none =>
    rw [first] at same
    rw [Option.map_eq_none_iff.mp same.symm]
    exact .none
  | some o =>
    rw [first] at same
    obtain ⟨o', second, content⟩ := Option.map_eq_some_iff.mp same.symm
    rw [second]
    exact lawful.unwrap content.symm

theorem stringKind_same {s s' : Bytes} : stringKind.Same s s' ↔ s = s' := by
  simp [Kind.Same, stringKind, Value.content]

theorem listKind_same {l l' : List Bytes} : listKind.Same l l' ↔ l = l' := by
  simp [Kind.Same, listKind, Value.content]

theorem hashKind_same {h h' : Dict Bytes} :
    hashKind.Same h h' ↔ ∀ field, h.get field = h'.get field := by
  simp [Kind.Same, hashKind, Value.content, funext_iff]

theorem setKind_same {s s' : Dict Unit} :
    setKind.Same s s' ↔ ∀ member, s.get member = s'.get member := by
  simp only [Kind.Same, setKind, Value.content, Content.set.injEq, Set.ext_iff, Set.mem_ofPred_eq]
  refine forall_congr' fun member => ?_
  cases s.get member <;> cases s'.get member <;> simp

theorem zsetKind_same {z z' : Zset} :
    zsetKind.Same z z' ↔ ∀ member, zsetScore z member = zsetScore z' member := by
  simp [Kind.Same, zsetKind, Value.content, funext_iff]

theorem stringKind_lawful : stringKind.Lawful where
  unwrap {v v'} same := by
    cases v <;> cases v' <;> first | exact .none | exact .some same | cases same
  fresh _ _ := rfl

theorem listKind_lawful : listKind.Lawful where
  unwrap {v v'} same := by
    cases v <;> cases v' <;> first | exact .none | exact .some same | cases same
  fresh _ _ := rfl

theorem hashKind_lawful : hashKind.Lawful where
  unwrap {v v'} same := by
    cases v <;> cases v' <;> first | exact .none | exact .some same | cases same
  fresh seed seed' := hashKind_same.mpr fun field =>
    (dictCreate_get seed field).trans (dictCreate_get seed' field).symm

theorem setKind_lawful : setKind.Lawful where
  unwrap {v v'} same := by
    cases v <;> cases v' <;> first | exact .none | exact .some same | cases same
  fresh seed seed' := setKind_same.mpr fun member =>
    (dictCreate_get seed member).trans (dictCreate_get seed' member).symm

theorem zsetKind_lawful : zsetKind.Lawful where
  unwrap {v v'} same := by
    cases v <;> cases v' <;> first | exact .none | exact .some same | cases same
  fresh _ _ := rfl

end Kinds

/-! ### Similar stores -/

section Stores

/-- The stores have similar objects at the keys of `K`. -/
def SimOn (E : Int → Int → Prop) (K : Set Bytes) (db db' : Db) : Prop :=
  ∀ key ∈ K, Option.Rel (Robj.Sim E) (db.d.get key) (db'.d.get key)

/-- The keys of a store with their contents and expiries. -/
def stored (db : Db) : Bytes → Option (Content × Int) :=
  fun key => (db.d.get key).map fun o => (o.val.content, o.expireAt)

/-- A lookup of the key at this time does not find it expired. -/
def Unexpired (now : Int) (db : Db) (key : Bytes) : Prop :=
  ∀ o, db.d.get key = some o → keyExpired now o = false

variable {E : Int → Int → Prop} {K : Set Bytes} {now now' : Int} {db db' : Db} {key other : Bytes}

/-- At a key of `K` both stores have nothing or similar objects. -/
theorem SimOn.at (sim : SimOn E K db db') (member : key ∈ K) :
    (db.d.get key = none ∧ db'.d.get key = none) ∨
      ∃ o o', db.d.get key = some o ∧ db'.d.get key = some o' ∧ o.Sim E o' := by
  have related := sim key member
  generalize db.d.get key = found, db'.d.get key = found' at related
  cases related with
  | none => exact .inl ⟨rfl, rfl⟩
  | some same => exact .inr ⟨_, _, rfl, rfl, same⟩

theorem sim_stored {o o' : Option Robj} (sim : Option.Rel (Robj.Sim (· = ·)) o o') :
    o'.map (fun o => (o.val.content, o.expireAt)) =
      o.map fun o => (o.val.content, o.expireAt) := by
  cases sim with
  | none => rfl
  | some same => rw [Option.map_some, Option.map_some, same.1, same.2]

theorem SimOn.stored (sim : SimOn (· = ·) Set.univ db db') : stored db' = stored db := by
  funext key
  exact sim_stored (sim key (Set.mem_univ key))

theorem lookupKey_unexpired (unexpired : Unexpired now db key) :
    lookupKey now db key = (db.d.get key, db) := by
  unfold lookupKey
  split
  · rename_i missing
    rw [missing]
  · rename_i o found
    rw [unexpired o found, found]
    rfl

theorem lookupKey_get_other (ne : other ≠ key) :
    (lookupKey now db key).2.d.get other = db.d.get other := by
  unfold lookupKey
  split
  · rfl
  · split
    · show (db.d.delete key).2.get other = _
      rw [Table.get_delete, if_neg ne]
    · rfl

theorem Update.apply_get_other (update : Update) (ne : other ≠ key) :
    (update.apply db key).d.get other = db.d.get other := by
  cases update with
  | keep => rfl
  | store o => exact (Table.get_set ..).trans (if_neg ne)
  | write o => exact (Table.get_write ..).trans (if_neg ne)
  | remove => exact (Table.get_delete ..).trans (if_neg ne)

/-- A command on one key leaves the others alone. -/
theorem onKey_get_other {body : Option Robj → Update × Bytes} (ne : other ≠ key) :
    (onKey now db key body).1.d.get other = db.d.get other := by
  unfold onKey
  exact (Update.apply_get_other _ ne).trans (lookupKey_get_other ne)

theorem rel_map_const {a a' : Option Robj} {o o' : Robj} (before : Option.Rel (Robj.Sim E) a a')
    (sim : o.Sim E o') :
    Option.Rel (Robj.Sim E) (a.map fun _ => o) (a'.map fun _ => o') := by
  cases before with
  | none => exact .none
  | some _ => exact .some sim

theorem Update.apply_sim {update update' : Update} (sim : update.Sim E update')
    (before : Option.Rel (Robj.Sim E) (db.d.get key) (db'.d.get key)) :
    Option.Rel (Robj.Sim E) ((update.apply db key).d.get key)
      ((update'.apply db' key).d.get key) := by
  cases sim with
  | keep => exact before
  | store sim =>
    simp only [Update.apply, Table.get_set, if_pos]
    exact .some sim
  | write sim =>
    simp only [Update.apply, Table.get_write, if_pos]
    exact rel_map_const before sim
  | remove =>
    simp only [Update.apply, Table.get_delete, if_pos]
    exact .none

/-- Similar updates of what the stores have at a key keep them similar. -/
theorem onKey_simOn_at {body body' : Option Robj → Update × Bytes} (sim : SimOn E K db db')
    (here : key ∈ K → Update.Sim E (body (db.d.get key)).1 (body' (db'.d.get key)).1)
    (unexpired : key ∈ K → Unexpired now db key ∧ Unexpired now' db' key) :
    SimOn E K (onKey now db key body).1 (onKey now' db' key body').1 := by
  intro other member
  by_cases same : other = key
  · subst same
    obtain ⟨first, second⟩ := unexpired member
    unfold onKey
    rw [lookupKey_unexpired first, lookupKey_unexpired second]
    exact Update.apply_sim (here member) (sim other member)
  · rw [onKey_get_other same, onKey_get_other same]
    exact sim other member

/-- **Similar bodies keep similar stores similar.** -/
theorem onKey_simOn {body body' : Option Robj → Update × Bytes} (bodies : BodySim E body body')
    (sim : SimOn E K db db')
    (unexpired : key ∈ K → Unexpired now db key ∧ Unexpired now' db' key) :
    SimOn E K (onKey now db key body).1 (onKey now' db' key body').1 :=
  onKey_simOn_at sim (fun member => bodies _ _ (sim key member)) unexpired

end Stores

end Miniredis
