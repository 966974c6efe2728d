/-
**Pointers held across lookups (`db.c`).**

`SINTER` and `SDIFF` collect a pointer for each of their keys, one lookup after the other, and use
them afterwards. A lookup that finds its key expired frees the object, to which an earlier argument
of the same command may point.

* `setPtrs_get`, `setPtrs_gone`, `setPtrs_wrong` — what the collection loop finds and frees under a
  clock that does not go back.
* `walkSinter_eq` — `SINTER` never uses a freed set: if a lookup finds a key expired, that argument
  is missing and the reply is empty. It computes what `cmdSinter` says.
* `walkSdiff_refines` — so does `SDIFF`, as long as it uses no freed set.
* `set_pointers_stored_iff` — exactly when `SDIFF` uses one.
-/

import Miniredis.Dispatch.Expiration
import Miniredis.Lib.Block
import Miniredis.Model.SetWalks

namespace Miniredis

/-! ### The collection loop -/

section Collection

variable {now : Nat → Int} {i : Nat} {rest : List Bytes} {key : Bytes} {db : Db} {o : Robj}
  {ptrs : List (Option Bytes)}

/-- What a lookup drops is not seen at any later time. -/
theorem live_lookupKey_later {t t' : Int} (later : t ≤ t') (db : Db) (key : Bytes) :
    live t' (lookupKey t db key).2 = live t' db := by
  funext other
  rcases lookupKey_collects (fun _ => t) 0 db key other with same | ⟨gone, _, o, found, expired⟩
  · exact live_congr same
  · rw [live_absent gone, live_expired found (keyExpired_later later expired)]

/-- A lookup that finds its key leaves the store. -/
theorem lookupKey_snd_of_live {t : Int} (found : live t db key = some o) :
    (lookupKey t db key).2 = db := by
  obtain ⟨there, alive⟩ := Option.filter_eq_some_iff.mp found
  rw [lookupKey_unexpired fun o' found' => ?_]
  obtain rfl := Option.some.inj (there.symm.trans found')
  simpa using alive

/-- One round of the loop, if no type is wrong. -/
theorem setPtrs_step (read : (setPtrs now i (key :: rest) db).1 = some ptrs) :
    ∃ later, (setPtrs now (i + 1) rest (lookupKey (now i) db key).2).1 = some later ∧
      (setPtrs now i (key :: rest) db).2 =
        (setPtrs now (i + 1) rest (lookupKey (now i) db key).2).2 ∧
      ptrs = ((live (now i) db key).map fun _ => key) :: later ∧
      ∀ o, live (now i) db key = some o → ∃ s, setKind.unwrap o.val = some s := by
  rw [← lookupKey_live]
  simp only [setPtrs] at read ⊢
  generalize lookupKey (now i) db key = looked at read ⊢
  obtain ⟨found, db⟩ := looked
  cases found with
  | none =>
    obtain ⟨later, readLater, rfl⟩ := Option.map_eq_some_iff.mp read
    exact ⟨later, readLater, rfl, rfl, fun _ found => by cases found⟩
  | some o =>
    dsimp only at read ⊢
    cases typed : setKind.unwrap o.val with
    | none =>
      rw [typed] at read
      cases read
    | some s =>
      rw [typed] at read
      obtain ⟨later, readLater, rfl⟩ := Option.map_eq_some_iff.mp read
      refine ⟨later, readLater, rfl, rfl, fun o' found => ⟨s, ?_⟩⟩
      obtain rfl := Option.some.inj found
      exact typed

end Collection

/-! ### Pointers and sets -/

section Sets

variable {now : Nat → Int} {i : Nat} {keys : List Bytes} {p : Bytes} {db db' : Db} {s : Dict Unit}
  {ptrs : List (Option Bytes)}

/-- A pointer that is still good leads to the set that was there. -/
theorem Collects.setAt (collects : Collects now db db') (there : setAt db' p = some s) :
    Miniredis.setAt db p = some s := by
  unfold Miniredis.setAt at there ⊢
  rcases collects p with same | ⟨gone, _⟩
  · rwa [← same]
  · rw [gone] at there
    cases there

/-- Each pointer was good when it was taken. -/
theorem setPtrs_found (read : (setPtrs now i keys db).1 = some ptrs) (held : some p ∈ ptrs) :
    ∃ s, setAt db p = some s := by
  induction keys generalizing i db ptrs with
  | nil =>
    obtain rfl := Option.some.inj read
    cases held
  | cons key rest ih =>
    obtain ⟨later, readLater, _, rfl, typed⟩ := setPtrs_step read
    rcases List.mem_cons.mp held with first | inside
    · obtain ⟨o, found, rfl⟩ := Option.map_eq_some_iff.mp first.symm
      obtain ⟨s, typed⟩ := typed o found
      refine ⟨s, ?_⟩
      rw [setAt, (Option.filter_eq_some_iff.mp found).1]
      exact typed
    · obtain ⟨s, there⟩ := ih readLater inside
      exact ⟨s, (lookupKey_collects now i db key).setAt there⟩

/-- The pointers led to the same sets before any expired entry was dropped. -/
theorem Collects.setPtrs (collects : Collects now db db') (i : Nat) (keys : List Bytes) :
    (setPtrs now i keys db').1.map (List.map fun ptr => ptr.bind (Miniredis.setAt db')) =
      (Miniredis.setPtrs now i keys db').1.map
        (List.map fun ptr => ptr.bind (Miniredis.setAt db)) := by
  cases read : (Miniredis.setPtrs now i keys db').1 with
  | none => rw [Option.map_none, Option.map_none]
  | some ptrs =>
    rw [Option.map_some, Option.map_some]
    refine congrArg some (List.map_congr_left fun ptr held => ?_)
    cases ptr with
    | none => rw [Option.bind_none, Option.bind_none]
    | some p =>
      obtain ⟨s, there⟩ := setPtrs_found read held
      rw [Option.bind_some, Option.bind_some, there, collects.setAt there]

/-- The sets of an argument list are those its pointers lead to. -/
theorem setArgs_eq (now : Nat → Int) (i : Nat) (keys : List Bytes) (db : Db) :
    setArgs now i keys db =
      ((setPtrs now i keys db).1.map (List.map fun ptr => ptr.bind (setAt db)),
        (setPtrs now i keys db).2) := by
  induction keys generalizing i db with
  | nil => rfl
  | cons key rest ih =>
    have seen := lookupKey_live (now i) db key
    have same := (lookupKey_collects now i db key).setPtrs (i + 1) rest
    simp only [setArgs, setPtrs, ih, same]
    generalize setPtrs now (i + 1) rest (lookupKey (now i) db key).2 = collected
    obtain ⟨later, after⟩ := collected
    cases found : (lookupKey (now i) db key).1 with
    | none => cases later <;> rfl
    | some o =>
      cases typed : setKind.unwrap o.val with
      | none => simp only [typed, Option.map_none]
      | some s =>
        have here : setAt db key = some s := by
          rw [setAt, (Option.filter_eq_some_iff.mp (seen.symm.trans found)).1]
          exact typed
        cases later with
        | none => simp only [typed, Option.map_none]
        | some later => simp only [typed, Option.map_some, List.map_cons, Option.bind_some, here]

theorem setPtrs_collects (i : Nat) (keys : List Bytes) (db : Db) :
    Collects now db (setPtrs now i keys db).2 := by
  have collects := @setArgs_collects now i keys db
  rwa [setArgs_eq] at collects

/-- If every key is found the store stays as it is. -/
theorem setPtrs_full (read : (setPtrs now i keys db).1 = some ptrs) (full : none ∉ ptrs) :
    (setPtrs now i keys db).2 = db ∧ ptrs = keys.map some := by
  induction keys generalizing i db ptrs with
  | nil =>
    obtain rfl := Option.some.inj read
    exact ⟨rfl, rfl⟩
  | cons key rest ih =>
    obtain ⟨later, readLater, store, rfl, _⟩ := setPtrs_step read
    rw [List.mem_cons, not_or] at full
    cases found : live (now i) db key with
    | none =>
      rw [found] at full
      exact absurd rfl full.1
    | some o =>
      rw [lookupKey_snd_of_live found] at readLater store
      obtain ⟨same, all⟩ := ih readLater full.2
      exact ⟨store.trans same, by rw [all]; rfl⟩

end Sets

/-! ### What the loop finds and frees -/

section Loop

variable {now : Nat → Int} {i : Nat} {keys : List Bytes} {p : Bytes} {db : Db} {o : Robj}
  {ptrs : List (Option Bytes)}

/-- Each pointer names its key, if the key is seen at the time of its lookup. -/
theorem setPtrs_get (rising : Monotone now) (read : (setPtrs now i keys db).1 = some ptrs)
    (j : Nat) :
    ptrs[j]? = keys[j]?.map fun key => (live (now (i + j)) db key).map fun _ => key := by
  induction keys generalizing i db ptrs j with
  | nil =>
    obtain rfl := Option.some.inj read
    rfl
  | cons key rest ih =>
    obtain ⟨later, readLater, _, rfl, _⟩ := setPtrs_step read
    cases j with
    | zero => rfl
    | succ j =>
      rw [List.getElem?_cons_succ, List.getElem?_cons_succ, ih readLater j,
        Nat.add_right_comm i 1 j, live_lookupKey_later (rising (by omega))]
      rfl

/-- An object is freed by a lookup of its key at a time when it is expired. -/
theorem setPtrs_gone (read : (setPtrs now i keys db).1 = some ptrs) (found : db.d.get p = some o) :
    (setPtrs now i keys db).2.d.get p = none ↔
      ∃ j, keys[j]? = some p ∧ keyExpired (now (i + j)) o = true := by
  induction keys generalizing i db ptrs with
  | nil => simp [setPtrs, found]
  | cons key rest ih =>
    obtain ⟨later, readLater, store, _, _⟩ := setPtrs_step read
    rw [store]
    by_cases now_gone : key = p ∧ keyExpired (now i) o = true
    · obtain ⟨rfl, expired⟩ := now_gone
      have dropped : (lookupKey (now i) db key).2.d.get key = none := by
        rw [← lookupKey_fst, lookupKey_live, live_expired found expired]
      refine iff_of_true ?_ ⟨0, rfl, expired⟩
      rcases @setPtrs_collects now (i + 1) rest _ key with same | ⟨gone, _⟩
      · exact same.trans dropped
      · exact gone
    · have kept : (lookupKey (now i) db key).2.d.get p = some o := by
        by_cases same : p = key
        · have alive : keyExpired (now i) o = false :=
            Bool.eq_false_of_not_eq_true fun expired => now_gone ⟨same.symm, expired⟩
          rw [lookupKey_unexpired fun o' found' => ?_, found]
          rw [← same, found] at found'
          rwa [← Option.some.inj found']
        · rw [lookupKey_get_other same, found]
      rw [ih readLater kept]
      constructor
      · rintro ⟨j, there, expired⟩
        exact ⟨j + 1, there, by rwa [← Nat.add_assoc, Nat.add_right_comm]⟩
      · rintro ⟨_ | j, there, expired⟩
        · exact absurd ⟨Option.some.inj there, expired⟩ now_gone
        · exact ⟨j, there, by rwa [Nat.add_right_comm]⟩

/-- A key that holds another type, at the time of its lookup, ends the loop. -/
theorem setPtrs_wrong (rising : Monotone now) :
    (setPtrs now i keys db).1 = none ↔
      ∃ j key o, keys[j]? = some key ∧ live (now (i + j)) db key = some o ∧
        setKind.unwrap o.val = none := by
  induction keys generalizing i db with
  | nil => simp [setPtrs]
  | cons key rest ih =>
    -- what the later lookups see is what they would see in the first store
    have shift : (setPtrs now (i + 1) rest (lookupKey (now i) db key).2).1 = none ↔
        ∃ j other o, rest[j]? = some other ∧ live (now (i + (j + 1))) db other = some o ∧
          setKind.unwrap o.val = none := by
      rw [ih]
      refine exists_congr fun j => exists_congr fun other => exists_congr fun o => ?_
      rw [live_lookupKey_later (rising (by omega)), Nat.add_right_comm, Nat.add_assoc]
    have split : (∃ j other o, (key :: rest)[j]? = some other ∧
          live (now (i + j)) db other = some o ∧ setKind.unwrap o.val = none) ↔
        (∃ o, live (now i) db key = some o ∧ setKind.unwrap o.val = none) ∨
          ∃ j other o, rest[j]? = some other ∧ live (now (i + (j + 1))) db other = some o ∧
            setKind.unwrap o.val = none := by
      constructor
      · rintro ⟨_ | j, other, o, there, found, wrong⟩
        · obtain rfl := Option.some.inj there
          exact .inl ⟨o, found, wrong⟩
        · exact .inr ⟨j, other, o, there, found, wrong⟩
      · rintro (⟨o, found, wrong⟩ | ⟨j, other, o, there, found, wrong⟩)
        · exact ⟨0, key, o, rfl, found, wrong⟩
        · exact ⟨j + 1, other, o, there, found, wrong⟩
    rw [split, ← shift, ← lookupKey_live]
    simp only [setPtrs]
    generalize lookupKey (now i) db key = looked
    obtain ⟨found, db⟩ := looked
    cases found with
    | none => simp
    | some o => cases typed : setKind.unwrap o.val <;> simp [typed]

end Loop

/-! ### `SINTER` -/

section Sinter

variable {db : Db} {p q member : Bytes} {s t : Dict Unit} {ps : List Bytes} {ss : List (Dict Unit)}

/-- The pointers lead to the sets. -/
abbrev LeadTo (db : Db) (ps : List Bytes) (ss : List (Dict Unit)) : Prop :=
  List.Forall₂ (fun p s => setAt db p = some s) ps ss

theorem leadTo_of_found (ps : List Bytes) (found : ∀ p ∈ ps, ∃ s, setAt db p = some s) :
    ∃ ss, LeadTo db ps ss := by
  induction ps with
  | nil => exact ⟨[], .nil⟩
  | cons p rest ih =>
    obtain ⟨s, there⟩ := found p List.mem_cons_self
    obtain ⟨ss, lead⟩ := ih (List.forall_mem_cons.mp found).2
    exact ⟨s :: ss, .cons there lead⟩

theorem map_setAt (lead : LeadTo db ps ss) : ps.map (setAt db) = ss.map some := by
  induction lead with
  | nil => rfl
  | cons there _ ih => rw [List.map_cons, List.map_cons, there, ih]

theorem keepMembers_filter {test : Bytes → Option Bool} {keep : Bytes → Bool} {l : List Bytes}
    (same : ∀ member ∈ l, test member = some (keep member)) :
    keepMembers test l = some (l.filter keep) := by
  induction l with
  | nil => rfl
  | cons first rest ih =>
    rw [keepMembers, same first List.mem_cons_self,
      ih (List.forall_mem_cons.mp same).2, List.filter_cons]
    rfl

theorem twoPasses_filter {test : Bytes → Option Bool} {keep : Bytes → Bool}
    (same : ∀ member ∈ members s, test member = some (keep member)) :
    twoPasses test s = some (replyMembers ((members s).filter keep)) := by
  rw [twoPasses, keepMembers_filter same]
  rfl

theorem mem_members : member ∈ members s ↔ (s.get member).isSome := s.mem_keys member

theorem smallestPtr_leads (first : setAt db p = some s) (lead : LeadTo db ps ss) :
    ∃ q, smallestPtr db p ps = some q ∧ setAt db q = some (smallestSet s ss) := by
  induction lead generalizing p s with
  | nil => exact ⟨p, rfl, first⟩
  | @cons next t ps ss there _ ih =>
    simp only [smallestPtr, smallestSet, there, first, Option.bind_eq_bind, Option.bind_some]
    by_cases smaller : dictSize t < dictSize s
    · simpa only [if_pos smaller] using ih there
    · simpa only [if_neg smaller] using ih first

/-- To pass over the smallest set changes nothing: its members are in it. -/
theorem inAll_eq (least : setAt db q = some t) (inside : (t.get member).isSome)
    (lead : LeadTo db ps ss) :
    inAll db q member ps = some (ss.all fun s => (s.get member).isSome) := by
  induction lead with
  | nil => rfl
  | @cons p s ps ss there _ ih =>
    rw [inAll, List.all_cons]
    by_cases same : p = q
    · obtain rfl : s = t := Option.some.inj (there.symm.trans (same ▸ least))
      rw [if_neg (not_not.mpr same), ih, inside, Bool.true_and]
    · rw [if_pos same, there]
      cases found : s.get member with
      | none => simp [found]
      | some u => simp [found, ih]

theorem sinterWalk_eq (lead : LeadTo db ps ss) :
    sinterWalk db (ps.map some) = some (sinterReply (ss.map some)) := by
  unfold sinterWalk sinterReply
  rw [Block.mapM_written, Block.mapM_written]
  cases lead with
  | nil => rfl
  | @cons p s ps ss there later =>
    obtain ⟨q, chosen, least⟩ := smallestPtr_leads there later
    dsimp only
    rw [chosen, Option.bind_eq_bind, Option.bind_some, least, Option.bind_eq_bind,
      Option.bind_some]
    exact twoPasses_filter fun member inside =>
      inAll_eq least (mem_members.mp inside) (.cons there later)

/-- **`SINTER` uses no freed set, whatever the clock does.** -/
theorem walkSinter_eq (env : Env) (db : Db) (argv : Argv) :
    walkSinter env db argv = some (cmdSinter env db argv) := by
  unfold walkSinter setWalk cmdSinter setOperation
  by_cases short : argv.length < 2
  · rw [if_pos short, if_pos short]
  rw [if_neg short, if_neg short, setArgs_eq]
  generalize run : setPtrs env.now 0 (argv.drop 1) db = collected
  obtain ⟨ptrs, after⟩ := collected
  cases ptrs with
  | none => rfl
  | some ptrs =>
    have read : (setPtrs env.now 0 (argv.drop 1) db).1 = some ptrs := by rw [run]
    have done : sinterWalk after ptrs =
        some (sinterReply (ptrs.map fun ptr => ptr.bind (setAt db))) := by
      by_cases missing : none ∈ ptrs
      · have lost : none ∈ ptrs.map fun ptr => ptr.bind (setAt db) :=
          List.mem_map.mpr ⟨none, missing, rfl⟩
        unfold sinterWalk sinterReply
        rw [Block.mapM_missing missing, Block.mapM_missing lost]
      · obtain ⟨same, rfl⟩ := setPtrs_full read missing
        rw [run] at same
        obtain rfl : after = db := same
        obtain ⟨ss, lead⟩ := leadTo_of_found (argv.drop 1) fun p held =>
          setPtrs_found read (List.mem_map_of_mem held)
        rw [sinterWalk_eq lead, ← map_setAt lead, List.map_map]
        rfl
    dsimp only
    rw [done]
    rfl

end Sinter

/-! ### `SDIFF` -/

section Sdiff

variable {now : Nat → Int} {db db' : Db} {member p : Bytes} {s : Dict Unit}
  {ptrs : List (Option Bytes)} {test : Bytes → Option Bool}

theorem keepMembers_none {l : List Bytes} :
    keepMembers test l = none ↔ ∃ member ∈ l, test member = none := by
  induction l with
  | nil => simp [keepMembers]
  | cons first rest ih =>
    rw [keepMembers, List.exists_mem_cons_iff, ← ih]
    cases test first with
    | none => simp
    | some keep => cases keepMembers test rest <;> simp

theorem keepMembers_some {keep : Bytes → Bool} {l kept : List Bytes}
    (same : ∀ member b, test member = some b → b = keep member)
    (done : keepMembers test l = some kept) : kept = l.filter keep := by
  have tested : ∀ member ∈ l, test member = some (keep member) := by
    intro member inside
    cases answer : test member with
    | none => rw [keepMembers_none.mpr ⟨member, inside, answer⟩] at done; cases done
    | some b => rw [same member b answer]
  exact Option.some.inj (done.symm.trans (keepMembers_filter tested))

theorem twoPasses_none : twoPasses test s = none ↔
    ∃ member, (s.get member).isSome ∧ test member = none := by
  have lost : twoPasses test s = none ↔ keepMembers test (members s) = none := by
    unfold twoPasses
    cases keepMembers test (members s) <;> simp
  rw [lost, keepMembers_none]
  exact exists_congr fun member => and_congr_left fun _ => mem_members

/-- The loop over the other sets uses a freed one, if it meets none with the member before. -/
theorem inOthers_none (collects : Collects now db db') :
    inOthers db' member ptrs = none ↔
      ∃ (i : Nat) (p : Bytes), ptrs[i]? = some (some p) ∧ setAt db' p = none ∧
        ∀ j < i, ∀ q s, ptrs[j]? = some (some q) → setAt db q = some s → s.get member = none := by
  induction ptrs with
  | nil => simp [inOthers]
  | cons ptr rest ih =>
    cases ptr with
    | none =>
      rw [inOthers, ih]
      constructor
      · rintro ⟨i, p, there, freed, before⟩
        refine ⟨i + 1, p, there, freed, ?_⟩
        rintro (_ | j) below q s held leads
        · cases held
        · exact before j (by omega) q s held leads
      · rintro ⟨_ | i, p, there, freed, before⟩
        · cases there
        · exact ⟨i, p, there, freed, fun j below => before (j + 1) (by omega)⟩
    | some first =>
      rw [inOthers]
      cases leads : setAt db' first with
      | none =>
        refine iff_of_true rfl ⟨0, first, rfl, leads, ?_⟩
        exact fun j below => absurd below (Nat.not_lt_zero j)
      | some s =>
        rw [Option.bind_eq_bind, Option.bind_some]
        cases found : s.get member with
        | some u =>
          rw [Option.isSome_some, if_pos rfl]
          refine iff_of_false (by simp) ?_
          rintro ⟨_ | i, p, there, freed, before⟩
          · obtain rfl := Option.some.inj (Option.some.inj there)
            rw [leads] at freed
            cases freed
          · have none := before 0 (by omega) first s rfl (collects.setAt leads)
            rw [found] at none
            cases none
        | none =>
          rw [if_neg (by simp), ih]
          constructor
          · rintro ⟨i, p, there, freed, before⟩
            refine ⟨i + 1, p, there, freed, ?_⟩
            rintro (_ | j) below q s' held leads'
            · obtain rfl := Option.some.inj (Option.some.inj held)
              obtain rfl := Option.some.inj ((collects.setAt leads).symm.trans leads')
              exact found
            · exact before j (by omega) q s' held leads'
          · rintro ⟨_ | i, p, there, freed, before⟩
            · obtain rfl := Option.some.inj (Option.some.inj there)
              rw [leads] at freed
              cases freed
            · exact ⟨i, p, there, freed, fun j below => before (j + 1) (by omega)⟩

theorem inOthers_some (collects : Collects now db db') {b : Bool}
    (done : inOthers db' member ptrs = some b) :
    b = (ptrs.map fun ptr => ptr.bind (setAt db)).any fun other =>
      other.any fun s => (s.get member).isSome := by
  induction ptrs with
  | nil => exact (Option.some.inj done).symm
  | cons ptr rest ih =>
    rw [List.map_cons, List.any_cons]
    cases ptr with
    | none =>
      rw [inOthers] at done
      rw [Option.bind_none, Option.any_none, Bool.false_or, ih done]
    | some first =>
      rw [inOthers] at done
      cases leads : setAt db' first with
      | none =>
        rw [leads] at done
        cases done
      | some s =>
        rw [leads, Option.bind_eq_bind, Option.bind_some] at done
        rw [Option.bind_some, collects.setAt leads, Option.any_some]
        cases found : (s.get member).isSome with
        | true =>
          rw [found, if_pos rfl] at done
          rw [Bool.true_or, ← Option.some.inj done]
        | false =>
          rw [found, if_neg Bool.false_ne_true] at done
          rw [Bool.false_or, ih done]

theorem sdiffWalk_some (collects : Collects now db db') {reply : Bytes}
    (done : sdiffWalk db' ptrs = some reply) :
    reply = sdiffReply (ptrs.map fun ptr => ptr.bind (setAt db)) := by
  rcases ptrs with _ | ⟨_ | first, others⟩
  · exact (Option.some.inj done).symm
  · exact (Option.some.inj done).symm
  · rw [sdiffWalk] at done
    obtain ⟨s, leads, passes⟩ := Option.bind_eq_some_iff.mp done
    obtain ⟨counted, count, passes⟩ := Option.bind_eq_some_iff.mp passes
    obtain ⟨emitted, emit, passes⟩ := Option.bind_eq_some_iff.mp passes
    have tested : ∀ member b, (inOthers db' member others).map not = some b →
        b = !((others.map fun ptr => ptr.bind (setAt db)).any fun other =>
          other.any fun s => (s.get member).isSome) := by
      intro member b answer
      obtain ⟨b', inside, rfl⟩ := Option.map_eq_some_iff.mp answer
      rw [inOthers_some collects inside]
    rw [keepMembers_some tested count, keepMembers_some tested emit] at passes
    rw [List.map_cons, Option.bind_some, collects.setAt leads]
    exact (Option.some.inj passes).symm

/-- `SDIFF` computes what `cmdSdiff` says unless it uses a freed set. -/
theorem walkSdiff_refines {env : Env} {argv : Argv} {result : Db × Bytes}
    (done : walkSdiff env db argv = some result) : result = cmdSdiff env db argv := by
  unfold walkSdiff setWalk at done
  unfold cmdSdiff setOperation
  by_cases short : argv.length < 2
  · rw [if_pos short] at done ⊢
    exact (Option.some.inj done).symm
  rw [if_neg short] at done ⊢
  rw [setArgs_eq]
  have collects := @setPtrs_collects env.now 0 (argv.drop 1) db
  generalize setPtrs env.now 0 (argv.drop 1) db = collected at done collects
  obtain ⟨ptrs, after⟩ := collected
  cases ptrs with
  | none => exact (Option.some.inj done).symm
  | some ptrs =>
    obtain ⟨reply, walked, rfl⟩ := Option.map_eq_some_iff.mp done
    rw [sdiffWalk_some collects walked]
    rfl

end Sdiff

/-! ### Freed sets -/

section Freed

variable {now : Nat → Int} {keys : List Bytes} {db : Db} {i : Nat} {p : Bytes} {o : Robj}
  {ptrs : List (Option Bytes)}

/-- The lookup of the argument at `i` finds the object under `key`. -/
def FoundAt (now : Nat → Int) (db : Db) (keys : List Bytes) (i : Nat) (key : Bytes) (o : Robj) :
    Prop :=
  keys[i]? = some key ∧ live (now i) db key = some o

/-- The argument at `i` is found, and expired when a later argument names the same key. -/
def FreedAt (now : Nat → Int) (db : Db) (keys : List Bytes) (i : Nat) : Prop :=
  ∃ key o j, FoundAt now db keys i key o ∧ i < j ∧ keys[j]? = some key ∧
    keyExpired (now j) o = true

/-- `SDIFF` uses a freed set: all its keys hold sets, the first one is found, and it is freed
itself, or one of its members is in none of the sets before one that is. -/
structure UsesFreed (now : Nat → Int) (db : Db) (keys : List Bytes) : Prop where
  typed : ∀ i key o, FoundAt now db keys i key o → ∃ s, setKind.unwrap o.val = some s
  used : ∃ first o s i, FoundAt now db keys 0 first o ∧ setKind.unwrap o.val = some s ∧
    FreedAt now db keys i ∧
    (i = 0 ∨ ∃ member, (s.get member).isSome ∧ ∀ j key o' s', 0 < j → j < i →
      FoundAt now db keys j key o' → setKind.unwrap o'.val = some s' → s'.get member = none)

theorem FoundAt.get (found : FoundAt now db keys i p o) : db.d.get p = some o :=
  (Option.filter_eq_some_iff.mp found.2).1

theorem FoundAt.setAt (found : FoundAt now db keys i p o) :
    setAt db p = setKind.unwrap o.val := by
  rw [Miniredis.setAt, found.get, Option.bind_some]

/-- The pointers are those of the keys found. -/
theorem setPtrs_foundAt (rising : Monotone now) (read : (setPtrs now 0 keys db).1 = some ptrs) :
    ptrs[i]? = some (some p) ↔ ∃ o, FoundAt now db keys i p o := by
  rw [setPtrs_get rising read, Nat.zero_add]
  constructor
  · intro held
    obtain ⟨key, there, seen⟩ := Option.map_eq_some_iff.mp held
    obtain ⟨o, found, rfl⟩ := Option.map_eq_some_iff.mp seen
    exact ⟨o, there, found⟩
  · rintro ⟨o, there, found⟩
    rw [there, Option.map_some, found, Option.map_some]

/-- A pointer is bad if a later lookup of its key found it expired. -/
theorem setAt_freed (rising : Monotone now) (read : (setPtrs now 0 keys db).1 = some ptrs)
    (found : FoundAt now db keys i p o) :
    setAt (setPtrs now 0 keys db).2 p = none ↔
      ∃ j, i < j ∧ keys[j]? = some p ∧ keyExpired (now j) o = true := by
  have gone : setAt (setPtrs now 0 keys db).2 p = none ↔
      (setPtrs now 0 keys db).2.d.get p = none := by
    rcases @setPtrs_collects now 0 keys db p with same | ⟨gone, _⟩
    · obtain ⟨s, there⟩ := setPtrs_found read
        (List.mem_of_getElem? ((setPtrs_foundAt rising read).mpr ⟨o, found⟩))
      have leads : setAt (setPtrs now 0 keys db).2 p = some s := by
        rw [setAt, same]
        exact there
      rw [leads, same, found.get]
      exact iff_of_false (by simp) (by simp)
    · rw [setAt, gone]
      exact iff_of_true rfl rfl
  rw [gone, setPtrs_gone read found.get]
  refine exists_congr fun j => ?_
  rw [Nat.zero_add]
  constructor
  · rintro ⟨there, expired⟩
    refine ⟨?_, there, expired⟩
    by_contra early
    -- what is expired at an earlier lookup is not found at this one
    have lapsed := live_expired found.get (keyExpired_later (rising (not_lt.mp early)) expired)
    rw [found.2] at lapsed
    cases lapsed
  · exact fun ⟨_, there, expired⟩ => ⟨there, expired⟩

theorem freedAt_iff (rising : Monotone now) (read : (setPtrs now 0 keys db).1 = some ptrs) :
    FreedAt now db keys i ↔
      ∃ p, ptrs[i]? = some (some p) ∧ setAt (setPtrs now 0 keys db).2 p = none := by
  constructor
  · rintro ⟨p, o, j, found, later, there, expired⟩
    exact ⟨p, (setPtrs_foundAt rising read).mpr ⟨o, found⟩,
      (setAt_freed rising read found).mpr ⟨j, later, there, expired⟩⟩
  · rintro ⟨p, held, freed⟩
    obtain ⟨o, found⟩ := (setPtrs_foundAt rising read).mp held
    obtain ⟨j, later, there, expired⟩ := (setAt_freed rising read found).mp freed
    exact ⟨p, o, j, found, later, there, expired⟩

theorem sdiffWalk_none (rising : Monotone now) (read : (setPtrs now 0 keys db).1 = some ptrs) :
    sdiffWalk (setPtrs now 0 keys db).2 ptrs = none ↔ UsesFreed now db keys := by
  have collects := @setPtrs_collects now 0 keys db
  have typed : ∀ i key o, FoundAt now db keys i key o → ∃ s, setKind.unwrap o.val = some s := by
    intro i key o found
    rw [← found.setAt]
    exact setPtrs_found read
      (List.mem_of_getElem? ((setPtrs_foundAt rising read).mpr ⟨o, found⟩))
  have freed := fun i => @freedAt_iff now keys db i ptrs rising read
  have held := fun i p => @setPtrs_foundAt now keys db i p ptrs rising read
  generalize (setPtrs now 0 keys db).2 = after at collects freed ⊢
  constructor
  · intro lost
    refine ⟨typed, ?_⟩
    rcases ptrs with _ | ⟨_ | first, others⟩
    · cases lost
    · cases lost
    obtain ⟨o, found⟩ := (held 0 first).mp rfl
    obtain ⟨s, isSet⟩ := typed 0 first o found
    rw [sdiffWalk] at lost
    cases leads : setAt after first with
    | none => exact ⟨first, o, s, 0, found, isSet, (freed 0).mpr ⟨first, rfl, leads⟩, .inl rfl⟩
    | some s' =>
      obtain rfl : s = s' := by
        have there := collects.setAt leads
        rw [found.setAt, isSet] at there
        exact Option.some.inj there
      rw [leads, Option.bind_eq_bind, Option.bind_some] at lost
      obtain ⟨member, inside, lost⟩ := twoPasses_none.mp lost
      obtain ⟨i, p, there, bad, before⟩ :=
        (inOthers_none collects).mp (Option.map_eq_none_iff.mp lost)
      refine ⟨first, o, s, i + 1, found, isSet, (freed (i + 1)).mpr ⟨p, there, bad⟩,
        .inr ⟨member, inside, ?_⟩⟩
      rintro (_ | j) key o' s' positive below found' isSet'
      · exact absurd positive (Nat.lt_irrefl 0)
      · exact before j (by omega) key s' ((held (j + 1) key).mpr ⟨o', found'⟩)
          (found'.setAt.trans isSet')
  · rintro ⟨_, first, o, s, i, found, isSet, isFreed, missed⟩
    have start := (held 0 first).mpr ⟨o, found⟩
    obtain ⟨p, there, bad⟩ := (freed i).mp isFreed
    rcases ptrs with _ | ⟨ptr, others⟩
    · cases start
    obtain rfl : ptr = some first := Option.some.inj start
    rw [sdiffWalk]
    cases leads : setAt after first with
    | none => rfl
    | some s' =>
      obtain rfl : s = s' := by
        have same := collects.setAt leads
        rw [found.setAt, isSet] at same
        exact Option.some.inj same
      rw [Option.bind_eq_bind, Option.bind_some]
      cases i with
      | zero =>
        obtain rfl : first = p := Option.some.inj (Option.some.inj there)
        rw [leads] at bad
        cases bad
      | succ i =>
        obtain ⟨member, inside, before⟩ := missed.resolve_left (Nat.succ_ne_zero i)
        refine twoPasses_none.mpr ⟨member, inside, Option.map_eq_none_iff.mpr ?_⟩
        refine (inOthers_none collects).mpr ⟨i, p, there, bad, fun j below q s' at_ leads' => ?_⟩
        obtain ⟨o', found'⟩ := (held (j + 1) q).mp at_
        exact before (j + 1) q o' s' (Nat.succ_pos j) (by omega) found'
          (found'.setAt.symm.trans leads')

/-- Under a clock that stands still nothing that was found is freed. -/
theorem not_usesFreed {t : Int} (stopped : ∀ i, now i = t) : ¬ UsesFreed now db keys := by
  rintro ⟨_, _, _, _, i, _, _, ⟨key, o, j, found, _, _, expired⟩, _⟩
  have gone := live_expired found.get expired
  rw [stopped j, ← stopped i, found.2] at gone
  cases gone

/-- When a run of `SDIFF` uses a freed set. -/
theorem walkSdiff_none (env : Env) (db : Db) (argv : Argv) (rising : Monotone env.now) :
    walkSdiff env db argv = none ↔ UsesFreed env.now db (argv.drop 1) := by
  unfold walkSdiff setWalk
  by_cases short : argv.length < 2
  · rw [if_pos short]
    refine iff_of_false (Option.some_ne_none _) ?_
    rintro ⟨_, first, o, s, i, ⟨there, _⟩, _⟩
    rw [List.getElem?_drop, List.getElem?_eq_none (by omega)] at there
    cases there
  rw [if_neg short]
  cases read : (setPtrs env.now 0 (argv.drop 1) db).1 with
  | none =>
    obtain ⟨j, key, o, there, found, wrong⟩ := (setPtrs_wrong rising).mp read
    rw [Nat.zero_add] at found
    rw [show setPtrs env.now 0 (argv.drop 1) db = (none, _) from Prod.ext read rfl]
    refine iff_of_false (Option.some_ne_none _) fun uses => ?_
    obtain ⟨s, isSet⟩ := uses.typed j key o ⟨there, found⟩
    rw [wrong] at isSet
    cases isSet
  | some ptrs =>
    rw [← sdiffWalk_none rising read,
      show setPtrs env.now 0 (argv.drop 1) db = (some ptrs, _) from Prod.ext read rfl]
    exact Option.map_eq_none_iff

/-- **`SINTER` uses stored sets only, and so does `SDIFF` but for a key that expires between two of
its lookups.** -/
theorem set_pointers_stored_iff (env : Env) (db : Db) (argv : Argv) (rising : Monotone env.now) :
    walkSinter env db argv ≠ none ∧
      (walkSdiff env db argv ≠ none ↔ ¬ UsesFreed env.now db (argv.drop 1)) := by
  refine ⟨?_, not_congr (walkSdiff_none env db argv rising)⟩
  rw [walkSinter_eq]
  exact Option.some_ne_none _

/-- A set of one member that expires at time 1. -/
def sampleBrief : Db :=
  ⟨((dictCreate sampleSeed).set (text "k")
    ⟨.set ((dictCreate sampleSeed).set (text "a") ()).2, 1⟩).2, 0⟩

/-- Under a clock that stands still `SDIFF` may name a key twice. -/
theorem sdiff_twice_stopped :
    walkSdiff sampleEnv sampleBrief (["sdiff", "k", "k"].map text) ≠ none :=
  (set_pointers_stored_iff sampleEnv sampleBrief _ monotone_const).2.mpr
    (not_usesFreed fun _ => rfl)

/-- `SDIFF k k` walks a freed set if the key expires between its two lookups. -/
theorem sdiff_walks_freed_set :
    Monotone (fun i : Nat => (i : Int)) ∧
      walkSdiff { sampleEnv with now := fun i => i } sampleBrief
        (["sdiff", "k", "k"].map text) = none := by
  refine ⟨fun _ _ le => Int.ofNat_le.mpr le, Option.isNone_iff_eq_none.mp ?_⟩
  decide

end Freed

end Miniredis
