/-
**`SPOP` and the log.**

The log records that members were popped, not which. A pop that takes every member of the set, or
none, needs no record of them: it does the same to any two tables with the same members
(`execute_spop`). Any other pop leaves a set that the log does not determine.
-/

import Miniredis.Replay.Sync

namespace Miniredis

/-! ### Pops of all members or none -/

/-- As many draws as there are members empty the set. -/
theorem spopLoop_all (n : Nat) (s : Dict Unit) (rand : Nat → Nat) (size : dictSize s = n) :
    dictSize (spopLoop n s rand).2 = 0 := by
  have counts := (spopLoop_counts n s rand size.ge).2
  omega

/-- The `SPOP` takes every member of its set or none. -/
def popsAll (db : Db) (argv : Argv) : Prop :=
  ∀ count o s, popCount argv = some count → db.d.get (arg argv 1) = some o →
    setKind.unwrap o.val = some s → dictSize s ≤ count ∨ count = 0

section PopsAll

variable {E : Int → Int → Prop}

theorem dictSize_same {s s' : Dict Unit} (same : setKind.Same s s') : dictSize s = dictSize s' :=
  HashTable.Table.used_congr fun member => by rw [setKind_same.mp same member]

/-- What a pop of all members leaves is empty. -/
theorem maybeDeleteKey_empty {s : Dict Unit} (expireAt : Int) (empty : dictSize s = 0) :
    maybeDeleteKey ⟨.set s, expireAt⟩ = .remove := by
  unfold maybeDeleteKey
  exact if_pos (decide_eq_true empty)

/-- The update of a pop that takes everything or nothing, by the size of the set. -/
theorem spopBody_update (count : Int) (rand : Nat → Nat) (expireAt : Int) (s : Dict Unit)
    (all : dictSize s ≤ count ∨ count = 0) :
    (spopBody count rand (some ⟨.set s, expireAt⟩)).1 =
      if count = 1 ∧ dictSize s = 0 then .keep
      else if dictSize s ≤ count then .remove
      else .write ⟨.set s, expireAt⟩ := by
  show (if count = 1 then _ else _ : Update × Bytes).1 = _
  by_cases one : count = 1
  · rw [if_pos one]
    have small : dictSize s ≤ 1 := by omega
    by_cases empty : dictSize s = 0
    · have nothing : dictRandomEntry s rand = (none, rand) := if_pos empty
      rw [if_pos ⟨one, empty⟩, nothing]
    · obtain ⟨⟨member, _⟩, drawn, present⟩ := dictRandomEntry_some s rand empty
      have count' := s.used_delete member present
      have last : dictSize (s.delete member).2 = 0 := by
        unfold dictSize at small ⊢
        omega
      rw [drawn, if_neg (fun both => empty both.2), if_pos (by omega)]
      exact maybeDeleteKey_empty expireAt last
  · rw [if_neg one, if_neg (c := count = 1 ∧ dictSize s = 0) fun both => one both.1]
    by_cases covers : dictSize s ≤ count
    · rw [if_pos covers]
      have popped := spopLoop_all (dictSize s) s rand rfl
      have max : (if count < dictSize s then count.toNat else dictSize s) = dictSize s :=
        if_neg (by omega)
      rw [max]
      exact maybeDeleteKey_empty expireAt popped
    · have zero : count = 0 := all.resolve_left covers
      subst zero
      have filled : ¬ dictSize s = 0 := by omega
      have positive : (0 : Int) < dictSize s := by omega
      rw [if_neg covers, if_pos positive]
      show maybeDeleteKey ⟨.set s, expireAt⟩ = _
      unfold maybeDeleteKey
      exact if_neg fun empty => filled (of_decide_eq_true empty)

theorem spopBody_sim {count : Int} {rand rand' : Nat → Nat} {found found' : Option Robj}
    (all : ∀ o s, found = some o → setKind.unwrap o.val = some s → dictSize s ≤ count ∨ count = 0)
    (sim : Option.Rel (Robj.Sim E) found found') :
    Update.Sim E (spopBody count rand found).1 (spopBody count rand' found').1 := by
  cases sim with
  | none => exact .keep
  | @some o o' sim =>
    obtain ⟨val, expireAt⟩ := o
    obtain ⟨val', expireAt'⟩ := o'
    have same := setKind_lawful.unwrap sim.content
    cases first : setKind.unwrap val with
    | none =>
      rw [first] at same
      cases second : setKind.unwrap val' with
      | none =>
        simp only [spopBody, Kind.body, first, second]
        exact .keep
      | some s' =>
        rw [second] at same
        cases same
    | some s =>
      cases second : setKind.unwrap val' with
      | none =>
        rw [first, second] at same
        cases same
      | some s' =>
        rw [first, second] at same
        cases same with
        | some same =>
          have here := all _ s rfl first
          cases val <;> cases first
          cases val' <;> cases second
          have size : dictSize s' = dictSize s := (dictSize_same same).symm
          rw [spopBody_update count rand expireAt s here,
            spopBody_update count rand' expireAt' s' (by rwa [size]), size]
          split_ifs
          · exact .keep
          · exact .remove
          · exact .write ⟨sim.content, sim.expire⟩

theorem spop_handler {cmd : Command} (logs : logged cmd ≠ []) (spop : isSpop cmd = true) :
    ∀ env db, execute env db cmd = (cmdSpop env db (cmd.map cstr)).1 := by
  obtain ⟨name, h, found, _, effect⟩ := logged_inv logs
  unfold isSpop at spop
  rw [found] at spop
  have same : name = text "spop" := of_decide_eq_true spop
  subst same
  rw [handler_eq cmdSpop found (by simp [commands])] at effect
  exact effect

/-- **A pop of all members or none does the same to similar stores.** -/
theorem execute_spop {K : Set Bytes} {env env' : Env} {db db' : Db} {cmd : Command}
    (logs : logged cmd ≠ []) (spop : isSpop cmd = true) (all : popsAll db (cmd.map cstr))
    (alike : Alike E K env env' db db') :
    SimOn E K (execute env db cmd) (execute env' db' cmd) := by
  rw [spop_handler logs spop, spop_handler logs spop]
  unfold cmdSpop
  split
  · exact alike.sim
  split
  · exact alike.sim
  · rename_i count counted
    exact onKey_simOn_at alike.sim
      (fun member => spopBody_sim (fun o s there set => all count o s counted there set)
        (alike.sim _ member))
      fun member => ⟨alike.first _ member 0, alike.second _ member 0⟩

/-- A pop leaves the expiry of its set alone. -/
theorem execute_spop_self {K : Set Bytes} {env : Env} {db : Db} {cmd : Command}
    (logs : logged cmd ≠ []) (spop : isSpop cmd = true) (alike : Alike E K env env db db) :
    SimOn E K (execute env db cmd) (execute env db cmd) := by
  rw [spop_handler logs spop]
  unfold cmdSpop
  split
  · exact alike.sim
  split
  · exact alike.sim
  · rename_i count _
    refine onKey_simOn_at alike.sim (fun member => ?_)
      fun member => ⟨alike.first _ member 0, alike.second _ member 0⟩
    rcases alike.sim.at member with ⟨missing, _⟩ | ⟨o, _, present, again, same⟩
    · rw [missing]
      exact .keep
    · rw [present] at again
      cases again
      rw [present]
      simp only [spopBody, Kind.body]
      split
      · exact .keep
      split
      · split
        · exact .keep
        · exact maybeDeleteKey_sim ⟨rfl, same.expire⟩
      · exact maybeDeleteKey_sim ⟨rfl, same.expire⟩

end PopsAll

/-- If the command is an `SPOP`, it takes every member of its set or none. -/
def popsWhole (db : Db) (cmd : Command) : Prop := isSpop cmd = true → popsAll db (cmd.map cstr)

/-- The event is an `SPOP`. -/
def Event.isSpop : Event → Bool
  | .command _ _ cmd => Miniredis.isSpop cmd
  | .child _ _ | .signal | .cron _ _ => false

/-- If the event is an `SPOP`, it takes every member of its set or none. -/
def WholePop (s : Server) : Event → Prop
  | .command _ _ cmd => popsWhole s.db cmd
  | .child _ _ | .signal | .cron _ _ => True

theorem WholePop.of_other {e : Event} (other : e.isSpop = false) (s : Server) : WholePop s e := by
  cases e with
  | command env io cmd =>
    intro spop
    rw [show isSpop cmd = false from other] at spop
    cases spop
  | _ => trivial

end Miniredis
