/-
**The keys a write command reaches.**

Most write commands look up one key, their first argument, and leave every other key alone
(`Handler.Tame.get_other`); `DEL` and `MSET` go through a list of keys, `RENAME` moves an object
from one key to another and `FLUSHALL` drops them all. `commands_reach` says so of every entry of
the table: a logged command changes no key outside `keysOf`.
-/

import Miniredis.Dispatch.Table

namespace Miniredis

open HashTable (Table)

/-! ### The keys a command names -/

/-- The keys among the arguments of `MSET`. -/
def msetKeys : List Bytes → List Bytes
  | key :: _ :: rest => key :: msetKeys rest
  | _ => []

/-- The keys a write command of this name can change. -/
def keysOf (name : Bytes) (argv : Argv) : Set Bytes :=
  if name = text "flushall" then Set.univ
  else if name = text "del" then { key | key ∈ argv.drop 1 }
  else if name = text "mset" then { key | key ∈ msetKeys (argv.drop 1) }
  else if name = text "rename" then {arg argv 1, arg argv 2}
  else {arg argv 1}

theorem keysOf_single {name : Bytes} {argv : Argv}
    (single : name ∉ [text "flushall", text "del", text "mset", text "rename"]) :
    keysOf name argv = {arg argv 1} := by
  simp only [List.mem_cons, List.not_mem_nil, or_false, not_or] at single
  obtain ⟨flushall, del, mset, rename⟩ := single
  rw [keysOf, if_neg flushall, if_neg del, if_neg mset, if_neg rename]

/-- What the name of a write command says about its reach. -/
def CmdEntry.Reaches (e : CmdEntry) : Prop :=
  match e.isWrite, e.fn with
  | true, .data h => ∀ env db argv key, 13 ∉ arg argv 0 → key ∉ keysOf e.name argv →
      (h env db argv).1.d.get key = db.d.get key
  | _, _ => True

section Reach

variable {env : Env} {db : Db} {argv : Argv} {key : Bytes}

theorem msetLoop_get_other {args : List Bytes} (other : key ∉ msetKeys args) :
    (msetLoop args db).d.get key = db.d.get key := by
  fun_induction msetLoop args db with
  | case1 first value rest db ih =>
    rw [msetKeys, List.mem_cons, not_or] at other
    rw [ih other.2]
    exact (Table.get_set ..).trans (if_neg other.1)
  | case2 => rfl

theorem delLoop_get_other {args : List Bytes} (n : Nat) (other : key ∉ args) :
    (delLoop args db n).1.d.get key = db.d.get key := by
  induction args generalizing db n with
  | nil => rfl
  | cons first rest ih =>
    rw [List.mem_cons, not_or] at other
    exact (ih _ other.2).trans ((Table.get_delete ..).trans (if_neg other.1))

theorem cmdRename_get_other (source : key ≠ arg argv 1) (target : key ≠ arg argv 2) :
    (cmdRename env db argv).1.d.get key = db.d.get key := by
  have looked : (lookupKey (env.now 0) db (arg argv 1)).2.d.get key = db.d.get key :=
    lookupKey_get_other source
  unfold cmdRename
  split
  · rfl
  split
  · rfl
  split
  · rename_i found
    rw [found] at looked
    exact looked
  · rename_i found
    rw [found] at looked
    exact (Table.get_set ..).trans ((if_neg target).trans
      ((Table.get_delete ..).trans ((if_neg source).trans looked)))

theorem cmdSetex_get_other (other : key ≠ arg argv 1) :
    (cmdSetex env db argv).1.d.get key = db.d.get key := by
  unfold cmdSetex
  split
  · rfl
  split
  · rfl
  split
  · rfl
  · exact (Table.get_set ..).trans (if_neg other)

theorem Handler.Tame.get_other {h : Handler} {words : Argv → Prop}
    {excused : Argv → Option Robj → Prop} (tame : h.Tame words excused) (free : 13 ∉ arg argv 0)
    (other : key ≠ arg argv 1) : (h env db argv).1.d.get key = db.d.get key := by
  rcases tame.plan env free with ⟨out, _, does⟩ | ⟨i, body, _, _, does⟩
  · rw [does]
  · rw [does]
    exact onKey_get_other other

theorem cmdDel_get_other (other : key ∉ argv.drop 1) :
    (cmdDel env db argv).1.d.get key = db.d.get key := by
  unfold cmdDel
  split
  · rfl
  · exact delLoop_get_other 0 other

theorem cmdMset_get_other (other : key ∉ msetKeys (argv.drop 1)) :
    (cmdMset env db argv).1.d.get key = db.d.get key := by
  unfold cmdMset
  split
  · rfl
  · exact msetLoop_get_other other

end Reach

theorem others_reach : ∀ e ∈ others, e.Reaches := by
  refine List.forall_iff_forall_mem.mp ?_
  refine ⟨fun _ _ _ _ _ => cmdDel_get_other, trivial, trivial, fun _ _ _ _ _ => cmdMset_get_other,
    fun _ _ _ _ _ other => ?_, fun _ _ _ _ _ => cmdSetex_get_other, trivial, trivial, trivial,
    trivial, fun _ _ _ key _ other => absurd (Set.mem_univ key) other, trivial, trivial, trivial,
    trivial, trivial, trivial, trivial⟩
  obtain ⟨source, target⟩ := not_or.mp other
  exact cmdRename_get_other source target

/-- **A logged command changes no key it does not name.** -/
theorem commands_reach : ∀ e ∈ commands, e.Reaches := by
  intro e member
  by_cases name : e.name ∈ others.map CmdEntry.name
  · exact others_reach e (mem_others_of_name member name)
  have tame := (commands_tame e member).resolve_right fun other =>
    name (List.mem_map_of_mem other)
  have wide : ∀ wide ∈ [text "flushall", text "del", text "mset", text "rename"],
      wide ∈ others.map CmdEntry.name := by decide
  unfold CmdEntry.Tame at tame
  unfold CmdEntry.Reaches
  split
  · rename_i action
    rw [action] at tame
    intro env db argv key free other
    rw [keysOf_single fun listed => name (wide _ listed)] at other
    exact tame.get_other free other
  · trivial

end Miniredis
