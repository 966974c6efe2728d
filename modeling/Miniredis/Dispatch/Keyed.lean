/-
**The commands on one string, key or list are tame (`db.c`).**

One lemma for each handler: its checks answer with one error, and its decision is one of the shapes
of `Dispatch/Bodies`, or has the few cases of its own.
-/

import Miniredis.Dispatch.Bodies
import Miniredis.Replay.Log
import Miniredis.Structures.Ranges

namespace Miniredis

variable {words : Argv → Prop} {excused : Argv → Option Robj → Prop}

/-! ### Strings and keys -/

section Strings

theorem wellFormed_notAnInteger : WellFormed notAnInteger := wellFormed_error (by decide)

theorem wellFormed_syntaxError : WellFormed syntaxError := wellFormed_error (by decide)

theorem wellFormed_notPositive : WellFormed notPositive := wellFormed_error (by decide)

theorem wellFormed_invalidSetExpire : WellFormed invalidSetExpire := wellFormed_error (by decide)

theorem wellFormed_invalidExpire {name : Bytes} (free : 13 ∉ name) :
    WellFormed (invalidExpire name) :=
  wellFormed_named (by decide) free (by decide)

theorem cmdPing_tame : Handler.Tame cmdPing words excused := by
  intro env argv free
  unfold cmdPing
  refine .check (wellFormed_arity (by decide)) fun _ => ?_
  by_cases named : argv.length = 2
  · simp only [if_pos named]
    exact .reply (wellFormed_bulkCstr _)
  · simp only [if_neg named]
    exact .reply (wellFormed_simple (by decide))

theorem cmdEcho_tame : Handler.Tame cmdEcho words excused := fun _ _ _ =>
  .check (wellFormed_arity (by decide)) fun _ => .reply (wellFormed_bulkCstr _)

theorem cmdSelect_tame : Handler.Tame cmdSelect words excused := by
  intro env argv free
  unfold cmdSelect
  refine .check (wellFormed_arity (by decide)) fun _ => ?_
  cases stringToLl (arg argv 1) with
  | none => exact .reply (wellFormed_error (by decide))
  | some index => exact .check (wellFormed_error (by decide)) fun _ => .reply wellFormed_replyOk

theorem setExpireMs_error {now v : Int} {option reply : Bytes}
    (failed : setExpireMs now option v = .error reply) : WellFormed reply := by
  unfold setExpireMs at failed
  split_ifs at failed
  all_goals
    cases failed
    exact wellFormed_invalidSetExpire

/-- The option loop of `SET` ends in a well-formed error if it fails. -/
theorem setOptions_error {now : Nat → Int} {i : Nat} {args : List Bytes} {options : SetOptions}
    {reply : Bytes} (failed : setOptions now i args options = .error reply) : WellFormed reply := by
  fun_induction setOptions now i args options with
  | case1 => cases failed
  | case2 | case5 => exact Except.error.inj failed ▸ wellFormed_syntaxError
  | case3 | case4 => cases failed
  | case6 | case7 => exact Except.error.inj failed ▸ wellFormed_invalidSetExpire
  | case8 i a t rest options isOption v parsed positive reply' late =>
    exact Except.error.inj failed ▸ setExpireMs_error late
  | case9 i a t rest options isOption v parsed positive ms timed ih => exact ih failed
  | case10 i a t rest options isOption nx ih => exact ih failed
  | case11 i a t rest options isOption nx xx ih => exact ih failed
  | case12 => exact Except.error.inj failed ▸ wellFormed_syntaxError

theorem cmdSet_tame : Handler.Tame cmdSet words excused := by
  intro env argv free
  unfold cmdSet
  refine .check (wellFormed_arity (by decide)) fun long => ?_
  cases read : setOptions env.now 3 (argv.drop 3) ⟨false, false, -1⟩ with
  | error reply => exact .reply (setOptions_error read)
  | ok options =>
    refine .check wellFormed_syntaxError fun _ => .onKey argv.length (by omega) fun found => ?_
    unfold setBody
    split_ifs
    · exact .keep fun _ => wellFormed_null
    · exact .keep fun _ => wellFormed_null
    · exact .store (fun _ => wellFormed_replyOk) not_isError_replyOk rfl

theorem cmdGet_tame : Handler.Tame cmdGet words excused := fun _ _ _ =>
  .check (wellFormed_arity (by decide)) fun long => .onKey 0 (by omega)
    (Kind.read_tame Kind.stringKind_exact (fun _ => wellFormed_null) fun _ => wellFormed_bulk)

theorem cmdStrlen_tame : Handler.Tame cmdStrlen words excused := fun _ _ _ =>
  .check (wellFormed_arity (by decide)) fun long => .onKey 0 (by omega)
    (Kind.read_tame Kind.stringKind_exact (fun _ => wellFormed_integer 0)
      fun _ _ => wellFormed_integer _)

theorem wellFormed_getrangeReply (start stop : Int) (s : Bytes) :
    WellFormed (getrangeReply start stop s) :=
  .ite (wellFormed_bulkCstr _) (wellFormed_bulk _)

theorem cmdGetrange_tame : Handler.Tame cmdGetrange words excused := by
  intro env argv free
  unfold cmdGetrange
  refine .check (wellFormed_arity (by decide)) fun long => ?_
  cases stringToLl (arg argv 2) with
  | none => exact .reply wellFormed_notAnInteger
  | some start =>
    cases stringToLl (arg argv 3) with
    | none => exact .reply wellFormed_notAnInteger
    | some stop =>
      exact .onKey 0 (by omega) (Kind.read_tame Kind.stringKind_exact
        (fun _ => wellFormed_bulkCstr _) fun _ => wellFormed_getrangeReply start stop)

theorem cmdAppend_tame : Handler.Tame cmdAppend words excused := fun _ _ _ =>
  .check (wellFormed_arity (by decide)) fun long => .onKey 0 (by omega)
    (Kind.puts_tame Kind.stringKind_exact fun _ =>
      ⟨wellFormed_integer _, not_isError_replyInteger _, rfl⟩)

theorem setrangeString_succeeds (offset : Nat) (value s : Bytes) :
    ¬ IsError (setrangeString offset value s).2 := by
  unfold setrangeString
  split
  · exact fun wrong => nomatch wrong
  · exact not_isError_replyInteger _

/-- `SETRANGE` may end the process; for its replies see `wellFormed_cmdSetrange`. -/
theorem cmdSetrange_tame (apart : ∀ argv, ¬ words argv) :
    Handler.Tame cmdSetrange words excused := by
  intro env argv free
  unfold cmdSetrange
  refine .check (wellFormed_arity (by decide)) fun long => ?_
  cases stringToLl (arg argv 2) with
  | none => exact .reply (wellFormed_error (by decide))
  | some offset =>
    refine .check (wellFormed_error (by decide)) fun _ => .onKey 0 (by omega) ?_
    have succeeds := setrangeString_succeeds offset.toNat (arg argv 3)
    exact Kind.body_tame Kind.stringKind_exact
      (.store (fun asked => absurd asked (apart argv)) (succeeds _) rfl)
      fun _ s => .write (fun asked => absurd asked (apart argv)) (succeeds s) fun _ => rfl

theorem cmdSetnx_tame : Handler.Tame cmdSetnx words excused := by
  intro env argv free
  unfold cmdSetnx
  refine .check (wellFormed_arity (by decide)) fun long => .onKey 0 (by omega) fun found => ?_
  cases found with
  | none => exact .store (fun _ => wellFormed_integer 1) (not_isError_replyInteger 1) rfl
  | some o => exact .keep fun _ => wellFormed_integer 0

theorem cmdGetset_tame : Handler.Tame cmdGetset words excused := fun _ _ _ =>
  .check (wellFormed_arity (by decide)) fun long => .onKey 0 (by omega)
    (Kind.body_tame Kind.stringKind_exact
      (.store (fun _ => wellFormed_null) not_isError_replyNull rfl)
      fun _ s => .store (fun _ => wellFormed_bulk s) (not_isError_replyBulk s) rfl)

theorem incrDecrStep_tame {words excused : Prop} (found : Option Robj) (delta v expireAt : Int) :
    Miniredis.Tame words excused found (incrDecrStep delta v expireAt) := by
  unfold incrDecrStep
  cases addChecked v delta with
  | none => exact .keep fun _ => wellFormed_error (by decide)
  | some nv => exact .store (fun _ => wellFormed_integer nv) (not_isError_replyInteger nv) rfl

theorem incrDecr_tame (delta : Int) : Handler.Tame (incrDecr delta) words excused := by
  intro env argv free
  unfold incrDecr
  refine .check (wellFormed_arity free) fun long => .onKey 0 (by omega) ?_
  refine Kind.body_tame Kind.stringKind_exact (incrDecrStep_tame _ delta 0 (-1))
    fun expireAt s => ?_
  cases stringToLlN s with
  | none => exact .keep fun _ => wellFormed_notAnInteger
  | some v => exact incrDecrStep_tame _ delta v expireAt

theorem cmdExpireGeneric_tame (isMs : Bool) :
    Handler.Tame (cmdExpireGeneric isMs) words excused := by
  intro env argv free
  unfold cmdExpireGeneric
  refine .check (wellFormed_arity free) fun long => ?_
  cases stringToLl (arg argv 2) with
  | none => exact .reply (wellFormed_invalidExpire free)
  | some v =>
    refine .check (wellFormed_invalidExpire free) fun _ => .onKey 0 (by omega) fun found => ?_
    unfold expireBody
    cases found with
    | none => exact .keep fun _ => wellFormed_integer 0
    | some o =>
      dsimp only
      split
      · exact .keep fun _ => wellFormed_invalidExpire free
      · exact .write (fun _ => wellFormed_integer 1) (not_isError_replyInteger 1)
          fun full => full o rfl

theorem cmdExpireatGeneric_tame (isMs : Bool) :
    Handler.Tame (cmdExpireatGeneric isMs) words excused := by
  intro env argv free
  unfold cmdExpireatGeneric
  refine .check (wellFormed_arity free) fun long => ?_
  cases stringToLl (arg argv 2) with
  | none => exact .reply (wellFormed_invalidExpire free)
  | some ts =>
    refine .check (wellFormed_invalidExpire free) fun _ =>
      .check (wellFormed_invalidExpire free) fun _ => .onKey 0 (by omega) fun found => ?_
    unfold expireatBody
    cases found with
    | none => exact .keep fun _ => wellFormed_integer 0
    | some o =>
      exact .write (fun _ => wellFormed_integer 1) (not_isError_replyInteger 1)
        fun full => full o rfl

theorem cmdTtlGeneric_tame (isMs : Bool) : Handler.Tame (cmdTtlGeneric isMs) words excused := by
  intro env argv free
  unfold cmdTtlGeneric
  refine .check (wellFormed_arity free) fun long => .onKey 0 (by omega) fun found => ?_
  cases found with
  | none => exact .keep fun _ => wellFormed_integer _
  | some o =>
    dsimp only
    split
    · exact .keep fun _ => wellFormed_integer _
    · exact .keep fun _ => wellFormed_integer _

theorem cmdType_tame : Handler.Tame cmdType words excused := by
  intro env argv free
  unfold cmdType
  refine .check (wellFormed_arity (by decide)) fun long => .onKey 0 (by omega) fun found => ?_
  cases found with
  | none => exact .keep fun _ => wellFormed_simple (by decide)
  | some o =>
    refine .keep fun _ => ?_
    cases o.val with
    | string s => exact wellFormed_simple (show 13 ∉ text "string" by decide)
    | list l => exact wellFormed_simple (show 13 ∉ text "list" by decide)
    | hash h => exact wellFormed_simple (show 13 ∉ text "hash" by decide)
    | set s => exact wellFormed_simple (show 13 ∉ text "set" by decide)
    | zset z => exact wellFormed_simple (show 13 ∉ text "zset" by decide)

theorem cmdCommand_tame : Handler.Tame cmdCommand words excused := fun _ _ _ =>
  .reply wellFormed_array_zero

end Strings

/-! ### Lists -/

section Lists

theorem list_filled {l : List Bytes} : (Value.list l).isEmpty = false ↔ l ≠ [] := by
  simp [Value.isEmpty]

theorem listPushAll_filled (head : Bool) {values l : List Bytes} (some : values ≠ [] ∨ l ≠ []) :
    listPushAll head values l ≠ [] := by
  induction values generalizing l with
  | nil => exact some.resolve_left fun none => none rfl
  | cons v values ih =>
    refine ih (.inr ?_)
    split_ifs
    · exact List.cons_ne_nil v l
    · exact List.concat_ne_nil v l

theorem listPushReply_changes (head : Bool) (values l : List Bytes) :
    listKind.Changes l (listPushReply head values l) :=
  .sets (wellFormed_integer _) (not_isError_replyInteger _) fun full =>
    list_filled.mpr (listPushAll_filled head (.inr (list_filled.mp full)))

theorem listPush_tame (head xx : Bool) : Handler.Tame (listPush head xx) words excused := by
  intro env argv free
  unfold listPush
  refine .check (wellFormed_arity free) fun long => .onKey 0 (by omega) ?_
  cases xx with
  | true =>
    exact Kind.edit_tame Kind.listKind_exact (wellFormed_integer 0) (listPushReply_changes _ _)
  | false =>
    refine Kind.puts_tame Kind.listKind_exact fun l =>
      ⟨wellFormed_integer _, not_isError_replyInteger _, ?_⟩
    refine list_filled.mpr (listPushAll_filled head (.inl (List.ne_nil_of_length_pos ?_)))
    rw [List.length_drop]
    omega

theorem wellFormed_listPopReply (head : Bool) (count : Int) (l : List Bytes) :
    WellFormed (listPopReply head count l).2 ∧ ¬ IsError (listPopReply head count l).2 := by
  unfold listPopReply
  split
  · cases listPopOne head l with
    | none => exact ⟨wellFormed_null, not_isError_replyNull⟩
    | some popped => exact ⟨wellFormed_bulk _, not_isError_replyBulk _⟩
  · exact ⟨wellFormed_array wellFormed_bulk rfl, not_isError_array _ _⟩

theorem listPop_tame (head : Bool) : Handler.Tame (listPop head) words excused := by
  intro env argv free
  unfold listPop
  refine .check (wellFormed_arity free) fun long => ?_
  cases popCount argv with
  | none => exact .reply wellFormed_notPositive
  | some count =>
    exact .onKey 0 (by omega) (Kind.shrink_tame Kind.listKind_exact wellFormed_null
      (fun l => (wellFormed_listPopReply head count l).1)
      fun l => (wellFormed_listPopReply head count l).2)

theorem cmdLlen_tame : Handler.Tame cmdLlen words excused := fun _ _ _ =>
  .check (wellFormed_arity (by decide)) fun long => .onKey 0 (by omega)
    (Kind.read_tame Kind.listKind_exact (fun _ => wellFormed_integer 0)
      fun _ _ => wellFormed_integer _)

theorem cmdLrange_tame : Handler.Tame cmdLrange words excused := by
  intro env argv free
  unfold cmdLrange
  refine .check (wellFormed_arity (by decide)) fun long => ?_
  cases stringToLl (arg argv 2) with
  | none => exact .reply wellFormed_notAnInteger
  | some start =>
    cases stringToLl (arg argv 3) with
    | none => exact .reply wellFormed_notAnInteger
    | some stop =>
      refine .onKey 0 (by omega) (Kind.read_tame Kind.listKind_exact
        (fun _ => wellFormed_array_zero) fun _ l => ?_)
      cases range : rangeNormalize l.length start stop with
      | none => exact wellFormed_array_zero
      | some bounds =>
        obtain ⟨low, ordered, high⟩ := rangeNormalize_some range
        exact wellFormed_array wellFormed_bulk (length_slice low ordered high)

theorem cmdLindex_tame : Handler.Tame cmdLindex words excused := by
  intro env argv free
  unfold cmdLindex
  refine .check (wellFormed_arity (by decide)) fun long => ?_
  cases stringToLl (arg argv 2) with
  | none => exact .reply wellFormed_notAnInteger
  | some index =>
    refine .onKey 0 (by omega) (Kind.read_tame Kind.listKind_exact (fun _ => wellFormed_null)
      fun _ l => ?_)
    cases listNodeAt l index with
    | none => exact wellFormed_null
    | some i => exact wellFormed_bulk _

theorem lsetList_changes (index : Int) (value : Bytes) (l : List Bytes) :
    listKind.Changes l (lsetList index value l) := by
  unfold lsetList
  split
  · exact .refuses (wellFormed_error (by decide))
  · refine .sets wellFormed_replyOk not_isError_replyOk fun full => ?_
    refine list_filled.mpr (List.ne_nil_of_length_pos ?_)
    rw [List.length_set]
    exact List.length_pos_of_ne_nil (list_filled.mp full)

theorem cmdLset_tame : Handler.Tame cmdLset words excused := by
  intro env argv free
  unfold cmdLset
  refine .check (wellFormed_arity (by decide)) fun long => ?_
  cases stringToLl (arg argv 2) with
  | none => exact .reply wellFormed_notAnInteger
  | some index =>
    exact .onKey 0 (by omega) (Kind.edit_tame Kind.listKind_exact (wellFormed_error (by decide))
      (lsetList_changes index (arg argv 3)))

theorem cmdLtrim_tame : Handler.Tame cmdLtrim words excused := by
  intro env argv free
  unfold cmdLtrim
  refine .check (wellFormed_arity (by decide)) fun long => ?_
  cases stringToLl (arg argv 2) with
  | none => exact .reply wellFormed_notAnInteger
  | some start =>
    cases stringToLl (arg argv 3) with
    | none => exact .reply wellFormed_notAnInteger
    | some stop =>
      refine .onKey 0 (by omega) (Kind.body_tame Kind.listKind_exact
        (.keep fun _ => wellFormed_replyOk) fun expireAt l => ?_)
      cases range : rangeNormalize l.length start stop with
      | none => exact .remove (fun _ => wellFormed_replyOk) not_isError_replyOk
      | some bounds =>
        obtain ⟨low, ordered, high⟩ := rangeNormalize_some range
        refine ⟨fun _ => wellFormed_replyOk, fun _ wrong => absurd wrong not_isError_replyOk,
          fun _ _ => list_filled.mpr (List.ne_nil_of_length_pos ?_)⟩
        rw [length_slice low ordered high]
        omega

theorem cmdLrem_tame : Handler.Tame cmdLrem words excused := by
  intro env argv free
  unfold cmdLrem
  refine .check (wellFormed_arity (by decide)) fun long => ?_
  cases stringToLl (arg argv 2) with
  | none => exact .reply wellFormed_notAnInteger
  | some count =>
    refine .onKey 0 (by omega) (Kind.shrink_tame Kind.listKind_exact (wellFormed_integer 0)
      (fun l => ?_) fun l => ?_)
    all_goals unfold lremList
    all_goals split
    · exact wellFormed_integer _
    · exact wellFormed_integer _
    · exact not_isError_replyInteger _
    · exact not_isError_replyInteger _

theorem linsertAt_filled {before : Bool} {pivot value : Bytes} {l after : List Bytes}
    (found : linsertAt before pivot value l = some after) : after ≠ [] := by
  cases l with
  | nil => cases found
  | cons v rest =>
    unfold linsertAt at found
    split_ifs at found
    · cases found
      exact List.cons_ne_nil _ _
    · cases found
      exact List.cons_ne_nil _ _
    · obtain ⟨tail, _, rfl⟩ := Option.map_eq_some_iff.mp found
      exact List.cons_ne_nil _ _

theorem linsertList_changes (before : Bool) (pivot value : Bytes) (l : List Bytes) :
    listKind.Changes l (linsertList before pivot value l) := by
  unfold linsertList
  split
  · exact .refuses (wellFormed_integer _)
  · rename_i after found
    exact .sets (wellFormed_integer _) (not_isError_replyInteger _) fun _ =>
      list_filled.mpr (linsertAt_filled found)

theorem cmdLinsert_tame : Handler.Tame cmdLinsert words excused := by
  intro env argv free
  unfold cmdLinsert
  refine .check (wellFormed_arity (by decide)) fun long => ?_
  have insert (before : Bool) : TameBody (words argv) (excused argv)
      (listKind.edit (replyInteger 0) (linsertList before (arg argv 3) (arg argv 4))) :=
    Kind.edit_tame Kind.listKind_exact (wellFormed_integer 0) (linsertList_changes _ _ _)
  by_cases front : strcaseEq (arg argv 2) (text "BEFORE") = true
  · simp only [if_pos front]
    exact .onKey 0 (by omega) (insert true)
  by_cases back : strcaseEq (arg argv 2) (text "AFTER") = true
  · simp only [if_neg front, if_pos back]
    exact .onKey 0 (by omega) (insert false)
  · simp only [if_neg front, if_neg back]
    exact .reply wellFormed_syntaxError

end Lists

end Miniredis
