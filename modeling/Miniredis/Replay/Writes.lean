/-
**The write commands act on contents.**

Each logged data command, run on two similar stores with different clocks, seeds and table layouts,
leaves similar stores (`Handler.Sim`), as long as it does not look up an expired key. The commands
that write a deadline do so if the clocks are related too (`Handler.TimedSim`). `SPOP` is the one
write command that is not among them.
-/

import Miniredis.Replay.Simulation

namespace Miniredis

open HashTable (Table)

/-! ### Two runs of one command -/

/-- No lookup of a key of `K` by this command finds it expired. -/
def UnexpiredOn (K : Set Bytes) (env : Env) (db : Db) : Prop :=
  ∀ key ∈ K, ∀ i, Unexpired (env.now i) db key

/-- Two environments and stores in which a command meets similar, unexpired objects at `K`. -/
structure Alike (E : Int → Int → Prop) (K : Set Bytes) (env env' : Env) (db db' : Db) : Prop where
  clean : E (-1) (-1)
  sim : SimOn E K db db'
  first : UnexpiredOn K env db
  second : UnexpiredOn K env' db'

/-- The handler keeps similar stores similar on a set that has its first key. -/
def Handler.Sim (h : Handler) : Prop :=
  ∀ {E K env env' db db'} {argv : Argv}, arg argv 1 ∈ K → Alike E K env env' db db' →
    SimOn E K (h env db argv).1 (h env' db' argv).1

/-- The deadline that a command writes, from the clock and its arguments. -/
abbrev Deadline := (Nat → Int) → Argv → Int

/-- The handler keeps similar stores similar if the deadlines it writes are related. -/
def Handler.TimedSim (h : Handler) (deadline : Deadline) : Prop :=
  ∀ {E K env env' db db'} {argv : Argv}, E (deadline env.now argv) (deadline env'.now argv) →
    Alike E K env env' db db' → SimOn E K (h env db argv).1 (h env' db' argv).1

section Commands

variable {E : Int → Int → Prop} {K : Set Bytes} {env env' : Env} {db db' : Db} {key : Bytes}

theorem Alike.onKey (alike : Alike E K env env' db db') (i : Nat)
    {body body' : Option Robj → Update × Bytes} (bodies : BodySim E body body') :
    SimOn E K (onKey (env.now i) db key body).1 (onKey (env'.now i) db' key body').1 :=
  onKey_simOn bodies alike.sim fun member => ⟨alike.first key member i, alike.second key member i⟩

/-- Storing similar objects at one key of both stores. -/
theorem SimOn.set (sim : SimOn E K db db') {o o' : Robj} (same : o.Sim E o') :
    SimOn E K { db with d := (db.d.set key o).2 } { db' with d := (db'.d.set key o').2 } := by
  intro other member
  simp only [Table.get_set]
  split
  · exact .some same
  · exact sim other member

/-- Deleting one key of both stores. -/
theorem SimOn.delete (sim : SimOn E K db db') :
    SimOn E K { db with d := (db.d.delete key).2 } { db' with d := (db'.d.delete key).2 } := by
  intro other member
  simp only [Table.get_delete]
  split
  · exact .none
  · exact sim other member

/-! ### Strings -/

/-- The options of `SET` that decide whether it stores. -/
def SetOptions.flags (options : SetOptions) : Bool × Bool := (options.nx, options.xx)

theorem setExpireMs_clock (now now' : Int) (option : Bytes) (v : Int) :
    (∃ reply, setExpireMs now option v = .error reply ∧ setExpireMs now' option v = .error reply) ∨
      ∃ ms ms', setExpireMs now option v = .ok ms ∧ setExpireMs now' option v = .ok ms' := by
  unfold setExpireMs
  split_ifs <;> simp

/-- Whether the options of `SET` parse, and its flags, do not depend on the clock. -/
theorem setOptions_flags (now now' : Nat → Int) (i : Nat) (args : List Bytes)
    (options options' : SetOptions) (same : options.flags = options'.flags) :
    (setOptions now i args options).map SetOptions.flags =
      (setOptions now' i args options').map SetOptions.flags := by
  obtain ⟨nx, xx⟩ := Prod.mk.inj same
  fun_induction setOptions now i args options generalizing options' with
  | case8 i a t rest options known v number positive reply late =>
    rcases setExpireMs_clock (now i) (now' i) a v with ⟨r, first, second⟩ | ⟨ms, ms', first, second⟩
    · rw [late] at first
      cases first
      simp [setOptions, known, number, positive, second, Except.map]
    · rw [late] at first
      cases first
  | case9 i a t rest options known v number positive ms fits ih =>
    rcases setExpireMs_clock (now i) (now' i) a v with ⟨r, first, second⟩ | ⟨r, ms', first, second⟩
    · rw [fits] at first
      cases first
    · rw [ih { options' with expireMs := ms' } same nx xx]
      simp [setOptions, known, number, positive, second]
  | case10 i a t rest options plain isNx ih =>
    rw [ih { options' with nx := true } (by simp [SetOptions.flags, xx]) rfl xx]
    simp [setOptions, plain, isNx]
  | case11 i a t rest options plain notNx isXx ih =>
    rw [ih { options' with xx := true } (by simp [SetOptions.flags, nx]) nx rfl]
    simp [setOptions, plain, notNx, isXx]
  | _ => simp_all [setOptions, Except.map, SetOptions.flags]

theorem setBody_sim {options options' : SetOptions} {now now' : Int} (value : Bytes)
    (same : options.flags = options'.flags)
    (deadline : E (setDeadline now options.expireMs) (setDeadline now' options'.expireMs)) :
    BodySim E (setBody options now value) (setBody options' now' value) := by
  intro found found' sim
  obtain ⟨nx, xx⟩ := Prod.mk.inj same
  have present : found.isSome = found'.isSome := by cases sim <;> rfl
  have absent : found.isNone = found'.isNone := by cases sim <;> rfl
  unfold setBody
  rw [nx, xx, present, absent]
  split_ifs
  · exact .keep
  · exact .keep
  · exact .store ⟨rfl, deadline⟩

/-- The options of a `SET` command. -/
def readSetOptions (now : Nat → Int) (argv : Argv) : Except Bytes SetOptions :=
  setOptions now 3 (argv.drop 3) ⟨false, false, -1⟩

/-- The deadline of a `SET`, `-1` if it gives none. -/
def setCommandDeadline : Deadline := fun now argv =>
  match readSetOptions now argv with
  | .error _ => -1
  | .ok options => setDeadline (now (argv.length + 1)) options.expireMs

theorem cmdSet_timedSim : Handler.TimedSim cmdSet setCommandDeadline := by
  intro E K env env' db db' argv deadline alike
  have flags : (readSetOptions env.now argv).map SetOptions.flags =
      (readSetOptions env'.now argv).map SetOptions.flags := setOptions_flags _ _ _ _ _ _ rfl
  unfold setCommandDeadline at deadline
  unfold cmdSet
  split
  · exact alike.sim
  rw [← readSetOptions, ← readSetOptions]
  cases first : readSetOptions env.now argv <;> cases second : readSetOptions env'.now argv <;>
    rw [first, second] at flags deadline
  · exact alike.sim
  · cases flags
  · cases flags
  · rename_i options options'
    have same : options.flags = options'.flags := Except.ok.inj flags
    obtain ⟨nx, xx⟩ := Prod.mk.inj same
    simp only [nx, xx]
    split
    · exact alike.sim
    · exact alike.onKey _ (setBody_sim _ same deadline)

/-- Without a time among the options the time stays as it was. -/
theorem setOptions_expireMs {now : Nat → Int} {i : Nat} {args : List Bytes}
    {options final : SetOptions} (untimed : ∀ a ∈ args, isSetExpireOption a = false)
    (parsed : setOptions now i args options = .ok final) : final.expireMs = options.expireMs := by
  fun_induction setOptions now i args options with
  | case1 => cases parsed; rfl
  | case3 => cases parsed; rfl
  | case4 => cases parsed; rfl
  | case10 i a t rest options plain isNx ih =>
    exact ih (List.forall_mem_cons.mp untimed).2 parsed
  | case11 i a t rest options plain notNx isXx ih =>
    exact ih (List.forall_mem_cons.mp untimed).2 parsed
  | _ => simp_all

theorem setCommandDeadline_untimed {now : Nat → Int} {argv : Argv}
    (untimed : ∀ a ∈ argv.drop 3, isSetExpireOption a = false) :
    setCommandDeadline now argv = -1 := by
  unfold setCommandDeadline
  cases parsed : readSetOptions now argv with
  | error reply => rfl
  | ok options =>
    dsimp only
    rw [setOptions_expireMs untimed parsed]
    rfl

theorem msetLoop_simOn (clean : E (-1) (-1)) (args : List Bytes) (sim : SimOn E K db db') :
    SimOn E K (msetLoop args db) (msetLoop args db') := by
  fun_induction msetLoop args db generalizing db' with
  | case1 key value rest db ih =>
    rw [msetLoop]
    exact ih (sim.set (Robj.sim_new clean rfl))
  | case2 args db short =>
    rw [msetLoop]
    · exact sim
    · exact short

theorem cmdMset_sim : Handler.Sim cmdMset := by
  intro E K env env' db db' argv _ alike
  unfold cmdMset
  split
  · exact alike.sim
  · exact msetLoop_simOn alike.clean _ alike.sim

theorem delLoop_simOn (args : List Bytes) (n n' : Nat) (sim : SimOn E K db db') :
    SimOn E K (delLoop args db n).1 (delLoop args db' n').1 := by
  induction args generalizing db db' n n' with
  | nil => exact sim
  | cons key rest ih => exact ih _ _ sim.delete

theorem cmdDel_sim : Handler.Sim cmdDel := by
  intro E K env env' db db' argv _ alike
  unfold cmdDel
  split
  · exact alike.sim
  · exact delLoop_simOn _ _ _ alike.sim

theorem stringKind_acts {act act' : Bytes → Bytes × Bytes} (same : ∀ s, (act s).1 = (act' s).1)
    {s s' : Bytes} (equal : stringKind.Same s s') : stringKind.Same (act s).1 (act' s').1 := by
  rw [stringKind_same] at equal ⊢
  rw [equal, same]

theorem cmdAppend_sim : Handler.Sim cmdAppend := by
  intro E K env env' db db' argv _ alike
  unfold cmdAppend
  split
  · exact alike.sim
  · exact alike.onKey _ (Kind.upsert_sim stringKind_lawful alike.clean
      (stringKind_acts fun _ => rfl))

theorem cmdSetrange_sim : Handler.Sim cmdSetrange := by
  intro E K env env' db db' argv _ alike
  unfold cmdSetrange
  split
  · exact alike.sim
  split
  · exact alike.sim
  split
  · exact alike.sim
  · exact alike.onKey _ (Kind.upsert_sim stringKind_lawful alike.clean
      (stringKind_acts fun _ => rfl))

/-- `RENAME` moves similar objects when the source is among the keys. -/
theorem cmdRename_sim : Handler.Sim cmdRename := by
  intro E K env env' db db' argv named alike
  unfold cmdRename
  rw [lookupKey_unexpired (alike.first _ named 0), lookupKey_unexpired (alike.second _ named 0)]
  split
  · exact alike.sim
  split
  · exact alike.sim
  rcases alike.sim.at named with ⟨first, second⟩ | ⟨o, o', first, second, same⟩
  · rw [first, second]
    exact alike.sim
  · rw [first, second]
    exact SimOn.set alike.sim.delete same

theorem cmdSetnx_sim : Handler.Sim cmdSetnx := by
  intro E K env env' db db' argv _ alike
  unfold cmdSetnx
  split
  · exact alike.sim
  · refine alike.onKey _ fun found found' sim => ?_
    cases sim with
    | none => exact .store (Robj.sim_new alike.clean rfl)
    | some _ => exact .keep

/-- The deadline of a `SETEX`, `-1` if it is refused. -/
def setexDeadline : Deadline := fun now argv =>
  match stringToLl (arg argv 2) with
  | none => -1
  | some secs =>
    if secs ≤ 0 ∨ secs > int64MaxSeconds then -1 else wrap64 (now 0 + secs * 1000)

theorem cmdSetex_timedSim : Handler.TimedSim cmdSetex setexDeadline := by
  intro E K env env' db db' argv deadline alike
  unfold setexDeadline at deadline
  unfold cmdSetex
  split
  · exact alike.sim
  split
  · exact alike.sim
  rename_i secs number
  rw [number] at deadline
  dsimp only at deadline
  split
  · exact alike.sim
  · rename_i valid
    rw [if_neg valid, if_neg valid] at deadline
    exact alike.sim.set ⟨rfl, deadline⟩

theorem cmdGetset_sim : Handler.Sim cmdGetset := by
  intro E K env env' db db' argv _ alike
  have fresh : Update.Sim E (.store (robjNew (.string (arg argv 2))))
      (.store (robjNew (.string (arg argv 2)))) := .store (Robj.sim_new alike.clean rfl)
  unfold cmdGetset
  split
  · exact alike.sim
  · exact alike.onKey _ (Kind.body_sim stringKind_lawful fresh fun _ _ => fresh)

theorem incrDecrStep_sim (delta v : Int) {e e' : Int} (expire : E e e') :
    Update.Sim E (incrDecrStep delta v e).1 (incrDecrStep delta v e').1 := by
  unfold incrDecrStep
  split
  · exact .keep
  · exact .store ⟨rfl, expire⟩

theorem incrDecr_sim (delta : Int) : Handler.Sim (incrDecr delta) := by
  intro E K env env' db db' argv _ alike
  unfold incrDecr
  split
  · exact alike.sim
  · refine alike.onKey _ (Kind.body_sim stringKind_lawful (incrDecrStep_sim _ _ alike.clean) ?_)
    intro e e' s s' expire same
    rw [stringKind_same.mp same]
    split
    · exact .keep
    · exact incrDecrStep_sim _ _ expire

/-- The deadline of an `EXPIRE` or a `PEXPIRE`, `-1` if it is refused. -/
def expireDeadline (isMs : Bool) : Deadline := fun now argv =>
  match stringToLl (arg argv 2) with
  | none => -1
  | some v =>
    if v < 0 ∨ (!isMs && v > int64MaxSeconds) then -1
    else wrap64 (now 1 + if isMs then v else v * 1000)

theorem expireBody_sim (isMs : Bool) (name : Bytes) {v now now' : Int}
    (deadline : (!isMs && v > int64MaxSeconds) = false →
      E (wrap64 (now + if isMs then v else v * 1000))
        (wrap64 (now' + if isMs then v else v * 1000))) :
    BodySim E (expireBody isMs name v now) (expireBody isMs name v now') := by
  intro found found' sim
  cases sim with
  | none => exact .keep
  | some same =>
    unfold expireBody
    dsimp only
    split
    · exact .keep
    · rename_i small
      exact .write ⟨same.content, deadline (Bool.eq_false_iff.mpr small)⟩

theorem cmdExpireGeneric_timedSim (isMs : Bool) :
    Handler.TimedSim (cmdExpireGeneric isMs) (expireDeadline isMs) := by
  intro E K env env' db db' argv deadline alike
  unfold expireDeadline at deadline
  unfold cmdExpireGeneric
  split
  · exact alike.sim
  split
  · exact alike.sim
  rename_i v number
  rw [number] at deadline
  dsimp only at deadline
  split
  · exact alike.sim
  · rename_i positive
    refine alike.onKey _ (expireBody_sim _ _ fun small => ?_)
    have valid : ¬ (v < 0 ∨ (!isMs && v > int64MaxSeconds) = true) :=
      not_or.mpr ⟨positive, Bool.eq_false_iff.mp small⟩
    rw [if_neg valid, if_neg valid] at deadline
    exact deadline

/-- The deadline of an `EXPIREAT` or a `PEXPIREAT`, `-1` if it is refused. -/
def expireatDeadline (isMs : Bool) : Deadline := fun _ argv =>
  match stringToLl (arg argv 2) with
  | none => -1
  | some ts =>
    if ts < 0 ∨ (!isMs && ts > int64MaxSeconds) then -1 else if isMs then ts else ts * 1000

theorem cmdExpireatGeneric_timedSim (isMs : Bool) :
    Handler.TimedSim (cmdExpireatGeneric isMs) (expireatDeadline isMs) := by
  intro E K env env' db db' argv deadline alike
  unfold expireatDeadline at deadline
  unfold cmdExpireatGeneric
  split
  · exact alike.sim
  split
  · exact alike.sim
  split
  · exact alike.sim
  split
  · exact alike.sim
  · rename_i ts number positive small
    rw [number] at deadline
    dsimp only at deadline
    rw [if_neg (not_or.mpr ⟨positive, small⟩)] at deadline
    refine alike.onKey _ fun found found' sim => ?_
    cases sim with
    | none => exact .keep
    | some same => exact .write ⟨same.content, deadline⟩

theorem cmdFlushall_sim : Handler.Sim cmdFlushall := by
  intro E K env env' db db' argv _ alike
  unfold cmdFlushall
  split
  · exact alike.sim
  · intro key _
    rw [dictCreate_get, dictCreate_get]
    exact .none

/-! ### Lists -/

theorem listKind_congr {act : List Bytes → List Bytes × Bytes} {l l' : List Bytes}
    (same : listKind.Same l l') : listKind.Same (act l).1 (act l').1 := by
  rw [listKind_same] at same ⊢
  rw [same]

theorem listPush_sim (head xx : Bool) : Handler.Sim (listPush head xx) := by
  intro E K env env' db db' argv _ alike
  unfold listPush
  split
  · exact alike.sim
  split
  · exact alike.onKey _ (Kind.edit_sim listKind_lawful listKind_congr)
  · exact alike.onKey _ (Kind.upsert_sim listKind_lawful alike.clean listKind_congr)

theorem listPop_sim (head : Bool) : Handler.Sim (listPop head) := by
  intro E K env env' db db' argv _ alike
  unfold listPop
  split
  · exact alike.sim
  split
  · exact alike.sim
  · exact alike.onKey _ (Kind.shrink_sim listKind_lawful listKind_congr)

theorem cmdLset_sim : Handler.Sim cmdLset := by
  intro E K env env' db db' argv _ alike
  unfold cmdLset
  split
  · exact alike.sim
  split
  · exact alike.sim
  · exact alike.onKey _ (Kind.edit_sim listKind_lawful listKind_congr)

theorem cmdLtrim_sim : Handler.Sim cmdLtrim := by
  intro E K env env' db db' argv _ alike
  unfold cmdLtrim
  split
  · exact alike.sim
  split
  · refine alike.onKey _ (Kind.body_sim listKind_lawful .keep ?_)
    intro e e' l l' expire same
    rw [listKind_same.mp same]
    split
    · exact .remove
    · exact .write ⟨rfl, expire⟩
  · exact alike.sim

theorem cmdLrem_sim : Handler.Sim cmdLrem := by
  intro E K env env' db db' argv _ alike
  unfold cmdLrem
  split
  · exact alike.sim
  split
  · exact alike.sim
  · exact alike.onKey _ (Kind.shrink_sim listKind_lawful listKind_congr)

theorem cmdLinsert_sim : Handler.Sim cmdLinsert := by
  intro E K env env' db db' argv _ alike
  unfold cmdLinsert
  split
  · exact alike.sim
  split
  · exact alike.onKey _ (Kind.edit_sim listKind_lawful listKind_congr)
  split
  · exact alike.onKey _ (Kind.edit_sim listKind_lawful listKind_congr)
  · exact alike.sim

/-! ### Hashes -/

/-- Two dictionaries with the same map. -/
def SameMap {α : Type} (d d' : Dict α) : Prop := ∀ key, d.get key = d'.get key

theorem SameMap.set {α : Type} {d d' : Dict α} (same : SameMap d d') (key : Bytes) (val : α) :
    SameMap (d.set key val).2 (d'.set key val).2 := fun other => by
  rw [Table.get_set, Table.get_set, same other]

theorem SameMap.delete {α : Type} {d d' : Dict α} (same : SameMap d d') (key : Bytes) :
    SameMap (d.delete key).2 (d'.delete key).2 := fun other => by
  rw [Table.get_delete, Table.get_delete, same other]

theorem hashSetLoop_same (args : List Bytes) {h h' : Dict Bytes} (n n' : Nat)
    (same : SameMap h h') : SameMap (hashSetLoop args h n).1 (hashSetLoop args h' n').1 := by
  fun_induction hashSetLoop args h n generalizing h' n' with
  | case1 field value rest h n ih =>
    rw [hashSetLoop]
    exact ih _ (same.set field value)
  | case2 args h n short =>
    rw [hashSetLoop]
    · exact same
    · exact short

theorem hashSetMany_sim (ok : Bool) : Handler.Sim (hashSetMany ok) := by
  intro E K env env' db db' argv _ alike
  unfold hashSetMany
  split
  · exact alike.sim
  · exact alike.onKey _ (Kind.upsert_sim hashKind_lawful alike.clean fun same =>
      hashKind_same.mpr (hashSetLoop_same _ _ _ (hashKind_same.mp same)))

theorem hdelLoop_same (args : List Bytes) {h h' : Dict Bytes} (n n' : Nat)
    (same : SameMap h h') : SameMap (hdelLoop args h n).1 (hdelLoop args h' n').1 := by
  induction args generalizing h h' n n' with
  | nil => exact same
  | cons field rest ih => exact ih _ _ (same.delete field)

theorem cmdHdel_sim : Handler.Sim cmdHdel := by
  intro E K env env' db db' argv _ alike
  unfold cmdHdel
  split
  · exact alike.sim
  · exact alike.onKey _ (Kind.shrink_sim hashKind_lawful fun same =>
      hashKind_same.mpr (hdelLoop_same _ _ _ (hashKind_same.mp same)))

theorem hsetnxHash_same (field value : Bytes) {h h' : Dict Bytes} (same : SameMap h h') :
    SameMap (hsetnxHash field value h).1 (hsetnxHash field value h').1 := by
  unfold hsetnxHash
  rw [same field]
  split
  · exact same
  · exact same.set field value

theorem cmdHsetnx_sim : Handler.Sim cmdHsetnx := by
  intro E K env env' db db' argv _ alike
  unfold cmdHsetnx
  split
  · exact alike.sim
  · exact alike.onKey _ (Kind.upsert_sim hashKind_lawful alike.clean fun same =>
      hashKind_same.mpr (hsetnxHash_same _ _ (hashKind_same.mp same)))

theorem hincrbyHash_same (field : Bytes) (delta : Int) {h h' : Dict Bytes}
    (same : SameMap h h') :
    SameMap (hincrbyHash field delta h).1 (hincrbyHash field delta h').1 := by
  unfold hincrbyHash hashInteger
  rw [same field]
  split
  · exact same
  split
  · exact same
  · exact same.set field _

theorem cmdHincrby_sim : Handler.Sim cmdHincrby := by
  intro E K env env' db db' argv _ alike
  unfold cmdHincrby
  split
  · exact alike.sim
  split
  · exact alike.sim
  · exact alike.onKey _ (Kind.upsert_sim hashKind_lawful alike.clean fun same =>
      hashKind_same.mpr (hincrbyHash_same _ _ (hashKind_same.mp same)))

theorem hincrbyfloatHash_same (field : Bytes) (delta : Double) {h h' : Dict Bytes}
    (same : SameMap h h') :
    SameMap (hincrbyfloatHash field delta h).1 (hincrbyfloatHash field delta h').1 := by
  unfold hincrbyfloatHash hashDouble
  rw [same field]
  split
  · exact same
  dsimp only
  split
  · exact same
  · exact same.set field _

theorem cmdHincrbyfloat_sim : Handler.Sim cmdHincrbyfloat := by
  intro E K env env' db db' argv _ alike
  unfold cmdHincrbyfloat
  split
  · exact alike.sim
  split
  · exact alike.sim
  · exact alike.onKey _ (Kind.upsert_sim hashKind_lawful alike.clean fun same =>
      hashKind_same.mpr (hincrbyfloatHash_same _ _ (hashKind_same.mp same)))

/-! ### Sets -/

theorem saddLoop_same (args : List Bytes) {s s' : Dict Unit} (n n' : Nat) (same : SameMap s s') :
    SameMap (saddLoop args s n).1 (saddLoop args s' n').1 := by
  induction args generalizing s s' n n' with
  | nil => exact same
  | cons member rest ih =>
    unfold saddLoop
    rw [same member]
    split
    · exact ih _ _ (same.set member ())
    · exact ih _ _ same

theorem cmdSadd_sim : Handler.Sim cmdSadd := by
  intro E K env env' db db' argv _ alike
  unfold cmdSadd
  split
  · exact alike.sim
  · exact alike.onKey _ (Kind.upsert_sim setKind_lawful alike.clean fun same =>
      setKind_same.mpr (saddLoop_same _ _ _ (setKind_same.mp same)))

theorem sremLoop_same (args : List Bytes) {s s' : Dict Unit} (n n' : Nat) (same : SameMap s s') :
    SameMap (sremLoop args s n).1 (sremLoop args s' n').1 := by
  induction args generalizing s s' n n' with
  | nil => exact same
  | cons member rest ih => exact ih _ _ (same.delete member)

theorem cmdSrem_sim : Handler.Sim cmdSrem := by
  intro E K env env' db db' argv _ alike
  unfold cmdSrem
  split
  · exact alike.sim
  · exact alike.onKey _ (Kind.shrink_sim setKind_lawful fun same =>
      setKind_same.mpr (sremLoop_same _ _ _ (setKind_same.mp same)))

/-! ### Sorted sets -/

/-- Two sorted sets with the same scores. -/
def SameScores (z z' : Zset) : Prop := ∀ member, zsetScore z member = zsetScore z' member

theorem SameScores.add {z z' : Zset} (same : SameScores z z') (score : Double) (member : Bytes) :
    SameScores (zsetAdd z score member).2 (zsetAdd z' score member).2 := fun other => by
  rw [score_add, score_add, same member, same other]

theorem SameScores.remove {z z' : Zset} (same : SameScores z z') (member : Bytes) :
    SameScores (zsetRemove z member).2 (zsetRemove z' member).2 := fun other => by
  rw [score_remove, score_remove, same other]

theorem zincrScore_same {z z' : Zset} (same : SameScores z z') (member : Bytes) (by_ : Double) :
    SameScores (zincrScore z member by_).1 (zincrScore z' member by_).1 := by
  unfold zincrScore
  rw [same member]
  dsimp only
  split
  · exact same
  · exact same.add _ member

theorem zaddLoop_same (flags : ZaddFlags) (args : List Bytes) {z z' : Zset} (n m n' m' : Nat)
    (same : SameScores z z') :
    SameScores (zaddLoop flags args z n m).1 (zaddLoop flags args z' n' m').1 := by
  induction args using List.twoStepInduction generalizing z z' n m n' m' with
  | nil => exact same
  | singleton a => exact same
  | cons_cons s member rest ih _ =>
    rw [zaddLoop, zaddLoop, same member]
    split
    · exact same
    dsimp only
    split
    · split
      · exact same
      · exact zincrScore_same same member _
    split
    · exact ih _ _ _ _ same
    · exact ih _ _ _ _ (same.add _ member)

theorem cmdZadd_sim : Handler.Sim cmdZadd := by
  intro E K env env' db db' argv _ alike
  have adds : ∀ flags pairs {z z' : Zset}, zsetKind.Same z z' →
      zsetKind.Same (zaddLoop flags pairs z 0 0).1 (zaddLoop flags pairs z' 0 0).1 :=
    fun flags pairs _ _ same =>
      zsetKind_same.mpr (zaddLoop_same flags pairs 0 0 0 0 (zsetKind_same.mp same))
  unfold cmdZadd
  split
  · exact alike.sim
  dsimp only
  split
  · exact alike.sim
  split
  · exact alike.sim
  split
  · exact alike.sim
  split
  · exact alike.onKey _ (Kind.edit_sim zsetKind_lawful (adds _ _))
  · exact alike.onKey _ (Kind.upsert_sim zsetKind_lawful alike.clean (adds _ _))

theorem zremLoop_same (args : List Bytes) {z z' : Zset} (n n' : Nat) (same : SameScores z z') :
    SameScores (zremLoop args z n).1 (zremLoop args z' n').1 := by
  induction args generalizing z z' n n' with
  | nil => exact same
  | cons member rest ih => exact ih _ _ (same.remove member)

theorem cmdZrem_sim : Handler.Sim cmdZrem := by
  intro E K env env' db db' argv _ alike
  unfold cmdZrem
  split
  · exact alike.sim
  · exact alike.onKey _ (Kind.shrink_sim zsetKind_lawful fun same =>
      zsetKind_same.mpr (zremLoop_same _ _ _ (zsetKind_same.mp same)))

theorem cmdZincrby_sim : Handler.Sim cmdZincrby := by
  intro E K env env' db db' argv _ alike
  unfold cmdZincrby
  split
  · exact alike.sim
  split
  · exact alike.sim
  · exact alike.onKey _ (Kind.upsert_sim zsetKind_lawful alike.clean fun same =>
      zsetKind_same.mpr (zincrScore_same (zsetKind_same.mp same) _ _))

end Commands

end Miniredis
