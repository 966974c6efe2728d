/-
**What the rewrite of the log restores.**

The rewrite turns every key into commands; replaying them into an empty store should give the key
back. `Rebuilds` says so of one key, and a store all of whose keys are rebuilt is restored
(`aofRewrite_restores`).

* `aofRewrite_containers` — containers come back at any time, over any number of batches;
* `aofRewrite_string` — a string comes back exactly if it holds no NUL.
-/

import Miniredis.Replay.Sync

namespace Miniredis

/-! ### Batches -/

section Batches

variable {α : Type} {size : Nat} {batch : List α}

theorem batchLoop_flatten (batch items : List α) :
    (batchLoop size batch items).flatten = batch ++ items := by
  induction items generalizing batch with
  | nil =>
    unfold batchLoop
    split
    · rename_i empty
      rw [empty]
      rfl
    · simp
  | cons item rest ih =>
    unfold batchLoop
    split
    · rw [List.flatten_cons, ih, List.singleton_append]
    · rw [ih, List.append_assoc, List.singleton_append]

/-- The batches are the pieces at the multiples of the size. -/
theorem batchLoop_mem (positive : 0 < size) {items b : List α} (room : batch.length ≤ size) :
    b ∈ batchLoop size batch items ↔ ∃ i, size * i < (batch ++ items).length ∧
      b = ((batch ++ items).drop (size * i)).take size := by
  induction items generalizing batch with
  | nil =>
    rw [List.append_nil, batchLoop]
    split_ifs with empty
    · simp [empty]
    · rw [List.mem_singleton]
      refine ⟨fun same => ⟨0, List.length_pos_iff.mpr empty, ?_⟩, fun ⟨i, inside, same⟩ => ?_⟩
      · rw [same, Nat.mul_zero, List.drop_zero, List.take_of_length_le room]
      · obtain rfl : i = 0 := by
          by_contra later
          exact absurd (Nat.le_mul_of_pos_right size (Nat.pos_of_ne_zero later)) (by omega)
        rw [same, Nat.mul_zero, List.drop_zero, List.take_of_length_le room]
  | cons item rest ih =>
    rw [batchLoop]
    split_ifs with full
    · -- the full batch is the first piece, and the later ones are those of the rest
      have behind (i : Nat) : (batch ++ item :: rest).drop (size * (i + 1)) =
          (item :: rest).drop (size * i) := by
        rw [Nat.mul_succ, Nat.add_comm, ← full, ← List.drop_drop, List.drop_left]
      have longer : (batch ++ item :: rest).length = size + (item :: rest).length := by
        rw [List.length_append, full]
      have later := ih (show [item].length ≤ size from positive)
      rw [List.mem_cons, later, List.singleton_append]
      constructor
      · rintro (rfl | ⟨i, inside, rfl⟩)
        · exact ⟨0, by rw [Nat.mul_zero]; omega, by
            rw [Nat.mul_zero, List.drop_zero, ← full, List.take_left]⟩
        · exact ⟨i + 1, by rw [Nat.mul_succ]; omega, by rw [behind]⟩
      · rintro ⟨_ | i, inside, rfl⟩
        · rw [Nat.mul_zero, List.drop_zero, ← full, List.take_left]
          exact .inl rfl
        · rw [Nat.mul_succ] at inside
          exact .inr ⟨i, by omega, by rw [behind]⟩
    · have regroup : batch ++ item :: rest = batch ++ [item] ++ rest := by simp
      rw [regroup]
      refine ih ?_
      rw [List.length_append, List.length_singleton]
      omega

/-- The batches are the elements, in order. -/
theorem batches_flatten (items : List α) : (batches items).flatten = items :=
  batchLoop_flatten [] items

theorem mem_batches {items b : List α} :
    b ∈ batches items ↔ ∃ i, 64 * i < items.length ∧ b = (items.drop (64 * i)).take 64 :=
  batchLoop_mem (by decide) (Nat.zero_le _)

/-- Every batch has an element and no batch has too many. -/
theorem batches_mem {items : List α} : ∀ b ∈ batches items, b ≠ [] ∧ b.length ≤ 64 := by
  intro b member
  obtain ⟨i, inside, rfl⟩ := mem_batches.mp member
  refine ⟨fun empty => ?_, List.length_take_le _ _⟩
  rw [List.take_eq_nil_iff, List.drop_eq_nil_iff] at empty
  omega

end Batches

/-! ### Filling a container -/

/-- Words without NULs are read as they are. -/
theorem map_cstr {args : List Bytes} (free : ∀ a ∈ args, (0 : UInt8) ∉ a) :
    args.map cstr = args := by
  conv_rhs => rw [← List.map_id args]
  exact List.map_congr_left fun a member => cstr_of_zero_notMem (free a member)

section Filling

variable {α : Type} {kind : Kind α} {env : Env} {db : Db} {key other : Bytes} {now : Int}

theorem onKey_upsert_none (absent : db.d.get key = none) (act : α → α × Bytes) :
    (onKey now db key (kind.upsert env.seed act)).1.d.get other =
      if other = key then some ⟨kind.wrap (act (kind.fresh env.seed)).1, -1⟩
      else db.d.get other := by
  have missing : lookupKey now db key = (none, db) := by
    unfold lookupKey
    rw [absent]
  unfold onKey
  rw [missing]
  exact db.d.get_set key other _

theorem onKey_upsert_some {a : α} (unwrap : kind.unwrap (kind.wrap a) = some a)
    (found : db.d.get key = some ⟨kind.wrap a, -1⟩) (act : α → α × Bytes) :
    (onKey now db key (kind.upsert env.seed act)).1.d.get other =
      if other = key then some ⟨kind.wrap (act a).1, -1⟩ else db.d.get other := by
  have there : lookupKey now db key = (some ⟨kind.wrap a, -1⟩, db) := by
    unfold lookupKey
    rw [found]
    rfl
  unfold onKey
  rw [there]
  simp only [Kind.upsert, Kind.body, unwrap, Update.apply]
  rw [db.d.get_write key other, found]
  rfl

/-- The command adds the items after its key to a container, one by one. -/
structure Fills (kind : Kind α) (name : Bytes) (add : α → List Bytes → α)
    (Item : List Bytes → Prop) : Prop where
  unwrap : ∀ a, kind.unwrap (kind.wrap a) = some a
  run : ∀ env db key batch, (0 : UInt8) ∉ key → batch ≠ [] → (∀ item ∈ batch, Item item) →
    ∃ reply : α → Bytes, execute env db (name :: key :: batch.flatten) =
      (onKey (env.now 0) db key
        (kind.upsert env.seed fun a => (batch.foldl add a, reply a))).1

variable {name : Bytes} {add : α → List Bytes → α} {Item : List Bytes → Prop}

/-- Batches go on where the ones before them ended. -/
theorem Fills.more (fills : Fills kind name add Item) (free : (0 : UInt8) ∉ key) (envs : Nat → Env)
    (i : Nat) {batches : List (List (List Bytes))}
    (good : ∀ b ∈ batches, b ≠ [] ∧ ∀ item ∈ b, Item item) {a : α}
    (found : db.d.get key = some ⟨kind.wrap a, -1⟩) :
    (executeAll envs i db (batches.map fun b => name :: key :: b.flatten)).d.get other =
      if other = key then some ⟨kind.wrap (batches.flatten.foldl add a), -1⟩
      else db.d.get other := by
  induction batches generalizing i db a with
  | nil =>
    show db.d.get other = _
    split
    · rename_i same
      rw [same, found]
      rfl
    · rfl
  | cons b rest ih =>
    obtain ⟨filled, items⟩ := good b List.mem_cons_self
    obtain ⟨reply, ran⟩ := fills.run (envs i) db key b free filled items
    have after : ∀ other, (execute (envs i) db (name :: key :: b.flatten)).d.get other =
        if other = key then some ⟨kind.wrap (b.foldl add a), -1⟩
        else db.d.get other := fun other => by
      rw [ran]
      exact onKey_upsert_some (fills.unwrap a) found _
    rw [List.map_cons, executeAll,
      ih (i + 1) (fun b' member => good b' (List.mem_cons_of_mem _ member))
        ((after key).trans (if_pos rfl)), List.flatten_cons, List.foldl_append]
    split
    · rfl
    · rename_i ne
      rw [after, if_neg ne]

/-- **The commands for the elements of a container build it**, whatever the number of batches. -/
theorem Fills.all (fills : Fills kind name add Item) (free : (0 : UInt8) ∉ key) (envs : Nat → Env)
    (i : Nat) {items : List (List Bytes)} (filled : items ≠ []) (good : ∀ item ∈ items, Item item)
    (absent : db.d.get key = none) :
    (executeAll envs i db (fillCommands name key items)).d.get other =
      if other = key then
        some ⟨kind.wrap (items.foldl add (kind.fresh (envs i).seed)), -1⟩
      else db.d.get other := by
  have whole := batches_flatten items
  have each : ∀ b ∈ batches items, b ≠ [] ∧ ∀ item ∈ b, Item item := fun b member =>
    ⟨(batches_mem b member).1, fun item inside =>
      good item (whole ▸ List.mem_flatten.mpr ⟨b, member, inside⟩)⟩
  unfold fillCommands
  cases split : batches items with
  | nil =>
    rw [split] at whole
    exact absurd whole.symm filled
  | cons b rest =>
    rw [split] at whole each
    obtain ⟨nonempty, first⟩ := each b List.mem_cons_self
    obtain ⟨reply, ran⟩ := fills.run (envs i) db key b free nonempty first
    have after : ∀ other, (execute (envs i) db (name :: key :: b.flatten)).d.get other =
        if other = key then some ⟨kind.wrap (b.foldl add (kind.fresh (envs i).seed)), -1⟩
        else db.d.get other := fun other => by
      rw [ran]
      exact onKey_upsert_none absent _
    rw [List.map_cons, executeAll, fills.more free envs (i + 1)
      (fun b' member => each b' (List.mem_cons_of_mem _ member)) ((after key).trans (if_pos rfl)),
      ← List.foldl_append, ← List.flatten_cons, whole]
    split
    · rfl
    · rename_i ne
      rw [after, if_neg ne]

end Filling

/-! ### The commands of the rewrite -/

section Commands

variable {env : Env} {db : Db} {key : Bytes}

/-- A command of the table, called by its name in capitals. -/
theorem execute_named (name : String) (h : Handler) {args : List Bytes} (called : Bytes)
    (member : entry name true h ∈ commands) (same : strcaseEq (text name) called = true)
    (plain : (0 : UInt8) ∉ called) (free : ∀ a ∈ args, (0 : UInt8) ∉ a) :
    execute env db (called :: args) = (h env db (called :: args)).1 := by
  have words : (called :: args).map cstr = called :: args := map_cstr fun a member => by
    rcases List.mem_cons.mp member with rfl | later
    · exact plain
    · exact free a later
  unfold execute entryOf
  rw [words]
  simp only [lookupCommand_eq member same, entry]

theorem free_flatten {batch : List (List Bytes)} (free : (0 : UInt8) ∉ key)
    (items : ∀ item ∈ batch, ∀ a ∈ item, (0 : UInt8) ∉ a) :
    ∀ a ∈ key :: batch.flatten, (0 : UInt8) ∉ a := by
  intro a member
  rcases List.mem_cons.mp member with rfl | later
  · exact free
  · obtain ⟨item, inside, there⟩ := List.mem_flatten.mp later
    exact items item inside a there

theorem flatten_length {batch : List (List Bytes)} {n : Nat}
    (items : ∀ item ∈ batch, item.length = n) : batch.flatten.length = batch.length * n := by
  rw [List.length_flatten, List.map_congr_left items, List.map_const', List.sum_replicate,
    smul_eq_mul]

/-- The one or two words of an item, without NULs. -/
structure Words (n : Nat) (item : List Bytes) : Prop where
  length : item.length = n
  free : ∀ a ∈ item, (0 : UInt8) ∉ a

theorem Words.one {item : List Bytes} (words : Words 1 item) : ∃ a, item = [a] :=
  List.length_eq_one_iff.mp words.length

theorem Words.two {item : List Bytes} (words : Words 2 item) : ∃ a b, item = [a, b] :=
  List.length_eq_two.mp words.length

theorem listPushAll_tail (values l : List Bytes) : listPushAll false values l = l ++ values := by
  induction values generalizing l with
  | nil => rw [listPushAll, List.append_nil]
  | cons v rest ih => rw [listPushAll, ih]; simp

theorem foldl_append (batch : List (List Bytes)) (l : List Bytes) :
    batch.foldl (· ++ ·) l = l ++ batch.flatten := by
  induction batch generalizing l with
  | nil => simp
  | cons item rest ih => rw [List.foldl_cons, ih, List.flatten_cons, List.append_assoc]

theorem rpush_fills : Fills listKind (text "RPUSH") (· ++ ·) (Words 1) where
  unwrap _ := rfl
  run env db key batch free filled items := by
    have length := flatten_length fun item member => (items item member).length
    have positive := List.length_pos_iff.mpr filled
    refine ⟨fun l => replyInteger (listPushAll false batch.flatten l).length, ?_⟩
    rw [execute_named "rpush" cmdRpush (text "RPUSH") (by simp [commands]) (by decide) (by decide)
      (free_flatten free fun item member => (items item member).free)]
    have arity : ¬ (text "RPUSH" :: key :: batch.flatten).length < 3 := by
      simp only [List.length_cons]
      omega
    have pushed : ∀ l, batch.foldl (· ++ ·) l = listPushAll false batch.flatten l := fun l => by
      rw [foldl_append, listPushAll_tail]
    unfold cmdRpush listPush
    rw [if_neg arity]
    simp only [pushed]
    rfl

/-- One pair of `HSET`. -/
def hsetItem (h : Dict Bytes) : List Bytes → Dict Bytes
  | [field, v] => (h.set field v).2
  | _ => h

theorem hashSetLoop_items {batch : List (List Bytes)} (items : ∀ item ∈ batch, Words 2 item)
    (h : Dict Bytes) (n : Nat) : (hashSetLoop batch.flatten h n).1 = batch.foldl hsetItem h := by
  induction batch generalizing h n with
  | nil => rfl
  | cons item rest ih =>
    obtain ⟨field, v, rfl⟩ := (items item List.mem_cons_self).two
    exact ih (List.forall_mem_cons.mp items).2 _ _

theorem hset_fills : Fills hashKind (text "HSET") hsetItem (Words 2) where
  unwrap _ := rfl
  run env db key batch free filled items := by
    have length := flatten_length fun item member => (items item member).length
    have positive := List.length_pos_iff.mpr filled
    refine ⟨fun h => replyInteger (hashSetLoop batch.flatten h 0).2, ?_⟩
    rw [execute_named "hset" cmdHset (text "HSET") (by simp [commands]) (by decide) (by decide)
      (free_flatten free fun item member => (items item member).free)]
    have arity : ¬ ((text "HSET" :: key :: batch.flatten).length < 4 ∨
        ((text "HSET" :: key :: batch.flatten).length - 2) % 2 = 1) := by
      simp only [List.length_cons]
      omega
    unfold cmdHset hashSetMany
    rw [if_neg arity]
    simp only [← hashSetLoop_items items _ 0]
    rfl

/-- One member of `SADD`. -/
def saddItem (s : Dict Unit) : List Bytes → Dict Unit
  | [member] => if (s.get member).isNone then (s.set member ()).2 else s
  | _ => s

theorem saddLoop_items {batch : List (List Bytes)} (items : ∀ item ∈ batch, Words 1 item)
    (s : Dict Unit) (n : Nat) : (saddLoop batch.flatten s n).1 = batch.foldl saddItem s := by
  induction batch generalizing s n with
  | nil => rfl
  | cons item rest ih =>
    obtain ⟨member, rfl⟩ := (items item List.mem_cons_self).one
    have later := ih (List.forall_mem_cons.mp items).2
    rw [List.flatten_cons, List.singleton_append, saddLoop, List.foldl_cons, saddItem]
    split
    · exact later _ _
    · exact later _ _

theorem sadd_fills : Fills setKind (text "SADD") saddItem (Words 1) where
  unwrap _ := rfl
  run env db key batch free filled items := by
    have length := flatten_length fun item member => (items item member).length
    have positive := List.length_pos_iff.mpr filled
    refine ⟨fun s => replyInteger (saddLoop batch.flatten s 0).2, ?_⟩
    rw [execute_named "sadd" cmdSadd (text "SADD") (by simp [commands]) (by decide) (by decide)
      (free_flatten free fun item member => (items item member).free)]
    have arity : ¬ (text "SADD" :: key :: batch.flatten).length < 3 := by
      simp only [List.length_cons]
      omega
    unfold cmdSadd
    rw [if_neg arity]
    simp only [← saddLoop_items items _ 0]
    rfl

theorem toLower_inv (byte : UInt8) {lower : UInt8} (same : toLower byte = lower) :
    byte = lower ∨ byte = lower - 32 := by
  unfold toLower at same
  split at same
  · right
    rw [← same]
    simp
  · exact .inl same

/-- The texts that differ from a lower-case one in the case of letters. -/
def spellings : Bytes → List Bytes
  | [] => [[]]
  | lower :: rest => (spellings rest).flatMap fun word => [lower :: word, (lower - 32) :: word]

theorem mem_spellings {a lower : Bytes} (same : a.map toLower = lower) : a ∈ spellings lower := by
  induction a generalizing lower with
  | nil =>
    subst same
    exact List.mem_singleton.mpr rfl
  | cons byte rest ih =>
    subst same
    rw [List.map_cons, spellings]
    refine List.mem_flatMap.mpr ⟨rest, ih rfl, ?_⟩
    rcases toLower_inv byte rfl with lower | upper
    · exact List.mem_cons.mpr (.inl (congrArg (· :: rest) lower))
    · exact List.mem_cons_of_mem _ (List.mem_singleton.mpr (congrArg (· :: rest) upper))

/-- The text of a number is no flag of `ZADD`. -/
theorem parseDouble_no_flag {a : Bytes} (parsed : (parseDouble a).isSome) :
    ∀ flag ∈ [text "NX", text "XX", text "CH", text "INCR"], strcaseEq a flag = false := by
  have numberless : ∀ flag ∈ [text "NX", text "XX", text "CH", text "INCR"],
      ∀ word ∈ spellings (flag.map toLower), (parseDouble word).isSome = false := by
    decide
  intro flag member
  by_contra hit
  have same : a.map toLower = flag.map toLower := eq_of_beq (Bool.not_eq_false _ ▸ hit)
  rw [numberless flag member a (mem_spellings same)] at parsed
  cases parsed

/-- One pair of `ZADD`. -/
def zaddItem (z : Zset) : List Bytes → Zset
  | [score, member] => match parseDouble score with
    | some value => (zsetAdd z value member).2
    | none => z
  | _ => z

/-- A pair of `ZADD` whose score can be read. -/
structure Scored (item : List Bytes) : Prop extends Words 2 item where
  reads : ∀ score member, item = [score, member] → (parseDouble score).isSome

theorem zaddLoop_items {batch : List (List Bytes)} (items : ∀ item ∈ batch, Scored item)
    (z : Zset) (n m : Nat) :
    (zaddLoop ⟨false, false, false, false⟩ batch.flatten z n m).1 = batch.foldl zaddItem z := by
  induction batch generalizing z n m with
  | nil => rfl
  | cons item rest ih =>
    have scored := items item List.mem_cons_self
    obtain ⟨score, member, rfl⟩ := scored.two
    obtain ⟨value, read⟩ := Option.isSome_iff_exists.mp (scored.reads score member rfl)
    have later := ih (List.forall_mem_cons.mp items).2
    rw [List.flatten_cons, List.foldl_cons, zaddItem, read]
    show (zaddLoop _ (score :: member :: rest.flatten) z n m).1 = _
    rw [zaddLoop, read]
    exact later _ _ _

theorem zadd_fills : Fills zsetKind (text "ZADD") zaddItem Scored where
  unwrap _ := rfl
  run env db key batch free filled items := by
    have length := flatten_length fun item member => (items item member).length
    have positive := List.length_pos_iff.mpr filled
    refine ⟨fun z => (zaddLoop ⟨false, false, false, false⟩ batch.flatten z 0 0).2, ?_⟩
    rw [execute_named "zadd" cmdZadd (text "ZADD") (by simp [commands]) (by decide) (by decide)
      (free_flatten free fun item member => (items item member).free)]
    have arity : ¬ (text "ZADD" :: key :: batch.flatten).length < 4 := by
      simp only [List.length_cons]
      omega
    have flags : zaddFlags batch.flatten ⟨false, false, false, false⟩ =
        (⟨false, false, false, false⟩, batch.flatten) := by
      obtain ⟨item, rest, rfl⟩ := List.exists_cons_of_ne_nil filled
      have scored := items item List.mem_cons_self
      obtain ⟨score, member, rfl⟩ := scored.two
      have none := parseDouble_no_flag (scored.reads score member rfl)
      rw [List.flatten_cons, List.cons_append, zaddFlags]
      simp [none]
    unfold cmdZadd
    rw [if_neg arity]
    simp only [List.drop_succ_cons, List.drop_zero, flags, ← zaddLoop_items items _ 0 0]
    have even : ¬ (batch.flatten.length = 0 ∨ batch.flatten.length % 2 = 1) := by omega
    rw [if_neg even]
    rfl

/-- The commands that set a deadline. -/
def expireCommands (key : Bytes) (t : Int) : List Command :=
  if t ≥ 0 then [[text "PEXPIREAT", key, Decimal.renderInt t]] else []

/-- `PEXPIREAT` sets the deadline it is given, at any time, reached or not. -/
theorem expireCommands_get (free : (0 : UInt8) ∉ key) (envs : Nat → Env) (i : Nat) {t : Int}
    (low : -1 ≤ t) (high : t < 2 ^ 63) {v : Value} (found : db.d.get key = some ⟨v, -1⟩)
    (other : Bytes) :
    (executeAll envs i db (expireCommands key t)).d.get other =
      if other = key then some ⟨v, t⟩ else db.d.get other := by
  unfold expireCommands
  split
  · rename_i positive
    have plain : ∀ a ∈ [key, Decimal.renderInt t], (0 : UInt8) ∉ a := by
      intro a member
      rcases List.mem_pair.mp member with rfl | rfl
      · exact free
      · exact renderInt_free
    have there : lookupKey ((envs i).now 0) db key = (some ⟨v, -1⟩, db) := by
      unfold lookupKey
      rw [found]
      rfl
    have number : stringToLl (arg [text "PEXPIREAT", key, Decimal.renderInt t] 2) = some t :=
      stringToLl_renderInt positive high
    rw [executeAll, executeAll, execute_named "pexpireat" cmdPexpireat (text "PEXPIREAT")
      (by simp [commands]) (by decide) (by decide) plain]
    unfold cmdPexpireat cmdExpireatGeneric
    rw [if_neg (by simp), number]
    simp only [if_neg (not_lt.mpr positive)]
    show (onKey ((envs i).now 0) db key (expireatBody t)).1.d.get other = _
    unfold onKey
    rw [there]
    simp only [expireatBody, Update.apply]
    rw [db.d.get_write key other, found]
    rfl
  · obtain rfl : t = -1 := by omega
    show db.d.get other = _
    split
    · rename_i same
      rw [same, found]
    · rfl

end Commands

/-! ### One key -/

/-- The commands for a key build it in any store that does not have it, and touch no other key. -/
def Rebuilds (envs : Nat → Env) (key : Bytes) (o : Robj) : Prop :=
  ∀ i db, db.d.get key = none → ∃ o', o.Sim (· = ·) o' ∧ ∀ other,
    (executeAll envs i db (aofRewriteKey key o)).d.get other =
      if other = key then some o' else db.d.get other

theorem Fills.rebuilds {α : Type} {kind : Kind α} {name key : Bytes} {add : α → List Bytes → α}
    {Item : List Bytes → Prop} {o : Robj} (fills : Fills kind name add Item)
    (items : List (List Bytes)) (free : (0 : UInt8) ∉ key) (filled : items ≠ [])
    (good : ∀ item ∈ items, Item item) (low : -1 ≤ o.expireAt) (high : o.expireAt < 2 ^ 63)
    (same : ∀ seed, o.val.content = (kind.wrap (items.foldl add (kind.fresh seed))).content)
    (shape : aofRewriteKey key o = fillCommands name key items ++ expireCommands key o.expireAt)
    (envs : Nat → Env) : Rebuilds envs key o := by
  intro i db absent
  have built : ∀ other, (executeAll envs i db (fillCommands name key items)).d.get other =
      if other = key then some ⟨kind.wrap (items.foldl add (kind.fresh (envs i).seed)), -1⟩
      else db.d.get other := fun other => fills.all free envs i filled good absent
  refine ⟨⟨_, o.expireAt⟩, ⟨same (envs i).seed, rfl⟩, fun other => ?_⟩
  rw [shape, executeAll_append,
    expireCommands_get free envs _ low high ((built key).trans (if_pos rfl)) other]
  split
  · rfl
  · rename_i ne
    rw [built, if_neg ne]

/-- A container whose parts are words, as the commands can write it. -/
def Value.Plain : Value → Prop
  | .string _ => False
  | .list l => l ≠ [] ∧ ∀ v ∈ l, (0 : UInt8) ∉ v
  | .hash h => dictSize h ≠ 0 ∧ ∀ pair ∈ h.pairs, (0 : UInt8) ∉ pair.1 ∧ (0 : UInt8) ∉ pair.2
  | .set s => dictSize s ≠ 0 ∧ ∀ pair ∈ s.pairs, (0 : UInt8) ∉ pair.1
  | .zset z => zsetLen z ≠ 0 ∧ ∀ node ∈ z.nodes,
      (0 : UInt8) ∉ node.member ∧ parseDouble node.score.formatG17 = some node.score

section Containers

variable {key : Bytes} {expireAt : Int}

theorem list_rebuilds {l : List Bytes} (free : (0 : UInt8) ∉ key) (low : -1 ≤ expireAt)
    (high : expireAt < 2 ^ 63) (plain : (Value.list l).Plain) (envs : Nat → Env) :
    Rebuilds envs key ⟨.list l, expireAt⟩ := by
  refine rpush_fills.rebuilds (l.map fun v => [v]) free (by simpa using plain.1) ?_ low high
    (fun seed => ?_) rfl envs
  · intro item member
    obtain ⟨v, inside, rfl⟩ := List.mem_map.mp member
    exact ⟨rfl, fun a there => by rw [List.mem_singleton.mp there]; exact plain.2 v inside⟩
  · have whole : (l.map fun v => [v]).flatten = l := by
      rw [← List.flatMap_def]
      exact List.flatMap_singleton' l
    rw [foldl_append, whole]
    rfl

theorem hash_rebuilds {h : Dict Bytes} (free : (0 : UInt8) ∉ key) (low : -1 ≤ expireAt)
    (high : expireAt < 2 ^ 63) (plain : (Value.hash h).Plain) (envs : Nat → Env) :
    Rebuilds envs key ⟨.hash h, expireAt⟩ := by
  have filled : h.pairs ≠ [] := fun empty => plain.1 (by
    rw [dictSize, ← h.pairs_length, empty, List.length_nil])
  refine hset_fills.rebuilds (h.pairs.map fun pair => [pair.1, pair.2]) free
    (by simpa using filled) ?_ low high (fun seed => ?_) rfl envs
  · intro item member
    obtain ⟨pair, inside, rfl⟩ := List.mem_map.mp member
    refine ⟨rfl, fun a there => ?_⟩
    rcases List.mem_pair.mp there with rfl | rfl
    · exact (plain.2 pair inside).1
    · exact (plain.2 pair inside).2
  · rw [List.foldl_map]
    exact congrArg Content.hash (funext fun field => (h.get_rebuild field seed).symm)

theorem saddItem_get (s : Dict Unit) (member other : Bytes) :
    (saddItem s [member]).get other = if other = member then some () else s.get other := by
  rw [saddItem]
  cases found : s.get member with
  | none => exact s.get_set member other ()
  | some _ =>
    show s.get other = _
    split
    · rename_i same
      rw [same, found]
    · rfl

theorem foldl_saddItem (members : List Bytes) (s : Dict Unit) (other : Bytes) :
    ((members.map fun member => [member]).foldl saddItem s).get other =
      if other ∈ members then some () else s.get other := by
  induction members generalizing s with
  | nil => simp
  | cons member rest ih =>
    rw [List.map_cons, List.foldl_cons, ih, saddItem_get]
    by_cases later : other ∈ rest
    · simp [later]
    · by_cases here : other = member
      · simp [here]
      · simp [later, here]

theorem set_rebuilds {s : Dict Unit} (free : (0 : UInt8) ∉ key) (low : -1 ≤ expireAt)
    (high : expireAt < 2 ^ 63) (plain : (Value.set s).Plain) (envs : Nat → Env) :
    Rebuilds envs key ⟨.set s, expireAt⟩ := by
  have filled : s.pairs ≠ [] := fun empty => plain.1 (by
    rw [dictSize, ← s.pairs_length, empty, List.length_nil])
  refine sadd_fills.rebuilds (s.pairs.map fun pair => [pair.1]) free
    (by simpa using filled) ?_ low high (fun seed => ?_) rfl envs
  · intro item member
    obtain ⟨pair, inside, rfl⟩ := List.mem_map.mp member
    exact ⟨rfl, fun a there => by rw [List.mem_singleton.mp there]; exact plain.2 pair inside⟩
  · refine setKind_same.mpr fun member => ?_
    have split : (s.pairs.map fun pair => [pair.1]) =
        (s.pairs.map Prod.fst).map fun member => [member] := by
      rw [List.map_map]
      rfl
    rw [split, foldl_saddItem]
    cases found : s.get member with
    | none =>
      rw [if_neg (by simp [s.mem_keys, found])]
      exact (dictCreate_get seed member).symm
    | some _ => rw [if_pos (by simp [s.mem_keys, found])]

theorem foldl_zaddItem {nodes : List ZNode}
    (reads : ∀ node ∈ nodes, parseDouble node.score.formatG17 = some node.score) (z : Zset) :
    (nodes.map fun node => [node.score.formatG17, node.member]).foldl zaddItem z =
      zsetAddAll nodes z := by
  induction nodes generalizing z with
  | nil => rfl
  | cons node rest ih =>
    rw [List.map_cons, List.foldl_cons, zaddItem, reads node List.mem_cons_self]
    exact ih (List.forall_mem_cons.mp reads).2 _

theorem zset_rebuilds {z : Zset} (free : (0 : UInt8) ∉ key) (low : -1 ≤ expireAt)
    (high : expireAt < 2 ^ 63) (plain : (Value.zset z).Plain) (envs : Nat → Env) :
    Rebuilds envs key ⟨.zset z, expireAt⟩ := by
  have filled : z.nodes ≠ [] := fun empty => plain.1 (by rw [zsetLen, empty, List.length_nil])
  refine zadd_fills.rebuilds (z.nodes.map fun node => [node.score.formatG17, node.member]) free
    (by simpa using filled) ?_ low high (fun seed => ?_) rfl envs
  · intro item member
    obtain ⟨node, inside, rfl⟩ := List.mem_map.mp member
    refine ⟨⟨rfl, fun a there => ?_⟩, ?_⟩
    · rcases List.mem_pair.mp there with rfl | rfl
      · exact Double.zero_notMem_formatG17 node.score
      · exact (plain.2 node inside).1
    · rintro score member ⟨rfl, rfl⟩
      rw [(plain.2 node inside).2]
      rfl
  · rw [foldl_zaddItem fun node inside => (plain.2 node inside).2]
    exact congrArg Content.zset (funext fun member => (score_rebuild z member).symm)

/-- **A container comes back at any time.** -/
theorem container_rebuilds {o : Robj} (free : (0 : UInt8) ∉ key) (low : -1 ≤ o.expireAt)
    (high : o.expireAt < 2 ^ 63) (plain : o.val.Plain) (envs : Nat → Env) :
    Rebuilds envs key o := by
  obtain ⟨val, expireAt⟩ := o
  cases val with
  | string s => exact plain.elim
  | list l => exact list_rebuilds free low high plain envs
  | hash h => exact hash_rebuilds free low high plain envs
  | set s => exact set_rebuilds free low high plain envs
  | zset z => exact zset_rebuilds free low high plain envs

end Containers

/-! ### Strings -/

section Strings

variable {envs : Nat → Env} {db : Db} {key value : Bytes} {now t : Int}

/-- A deadline that the rewrite of a string can carry: none, or one in the future. -/
def Future (now t : Int) : Prop := t = -1 ∨ (0 ≤ now ∧ now < t ∧ t < 2 ^ 63)

theorem Future.high {now t : Int} (future : Future now t) : t < 2 ^ 63 := by
  rcases future with rfl | ⟨_, _, high⟩
  · decide
  · exact high

/-- The words of the command for a string. -/
def setCommand (key value : Bytes) (t : Int) : Command :=
  if t ≥ 0 then [text "SET", key, value, text "PXAT", Decimal.renderInt t]
  else [text "SET", key, value]

theorem aofRewriteKey_string : aofRewriteKey key ⟨.string value, t⟩ = [setCommand key value t] := by
  unfold aofRewriteKey setCommand
  dsimp only
  split <;> rfl

theorem setCommand_words (free : (0 : UInt8) ∉ key) :
    (setCommand key value t).map cstr = setCommand key (cstr value) t := by
  have same : cstr key = key := cstr_of_zero_notMem free
  have number : cstr (Decimal.renderInt t) = Decimal.renderInt t :=
    cstr_of_zero_notMem renderInt_free
  have set : cstr (text "SET") = text "SET" := by decide
  have pxat : cstr (text "PXAT") = text "PXAT" := by decide
  unfold setCommand
  split
  · simp only [List.map_cons, List.map_nil, same, number, set, pxat]
  · simp only [List.map_cons, List.map_nil, same, set]

/-- At a fixed time the options give the deadline back. -/
theorem setCommand_options (key value : Bytes) {clock : Nat → Int} (still : ∀ i, clock i = now)
    (future : Future now t) :
    ∃ ms, readSetOptions clock (setCommand key value t) = .ok ⟨false, false, ms⟩ ∧
      setDeadline now ms = t := by
  rcases future with rfl | ⟨low, later, high⟩
  · exact ⟨-1, rfl, rfl⟩
  · have positive : t ≥ 0 := by omega
    have range : wrap64 (t - now) = t - now := wrap64_of_range (by omega) (by omega)
    have total : wrap64 (now + (t - now)) = t := by
      rw [wrap64_of_range (by omega) (by omega)]
      omega
    have option : isSetExpireOption (text "PXAT") = true := by decide
    have time : setExpireMs now (text "PXAT") t = .ok (t - now) := by
      rw [← range]
      rfl
    refine ⟨t - now, ?_, ?_⟩
    · rw [setCommand, if_pos positive]
      show setOptions clock 3 [text "PXAT", Decimal.renderInt t] _ = _
      rw [setOptions, if_pos option, stringToLl_renderInt positive high]
      simp only [still, time]
      rw [if_neg (by omega), setOptions]
    · rw [setDeadline, if_neg (by omega), total]

/-- The command for a string stores what `strlen` sees of it. -/
theorem setCommand_get (free : (0 : UInt8) ∉ key) {env : Env} (still : ∀ i, env.now i = now)
    (future : Future now t) (other : Bytes) :
    (execute env db (setCommand key value t)).d.get other =
      if other = key then some ⟨.string (cstr value), t⟩ else db.d.get other := by
  have found : entryOf (setCommand key value t) = some (entry "set" true cmdSet) := by
    unfold setCommand
    split <;> rfl
  obtain ⟨ms, options, deadline⟩ := setCommand_options key (cstr value) still future
  have arity : ¬ (setCommand key (cstr value) t).length < 3 := by
    unfold setCommand
    split <;> simp
  have words : arg (setCommand key (cstr value) t) 1 = key ∧
      arg (setCommand key (cstr value) t) 2 = cstr value := by
    unfold setCommand
    split <;> exact ⟨rfl, rfl⟩
  unfold execute
  rw [found]
  simp only [entry]
  rw [setCommand_words free, cmdSet, if_neg arity, ← readSetOptions, options, words.1, words.2]
  simp only [Bool.and_false, Bool.false_eq_true, if_false, still]
  by_cases same : other = key
  · subst same
    simp [onKey, setBody, Update.apply, HashTable.Table.get_set, deadline]
  · rw [if_neg same, onKey_get_other same]

theorem string_rebuilds (free : (0 : UInt8) ∉ key) (plain : (0 : UInt8) ∉ value)
    (still : ∀ i j, (envs i).now j = now) (future : Future now t) :
    Rebuilds envs key ⟨.string value, t⟩ := by
  intro i db _
  refine ⟨⟨.string value, t⟩, ⟨rfl, rfl⟩, fun other => ?_⟩
  rw [aofRewriteKey_string, executeAll, executeAll, setCommand_get free (still i) future,
    cstr_of_zero_notMem plain]

theorem renderInt_length (high : t < 2 ^ 63) (low : 0 ≤ t) : (Decimal.renderInt t).length ≤ 20 := by
  have digits := Decimal.render_length_le (n := t.natAbs) (k := 19) (by decide) (by omega)
  rw [Decimal.renderInt, if_neg (by omega)]
  omega

/-- The frame of a string within the limits is within the limits. -/
theorem setCommand_fits (shortKey : key.length ≤ maxBulkLen)
    (shortValue : value.length ≤ maxBulkLen) (high : t < 2 ^ 63) :
    Fits (setCommand key value t) := by
  have limit : maxBulkLen = 536870912 := rfl
  unfold setCommand
  split
  · rename_i low
    have number := renderInt_length high low
    refine fits_of_total (by simp) (fun a member => ?_) ?_
    · simp only [List.mem_cons, List.not_mem_nil, or_false] at member
      rcases member with rfl | rfl | rfl | rfl | rfl
      · decide
      · exact shortKey
      · exact shortValue
      · decide
      · omega
    · have set : (text "SET").length = 3 := by decide
      have pxat : (text "PXAT").length = 4 := by decide
      simp only [List.map_cons, List.map_nil, List.sum_cons, List.sum_nil, set, pxat]
      omega
  · refine fits_of_total (by simp) (fun a member => ?_) ?_
    · simp only [List.mem_cons, List.not_mem_nil, or_false] at member
      rcases member with rfl | rfl | rfl
      · decide
      · exact shortKey
      · exact shortValue
    · have set : (text "SET").length = 3 := by decide
      simp only [List.map_cons, List.map_nil, List.sum_cons, List.sum_nil, set]
      omega

/-- **The rewrite of a string.** Replayed at the same time into an empty store, its frame gives the
key, the deadline and the bytes back exactly if no byte is NUL. -/
theorem aofRewrite_string {s : Server} (still : ∀ i j, (envs i).now j = now)
    (future : Future now t) (free : (0 : UInt8) ∉ key) (shortKey : key.length ≤ maxBulkLen)
    (shortValue : value.length ≤ maxBulkLen)
    (file : s.disk.aof.contents .file =
      some ((aofRewriteKey key ⟨.string value, t⟩).flatMap awWriteCommand))
    (empty : ∀ key, s.db.d.get key = none) :
    (aofReplay envs s).1 = 0 ∧
      ((stored (aofReplay envs s).2.db = fun other =>
          if other = key then some (.string value, t) else none) ↔ (0 : UInt8) ∉ value) := by
  have fits : ∀ cmd ∈ aofRewriteKey key ⟨.string value, t⟩, Fits cmd := by
    rw [aofRewriteKey_string]
    intro cmd member
    rw [List.mem_singleton.mp member]
    exact setCommand_fits shortKey shortValue future.high
  obtain ⟨code, db⟩ := aofReplay_frames envs fits file
  have after : ∀ other, stored (aofReplay envs s).2.db other =
      if other = key then some (.string (cstr value), t) else none := fun other => by
    unfold stored
    rw [db, aofRewriteKey_string, executeAll, executeAll, setCommand_get free (still 0) future,
      empty]
    split <;> rfl
  refine ⟨code, fun same => ?_, fun plain => funext fun other => ?_⟩
  · have here := congrFun same key
    rw [after, if_pos rfl, if_pos rfl] at here
    have kept : cstr value = value := Content.string.inj (Prod.mk.inj (Option.some.inj here)).1
    rw [← kept]
    exact zero_notMem_cstr value
  · rw [after, cstr_of_zero_notMem plain]

end Strings

/-- A started server whose log holds the given bytes. -/
def reopened (log : Bytes) : Server := serverOpened sampleBoot false (diskWith log)

theorem reopened_contents (log : Bytes) : (reopened log).disk.aof.contents .file = some log :=
  serverOpened_contents (diskWith_contents log)

theorem reopened_empty (log key : Bytes) : (reopened log).db.d.get key = none := rfl

/-- `SETRANGE` pads with zeros: the string is rewritten as an empty one. -/
theorem aofRewrite_string_differs :
    valueAt stringKind (run (sampleStart false) [request ["SETRANGE", "k", "1", "x"]]).db
        (text "k") = some [0, 120] ∧
      valueAt stringKind (aofReplay (fun _ => sampleEnv) (reopened (aofRewriteBytes
        (run (sampleStart false) [request ["SETRANGE", "k", "1", "x"]]).db))).2.db (text "k") =
          some [] := by
  exact ⟨by decide, by decide⟩

/-- A string that expires at time five, rewritten and replayed at time zero. -/
theorem aofRewrite_string_sample :
    stored (aofReplay (fun _ => sampleEnv)
        (reopened
          ((aofRewriteKey (text "k") ⟨.string (text "v"), 5⟩).flatMap awWriteCommand))).2.db =
      fun other => if other = text "k" then some (.string (text "v"), 5) else none :=
  (aofRewrite_string (fun _ _ => rfl) (.inr ⟨le_refl 0, by decide, by decide⟩) (by decide)
    (by decide) (by decide) (reopened_contents _) (reopened_empty _)).2.mpr (by decide)

/-! ### The store -/

section Store

variable {envs : Nat → Env}

theorem rebuild_pairs {pairs : List (Bytes × Robj)} (distinct : (pairs.map Prod.fst).Nodup)
    (each : ∀ pair ∈ pairs, Rebuilds envs pair.1 pair.2) (i : Nat) {db : Db}
    (absent : ∀ pair ∈ pairs, db.d.get pair.1 = none) (key : Bytes) :
    (∀ o, (key, o) ∈ pairs → ∃ o', o.Sim (· = ·) o' ∧
      (executeAll envs i db (pairs.flatMap fun (key, o) => aofRewriteKey key o)).d.get key =
        some o') ∧
    (key ∉ pairs.map Prod.fst →
      (executeAll envs i db (pairs.flatMap fun (key, o) => aofRewriteKey key o)).d.get key =
        db.d.get key) := by
  induction pairs generalizing i db with
  | nil => exact ⟨fun o member => absurd member List.not_mem_nil, fun _ => rfl⟩
  | cons pair rest ih =>
    rw [List.map_cons, List.nodup_cons] at distinct
    obtain ⟨o', sim, after⟩ := each pair List.mem_cons_self i db (absent pair List.mem_cons_self)
    have ne : ∀ other ∈ rest, other.1 ≠ pair.1 := fun other member same =>
      distinct.1 (same ▸ List.mem_map_of_mem member)
    obtain ⟨present, missing⟩ := ih distinct.2
      (List.forall_mem_cons.mp each).2
      (i + (aofRewriteKey pair.1 pair.2).length)
      (fun other member => by
        rw [after, if_neg (ne other member)]
        exact absent other (List.mem_cons_of_mem _ member))
    rw [List.flatMap_cons, executeAll_append]
    refine ⟨fun o member => ?_, fun fresh => ?_⟩
    · rcases List.mem_cons.mp member with rfl | later
      · exact ⟨o', sim, (missing distinct.1).trans ((after _).trans (if_pos rfl))⟩
      · exact present o later
    · rw [List.map_cons, List.mem_cons, not_or] at fresh
      rw [missing fresh.2, after, if_neg fresh.1]

/-- **A store whose keys are all rebuilt is restored.** -/
theorem aofRewrite_restores {db blank : Db}
    (each : ∀ pair ∈ db.d.pairs, Rebuilds envs pair.1 pair.2)
    (empty : ∀ key, blank.d.get key = none) :
    SimOn (· = ·) Set.univ db (executeAll envs 0 blank (aofRewriteCommands db)) := by
  intro key _
  obtain ⟨present, missing⟩ := rebuild_pairs db.d.pairs_nodup each 0
    (fun pair _ => empty pair.1) key
  unfold aofRewriteCommands
  cases found : db.d.get key with
  | none =>
    have fresh : key ∉ db.d.pairs.map Prod.fst := by
      rw [db.d.mem_keys, found]
      exact Bool.false_ne_true
    rw [missing fresh, empty]
    exact .none
  | some o =>
    obtain ⟨o', sim, there⟩ := present o ((db.d.mem_pairs key o).mpr found)
    rw [there]
    exact .some sim

/-- **The rewrite of containers.** At any time, the rewritten log of a store of containers replays
into the store itself: every key with its content and its deadline, and no other key. -/
theorem aofRewrite_containers {s : Server} {db : Db} (envs : Nat → Env)
    (containers : ∀ pair ∈ db.d.pairs, (0 : UInt8) ∉ pair.1 ∧ pair.2.val.Plain ∧
      -1 ≤ pair.2.expireAt ∧ pair.2.expireAt < 2 ^ 63)
    (fits : ∀ cmd ∈ aofRewriteCommands db, Fits cmd)
    (file : s.disk.aof.contents .file = some (aofRewriteBytes db))
    (empty : ∀ key, s.db.d.get key = none) :
    (aofReplay envs s).1 = 0 ∧ stored (aofReplay envs s).2.db = stored db := by
  obtain ⟨code, rebuilt⟩ := aofReplay_frames envs fits file
  refine ⟨code, ?_⟩
  rw [rebuilt]
  refine (aofRewrite_restores (fun pair member => ?_) empty).stored
  obtain ⟨free, plain, low, high⟩ := containers pair member
  exact container_rebuilds free low high plain envs

/-- A list of two batches that expires. -/
def sampleList : Db :=
  ⟨((dictCreate sampleSeed).set (text "l") ⟨.list (List.replicate 65 (text "a")), 5⟩).2, 0⟩

theorem sampleList_get (key : Bytes) : sampleList.d.get key =
    if key = text "l" then some ⟨.list (List.replicate 65 (text "a")), 5⟩ else none :=
  (dictCreate sampleSeed).get_set (text "l") key _

/-- The deadline is long reached when the log is replayed. -/
theorem aofRewrite_containers_sample :
    stored (aofReplay (fun _ => { sampleEnv with now := fun _ => 9 })
        (reopened (aofRewriteBytes sampleList))).2.db (text "l") =
      some (.list (List.replicate 65 (text "a")), 5) := by
  have one : ∀ pair ∈ sampleList.d.pairs,
      pair = (text "l", ⟨.list (List.replicate 65 (text "a")), 5⟩) := by
    rintro ⟨key, o⟩ member
    have found := (sampleList.d.mem_pairs key o).mp member
    rw [sampleList_get] at found
    split at found
    · rename_i same
      rw [same, Option.some.inj found]
    · cases found
  have short : ∀ cmd ∈ aofRewriteCommands sampleList,
      cmd.length ≤ 1000 ∧ ∀ a ∈ cmd, a.length ≤ 1000 := by decide
  have restored := (aofRewrite_containers (fun _ => { sampleEnv with now := fun _ => 9 })
    (fun pair member => ?_)
    (fun cmd member => fits_of_short (short cmd member).1 (short cmd member).2)
    (reopened_contents (aofRewriteBytes sampleList)) (reopened_empty _)).2
  · rw [restored, stored, sampleList_get, if_pos rfl]
    rfl
  · rw [one pair member]
    refine ⟨by decide, ⟨by decide, fun v inside => ?_⟩, by decide, by decide⟩
    rw [List.eq_of_mem_replicate inside]
    decide

end Store

end Miniredis
