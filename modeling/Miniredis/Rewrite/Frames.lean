/-
**The frames of the rewrite and the limits of the parser.**

The limits of `resp_parse_command` hold for requests. The rewrite writes what is stored, which may
have grown past them, and packs up to 64 elements into one frame.

* `respParseCommand_accepts` — a frame is accepted exactly if no argument is longer than
  `MAX_BULK_LEN` and the frame's length is an `int`;
* `aofRewriteKey_fits` — the lengths of a key and of its parts for which that is so of its frames;
* `aofRewrite_accepted` — the parser accepts a whole rewrite exactly if all keys have such lengths.
-/

import Miniredis.Rewrite.Content

namespace Miniredis

/-! ### Arguments that are too long -/

section Accepts

variable {args : Command}

/-- An argument that is too long is an error, whatever is written for its length. -/
theorem parseArgs_overlongBulk {a : Bytes} (long : maxBulkLen < a.length) (n : Nat) (rest : Bytes) :
    parseArgs (n + 1) (encodeBulk a ++ rest) = .error := by
  have shape : encodeBulk a ++ rest =
      36 :: (Decimal.render a.length ++ 13 :: 10 :: (a ++ [13, 10] ++ rest)) := by simp [encodeBulk]
  rw [shape, parseArgs, getLine_header 36 (by decide)]
  simp only [List.drop_succ_cons, List.drop_zero]
  cases read : stringToLlN (Decimal.render a.length) with
  | none => rfl
  | some v =>
    obtain rfl := stringToLlN_render_value read
    have signed : ¬ (a.length : Int) < 0 := by omega
    have limit : (a.length : Int) > maxBulkLen := by omega
    simp only [if_neg signed, if_pos limit]
    rfl

theorem parseArgs_overlong (long : ∃ a ∈ args, maxBulkLen < a.length) (rest : Bytes) :
    parseArgs args.length (args.flatMap encodeBulk ++ rest) = .error := by
  induction args with
  | nil =>
    obtain ⟨a, member, _⟩ := long
    cases member
  | cons a args ih =>
    rw [List.length_cons, List.flatMap_cons, List.append_assoc]
    by_cases here : maxBulkLen < a.length
    · exact parseArgs_overlongBulk here _ _
    · have later : ∃ other ∈ args, maxBulkLen < other.length := by
        obtain ⟨other, member, excess⟩ := long
        rcases List.mem_cons.mp member with rfl | inside
        · exact absurd excess here
        · exact ⟨other, inside, excess⟩
      rw [parseArgs_encodeBulk (not_lt.mp here), ih later]
      rfl

theorem respParseCommand_overlong (argc : args.length ≤ maxArgc)
    (long : ∃ a ∈ args, maxBulkLen < a.length) :
    respParseCommand (awWriteCommand args) = (-1, []) := by
  have body := parseArgs_overlong long []
  rw [List.append_nil] at body
  rw [awWriteCommand, respParseCommand_header argc, body]

/-- **The parser accepts a frame exactly if its arguments and its length are within the limits.** -/
theorem respParseCommand_accepts (argc : args.length ≤ maxArgc) :
    respParseCommand (awWriteCommand args) = (((awWriteCommand args).length : Int), args) ↔
      Fits args := by
  by_cases short : ∀ a ∈ args, a.length ≤ maxBulkLen
  · have body := parseArgs_encode short []
    rw [List.append_nil] at body
    have parsed : respParseCommand (awWriteCommand args) =
        (((awWriteCommand args).length : Int).bmod (2 ^ 32), args) := by
      rw [awWriteCommand, respParseCommand_header argc, body]
      rfl
    rw [parsed, Prod.mk.injEq]
    refine ⟨fun same => ⟨argc, short, ?_⟩, fun fits => ⟨?_, rfl⟩⟩
    · have below := Int.bmod_lt (x := ((awWriteCommand args).length : Int)) (m := 2 ^ 32)
        (by decide)
      rw [same.1] at below
      norm_num at below
      omega
    · have frame := fits.frame
      rw [Int.bmod_eq_of_le_mul_two (by omega) (by omega)]
  · have long : ∃ a ∈ args, maxBulkLen < a.length := by simpa using short
    rw [respParseCommand_overlong argc long]
    refine ⟨fun same => ?_, fun fits => absurd fits.bulk short⟩
    have length : (-1 : Int) = (awWriteCommand args).length := (Prod.mk.inj same).1
    omega

end Accepts

/-! ### The frames of the rewrite -/

section Frames

variable {key : Bytes}

theorem fillCommands_argc {name : Bytes} {items : List (List Bytes)} {n : Nat}
    (words : ∀ item ∈ items, item.length = n) (small : n ≤ 2) :
    ∀ cmd ∈ fillCommands name key items, cmd.length ≤ 130 := by
  intro cmd member
  obtain ⟨b, inside, rfl⟩ := List.mem_map.mp member
  have whole := batches_flatten items
  have total : b.flatten.length = b.length * n := flatten_length fun item there =>
    words item (whole ▸ List.mem_flatten.mpr ⟨b, inside, there⟩)
  have count := (batches_mem b inside).2
  have product : b.length * n ≤ 64 * 2 := Nat.mul_le_mul count small
  rw [List.length_cons, List.length_cons, total]
  omega

/-- A frame of the rewrite has at most 130 arguments. -/
theorem aofRewriteKey_argc (o : Robj) : ∀ cmd ∈ aofRewriteKey key o, cmd.length ≤ 130 := by
  obtain ⟨val, t⟩ := o
  have expire : ∀ cmd ∈ expireCommands key t, cmd.length ≤ 130 := by
    unfold expireCommands
    split <;> simp
  have both : ∀ {front : List Command}, (∀ cmd ∈ front, cmd.length ≤ 130) →
      ∀ cmd ∈ front ++ expireCommands key t, cmd.length ≤ 130 := fun short cmd member => by
    rcases List.mem_append.mp member with early | late
    · exact short cmd early
    · exact expire cmd late
  have items : ∀ {β : Type} {l : List β} {f : β → List Bytes} {n : Nat}, (∀ x, (f x).length = n) →
      ∀ item ∈ l.map f, item.length = n := fun each item member => by
    obtain ⟨x, _, rfl⟩ := List.mem_map.mp member
    exact each x
  cases val with
  | string s =>
    rw [aofRewriteKey_string]
    intro cmd member
    rw [List.mem_singleton.mp member, setCommand]
    split <;> simp
  | list l => exact both (fillCommands_argc (items fun _ => rfl) (by decide))
  | hash h => exact both (fillCommands_argc (items fun _ => rfl) le_rfl)
  | set s => exact both (fillCommands_argc (items fun _ => rfl) (by decide))
  | zset z => exact both (fillCommands_argc (items fun _ => rfl) le_rfl)

/-- The length of a frame, from the lengths of its arguments. -/
def frameSize (lengths : List Nat) : Nat :=
  (Decimal.render lengths.length).length + 3 +
    (lengths.map fun n => (Decimal.render n).length + n + 5).sum

theorem awWriteCommand_length (args : Command) :
    (awWriteCommand args).length = frameSize (args.map List.length) := by
  have body : (args.flatMap encodeBulk).length =
      ((args.map List.length).map fun n => (Decimal.render n).length + n + 5).sum := by
    rw [List.length_flatMap, List.map_map]
    refine congrArg List.sum (List.map_congr_left fun a _ => ?_)
    simp only [encodeBulk, List.length_cons, List.length_append, List.length_nil,
      Function.comp_apply]
    omega
  simp only [awWriteCommand, List.length_cons, List.length_append, body, frameSize,
    List.length_map]
  omega

/-- The lengths of a container's key and of the parts of its elements are within the limits, and so
are, over each 64 elements in a row, the frames of a command whose name has `word` bytes. -/
structure Fillable (word klen : Nat) (expireAt : Int) (elements : List (List Nat)) : Prop where
  key : elements ≠ [] ∨ 0 ≤ expireAt → klen ≤ maxBulkLen
  parts : ∀ element ∈ elements, ∀ n ∈ element, n ≤ maxBulkLen
  batch : ∀ i, 64 * i < elements.length →
    frameSize (word :: klen :: ((elements.drop (64 * i)).take 64).flatten) < 2 ^ 31

/-- The lengths of what is stored at a key are within the limits. -/
def Robj.Rewritable (key : Bytes) (o : Robj) : Prop :=
  match o.val with
  | .string s => key.length ≤ maxBulkLen ∧ s.length ≤ maxBulkLen
  | .list l => Fillable 5 key.length o.expireAt (l.map fun v => [v.length])
  | .hash h => Fillable 4 key.length o.expireAt (h.pairs.map fun (f, v) => [f.length, v.length])
  | .set s => Fillable 4 key.length o.expireAt (s.pairs.map fun (member, _) => [member.length])
  | .zset z => Fillable 4 key.length o.expireAt
      (z.nodes.map fun node => [node.score.formatG17.length, node.member.length])

/-- The frame of some elements of a container. -/
theorem fillFrame_fits {name : Bytes} {items : List (List Bytes)} (short : name.length ≤ 5)
    (argc : (name :: key :: items.flatten).length ≤ maxArgc) :
    Fits (name :: key :: items.flatten) ↔ key.length ≤ maxBulkLen ∧
      (∀ item ∈ items, ∀ part ∈ item, part.length ≤ maxBulkLen) ∧
      frameSize (name.length :: key.length :: (items.map (List.map List.length)).flatten) <
        2 ^ 31 := by
  have limit : maxBulkLen = 536870912 := rfl
  have size : (awWriteCommand (name :: key :: items.flatten)).length =
      frameSize (name.length :: key.length :: (items.map (List.map List.length)).flatten) := by
    rw [awWriteCommand_length, List.map_cons, List.map_cons, List.map_flatten]
  constructor
  · intro fits
    refine ⟨fits.bulk key (by simp), fun item member part within => ?_, size ▸ fits.frame⟩
    exact fits.bulk part (List.mem_cons_of_mem _ (List.mem_cons_of_mem _
      (List.mem_flatten.mpr ⟨item, member, within⟩)))
  · rintro ⟨shortKey, parts, frame⟩
    refine ⟨argc, fun a there => ?_, size.trans_lt frame⟩
    rcases List.mem_cons.mp there with rfl | there
    · omega
    rcases List.mem_cons.mp there with rfl | there
    · exact shortKey
    · obtain ⟨item, member, within⟩ := List.mem_flatten.mp there
      exact parts item member a within

/-- The frame of a deadline. -/
theorem expireCommands_fits {t : Int} (high : t < 2 ^ 63) :
    (∀ cmd ∈ expireCommands key t, Fits cmd) ↔ (0 ≤ t → key.length ≤ maxBulkLen) := by
  have limit : maxBulkLen = 536870912 := rfl
  unfold expireCommands
  split
  · rename_i dated
    have number := renderInt_length high dated
    have word : (text "PEXPIREAT").length = 9 := by decide
    rw [List.forall_mem_singleton]
    refine ⟨fun fits _ => fits.bulk key (by simp), fun bound => ?_⟩
    have bound := bound dated
    refine fits_of_total (by simp) (fun a there => ?_) ?_
    · simp only [List.mem_cons, List.not_mem_nil, or_false] at there
      rcases there with rfl | rfl | rfl <;> omega
    · simp only [List.map_cons, List.map_nil, List.sum_cons, List.sum_nil, word]
      omega
  · rename_i undated
    exact iff_of_true (by simp) fun dated => absurd dated undated

/-- The frames of a container. -/
theorem fillCommands_fits {α : Type} {f : α → List Bytes} {n : Nat} {t : Int} (name : Bytes)
    (l : List α) (words : ∀ x, (f x).length = n) (small : n ≤ 2) (short : name.length ≤ 5)
    (high : t < 2 ^ 63) :
    (∀ cmd ∈ fillCommands name key (l.map f) ++ expireCommands key t, Fits cmd) ↔
      Fillable name.length key.length t (l.map fun x => (f x).map List.length) := by
  have words : ∀ item ∈ l.map f, item.length = n := List.forall_mem_map.mpr fun x _ => words x
  have elements : (l.map fun x => (f x).map List.length) =
      (l.map f).map (List.map List.length) := by rw [List.map_map]; rfl
  rw [elements, List.forall_mem_append, expireCommands_fits high]
  generalize l.map f = items at words
  -- the frame of each batch, and the batches by their place
  have frame (b : List (List Bytes)) (chosen : b ∈ batches items) :=
    @fillFrame_fits key name b short ((fillCommands_argc words small _
      (List.mem_map.mpr ⟨b, chosen, rfl⟩)).trans (by decide))
  have place {i : Nat} (inside : 64 * i < items.length) :=
    mem_batches.mpr ⟨i, inside, rfl⟩
  rw [fillCommands, List.forall_mem_map]
  constructor
  · rintro ⟨filled, expires⟩
    have fits (b : List (List Bytes)) (chosen : b ∈ batches items) :=
      (frame b chosen).mp (filled b chosen)
    refine ⟨?_, List.forall_mem_map.mpr fun item source => ?_, fun i inside => ?_⟩
    · rintro (some | dated)
      · have first : 64 * 0 < items.length := by simpa [List.length_pos_iff] using some
        exact (fits _ (place first)).1
      · exact expires dated
    · rw [← batches_flatten items] at source
      obtain ⟨b, chosen, held⟩ := List.mem_flatten.mp source
      exact List.forall_mem_map.mpr ((fits b chosen).2.1 item held)
    · rw [List.length_map] at inside
      rw [← List.map_drop, ← List.map_take]
      exact (fits _ (place inside)).2.2
  · rintro ⟨shortKey, parts, batch⟩
    refine ⟨fun b chosen => (frame b chosen).mpr ?_, fun dated => shortKey (.inr dated)⟩
    obtain ⟨i, inside, rfl⟩ := mem_batches.mp chosen
    refine ⟨shortKey (.inl ?_), fun item taken => ?_, ?_⟩
    · simpa using List.length_pos_iff.mp (Nat.zero_lt_of_lt inside)
    · have source := List.mem_of_mem_drop (List.mem_of_mem_take taken)
      exact List.forall_mem_map.mp (List.forall_mem_map.mp parts item source)
    · rw [List.map_take, List.map_drop]
      exact batch i (by rwa [List.length_map])

/-- **The frames of a key fit exactly if the lengths of what is stored are within the limits.** -/
theorem aofRewriteKey_fits {o : Robj} (high : o.expireAt < 2 ^ 63) :
    (∀ cmd ∈ aofRewriteKey key o, Fits cmd) ↔ o.Rewritable key := by
  obtain ⟨val, t⟩ := o
  cases val with
  | string s =>
    rw [aofRewriteKey_string, List.forall_mem_singleton]
    refine ⟨fun fits => ⟨fits.bulk key ?_, fits.bulk s ?_⟩,
      fun within => setCommand_fits within.1 within.2 high⟩
    all_goals
      unfold setCommand
      split <;> simp
  | list l =>
    exact fillCommands_fits (text "RPUSH") (f := fun v => [v]) l (fun _ => rfl)
      (by decide) (by decide) high
  | hash h =>
    exact fillCommands_fits (text "HSET") (f := fun (field, v) => [field, v]) h.pairs
      (fun _ => rfl) le_rfl (by decide) high
  | set s =>
    exact fillCommands_fits (text "SADD") (f := fun (member, _) => [member]) s.pairs
      (fun _ => rfl) (by decide) (by decide) high
  | zset z =>
    exact fillCommands_fits (text "ZADD")
      (f := fun node => [node.score.formatG17, node.member]) z.nodes (fun _ => rfl) le_rfl
      (by decide) high

/-- **The parser accepts the frames of a rewrite exactly if the lengths of all keys and of what they
hold are within the limits.** -/
theorem aofRewrite_accepted (db : Db) (deadlines : ∀ pair ∈ db.d.pairs, pair.2.expireAt < 2 ^ 63) :
    (∀ cmd ∈ aofRewriteCommands db,
        respParseCommand (awWriteCommand cmd) = (((awWriteCommand cmd).length : Int), cmd)) ↔
      ∀ pair ∈ db.d.pairs, pair.2.Rewritable pair.1 := by
  rw [aofRewriteCommands, List.forall_mem_flatMap]
  refine forall₂_congr fun pair member => ?_
  rw [← aofRewriteKey_fits (deadlines pair member)]
  refine forall₂_congr fun cmd there => respParseCommand_accepts ?_
  exact (aofRewriteKey_argc pair.2 cmd there).trans (by decide)

/-- The frame of a store with one string. -/
theorem aofRewrite_accepted_sample :
    aofRewriteCommands (run (sampleStart false) [request ["SET", "k", "v"]]).db =
        [["SET", "k", "v"].map text] ∧
      respParseCommand (awWriteCommand (["SET", "k", "v"].map text)) =
        (27, ["SET", "k", "v"].map text) := by
  have only : (run (sampleStart false) [request ["SET", "k", "v"]]).db.d.pairs =
      [(text "k", ⟨.string (text "v"), -1⟩)] := by rfl
  have emitted : aofRewriteCommands (run (sampleStart false) [request ["SET", "k", "v"]]).db =
      [["SET", "k", "v"].map text] := by
    rw [aofRewriteCommands, only]
    rfl
  have accepted := (aofRewrite_accepted (run (sampleStart false) [request ["SET", "k", "v"]]).db
    (by rw [only, List.forall_mem_singleton]; decide)).mpr (by
      rw [only, List.forall_mem_singleton]
      exact ⟨by decide, by decide⟩)
  rw [emitted, List.forall_mem_singleton] at accepted
  exact ⟨emitted, accepted⟩

/-- What `SETRANGE` leaves at a new key. -/
theorem cmdSetrange_get {env : Env} {db : Db} {offset value : Bytes} {n : Nat}
    (number : stringToLl offset = some (n : Int)) (allowed : n + value.length < mallocLimit)
    (absent : db.d.get key = none) :
    (cmdSetrange env db [text "SETRANGE", key, offset, value]).1.d.get key =
      some ⟨.string (setrangeBytes [] n value), -1⟩ := by
  have third : stringToLl (arg [text "SETRANGE", key, offset, value] 2) = some (n : Int) := number
  unfold cmdSetrange
  rw [if_neg (by simp), third]
  simp only [if_neg (show ¬ (n : Int) < 0 by omega), Int.toNat_natCast]
  refine (onKey_upsert_none absent _).trans ((if_pos rfl).trans ?_)
  show some (Robj.mk (.string (setrangeString n value []).1) (-1)) = _
  rw [setrangeString_of_lt [] allowed]

/-- `SETRANGE` past `MAX_BULK_LEN`: the frame of the string is refused. -/
theorem aofRewrite_accepted_differs :
    ∃ cmd ∈ aofRewriteCommands (run (sampleStart false)
        [request ["SETRANGE", "k", "536870912", "x"]]).db,
      respParseCommand (awWriteCommand cmd) = (-1, []) := by
  have stored : (run (sampleStart false) [request ["SETRANGE", "k", "536870912", "x"]]).db.d.get
      (text "k") = some ⟨.string (setrangeBytes [] 536870912 (text "x")), -1⟩ := by
    have effect : (run (sampleStart false) [request ["SETRANGE", "k", "536870912", "x"]]).db =
        execute sampleEnv (sampleStart false).db
          [text "SETRANGE", text "k", text "536870912", text "x"] := dispatchCommand_db
    rw [effect, execute_named "setrange" cmdSetrange (text "SETRANGE") (by simp [commands])
      (by decide) (by decide) (by decide)]
    exact cmdSetrange_get (by decide) (by decide) (sampleStart_empty false (text "k"))
  refine ⟨setCommand (text "k") (setrangeBytes [] 536870912 (text "x")) (-1), ?_, ?_⟩
  · refine List.mem_flatMap.mpr ⟨_, (HashTable.Table.mem_pairs _ _ _).mpr stored, ?_⟩
    show _ ∈ aofRewriteKey (text "k") _
    rw [aofRewriteKey_string]
    exact List.mem_singleton.mpr rfl
  · refine respParseCommand_overlong (by decide) ⟨setrangeBytes [] 536870912 (text "x"), ?_, ?_⟩
    · exact List.mem_cons_of_mem _ (List.mem_cons_of_mem _ (List.mem_singleton.mpr rfl))
    · rw [setrangeBytes_length]
      decide

end Frames

end Miniredis
