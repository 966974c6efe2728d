/-
**Logs of self-delimiting frames.**

A codec turns values into frames and a buffer into the next frame, a request for more bytes or an
error. A log is the concatenation of frames; `read` takes it apart again, one frame at a time.

* `Codec.read_log_append` — the frames of a log are read back, and reading goes on behind them;
* `Codec.cut` — a cut of a log is a log and a part of one frame;
* `Codec.read_prefix` — reading a cut log gives the frames that lie inside the cut.
-/

import Mathlib.Data.List.Basic
import Mathlib.Tactic

namespace FrameLog

variable {α β : Type}

/-- What a decoder says about the head of a buffer. -/
inductive Outcome (α : Type) where
  | more
  | error
  | frame (value : α) (consumed : Nat)

/-- How reading a buffer ended: at its end, inside a frame, or at bytes that are no frame. -/
inductive Ending where
  | clean
  | torn
  | corrupt
deriving DecidableEq

/-- Frame after frame; `fuel` bounds their number. -/
def scan (decode : List β → Outcome α) : Nat → List β → List α × Ending
  | _, [] => ([], .clean)
  | 0, _ :: _ => ([], .torn)
  | fuel + 1, byte :: rest =>
    match decode (byte :: rest) with
    | .more => ([], .torn)
    | .error => ([], .corrupt)
    | .frame value consumed =>
      let (values, ending) := scan decode fuel ((byte :: rest).drop consumed)
      (value :: values, ending)

/-- The frames of a buffer. -/
def read (decode : List β → Outcome α) (buf : List β) : List α × Ending :=
  scan decode buf.length buf

/-- An encoder and a decoder that agree on the values that fit. -/
structure Codec (α β : Type) where
  encode : α → List β
  decode : List β → Outcome α
  Fits : α → Prop
  decode_pos : ∀ {buf value consumed}, decode buf = .frame value consumed → 0 < consumed
  encode_ne_nil : ∀ value, encode value ≠ []
  decode_encode : ∀ {value}, Fits value → ∀ rest,
    decode (encode value ++ rest) = .frame value (encode value).length
  decode_cut : ∀ {value}, Fits value → ∀ {part}, part <+: encode value → part ≠ encode value →
    part ≠ [] → decode part = .more

namespace Codec

variable (codec : Codec α β)

/-- The log of some values. -/
def log (values : List α) : List β := values.flatMap codec.encode

@[simp]
theorem log_nil : codec.log [] = [] := rfl

@[simp]
theorem log_cons (value : α) (values : List α) :
    codec.log (value :: values) = codec.encode value ++ codec.log values := rfl

@[simp]
theorem log_append (front back : List α) :
    codec.log (front ++ back) = codec.log front ++ codec.log back := List.flatMap_append

theorem log_eq_nil {values : List α} : codec.log values = [] ↔ values = [] := by
  cases values with
  | nil => simp
  | cons value rest => simp [codec.encode_ne_nil value]

/-- Fuel beyond the length of the buffer changes nothing. -/
theorem scan_fuel (fuel : Nat) (buf : List β) (enough : buf.length ≤ fuel) :
    scan codec.decode fuel buf = read codec.decode buf := by
  -- induction on the fuel, for every buffer it covers
  induction fuel using Nat.strong_induction_on generalizing buf with
  | _ fuel ih =>
    cases buf with
    | nil => cases fuel <;> rfl
    | cons byte rest =>
      obtain ⟨fuel, rfl⟩ : ∃ more, fuel = more + 1 :=
        ⟨fuel - 1, by simp at enough; omega⟩
      unfold read
      rw [List.length_cons]
      unfold scan
      cases found : codec.decode (byte :: rest) with
      | more => rfl
      | error => rfl
      | frame value consumed =>
        have positive := codec.decode_pos found
        have shorter : ((byte :: rest).drop consumed).length ≤ rest.length := by
          rw [List.length_drop, List.length_cons]; omega
        have enough : rest.length ≤ fuel := by simpa using enough
        simp only
        rw [ih fuel (Nat.lt_succ_self _) _ (shorter.trans enough),
          ih rest.length (by omega) _ shorter]

/-- Reading a buffer that starts with a frame. -/
theorem read_frame {buf : List β} {value : α} {consumed : Nat} (nonempty : buf ≠ [])
    (found : codec.decode buf = .frame value consumed) :
    read codec.decode buf = (value :: (read codec.decode (buf.drop consumed)).1,
      (read codec.decode (buf.drop consumed)).2) := by
  obtain ⟨byte, rest, rfl⟩ := List.exists_cons_of_ne_nil nonempty
  have positive := codec.decode_pos found
  have shorter : ((byte :: rest).drop consumed).length ≤ rest.length := by
    rw [List.length_drop, List.length_cons]; omega
  rw [← codec.scan_fuel rest.length _ shorter]
  unfold read
  rw [List.length_cons]
  conv_lhs => unfold scan
  rw [found]

/-- Reading goes on behind a frame. -/
theorem read_encode_append {value : α} (fits : codec.Fits value) (rest : List β) :
    read codec.decode (codec.encode value ++ rest) =
      (value :: (read codec.decode rest).1, (read codec.decode rest).2) := by
  have nonempty : codec.encode value ++ rest ≠ [] := by
    simp [codec.encode_ne_nil value]
  rw [codec.read_frame nonempty (codec.decode_encode fits rest), List.drop_left]

/-- **The frames of a log are read back, and reading goes on behind them.** -/
theorem read_log_append {values : List α} (fits : ∀ value ∈ values, codec.Fits value)
    (rest : List β) :
    read codec.decode (codec.log values ++ rest) =
      (values ++ (read codec.decode rest).1, (read codec.decode rest).2) := by
  induction values with
  | nil => rfl
  | cons value values ih =>
    rw [log_cons, List.append_assoc, codec.read_encode_append (fits value List.mem_cons_self),
      ih fun other member => fits other (List.mem_cons_of_mem _ member)]
    rfl

theorem read_log {values : List α} (fits : ∀ value ∈ values, codec.Fits value) :
    read codec.decode (codec.log values) = (values, .clean) := by
  have whole := codec.read_log_append fits []
  rwa [List.append_nil, show read codec.decode ([] : List β) = ([], .clean) from rfl,
    List.append_nil] at whole

/-- A proper, nonempty part of the frame of `value`. -/
structure Part (value : α) (part : List β) : Prop where
  start : part <+: codec.encode value
  proper : part ≠ codec.encode value
  nonempty : part ≠ []

/-- Reading stops at a part of a frame. -/
theorem read_part {value : α} (fits : codec.Fits value) {part : List β}
    (cut : codec.Part value part) : read codec.decode part = ([], .torn) := by
  have decoded := codec.decode_cut fits cut.start cut.proper cut.nonempty
  obtain ⟨byte, tail, rfl⟩ := List.exists_cons_of_ne_nil cut.nonempty
  unfold read
  rw [List.length_cons]
  unfold scan
  rw [decoded]

/-- **A cut of a log is a log and, unless the cut is between frames, a part of the next frame.** -/
theorem cut {values : List α} {buf : List β} (start : buf <+: codec.log values) :
    ∃ inside outside part, values = inside ++ outside ∧ buf = codec.log inside ++ part ∧
      (part = [] ∨ ∃ value later, outside = value :: later ∧ codec.Part value part) := by
  induction values generalizing buf with
  | nil => exact ⟨[], [], [], rfl, List.prefix_nil.mp start, .inl rfl⟩
  | cons value values ih =>
    rw [log_cons] at start
    rcases List.prefix_or_prefix_of_prefix start (List.prefix_append _ _) with short | long
    · by_cases empty : buf = []
      · exact ⟨[], value :: values, [], rfl, empty, .inl rfl⟩
      · by_cases whole : buf = codec.encode value
        · exact ⟨[value], values, [], rfl, by simp [whole], .inl rfl⟩
        · exact ⟨[], value :: values, buf, rfl, rfl, .inr ⟨value, values, rfl, short, whole, empty⟩⟩
    · obtain ⟨more, rfl⟩ := long
      obtain ⟨inside, outside, part, rfl, rfl, ends⟩ :=
        ih ((List.prefix_append_right_inj _).mp start)
      exact ⟨value :: inside, outside, part, rfl, by simp, ends⟩

/-- **Reading a cut log gives the frames inside the cut.** -/
theorem read_cut {values inside outside : List α} {part : List β}
    (fits : ∀ value ∈ values, codec.Fits value) (split : values = inside ++ outside)
    (ends : part = [] ∨ ∃ value later, outside = value :: later ∧ codec.Part value part) :
    read codec.decode (codec.log inside ++ part) =
      (inside, if part = [] then .clean else .torn) := by
  have insideFits : ∀ value ∈ inside, codec.Fits value := fun value member =>
    fits value (by rw [split]; exact List.mem_append_left _ member)
  rcases ends with rfl | ⟨value, later, rfl, cut⟩
  · rw [List.append_nil, codec.read_log insideFits, if_pos rfl]
  · have valueFits := fits value (by rw [split]; simp)
    rw [codec.read_log_append insideFits, codec.read_part valueFits cut, if_neg cut.nonempty,
      List.append_nil]

/-- The values whose frames lie entirely within the first `n` places of their log. -/
def inside : List α → Nat → List α
  | [], _ => []
  | value :: rest, n =>
    if (codec.encode value).length ≤ n then value :: inside rest (n - (codec.encode value).length)
    else []

theorem mem_of_mem_inside {values : List α} {n : Nat} {value : α}
    (member : value ∈ codec.inside values n) : value ∈ values := by
  induction values generalizing n with
  | nil => cases member
  | cons first rest ih =>
    unfold inside at member
    split_ifs at member
    · rcases List.mem_cons.mp member with rfl | later
      · exact List.mem_cons_self
      · exact List.mem_cons_of_mem _ (ih later)
    · cases member

theorem inside_cut {inner outside : List α} {part : List β}
    (ends : part = [] ∨ ∃ value later, outside = value :: later ∧ codec.Part value part) :
    codec.inside (inner ++ outside) (codec.log inner ++ part).length = inner := by
  induction inner with
  | nil =>
    rcases ends with rfl | ⟨value, later, rfl, cut⟩
    · cases outside with
      | nil => rfl
      | cons value later => simp [inside, codec.encode_ne_nil value]
    · have short : part.length < (codec.encode value).length :=
        lt_of_le_of_ne cut.start.length_le fun same => cut.proper (cut.start.eq_of_length same)
      simp [inside, short]
  | cons value inner ih =>
    rw [log_cons, List.append_assoc, List.length_append, List.cons_append, inside,
      if_pos (Nat.le_add_right _ _), Nat.add_sub_cancel_left, ih]

/-- **Reading a cut log gives the frames that lie inside the cut.** -/
theorem read_prefix {values : List α} (fits : ∀ value ∈ values, codec.Fits value) {buf : List β}
    (start : buf <+: codec.log values) :
    (read codec.decode buf).1 = codec.inside values buf.length ∧
      (read codec.decode buf).2 ≠ .corrupt ∧
      ∃ part, buf = codec.log (codec.inside values buf.length) ++ part ∧
        (part = [] ∨ ∃ value ∈ values, codec.Part value part) := by
  obtain ⟨inner, outside, part, rfl, rfl, ends⟩ := codec.cut start
  rw [codec.inside_cut ends, codec.read_cut fits rfl ends]
  refine ⟨rfl, ?_, part, rfl, ?_⟩
  · dsimp only
    split <;> exact nofun
  · rcases ends with none | ⟨value, later, rfl, cut⟩
    · exact .inl none
    · exact .inr ⟨value, by simp, cut⟩

end Codec

end FrameLog
