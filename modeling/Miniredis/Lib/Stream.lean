/-
**Frames taken from a stream that arrives in pieces.**

A reader appends what arrives to the bytes it has not used and takes frames off the front, until the
decoder wants more, finds an error, or a value says stop. It decodes its buffer afresh each time, so
it depends on a decoder whose verdicts stand when more bytes follow (`Steady`).

* `takeAll_append` — taking from a buffer and going on when more arrives is taking from both;
* `takeAll_consumes` — the frames taken lie end to end, and what is left is behind them;
* `takeAll_rest` — what is left does not start with a frame.
-/

import Miniredis.Lib.FrameLog

namespace FrameLog

variable {α β : Type}

/-- Why a reader leaves off. -/
inductive Halt where
  | waiting
  | stopped
  | failed
deriving DecidableEq

/-- What a reader takes from a buffer. -/
structure Taken (α β : Type) where
  values : List α
  halt : Halt
  rest : List β

/-- One frame more at the front. -/
def Taken.push (value : α) (taken : Taken α β) : Taken α β :=
  { taken with values := value :: taken.values }

/-- Frame after frame, up to a value that says stop; `fuel` bounds their number. -/
def take (decode : List β → Outcome α) (stop : α → Bool) : Nat → List β → Taken α β
  | 0, buf => ⟨[], .waiting, buf⟩
  | fuel + 1, buf =>
    match decode buf with
    | .more => ⟨[], .waiting, buf⟩
    | .error => ⟨[], .failed, buf⟩
    | .frame value consumed =>
      if stop value then ⟨[value], .stopped, buf.drop consumed⟩
      else (take decode stop fuel (buf.drop consumed)).push value

/-- What a reader takes from a buffer with no bound on the frames. -/
def takeAll (decode : List β → Outcome α) (stop : α → Bool) (buf : List β) : Taken α β :=
  take decode stop buf.length buf

/-- The verdicts of the decoder stand when more bytes follow. -/
structure Steady (decode : List β → Outcome α) : Prop where
  nil : decode [] = .more
  inside : ∀ {buf value consumed}, decode buf = .frame value consumed →
    0 < consumed ∧ consumed ≤ buf.length
  frame : ∀ {buf value consumed}, decode buf = .frame value consumed →
    ∀ more, decode (buf ++ more) = .frame value consumed
  error : ∀ {buf}, decode buf = .error → ∀ more, decode (buf ++ more) = .error

/-- The frames of the values lie end to end at the front of the buffer. -/
inductive Consumes (decode : List β → Outcome α) : List β → List α → List β → Prop
  | nil (buf : List β) : Consumes decode buf [] buf
  | cons {frame more : List β} {value : α} {values : List α} {rest : List β}
      (found : decode (frame ++ more) = .frame value frame.length)
      (later : Consumes decode more values rest) :
      Consumes decode (frame ++ more) (value :: values) rest

section Take

variable {decode : List β → Outcome α} {stop : α → Bool} {buf : List β}

/-- Fuel beyond the length of the buffer changes nothing. -/
theorem Steady.take_fuel (steady : Steady decode) (fuel : Nat) (buf : List β)
    (enough : buf.length ≤ fuel) : take decode stop fuel buf = takeAll decode stop buf := by
  -- induction on the fuel, for every buffer it covers
  induction fuel using Nat.strong_induction_on generalizing buf with
  | _ fuel ih =>
    cases fuel with
    | zero => rw [takeAll, Nat.le_zero.mp enough]
    | succ fuel =>
      cases buf with
      | nil => simp [takeAll, take, steady.nil]
      | cons byte tail =>
        rw [takeAll, List.length_cons, take, take]
        cases found : decode (byte :: tail) with
        | more => rfl
        | error => rfl
        | frame value consumed =>
          have positive := (steady.inside found).1
          have shorter : ((byte :: tail).drop consumed).length ≤ tail.length := by
            rw [List.length_drop, List.length_cons]
            omega
          have enough : tail.length ≤ fuel := by simpa using enough
          simp only
          rw [ih fuel (Nat.lt_succ_self _) _ (shorter.trans enough),
            ih tail.length (by omega) _ shorter]

/-- One frame, and what is taken behind it. -/
theorem Steady.takeAll_eq (steady : Steady decode) (buf : List β) :
    takeAll decode stop buf =
      match decode buf with
      | .more => ⟨[], .waiting, buf⟩
      | .error => ⟨[], .failed, buf⟩
      | .frame value consumed =>
        if stop value then ⟨[value], .stopped, buf.drop consumed⟩
        else (takeAll decode stop (buf.drop consumed)).push value := by
  rw [← steady.take_fuel (buf.length + 1) buf (Nat.le_succ _), take]
  cases found : decode buf with
  | more => rfl
  | error => rfl
  | frame value consumed =>
    have shorter : (buf.drop consumed).length ≤ buf.length := by simp
    simp only
    rw [steady.take_fuel _ _ shorter]

/-- Taking goes on with `more` where it waited. -/
def Taken.resume (decode : List β → Outcome α) (stop : α → Bool) (taken : Taken α β)
    (more : List β) : Taken α β :=
  match taken.halt with
  | .waiting =>
    { takeAll decode stop (taken.rest ++ more) with
      values := taken.values ++ (takeAll decode stop (taken.rest ++ more)).values }
  | .stopped | .failed => { taken with rest := taken.rest ++ more }

theorem Taken.resume_push (taken : Taken α β) (value : α) (more : List β) :
    (taken.push value).resume decode stop more = (taken.resume decode stop more).push value := by
  unfold resume push
  cases taken.halt <;> rfl

/-- **Taking from a buffer and going on when more arrives is taking from both.** -/
theorem Steady.takeAll_append (steady : Steady decode) (buf more : List β) :
    takeAll decode stop (buf ++ more) = (takeAll decode stop buf).resume decode stop more := by
  induction size : buf.length using Nat.strong_induction_on generalizing buf with
  | _ n ih =>
    rw [steady.takeAll_eq buf]
    cases found : decode buf with
    | more => rfl
    | error =>
      rw [steady.takeAll_eq, steady.error found]
      rfl
    | frame value consumed =>
      obtain ⟨positive, inside⟩ := steady.inside found
      rw [steady.takeAll_eq, steady.frame found]
      simp only [List.drop_append_of_le_length inside]
      split
      · rfl
      · rw [ih _ (by rw [List.length_drop]; omega) _ rfl, Taken.resume_push]

/-- **The frames taken lie end to end, and what is left is behind them.** -/
theorem Steady.takeAll_consumes (steady : Steady decode) (buf : List β) :
    Consumes decode buf (takeAll decode stop buf).values (takeAll decode stop buf).rest := by
  induction size : buf.length using Nat.strong_induction_on generalizing buf with
  | _ n ih =>
    rw [steady.takeAll_eq buf]
    cases found : decode buf with
    | more => exact .nil buf
    | error => exact .nil buf
    | frame value consumed =>
      obtain ⟨positive, inside⟩ := steady.inside found
      have cut : buf = buf.take consumed ++ buf.drop consumed := (List.take_append_drop ..).symm
      have whole : (buf.take consumed).length = consumed := List.length_take_of_le inside
      have here : decode (buf.take consumed ++ buf.drop consumed) =
          .frame value (buf.take consumed).length := by rw [← cut, found, whole]
      simp only
      split
      · rw [cut, List.drop_left' whole]
        exact .cons here (.nil _)
      · have later := ih (buf.drop consumed).length (by rw [List.length_drop]; omega) _ rfl
        rw [Taken.push]
        dsimp only
        conv => arg 2; rw [cut]
        exact .cons here later

/-- **A reader that was not told to stop has left no whole frame.** -/
theorem Steady.takeAll_rest (steady : Steady decode) (buf : List β)
    (runs : (takeAll decode stop buf).halt ≠ .stopped) (value : α) (consumed : Nat) :
    decode (takeAll decode stop buf).rest ≠ .frame value consumed := by
  induction size : buf.length using Nat.strong_induction_on generalizing buf with
  | _ n ih =>
    rw [steady.takeAll_eq buf] at runs ⊢
    cases found : decode buf with
    | more =>
      simp only [found]
      exact nofun
    | error =>
      simp only [found]
      exact nofun
    | frame first taken =>
      obtain ⟨positive, inside⟩ := steady.inside found
      simp only [found] at runs ⊢
      split at runs
      · exact absurd rfl runs
      · rename_i goes
        rw [if_neg goes]
        exact ih (buf.drop taken).length (by rw [List.length_drop]; omega) _ runs rfl

end Take

end FrameLog
