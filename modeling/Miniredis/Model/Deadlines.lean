/-
**Deadlines with their overflows (`db.c`).**

The handlers that store a deadline once more, with each product, difference and sum of `int64_t`
tested: `none` is a signed overflow, which C leaves undefined. Everything else is as in the
handlers of `Strings`, whose sums wrap.
-/

import Miniredis.Model.Strings

namespace Miniredis

/-- A handler that may run into an overflow. -/
abbrev CheckedHandler := Env → Db → Argv → Option (Db × Bytes)

/-- A command on one key whose decision computes. -/
def onKeyChecked (now : Int) (db : Db) (key : Bytes)
    (decide : Option Robj → Option (Update × Bytes)) : Option (Db × Bytes) := do
  let decision ← decide (lookupKey now db key).1
  some (onKey now db key fun _ => decision)

/-! ### `SET` and `SETEX` -/

def setExpireMsChecked (now : Int) (option : Bytes) (v : Int) : Option (Except Bytes Int) :=
  if strcaseEq option (text "EX") then
    if v > int64MaxSeconds then some (.error invalidSetExpire)
    else do
      let ms ← checked (v * 1000)
      some (.ok ms)
  else if strcaseEq option (text "PX") then some (.ok v)
  else if strcaseEq option (text "EXAT") then
    if v > int64MaxSeconds then some (.error invalidSetExpire)
    else do
      let time ← checked (v * 1000)
      let ms ← checked (time - now)
      some (.ok ms)
  else do
    let ms ← checked (v - now)
    some (.ok ms)

def setOptionsChecked (now : Nat → Int) :
    Nat → List Bytes → SetOptions → Option (Except Bytes SetOptions)
  | _, [], options => some (.ok options)
  | _, [a], options =>
    if isSetExpireOption a then some (.error syntaxError)
    else if strcaseEq a (text "NX") then some (.ok { options with nx := true })
    else if strcaseEq a (text "XX") then some (.ok { options with xx := true })
    else some (.error syntaxError)
  | i, a :: t :: rest, options =>
    if isSetExpireOption a then
      match stringToLl t with
      | none => some (.error invalidSetExpire)
      | some v =>
        if v ≤ 0 then some (.error invalidSetExpire)
        else
          match setExpireMsChecked (now i) a v with
          | none => none
          | some (.error reply) => some (.error reply)
          | some (.ok ms) => setOptionsChecked now (i + 2) rest { options with expireMs := ms }
    else if strcaseEq a (text "NX") then
      setOptionsChecked now (i + 1) (t :: rest) { options with nx := true }
    else if strcaseEq a (text "XX") then
      setOptionsChecked now (i + 1) (t :: rest) { options with xx := true }
    else some (.error syntaxError)

def setDeadlineChecked (now ms : Int) : Option Int :=
  if ms < 0 then some (-1) else checked (now + ms)

def setBodyChecked (options : SetOptions) (now : Int) (value : Bytes) (found : Option Robj) :
    Option (Update × Bytes) :=
  if options.nx && found.isSome then some (.keep, replyNull)
  else if options.xx && found.isNone then some (.keep, replyNull)
  else do
    let deadline ← setDeadlineChecked now options.expireMs
    some (.store ⟨.string value, deadline⟩, replyOk)

def cmdSetChecked : CheckedHandler := fun env db argv =>
  if argv.length < 3 then some (db, replyArity (text "set"))
  else
    match setOptionsChecked env.now 3 (argv.drop 3) ⟨false, false, -1⟩ with
    | none => none
    | some (.error reply) => some (db, reply)
    | some (.ok options) =>
      if options.nx && options.xx then some (db, syntaxError)
      else
        onKeyChecked (env.now argv.length) db (arg argv 1)
          (setBodyChecked options (env.now (argv.length + 1)) (arg argv 2))

def cmdSetexChecked : CheckedHandler := fun env db argv =>
  if argv.length ≠ 4 then some (db, replyArity (text "setex"))
  else
    match stringToLl (arg argv 2) with
    | none => some (db, replyError (text "invalid expire time in 'setex' command"))
    | some secs =>
      if secs ≤ 0 ∨ secs > int64MaxSeconds then
        some (db, replyError (text "invalid expire time in 'setex' command"))
      else do
        let ms ← checked (secs * 1000)
        let deadline ← checked (env.now 0 + ms)
        some ({ db with d := (db.d.set (arg argv 1) ⟨.string (arg argv 3), deadline⟩).2 }, replyOk)

/-! ### `EXPIRE` and `EXPIREAT` -/

def expireBodyChecked (isMs : Bool) (name : Bytes) (v now : Int) (found : Option Robj) :
    Option (Update × Bytes) :=
  match found with
  | none => some (.keep, replyInteger 0)
  | some o =>
    if !isMs && v > int64MaxSeconds then some (.keep, invalidExpire name)
    else do
      let ms ← checkedIf (isMs = false) (v * 1000) v
      let deadline ← checked (now + ms)
      some (.write { o with expireAt := deadline }, replyInteger 1)

def cmdExpireGenericChecked (isMs : Bool) : CheckedHandler := fun env db argv =>
  if argv.length ≠ 3 then some (db, replyArity (arg argv 0))
  else
    match stringToLl (arg argv 2) with
    | none => some (db, invalidExpire (arg argv 0))
    | some v =>
      if v < 0 then some (db, invalidExpire (arg argv 0))
      else
        onKeyChecked (env.now 0) db (arg argv 1)
          (expireBodyChecked isMs (arg argv 0) v (env.now 1))

def expireatBodyChecked (isMs : Bool) (ts : Int) (found : Option Robj) :
    Option (Update × Bytes) :=
  match found with
  | none => some (.keep, replyInteger 0)
  | some o => do
    let deadline ← checkedIf (isMs = false) (ts * 1000) ts
    some (.write { o with expireAt := deadline }, replyInteger 1)

def cmdExpireatGenericChecked (isMs : Bool) : CheckedHandler := fun env db argv =>
  if argv.length ≠ 3 then some (db, replyArity (arg argv 0))
  else
    match stringToLl (arg argv 2) with
    | none => some (db, invalidExpire (arg argv 0))
    | some ts =>
      if ts < 0 then some (db, invalidExpire (arg argv 0))
      else if !isMs && ts > int64MaxSeconds then some (db, invalidExpire (arg argv 0))
      else onKeyChecked (env.now 0) db (arg argv 1) (expireatBodyChecked isMs ts)

end Miniredis
