/-
**String objects in memory (`object.c`, `db.c`).**

A string object points to a block with its bytes and a terminating zero, and keeps the length
beside it. `robj_new_string`, `APPEND` and `SETRANGE` once more on that block: each allocation, copy
and fill is a step that fails outside its block, and sizes are of `size_t`. `limit` is the largest
block the allocator hands out; beyond it `xmalloc` ends the process.
-/

import Miniredis.Lib.Block
import Miniredis.Model.Strings

namespace Miniredis

structure StringBuffer where
  ptr : Block UInt8
  len : Nat

/-- A sum of two `size_t`s. -/
def sizeAdd (a b : Nat) : Nat := (a + b) % 2 ^ 64

def xmalloc (limit n : Nat) : Option (Block UInt8) := Block.malloc limit (if n = 0 then 1 else n)

def xrealloc (limit : Nat) (p : Block UInt8) (n : Nat) : Option (Block UInt8) :=
  Block.realloc limit p (if n = 0 then 1 else n)

namespace StringBuffer

/-- `robj_new_string`. -/
def new (limit : Nat) (s : Bytes) : Option StringBuffer := do
  let ptr ← xmalloc limit (sizeAdd s.length 1)
  let ptr ← ptr.copyIn 0 s
  let ptr ← ptr.copyIn s.length [0]
  some ⟨ptr, s.length⟩

/-- `APPEND` on an object that is there. -/
def append (limit : Nat) (o : StringBuffer) (val : Bytes) : Option StringBuffer := do
  let oldlen := o.len
  let ptr ← xrealloc limit o.ptr (sizeAdd (sizeAdd oldlen val.length) 1)
  let ptr ← ptr.copyIn oldlen val
  let len := sizeAdd oldlen val.length
  let ptr ← ptr.copyIn len [0]
  some ⟨ptr, len⟩

/-- `SETRANGE` grows the block first, with zeros up to the end of the written range. -/
def grow (limit : Nat) (o : StringBuffer) (need : Nat) : Option StringBuffer :=
  if need > o.len then do
    let nb ← xmalloc limit (sizeAdd need 1)
    let old ← o.ptr.copyOut 0 o.len
    let nb ← nb.copyIn 0 old
    let nb ← nb.copyIn o.len (List.replicate (need - o.len) 0)
    let nb ← nb.copyIn need [0]
    some ⟨nb, need⟩
  else some o

/-- `SETRANGE` on an object that is there or has just been created. -/
def setrange (limit : Nat) (o : StringBuffer) (offset : Nat) (val : Bytes) :
    Option StringBuffer := do
  let o ← o.grow limit (sizeAdd offset val.length)
  let ptr ← o.ptr.copyIn offset val
  some { o with ptr := ptr }

end StringBuffer

end Miniredis
