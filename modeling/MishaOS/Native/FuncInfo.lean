import MishaOS.ForStd.Words
import MishaOS.Native.Vfs

/-!
# The table of kernel functions

`export_debug.py` writes one record for each function to the file `.funcs`, and
`kernel_get_func_name` walks over these records when a panic is printed.  The
walk also tells which addresses it has read.
-/

namespace MishaOS

open Bytes

/-! ## The script -/

/-- What is written for a function: its name, `lowpc` and `highpc`. -/
structure FuncInfo where
  name : CString
  lowpc : BitVec 32
  highpc : BitVec 32
  short : name.bytes.length < 65525

/-- `out.write` of the length, the two addresses, the name and the null byte. -/
def FuncInfo.record (f : FuncInfo) : List Byte :=
  le16 (11 + f.name.bytes.length) ++ le32 f.lowpc.toNat ++ le32 f.highpc.toNat ++
    f.name.bytes ++ [0]

/-- The file `.funcs`. -/
def exportDebug (funcs : List FuncInfo) : List Byte := funcs.flatMap FuncInfo.record ++ [0, 0]

/-! ## The kernel -/

/-- The addresses read by the condition of the loop. -/
def funcSeen (mem : Nat → Byte) (func addr : Nat) : List Nat :=
  List.range' (func + 2) 4 ++ if word32 mem (func + 2) > addr then [] else List.range' (func + 6) 4

/-- The loop from the record at `func` on: `func_name`, or `none` for `"??"`,
    and the addresses read.  No result when the fuel does not suffice. -/
def funcWalk (mem : Nat → Byte) (addr : Nat) : Nat → Nat → Option (Option Nat × List Nat)
  | 0, _ => none
  | fuel + 1, func =>
    if word32 mem (func + 2) > addr ∨ word32 mem (func + 6) ≤ addr then
      -- the first two bytes of a record are its length
      let next := u32 (func + word16 mem func)
      let seen := funcSeen mem func addr ++ List.range' func 2 ++ List.range' next 2
      -- the end of the file
      if word16 mem next = 0 then some (none, seen)
      else (funcWalk mem addr fuel next).map fun r => (r.1, seen ++ r.2)
    else some (some (func + 10), funcSeen mem func addr)

def kernelGetFuncName (mem : Nat → Byte) (kernelFuncs addr fuel : Nat) :
    Option (Option Nat × List Nat) :=
  if kernelFuncs = 0 then some (none, []) else funcWalk mem addr fuel kernelFuncs

end MishaOS
