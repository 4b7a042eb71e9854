import MishaOS.Native.Vfs

/-!
# Opening a path

`open` of `mount.c` cuts a path at its slashes and looks one component after the
other up.  Every component but the last one is copied to a buffer of 257 bytes;
`none` on the outside is a component that does not fit, or a look-up that does
not return.
-/

namespace MishaOS

/-- `strchr`: the offset of the first character `chr`, which may be the null byte. -/
def strchr : List Byte → Byte → Option Nat
  | [], chr => if chr = 0 then some 0 else none
  | c :: str, chr => if c = chr then some 0 else (strchr str chr).map (· + 1)

def CString.take (s : CString) (n : Nat) : CString where
  bytes := s.bytes.take n
  noNull h := s.noNull (List.mem_of_mem_take h)

def CString.drop (s : CString) (n : Nat) : CString where
  bytes := s.bytes.drop n
  noNull h := s.noNull (List.mem_of_mem_drop h)

/-- `'/'` -/
def slash : Byte := 0x2F

/-- `filesystem` and `root`. -/
structure Mount where
  filesystem : VfsFilesystem
  root : Nat

/-- The loop of `open`; a path has at most as many components as bytes, and one. -/
def openLoop (fs : VfsFilesystem) : Nat → Nat → CString → Option (Option Nat)
  | 0, _, _ => none
  | fuel + 1, parent, path =>
    match strchr path.bytes slash with
    | none => vfsFindEntryIn fs parent path
    | some tokenEnd =>
      -- `char token[257]`
      if tokenEnd ≥ 257 then none
      else
        match vfsFindEntryIn fs parent (path.take tokenEnd) with
        | none => none
        | some none => some none
        | some (some next) => openLoop fs fuel next (path.drop (tokenEnd + 1))

/-- `open`.  `workingDir` is the working directory of the current process, if there is one. -/
def openPath (m : Mount) (workingDir : Option Nat) (path : CString) : Option (Option Nat) :=
  if path.bytes.head? = some slash then
    openLoop m.filesystem (path.bytes.length + 1) m.root (path.drop 1)
  else
    match workingDir with
    | none => some none
    | some parent => openLoop m.filesystem (path.bytes.length + 1) parent path

end MishaOS
