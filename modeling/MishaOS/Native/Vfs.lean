import MishaOS.ForStd.Bytes
import MishaOS.Native.Word

/-!
# Images of the virtual file system

`vfs.h` and the reader `vfs.c`.  A `vfs_entry_t*` is modelled by its offset
from `fs->data`; a null pointer is `none`.  The loops of the reader follow
offsets that it finds in the image, so they carry fuel, and a result is wrapped
in an `Option` of its own: `none` on the outside is a loop that does not end.
-/

namespace MishaOS

open Ring Bytes

/-- A C string: what stands before its null byte. -/
@[ext] structure CString where
  bytes : List Byte
  noNull : 0 ∉ bytes
  deriving DecidableEq

/-! ## Records -/

def VFS_SIGNATURE : Nat := 0xF3F5

inductive VfsType
  | file
  | directory
  | link
  deriving DecidableEq

def VfsType.code : VfsType → Nat
  | .file => 0
  | .directory => 1
  | .link => 2

/-- Size of `vfs_header_t`: a signature, a version, a label of 16 bytes, two words. -/
def sizeofHeader : Nat := 27

/-- Size of `vfs_entry_t`, which is packed. -/
def sizeofEntry : Nat := 275

/-- Size of `vfs_filesystem_t` of the kernel: the header, padded, and a pointer. -/
def sizeofFilesystem : Nat := 32

/-- The fields of `vfs_entry_t` that are ever assigned. -/
structure VfsEntry where
  name : List Byte
  offset : Nat
  type : VfsType
  nextEntry : Nat
  targetEntry : Nat
  size : Nat

/-- The bytes of a `vfs_entry_t` on the stack.  `zero`, `reserved` and what follows the
    null byte of the name keep the bytes `junk` of the memory. -/
def VfsEntry.bytes (junk : Nat → Byte) (e : VfsEntry) : List Byte :=
  [junk 0] ++ (e.name ++ [0] ++ slice junk (e.name.length + 2) (255 - e.name.length))
    ++ le32 e.offset ++ [BitVec.ofNat 8 e.type.code] ++ [junk 262]
    ++ le32 e.nextEntry ++ le32 e.targetEntry ++ le32 e.size

structure VfsHeader where
  signature : Nat
  version : Nat
  label : List Byte
  size : Nat
  rootEntry : Nat

/-- The bytes of a `vfs_header_t` on the stack.  The null byte of a label of 16 bytes lies
    in `size`, which is assigned later. -/
def VfsHeader.bytes (junk : Nat → Byte) (h : VfsHeader) : List Byte :=
  le16 h.signature ++ [BitVec.ofNat 8 h.version]
    ++ (h.label ++ [0] ++ slice junk (h.label.length + 4) (15 - h.label.length)).take 16
    ++ le32 h.size ++ le32 h.rootEntry

/-! ## Fields of a record in an image -/

def entryName (p : Nat) : Nat := p + 1

def entryOffset (data : Nat → Byte) (p : Nat) : Nat := word32 data (p + 257)

def entryType (data : Nat → Byte) (p : Nat) : Nat := (data (p + 261)).toNat

def entryNextEntry (data : Nat → Byte) (p : Nat) : Nat := word32 data (p + 263)

def entryTargetEntry (data : Nat → Byte) (p : Nat) : Nat := word32 data (p + 267)

def entrySize (data : Nat → Byte) (p : Nat) : Nat := word32 data (p + 271)

/-! ## The reader -/

/-- What the reader keeps of the header, and the image. -/
structure VfsFilesystem where
  signature : Nat
  version : Nat
  size : Nat
  rootEntry : Nat
  data : Nat → Byte

/-- `fs` is not null. -/
def vfsReadFilesystem (data : Nat → Byte) : Option VfsFilesystem :=
  let fs : VfsFilesystem :=
    { signature := word16 data 0
      version := (data 2).toNat
      size := word32 data 19
      rootEntry := word32 data 23
      data := data }
  if fs.signature ≠ VFS_SIGNATURE then none
  else if fs.version ≠ 1 then none
  else if fs.size < sizeofFilesystem then none
  else some fs

def vfsFollowLinksLoop (data : Nat → Byte) : Nat → Nat → Option Nat
  | 0, _ => none
  | fuel + 1, entry =>
    if entryType data entry = VfsType.link.code then
      vfsFollowLinksLoop data fuel (entryTargetEntry data entry)
    else some entry

def vfsFollowLinks (fs : VfsFilesystem) (entry : Nat) : Option Nat :=
  vfsFollowLinksLoop fs.data walkFuel entry

/-- The loop of `vfs_find_entry_in` over `current_entry`. -/
def vfsFindLoop (data : Nat → Byte) (name : CString) : Nat → Nat → Option (Option Nat)
  | 0, _ => none
  | fuel + 1, current =>
    if current = 0 then some none
    else if streq data (entryName current) name.bytes then some (some current)
    else vfsFindLoop data name fuel (entryNextEntry data current)

def vfsFindEntryIn (fs : VfsFilesystem) (entry : Nat) (name : CString) : Option (Option Nat) :=
  match vfsFollowLinks fs entry with
  | none => none
  | some entry =>
    if name.bytes = [46] then some (some entry)
    else if entryType fs.data entry ≠ VfsType.directory.code ∨
        entryTargetEntry fs.data entry = 0 then some none
    else vfsFindLoop fs.data name walkFuel (entryTargetEntry fs.data entry)

def vfsFindEntry (fs : VfsFilesystem) (name : CString) : Option (Option Nat) :=
  vfsFindEntryIn fs fs.rootEntry name

/-- Offset of the content of `entry` from `fs->data`. -/
def vfsFileContent (fs : VfsFilesystem) (entry : Nat) (followLinks : Bool) : Option Nat :=
  match if followLinks then vfsFollowLinks fs entry else some entry with
  | none => none
  | some entry => some (entryOffset fs.data entry + sizeofEntry)

end MishaOS
