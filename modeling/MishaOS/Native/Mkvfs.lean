import MishaOS.Native.Vfs

/-!
# Writing an image

`main.c` of `misha.mkvfs`.  The tree below the source directory is given by what
`opendir`, `readdir`, `fopen` and `fread` return on it; the image is an output
file that is written at a moving position.

The program copies structures from its stack into the image, with the bytes of
the members it never assigned.  `junk` gives these bytes, by the offset in the
image they are written to.
-/

namespace MishaOS

open Ring Bytes

/-! ## The source tree -/

/-- A name that `readdir` returns: `d_name` has 256 bytes. -/
structure FileName extends CString where
  len : bytes.length ≤ 255
  deriving DecidableEq

/-- A directory entry, by `d_type`, with what is behind it. -/
inductive Dirent
  /-- A regular file; there is no content when `fopen` fails. -/
  | reg (name : FileName) (content : Option (List Byte))
  /-- A directory and all that `readdir` returns on it. -/
  | dir (name : FileName) (listing : List Dirent)
  /-- A directory on which `opendir` fails. -/
  | closed (name : FileName)
  | lnk (name : FileName)
  | other (name : FileName)

def Dirent.name : Dirent → FileName
  | .reg name _ | .dir name _ | .closed name | .lnk name | .other name => name

/-- `strcmp` finds `d_name` to be `.` or `..`. -/
def Dirent.isDot (d : Dirent) : Bool :=
  d.name.bytes == [46] || d.name.bytes == [46, 46]

/-! ## The image -/

structure OutFile where
  data : Nat → Byte
  pos : Nat

def OutFile.fseekCur (file : OutFile) (n : Int) : OutFile :=
  { file with pos := (file.pos + n).toNat }

def OutFile.fseekSet (file : OutFile) (n : Nat) : OutFile := { file with pos := n }

def OutFile.fwrite (file : OutFile) (l : List Byte) : OutFile :=
  { data := blit file.data file.pos l, pos := file.pos + l.length }

/-- The copy of a regular file in pieces of `sizeof(BUFFER)` bytes, with the size counted
    along.  `fread` returns nothing at the end of the file, so more turns than bytes are
    not needed. -/
def copyLoop : Nat → OutFile → List Byte → Nat → OutFile × Nat
  | 0, file, _, size => (file, size)
  | fuel + 1, file, content, size =>
    let piece := content.take 1024
    if piece.length = 0 then (file, size)
    else copyLoop fuel (file.fwrite piece) (content.drop 1024) (u32 (size + piece.length))

def copyFile (file : OutFile) (content : List Byte) : OutFile × Nat :=
  copyLoop (content.length + 1) file content 0

/-- The branches on `d_type` that write an entry: the entry, and the file behind its
    content.  `recurse` is the call of `create_directory`.  There is no result when that
    call has none, or when `fread` is called on a file that could not be opened. -/
def createChild (recurse : OutFile → List Dirent → Option (OutFile × Nat)) (child : VfsEntry)
    (file : OutFile) : Dirent → Option (OutFile × VfsEntry)
  | .reg _ none => none
  | .reg _ (some content) =>
    let (file, size) := copyFile file content
    some (file, { child with type := .file, size := size })
  | .dir _ listing =>
    match recurse file listing with
    | none => none
    | some (file, size) =>
      some (file, { child with
        type := .directory
        size := size
        targetEntry := if size ≠ 0 then u32 (child.offset + sizeofEntry) else 0 })
  | .closed _ => some (file, { child with type := .directory, size := 0 })
  | .lnk _ | .other _ => none

/-- The entry is written to the place that was left for it.  `more` says whether `readdir`
    has returned something further.  Returns the file and what `written_bytes` grows by. -/
def closeChild (junk : Nat → Byte) (more : Bool) (file : OutFile) (child : VfsEntry) :
    OutFile × Nat :=
  let child :=
    if more then
      { child with nextEntry := u32 (child.offset + sizeofEntry + child.size) }
    else child
  let written := sizeofEntry + child.size
  let child := if child.type = .directory then { child with size := 0 } else child
  let currentPos := u32 file.pos
  let file := file.fseekSet child.offset
  let file := file.fwrite (child.bytes fun i => junk (child.offset + i))
  (file.fseekSet currentPos, written)

/-- The loop of `create_directory`: the head of the listing is `dirent`, the tail is what
    `readdir` will return.  There is no result when the loop does not end, and when it reads
    the null `dirent` of a listing that is empty from the start. -/
def createEntries (junk : Nat → Byte) : Nat → OutFile → List Dirent → Nat →
    Option (OutFile × Nat)
  | 0, _, _, _ => none
  | _, _, [], _ => none
  | fuel + 1, file, dirent :: rest, written =>
    if dirent.isDot then
      match rest with
      | [] => some (file, written)
      | rest => createEntries junk fuel file rest written
    else
      let child : VfsEntry :=
        { name := dirent.name.bytes, offset := u32 file.pos, type := .file
          nextEntry := 0, targetEntry := 0, size := 0 }
      let file := file.fseekCur sizeofEntry
      match dirent with
      -- skip_entry: the loop goes on without a call of readdir
      | .lnk _ | .other _ =>
        createEntries junk fuel (file.fseekCur (-sizeofEntry)) (dirent :: rest) written
      | dirent =>
        match createChild (fun file listing => createEntries junk fuel file listing 0)
            child file dirent with
        | none => none
        | some (file, child) =>
          let (file, size) := closeChild junk (!rest.isEmpty) file child
          match rest with
          | [] => some (file, u32 (written + size))
          | rest => createEntries junk fuel file rest (u32 (written + size))

/-- `create_directory` on a directory that could be opened, or not. -/
def createDirectory (junk : Nat → Byte) (fuel : Nat) (file : OutFile) :
    Option (List Dirent) → Option (OutFile × Nat)
  | none => some (file, 0)
  | some listing => createEntries junk fuel file listing 0

/-- A label that `main` does not refuse. -/
structure Label extends CString where
  len : bytes.length ≤ 16

/-- `main`, once the arguments are checked and the target is open: the image. -/
def mkvfs (junk : Nat → Byte) (fuel : Nat) (label : Label) (source : Option (List Dirent)) :
    Option (Nat → Byte) :=
  let rootEntry : VfsEntry :=
    { name := [], offset := sizeofHeader, type := .directory, nextEntry := 0
      targetEntry := sizeofHeader + sizeofEntry, size := 0 }
  let image : OutFile := { data := fun _ => 0, pos := 0 }
  let image := image.fseekCur sizeofHeader
  let image := image.fwrite (rootEntry.bytes fun i => junk (sizeofHeader + i))
  match createDirectory junk fuel image source with
  | none => none
  | some (image, size) =>
    let header : VfsHeader :=
      { signature := VFS_SIGNATURE, version := 1, label := label.bytes
        size := u32 (rootEntry.targetEntry + size), rootEntry := rootEntry.offset }
    let image := image.fseekSet 0
    some (image.fwrite (header.bytes junk)).data

end MishaOS
