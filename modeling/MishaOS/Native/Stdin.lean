import MishaOS.ForStd.Ring
import MishaOS.Native.Word

/-!
# Standard input

`stdin_read` and `stdin_write` of `process.c`: the context of the descriptor is
a page that is used as a circular buffer.  A key press is one call of
`stdin_write` with one byte.
-/

namespace MishaOS

open Ring

/-- The fields of `file_descriptor_t` that a read and a write of standard input use. -/
structure FileDescriptor where
  context : Nat → BitVec 8
  position : Nat
  length : Nat

/-- The bytes that are copied to the buffer of the caller, and the descriptor. -/
def stdinRead (fd : FileDescriptor) (len : Nat) : List (BitVec 8) × FileDescriptor :=
  let toRead := if len < fd.length then len else fd.length
  if toRead = 0 then ([], fd)
  else
    let (copied, toRead, fd) :=
      if u32 (fd.position + toRead) ≥ 0x1000 then
        let readToEnd := sub32 0x1000 fd.position
        if readToEnd ≠ 0 then
          (slice fd.context fd.position readToEnd, sub32 toRead readToEnd,
            { fd with length := sub32 fd.length readToEnd, position := 0 })
        else ([], toRead, { fd with position := 0 })
      else ([], toRead, fd)
    (copied ++ slice fd.context fd.position toRead,
      { fd with position := u32 (fd.position + toRead), length := sub32 fd.length toRead })

/-- `buf` is what the caller wants to write; `position` is not moved. -/
def stdinWrite (fd : FileDescriptor) (buf : List (BitVec 8)) : FileDescriptor :=
  let toWrite := if buf.length < 0x1000 then buf.length else 0x1000
  if toWrite = 0 then fd
  else
    let (buf, toWrite, writePosition, fd) :=
      if u32 (fd.position + toWrite) ≥ 0x1000 then
        let writeToEnd := sub32 0x1000 fd.position
        if writeToEnd ≠ 0 then
          (buf.drop writeToEnd, sub32 toWrite writeToEnd, 0,
            { fd with
              context := blit fd.context fd.position (buf.take writeToEnd)
              length := u32 (fd.length + writeToEnd) })
        else (buf, toWrite, 0, fd)
      else (buf, toWrite, fd.position, fd)
    { fd with
      context := blit fd.context writePosition (buf.take toWrite)
      length := u32 (fd.length + toWrite) }

/-- A piece of the page. -/
structure Piece where
  offset : Nat
  count : Nat
deriving DecidableEq

/-- The pieces that `memcpy` gets, in order, for `count` bytes from `position` on. -/
def pagePieces (position count : Nat) : List Piece :=
  if count = 0 then []
  else if u32 (position + count) ≥ 0x1000 then
    let toEnd := sub32 0x1000 position
    if toEnd ≠ 0 then [⟨position, toEnd⟩, ⟨0, sub32 count toEnd⟩] else [⟨0, count⟩]
  else [⟨position, count⟩]

/-- The pieces `stdin_read` copies from. -/
def stdinReadPieces (fd : FileDescriptor) (len : Nat) : List Piece :=
  let toRead := if len < fd.length then len else fd.length
  pagePieces fd.position toRead

/-- What `stdin_read` returns. -/
def stdinReadResult (fd : FileDescriptor) (len : Nat) : Int :=
  let toRead := if len < fd.length then len else fd.length
  if toRead = 0 then 0
  else
    let readBytes := toRead
    (BitVec.ofNat 32 readBytes).toInt

/-- The pieces `stdin_write` copies to. -/
def stdinWritePieces (fd : FileDescriptor) (buf : List (BitVec 8)) : List Piece :=
  let toWrite := if buf.length < 0x1000 then buf.length else 0x1000
  pagePieces fd.position toWrite

/-! ## Calls on one descriptor -/

structure Stdin where
  fd : FileDescriptor
  /-- What has been written so far. -/
  written : List (BitVec 8)
  /-- What the reads have returned so far. -/
  returned : List (BitVec 8)

inductive StdinOp
  | write (buf : List (BitVec 8))
  | read (len : Nat)

def stdinStep (s : Stdin) : StdinOp → Option Stdin
  | .write buf => some { s with fd := stdinWrite s.fd buf, written := s.written ++ buf }
  | .read len =>
    let (bytes, fd) := stdinRead s.fd len
    some { s with fd := fd, returned := s.returned ++ bytes }

end MishaOS
