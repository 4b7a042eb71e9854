import MishaOS.Native.BootMap

/-!
# Detecting memory

`detect_memory` of `lgbt/memorymap.c` against the answers of the BIOS to
`INT 15h`.  A call that fails stores nothing and does not return the
signature.  Of each slot of the caller's buffer we also note who wrote it last,
which the code does not see.
-/

namespace MishaOS

/-- The answer to one call with `0xE820`. -/
structure E820Answer where
  /-- `eax` -/
  signature : BitVec 32
  /-- `ecx`: how much was stored. -/
  bytes : Int
  /-- `ebx` -/
  contId : BitVec 32
  entry : SmapEntry
deriving DecidableEq

/-- The answer to the call with `0xE801`. -/
structure E801Answer where
  ax : BitVec 16
  bx : BitVec 16
  cx : BitVec 16
  dx : BitVec 16
deriving DecidableEq

inductive SlotWriter
  /-- The call with `0xE820` of this number. -/
  | e820 (call : Nat)
  | e801
deriving DecidableEq

structure Slot where
  entry : SmapEntry
  writer : Option SlotWriter
deriving DecidableEq

/-- `buffer` is the slot the pointer has been advanced to. -/
structure DetectState where
  slots : Nat → Slot
  buffer : Nat
  entries : Int

def SMAP_SIGNATURE : BitVec 32 := 0x534D4150

/-- What the BIOS leaves in the slot at `buffer`: an answer of 20 bytes ends before `acpi`. -/
def e820Write (s : DetectState) (call : Nat) (a : E820Answer) : DetectState :=
  if a.signature = SMAP_SIGNATURE then
    let entry := if a.bytes > 20 then a.entry
      else { a.entry with acpi := (s.slots s.buffer).entry.acpi }
    { s with slots := Function.update s.slots s.buffer ⟨entry, some (.e820 call)⟩ }
  else s

/-- The loop; `answers` are the answers to the calls it makes, so it ends with the last one. -/
def e820Loop (count : Int) : List E820Answer → Nat → DetectState → Option DetectState
  | [], _, _ => none
  | a :: answers, call, s =>
    let s := e820Write s call a
    if a.signature ≠ SMAP_SIGNATURE then
      -- the loop is left, so no call comes after this one
      if answers.isEmpty then some { s with entries := -1 } else none
    else
      let s :=
        -- `ACPI & 1` clear means that the entry does not count; the code has it the other way round
        if a.bytes > 20 ∧ (s.slots s.buffer).entry.acpi &&& 1 ≠ 0 then s
        else { s with buffer := s.buffer + 1, entries := s.entries + 1 }
      if a.contId ≠ 0 ∧ s.entries < count then e820Loop count answers (call + 1) s
      else if answers.isEmpty then some s else none

/-- The five stores through `buffer`; `base2` and `length2` are 0. -/
def e801Write (s : DetectState) (base1 length1 type : BitVec 32) : DetectState :=
  let entry := { (s.slots s.buffer).entry with
    base1 := base1, base2 := 0, length1 := length1, length2 := 0, type := type }
  { s with slots := Function.update s.slots s.buffer ⟨entry, some .e801⟩ }

def DetectState.advance (s : DetectState) : DetectState := { s with buffer := s.buffer + 1 }

/-- The registers that are used: some BIOSes answer in `cx` and `dx` only. -/
def E801Answer.registers (r : E801Answer) : BitVec 16 × BitVec 16 :=
  if r.ax = 0 ∧ r.bx = 0 then (r.cx, r.dx) else (r.ax, r.bx)

def e801Fallback (s : DetectState) (r : E801Answer) : Int × DetectState :=
  let (ax, bx) := r.registers
  let ah : BitVec 8 := (ax >>> 8).setWidth 8
  -- unsupported function, or invalid command
  if ah = 0x86 ∨ ah = 0x80 then (-1, s)
  else
    let to16mbBytes : BitVec 32 := ax.setWidth 32 * 1024
    let above16mbBytes : BitVec 32 := bx.setWidth 32 * 64 * 1024
    let entries := 3
    let s := (e801Write s 0 0x100000 2).advance
    let s := (e801Write s 0x100000 to16mbBytes 1).advance
    let s := e801Write s (0x100000 + to16mbBytes) (15 * 0x100000 - to16mbBytes) 2
    let (s, entries) :=
      -- the hole below 16 MiB is an entry only if there is one; otherwise it is written over
      if (s.slots s.buffer).entry.length1 ≠ 0 then (s.advance, entries + 1) else (s, entries)
    let s := e801Write s (16 * 0x100000) above16mbBytes 1
    (entries, s)

/-- What `detect_memory` returns and how it leaves the buffer. -/
def detectMemory (slots : Nat → Slot) (count : Int) (answers : List E820Answer) (r : E801Answer) :
    Option (Int × DetectState) :=
  (e820Loop count answers 0 ⟨slots, 0, 0⟩).map fun s =>
    -- the pointer is not set back to the first slot
    if s.entries ≤ 0 then e801Fallback s r else (s.entries, s)

end MishaOS
