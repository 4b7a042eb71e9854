import MishaOS.Native.FrameMap

/-!
# Paging at the boot

The part of `kernel_main` from the locks of the framebuffers to `enable_paging`.
For the framebuffers the values of the loop's variable are collected first, for
no body changes the variable.  The memory map is read while page tables are
requested.  `none` stands for a loop that does not end, and for a read of the
memory map that finds a page table there.
-/

namespace MishaOS

/-- `back_framebuffer` -/
def BACK_FRAMEBUFFER : Nat := 0x1020000

/-- `for (uint32_t i = ...; going; i += 0x1000)` -/
def pageLoop (going : Nat → Bool) : Nat → Nat → Option (List Nat)
  | 0, _ => none
  | n + 1, i => if going i then (pageLoop going n (u32 (i + 0x1000))).map (i :: ·) else some []

/-- What `kernel_main` knows of the screen. -/
structure Framebuffer where
  width : BitVec 32
  height : BitVec 32
  linear : BitVec 32

/-- `lfb_height * lfb_width * 4` -/
def Framebuffer.size (f : Framebuffer) : BitVec 32 := f.height * f.width * 4

def Framebuffer.backPages (f : Framebuffer) : Option (List Nat) :=
  pageLoop (fun i => i ≤ u32 (BACK_FRAMEBUFFER + f.size.toNat)) walkFuel BACK_FRAMEBUFFER

def Framebuffer.linearPages (f : Framebuffer) : Option (List Nat) :=
  pageLoop (fun i => i < (f.linear + f.size + 0x1000).toNat) walkFuel f.linear.toNat

/-- `pde_map_memory` of a page to itself. -/
def identityMap (d : Nat) (m : Paging) (i : Nat) : Paging := pdeMapMemory m d i i

/-- An entry of the memory map, and the address at which it stands. -/
structure PlacedEntry extends MemoryMapEntry where
  place : Nat

/-- `struct multiboot`, and the entries that `mmap_addr` and `mmap_length` tell of. -/
structure MultibootMap where
  header : Nat
  entries : List PlacedEntry

def MultibootMap.multiboot (map : MultibootMap) : List MemoryMapEntry :=
  map.entries.map PlacedEntry.toMemoryMapEntry

/-- A page table stands over some of the `n` bytes from `a` on. -/
def Paging.TableOver (m : Paging) (d a n : Nat) : Prop :=
  ∃ i < 1024, (m.dir d).tables i ≠ 0 ∧ (m.dir d).tables i < a + n ∧ a < (m.dir d).tables i + 0x1000

instance (m : Paging) (d a n : Nat) : Decidable (m.TableOver d a n) :=
  inferInstanceAs (Decidable (∃ _ < _, _))

/-- The loop over the pages of an entry.  The entry is read in each round, from memory that a page
    table may have taken by then. -/
def mapEntry (d : Nat) (entry : PlacedEntry) : Nat → BitVec 64 → Paging → Option Paging
  | 0, _, _ => none
  | n + 1, i, m =>
    if m.TableOver d entry.place 24 then none
    else if i < entry.len then
      let address := entry.addr + i
      -- the last page below 4 GiB is left out
      if address > 0xFFFFFFFF - 0x1000 then some m
      else mapEntry d entry n (i + 0x1000) (identityMap d m address.toNat)
    else some m

/-- The loop over the entries; their end is read from `struct multiboot`. -/
def mapEntries (d header : Nat) : List PlacedEntry → Paging → Option Paging
  | [], m => if m.TableOver d header 120 then none else some m
  | entry :: entries, m =>
    if m.TableOver d header 120 then none
    else (mapEntry d entry walkFuel 0 m).bind (mapEntries d header entries)

/-- Locks the framebuffers, maps them and the memory, and enables paging. -/
def kernelPaging (m : Paging) (d : Nat) (f : Framebuffer) (map : MultibootMap) : Option Paging := do
  let back ← f.backPages
  let linear ← f.linearPages
  let m := { m with pfa := linear.foldl pfaLockPage (back.foldl pfaLockPage m.pfa) }
  let m := pdeInit m d
  let m := linear.foldl (identityMap d) (back.foldl (identityMap d) m)
  let m ← mapEntries d map.header map.entries m
  some (enablePaging m d)

end MishaOS
