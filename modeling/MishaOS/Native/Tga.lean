import MishaOS.ForStd.CInt
import MishaOS.Native.Word
import Mathlib.Logic.Function.Basic

/-!
# Pictures

`tga_parse` reads a TGA file into an array of pixels with the width and the
height in front, which the caller has made large enough for both.  The file is
a list of bytes: a read behind its end, a write that is not to one of the pixels
and an overflow of an `int` have no result.

The four kinds of pictures share two loops.  Uncompressed pixels are read row by
row; packets are read one after the other, and the index of the destination is
moved to another row whenever one is full.
-/

namespace MishaOS

/-- The bytes of the header that `tga_parse` looks at. -/
structure TgaHeader where
  mapType : Byte
  imageType : Byte
  mapStart : Byte
  mapStartHigh : Byte
  mapLength : Byte
  mapLengthHigh : Byte
  mapDepth : Byte
  /-- `o` -/
  origin : Nat
  w : Nat
  h : Nat
  depth : Byte

/-- The header has 18 bytes. -/
def tgaHeader : List Byte → Option TgaHeader
  | _ :: p1 :: p2 :: p3 :: p4 :: p5 :: p6 :: p7 :: _ :: _ :: p10 :: p11 :: p12 :: p13 :: p14 ::
    p15 :: p16 :: _ :: _ =>
    some {
      mapType := p1
      imageType := p2
      mapStart := p3
      mapStartHigh := p4
      mapLength := p5
      mapLengthHigh := p6
      mapDepth := p7
      origin := p11.toNat * 256 + p10.toNat
      w := p13.toNat * 256 + p12.toNat
      h := p15.toNat * 256 + p14.toNat
      depth := p16 }
  | _ => none

/-- `m`: where the pixels start. -/
def TgaHeader.m (t : TgaHeader) : Nat :=
  (if t.mapType ≠ 0 then (t.mapDepth >>> 3).toNat * t.mapLength.toNat else 0) + 18

/-- `!o ? h - y - 1 : y` -/
def TgaHeader.row (t : TgaHeader) (y : Nat) : Int := if t.origin = 0 then t.h - y - 1 else y

/-- The colour at offset `j`. -/
def tgaPixel (ptr : List Byte) (depth : Byte) (j : Nat) : Option (BitVec 32) := do
  -- without a fourth byte the pixel is opaque
  let a ← if depth = 32 then ptr[j + 3]? else some 0xFF
  let r ← ptr[j + 2]?
  let g ← ptr[j + 1]?
  let b ← ptr[j]?
  return a ++ r ++ g ++ b

/-- The colour in the palette, whose index is at offset `k`. -/
def tgaMapped (ptr : List Byte) (t : TgaHeader) (k : Nat) : Option (BitVec 32) := do
  let index ← ptr[k]?
  tgaPixel ptr t.mapDepth (index.toNat * (t.mapDepth >>> 3).toNat + 18)

/-- `i`, `y` and the array. -/
structure TgaOut where
  i : Int
  y : Nat
  data : Nat → BitVec 32

/-- `data[2 + i++] = v` -/
def TgaOut.put (s : TgaOut) (t : TgaHeader) (v : BitVec 32) : Option TgaOut :=
  if 0 ≤ s.i ∧ s.i < t.w * t.h then
    some { s with i := s.i + 1, data := Function.update s.data (2 + s.i.toNat) v }
  else none

/-! ## Uncompressed pixels -/

/-- The loop over `x`, from offset `j` on. -/
def tgaRow (t : TgaHeader) (read : Nat → Option (BitVec 32)) (stride : Nat) :
    Nat → Nat → TgaOut → Option TgaOut
  | 0, _, s => some s
  | n + 1, j, s => do
    let v ← read j
    let s ← s.put t v
    let j ← CInt.checked (j + stride)
    tgaRow t read stride n j.toNat s

/-- The loop over `y`; `first` is the offset of the first pixel of a row. -/
def tgaRows (t : TgaHeader) (read : Nat → Option (BitVec 32)) (stride : Nat)
    (first : Int → Option Int) :
    Nat → TgaOut → Option TgaOut
  | 0, s => some s
  | n + 1, s => do
    let j ← first (t.row s.y)
    let s ← tgaRow t read stride t.w j.toNat s
    tgaRows t read stride first n { s with y := s.y + 1 }

/-- Type 1. -/
def tgaType1 (t : TgaHeader) (ptr : List Byte) (data : Nat → BitVec 32) : Option TgaOut :=
  tgaRows t (fun k => tgaMapped ptr t (t.m + k)) 1
    (fun row => CInt.checked (row * t.w)) t.h ⟨0, 0, data⟩

/-- Type 2. -/
def tgaType2 (t : TgaHeader) (ptr : List Byte) (data : Nat → BitVec 32) : Option TgaOut :=
  tgaRows t (tgaPixel ptr t.depth) (t.depth >>> 3).toNat
    (fun row => do CInt.checked ((← CInt.checked (row * t.w)) * (t.depth >>> 3).toNat)) t.h
      ⟨0, 0, data⟩

/-! ## Packets -/

/-- The next pixel: at the start of a row, `i` goes there. -/
def TgaOut.next (s : TgaOut) (t : TgaHeader) (v : BitVec 32) : Option TgaOut :=
  if s.i % t.w = 0 then TgaOut.put ⟨t.row s.y * t.w, s.y + 1, s.data⟩ t v else s.put t v

/-- `while (k--)` of a packet that repeats one pixel. -/
def tgaRepeat (t : TgaHeader) (v : BitVec 32) : Nat → TgaOut → Option TgaOut
  | 0, s => some s
  | k + 1, s => do tgaRepeat t v k (← s.next t v)

/-- `while (k--)` of a packet with `k` pixels. -/
def tgaCopy (t : TgaHeader) (read : Nat → Option (BitVec 32)) (stride : Nat) :
    Nat → Nat → TgaOut → Option TgaOut
  | 0, _, s => some s
  | k + 1, m, s => do
    let v ← read m
    tgaCopy t read stride k (m + stride) (← s.next t v)

/-- The loop over the packets.  Each moves `m` on, so there are at most `size` of them; `size` is
    an `int`, and `m` does not overflow before it leaves the file. -/
def tgaPackets (t : TgaHeader) (ptr : List Byte) (size : Nat) (read : Nat → Option (BitVec 32))
    (stride : Nat) :
    Nat → Int → Nat → TgaOut → Option TgaOut
  | 0, _, _, _ => none
  | fuel + 1, x, m, s => do
    -- `x` counts whole packets, and the end of the file is only looked for between them
    if x < (← CInt.checked (t.w * t.h)) ∧ m < size then
      let k := (← ptr[m]?).toNat
      let m := m + 1
      if k > 127 then
        -- a run of one pixel
        let k := k - 127
        let x ← CInt.checked (x + k)
        let s ← tgaRepeat t (← read m) k s
        tgaPackets t ptr size read stride fuel x (m + stride) s
      else
        let k := k + 1
        let x ← CInt.checked (x + k)
        let s ← tgaCopy t read stride k m s
        tgaPackets t ptr size read stride fuel x (m + k * stride) s
    else some s

/-- Type 9. -/
def tgaType9 (t : TgaHeader) (ptr : List Byte) (size : Nat) (data : Nat → BitVec 32) :
    Option TgaOut :=
  tgaPackets t ptr size (tgaMapped ptr t) 1 (size + 1) 0 t.m ⟨0, 0, data⟩

/-- Type 10. -/
def tgaType10 (t : TgaHeader) (ptr : List Byte) (size : Nat) (data : Nat → BitVec 32) :
    Option TgaOut :=
  tgaPackets t ptr size (tgaPixel ptr t.depth) (t.depth >>> 3).toNat (size + 1) 0 t.m ⟨0, 0, data⟩

/-! ## The file -/

/-- The test of the types with a palette. -/
def TgaHeader.badMap (t : TgaHeader) : Bool :=
  t.mapLengthHigh ≠ 0 || t.mapStartHigh ≠ 0 || t.mapStart ≠
    0 || (t.mapDepth ≠ 24 && t.mapDepth ≠ 32)

/-- The test of the types without one. -/
def TgaHeader.badTrue (t : TgaHeader) : Bool :=
  t.mapLength ≠ 0 || t.mapLengthHigh ≠ 0 || t.mapType ≠ 0 || (t.depth ≠ 24 && t.depth ≠ 32)

/-- `tga_parse` of a file of `size` bytes: what is in the array, or `none` for a null pointer. -/
def tgaParse (data : Nat → BitVec 32) (ptr : List Byte) (size : Nat) :
    Option (Option (Nat → BitVec 32)) := do
  let t ← tgaHeader ptr
  -- the width and the height come in front of the pixels
  let finish := fun s : TgaOut =>
    some (some (Function.update (Function.update s.data 0 (BitVec.ofNat 32 t.w)) 1
      (BitVec.ofNat 32 t.h)))
  if t.w < 1 ∨ t.h < 1 then return none
  else if t.imageType = 1 then
    if t.badMap then return none else tgaType1 t ptr data >>= finish
  else if t.imageType = 2 then
    if t.badTrue then return none else tgaType2 t ptr data >>= finish
  else if t.imageType = 9 then
    if t.badMap then return none else tgaType9 t ptr size data >>= finish
  else if t.imageType = 10 then
    if t.badTrue then return none else tgaType10 t ptr size data >>= finish
  else return none

end MishaOS
