import MishaOS.Native.Display

/-!
# The position of the mouse

`mouse_handle_packet` adds the movement to a position without a sign, and takes
the last 256 values of the word for places left of the screen.  A movement with
the overflow flag goes up to 511 pixels to the left or 510 down: behind the 256
places, the mouse jumps to the other edge.

## Key results

- `mouseClamp_eq_iff`: when the end of the computation is the nearest place on the screen.
- `mouse_handle_packet_iff`: the position behind a packet.
-/

namespace MishaOS

/-- The movement of a packet: nine bits with a sign, and 255 more if the counter overflowed. -/
def packetMove (sign overflow : Bool) (data : Byte) : Int :=
  (if sign then (data.toNat : Int) - 256 else data.toNat) + if overflow
    then (if sign then -255 else 255) else 0

/-- To the right. -/
def Mouse.moveX (m : Mouse) : Int :=
  packetMove (m.packet 0 &&& 0x10 ≠ 0) (m.packet 0 &&& 0x40 ≠ 0) (m.packet 1)

/-- Up. -/
def Mouse.moveY (m : Mouse) : Int :=
  packetMove (m.packet 0 &&& 0x20 ≠ 0) (m.packet 0 &&& 0x80 ≠ 0) (m.packet 2)

/-- The place of a screen with `size` pixels that is nearest to `v`. -/
def clampTo (size : Nat) (v : Int) : Nat := min v.toNat (size - 1)

variable {m : Mouse} {lfbWidth lfbHeight size v : BitVec 32} {p : Int}

theorem packetMove_bounds (sign overflow : Bool) (data : Byte) :
    -511 ≤ packetMove sign overflow data ∧ packetMove sign overflow data ≤ 510 := by
  have hlt := data.isLt
  unfold packetMove
  cases sign <;> cases overflow <;> simp only [if_true, if_false, Bool.false_eq_true] <;> omega

theorem mouseClamp_toNat (v size : BitVec 32) (hpos : 1 ≤ size.toNat) :
    (mouseClamp v size).toNat = if 4294967040 ≤ v.toNat then 0
      else min v.toNat (size.toNat - 1) := by
  have hone : (size - 1).toNat = size.toNat - 1 := by
    rw [BitVec.toNat_sub, show (1 : BitVec 32).toNat = 1 from rfl]
    omega
  have hlow : v ≥ 0xFFFFFF00 ↔ 4294967040 ≤ v.toNat := Iff.rfl
  unfold mouseClamp
  simp only [hlow]
  -- a coordinate that became negative is large as an unsigned one
  split
  · have hzero : ¬ (0 : BitVec 32) ≥ size := fun h => Nat.not_le.mpr hpos (BitVec.le_def.mp h)
    rw [if_neg hzero]
    rfl
  · split
    · rename_i h
      have hle : size.toNat ≤ v.toNat := h
      rw [hone]
      omega
    · rename_i h
      have hlt : ¬ size.toNat ≤ v.toNat := h
      omega

/-- The end of `mouse_handle_packet`, at the place `p` that is at most 511 pixels outside. -/
theorem mouseClamp_eq_iff (hv : v = BitVec.ofInt 32 p) (hge : -511 ≤ p) (hlt : p < size.toNat + 511)
    (hpos : 1 ≤ size.toNat) (hsize : size.toNat ≤ 2147483648) :
    (mouseClamp v size).toNat = clampTo size.toNat p ↔ -256 ≤ p ∨ size = 1 := by
  have hone : size = 1 ↔ size.toNat = 1 := BitVec.toNat_inj.symm
  -- a negative place is just below 2³², and only the last 256 of these are taken for negative
  have hmod : (v.toNat : Int) = p % 4294967296 := by
    rw [hv, BitVec.toNat_ofInt]
    omega
  rw [mouseClamp_toNat v size hpos, hone, clampTo]
  split
  · omega
  · omega

/-! ## The sums in the word -/

theorem word_add_ofInt (w : BitVec 32) (i : Int) :
    w + BitVec.ofInt 32 i = BitVec.ofInt 32 (w.toNat + i) := by
  rw [BitVec.ofInt_add, BitVec.ofInt_natCast, BitVec.ofNat_toNat, BitVec.setWidth_eq]

theorem word_sub_ofInt (w : BitVec 32) (i : Int) :
    w - BitVec.ofInt 32 i = BitVec.ofInt 32 (w.toNat - i) := by
  rw [Int.sub_eq_add_neg, ← word_add_ofInt, BitVec.ofInt_neg, BitVec.sub_eq_add_neg]

theorem setWidth_eq_ofInt (data : Byte) : data.setWidth 32 = BitVec.ofInt 32 data.toNat := by
  rw [BitVec.ofInt_natCast, BitVec.ofNat_toNat]

theorem word_sub_add (w a b : BitVec 32) : w - (a + b) = w - a + -b := by bv_omega

/-- The movement, as the code adds it up. -/
theorem packetMove_word (sign overflow : Bool) (data : Byte) :
    BitVec.ofInt 32 (packetMove sign overflow data) =
      (if sign then data.setWidth 32 - 256 else data.setWidth 32) +
        if overflow then (if sign then -255 else 255) else 0 := by
  have hsub : BitVec.ofInt 32 ((data.toNat : Int) - 256) = BitVec.ofInt 32 data.toNat - 256 := by
    rw [Int.sub_eq_add_neg, BitVec.ofInt_add, BitVec.ofInt_neg, ← BitVec.sub_eq_add_neg]
    rfl
  unfold packetMove
  rw [setWidth_eq_ofInt, BitVec.ofInt_add]
  cases sign <;> cases overflow
  case false.false => rfl
  case false.true => rfl
  case true.false => exact congrArg (· + _) hsub
  case true.true => exact congrArg (· + _) hsub

theorem mouseHandlePacket_x (m : Mouse) (hcomplete : m.packetBytes ≤ m.packetIndex) :
    (mouseHandlePacket m lfbWidth lfbHeight).x =
      mouseClamp (BitVec.ofInt 32 (m.x.toNat + m.moveX)) lfbWidth := by
  rw [← word_add_ofInt, Mouse.moveX, packetMove_word, mouseHandlePacket,
    if_neg (Nat.not_lt.mpr hcomplete)]
  dsimp only
  congr 1
  simp only [decide_eq_true_eq, ← BitVec.add_assoc]
  split
  · rfl
  · exact (BitVec.add_zero _).symm

theorem mouseHandlePacket_y (m : Mouse) (hcomplete : m.packetBytes ≤ m.packetIndex) :
    (mouseHandlePacket m lfbWidth lfbHeight).y =
      mouseClamp (BitVec.ofInt 32 (m.y.toNat - m.moveY)) lfbHeight := by
  rw [← word_sub_ofInt, Mouse.moveY, packetMove_word, mouseHandlePacket,
    if_neg (Nat.not_lt.mpr hcomplete)]
  dsimp only
  congr 1
  simp only [decide_eq_true_eq, word_sub_add]
  split
  · -- what the overflow adds has the sign of the movement
    split <;> rfl
  · exact (BitVec.add_zero _).symm

/-- The position behind a packet is the nearest place on the screen if and only if the movement
    ends at most 256 pixels outside, or the screen has no other place. -/
theorem mouse_handle_packet_iff (hcomplete : m.packetBytes ≤ m.packetIndex)
    (hx : m.x.toNat < lfbWidth.toNat)
    (hy : m.y.toNat < lfbHeight.toNat) (hwidth : lfbWidth.toNat ≤ 2147483648)
    (hheight : lfbHeight.toNat ≤ 2147483648) :
    ((mouseHandlePacket m lfbWidth lfbHeight).x.toNat =
      clampTo lfbWidth.toNat (m.x.toNat + m.moveX) ∧
      (mouseHandlePacket m lfbWidth lfbHeight).y.toNat =
        clampTo lfbHeight.toNat (m.y.toNat - m.moveY)) ↔
      (-256 ≤ m.x.toNat + m.moveX ∨ lfbWidth = 1) ∧
      (-256 ≤ m.y.toNat - m.moveY ∨ lfbHeight = 1) := by
  obtain ⟨hxlo, hxhi⟩ : -511 ≤ m.moveX ∧ m.moveX ≤ 510 := packetMove_bounds _ _ _
  obtain ⟨hylo, hyhi⟩ : -511 ≤ m.moveY ∧ m.moveY ≤ 510 := packetMove_bounds _ _ _
  rw [mouseHandlePacket_x m hcomplete, mouseHandlePacket_y m hcomplete,
    mouseClamp_eq_iff rfl (by omega) (by omega) (by omega) hwidth,
    mouseClamp_eq_iff rfl (by omega) (by omega) (by omega) hheight]

/-- A mouse at the left edge of a screen, and the first `n` pixels to the left with the overflow
    flag. -/
def mouseAtEdge (n : Byte) : Mouse where
  x := 0
  y := 100
  lastX := 0
  lastY := 100
  buttons := []
  dirty := false
  packet := fun i => if i = 0 then 0x58 else if i = 1 then n else 0
  packetIndex := 3
  packetBytes := 3
  rendered := true

/-- 256 pixels to the left of the edge. -/
theorem mouse_handle_packet_iff_edge :
    ((mouseHandlePacket (mouseAtEdge 0xFF) 1024 768).x.toNat =
        clampTo (1024 : BitVec 32).toNat ((mouseAtEdge 0xFF).x.toNat + (mouseAtEdge 0xFF).moveX) ∧
      (mouseHandlePacket (mouseAtEdge 0xFF) 1024 768).y.toNat =
        clampTo (768 : BitVec 32).toNat ((mouseAtEdge 0xFF).y.toNat - (mouseAtEdge 0xFF).moveY)) ↔
      (-256 ≤ (mouseAtEdge 0xFF).x.toNat + (mouseAtEdge 0xFF).moveX ∨ (1024 : BitVec 32) = 1) ∧
        (-256 ≤ (mouseAtEdge 0xFF).y.toNat - (mouseAtEdge 0xFF).moveY ∨ (768 : BitVec 32) = 1) :=
  mouse_handle_packet_iff (by decide) (by decide) (by decide) (by decide) (by decide)

/-- 257 pixels: the mouse is at the right edge. -/
theorem mouse_jumps : (mouseAtEdge 0xFE).moveX = -257 ∧
    (mouseHandlePacket (mouseAtEdge 0xFE) 1024 768).x.toNat = 1023 ∧
    clampTo (1024 : BitVec 32).toNat ((mouseAtEdge 0xFE).x.toNat + (mouseAtEdge 0xFE).moveX) =
      0 := by
  decide

end MishaOS
