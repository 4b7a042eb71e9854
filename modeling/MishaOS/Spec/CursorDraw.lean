import MishaOS.ForStd.Run
import MishaOS.Native.Display

/-!
# The cursor on the screen

The cursor is drawn into the framebuffer only.  The packet handler notes where
the mouse was, and this is where the cursor was drawn last, because a packet is
never handled without a redraw after it.

## Key results

- `mouseRenderCursor_back`: drawing the cursor leaves the back buffer alone.
- `redraw_same_outside`: after every redraw the framebuffer has the picture of
  the back buffer, but for the rectangle of the cursor.
-/

namespace MishaOS

variable {s s' : Screen} {back : Pixels} {x y color px py : BitVec 32} {d d' : Display}
  {hidden hidden' : BitVec 32 → BitVec 32 → Prop}

/-! ## Pixels -/

/-- The rectangle of the cursor at `(px, py)`. -/
def InCursor (px py x y : BitVec 32) : Prop :=
  (px.toNat ≤ x.toNat ∧ x.toNat < px.toNat + 16) ∧ py.toNat ≤ y.toNat ∧ y.toNat < py.toNat + 20

/-- The framebuffer has the picture of the back buffer, but for the pixels that are hidden. -/
def SameOutside (s : Screen) (hidden : BitVec 32 → BitVec 32 → Prop) : Prop :=
  ∃ back, s.backBuffer = some back ∧
    ∀ x y, x < s.width → y < s.height → ¬ hidden x y →
      s.framebuffer (x + y * s.width) = back (x + y * s.width)

/-- More may be hidden. -/
theorem SameOutside.mono (h : SameOutside s hidden) (hle : ∀ x y, hidden x y → hidden' x y) :
    SameOutside s hidden' := by
  obtain ⟨back, hback, hsame⟩ := h
  exact ⟨back, hback, fun x y hx hy hnot => hsame x y hx hy fun hh => hnot (hle x y hh)⟩

/-- The screen has fewer than 2^30 pixels. -/
theorem Screen.area_lt (s : Screen) : s.width.toNat * s.height.toNat < 1073741824 := by
  have hfits := s.fits
  omega

/-- The offset of a pixel on the screen does not wrap around. -/
theorem Screen.toNat_offset (s : Screen) (hx : x < s.width) (hy : y < s.height) :
    (x + y * s.width).toNat = x.toNat + y.toNat * s.width.toNat ∧
      x.toNat + y.toNat * s.width.toNat < s.width.toNat * s.height.toNat := by
  have hx' : x.toNat < s.width.toNat := hx
  have hy' : y.toNat < s.height.toNat := hy
  have harea := s.area_lt
  have hlt : x.toNat + y.toNat * s.width.toNat < s.width.toNat * s.height.toNat := calc
    x.toNat + y.toNat * s.width.toNat < (y.toNat + 1) * s.width.toNat := by rw [Nat.succ_mul]; omega
    _ ≤ s.height.toNat * s.width.toNat := Nat.mul_le_mul_right _ hy'
    _ = s.width.toNat * s.height.toNat := Nat.mul_comm ..
  refine ⟨?_, hlt⟩
  rw [BitVec.toNat_add, BitVec.toNat_mul,
    Nat.mod_eq_of_lt (a := y.toNat * s.width.toNat) (by omega)]
  exact Nat.mod_eq_of_lt (by omega)

/-- Different pixels are at different places. -/
theorem Screen.offset_inj (s : Screen) {x' y' : BitVec 32} (hx : x < s.width) (hy : y < s.height)
    (hx' : x' < s.width) (hy' : y' < s.height) (heq : x + y * s.width = x' + y' * s.width) :
    x = x' ∧ y = y' := by
  have hnat := congrArg BitVec.toNat heq
  rw [(s.toNat_offset hx hy).1, (s.toNat_offset hx' hy').1] at hnat
  have hxlt : x.toNat < s.width.toNat := hx
  have hxlt' : x'.toNat < s.width.toNat := hx'
  have hmod := congrArg (· % s.width.toNat) hnat
  simp only [Nat.add_mul_mod_self_right, Nat.mod_eq_of_lt hxlt, Nat.mod_eq_of_lt hxlt'] at hmod
  rw [hmod] at hnat
  have hrow : y.toNat * s.width.toNat = y'.toNat * s.width.toNat := Nat.add_left_cancel hnat
  exact ⟨BitVec.eq_of_toNat_eq hmod,
    BitVec.eq_of_toNat_eq (Nat.eq_of_mul_eq_mul_right (by omega) hrow)⟩

/-- Drawing a pixel keeps the width. -/
@[simp] theorem lfbSetPixel_width (s : Screen) (x y color : BitVec 32) :
    (lfbSetPixel s x y color).width = s.width := by
  unfold lfbSetPixel
  split <;> rfl

/-- It keeps the height. -/
@[simp] theorem lfbSetPixel_height (s : Screen) (x y color : BitVec 32) :
    (lfbSetPixel s x y color).height = s.height := by
  unfold lfbSetPixel
  split <;> rfl

/-- A pixel that is set is set in both buffers. -/
theorem SameOutside.setPixel (h : SameOutside s hidden) (x y color : BitVec 32) :
    SameOutside (lfbSetPixel s x y color) hidden := by
  obtain ⟨back, hback, hsame⟩ := h
  unfold lfbSetPixel
  split
  · exact ⟨back, hback, hsame⟩
  · refine ⟨Function.update back (x + y * s.width) color,
      by dsimp only; rw [hback]; rfl, fun x' y' hx' hy' hnot => ?_⟩
    dsimp only
    rw [Function.update_apply, Function.update_apply, hsame x' y' hx' hy' hnot]

/-! ## Restoring and drawing -/

/-- A screen of this size with this back buffer. -/
structure HasBack (s s₀ : Screen) (back : Pixels) : Prop where
  width : s.width = s₀.width
  height : s.height = s₀.height
  back : s.backBuffer = some back

/-- Setting a pixel to what it is in the back buffer. -/
theorem restorePixel (h : HasBack s s' back) (x y : BitVec 32) :
    HasBack (lfbSetPixel s x y (lfbGetPixel s x y)) s' back ∧
      (∀ o, s.framebuffer o = back o →
        (lfbSetPixel s x y (lfbGetPixel s x y)).framebuffer o = back o) ∧
      (x < s'.width → y < s'.height →
        (lfbSetPixel s x y (lfbGetPixel s x y)).framebuffer (x + y * s'.width) =
          back (x + y * s'.width)) := by
  obtain ⟨hwidth, hheight, hback⟩ := h
  unfold lfbSetPixel lfbGetPixel
  -- off the screen nothing is set
  split
  · rename_i hout
    refine ⟨⟨hwidth, hheight, hback⟩, fun o ho => ho, fun hx hy => ?_⟩
    rw [hwidth, hheight] at hout
    exact absurd hout (not_or.mpr ⟨BitVec.not_le.mpr hx, BitVec.not_le.mpr hy⟩)
  -- on it the pixel of the back buffer is written, to both buffers
  · rw [hback]
    dsimp only
    refine ⟨⟨hwidth, hheight, ?_⟩, fun o ho => ?_, fun _ _ => ?_⟩
    · rw [Option.map_some, Function.update_eq_self]
    · rw [Function.update_apply]
      split
      · rename_i heq
        rw [heq]
      · exact ho
    · rw [← hwidth, Function.update_self]

/-- The place of a pixel in the rectangle. -/
theorem exists_offset {p x : BitVec 32} {n : Nat} (hle : p.toNat ≤ x.toNat)
    (hlt : x.toNat < p.toNat + n) :
    ∃ k < n, x = p + BitVec.ofNat 32 k := by
  have hx := x.isLt
  refine ⟨x.toNat - p.toNat, by omega, BitVec.eq_of_toNat_eq ?_⟩
  rw [BitVec.toNat_add, BitVec.toNat_ofNat]
  omega

/-- Restoring the rectangle of the cursor makes the buffers equal. -/
theorem mouseRestoreBuffer_same (hback : s.backBuffer = some back)
    (h : ∀ x y, x < s.width → y < s.height → ¬ InCursor px py x y →
      s.framebuffer (x + y * s.width) = back (x + y * s.width)) :
    HasBack (mouseRestoreBuffer s px py) s back ∧
      ∀ x y, x < s.width → y < s.height →
        (mouseRestoreBuffer s px py).framebuffer (x + y * s.width) = back (x + y * s.width) := by
  have hstart : HasBack s s back := ⟨rfl, rfl, hback⟩
  have hinv : HasBack (mouseRestoreBuffer s px py) s back :=
    grid_invariant (fun s' => HasBack s' s back)
      (fun s' _ _ _ _ hs => (restorePixel hs _ _).1) hstart
  refine ⟨hinv, fun x y hx hy => ?_⟩
  -- inside the rectangle the pixel is set, outside it was right before
  by_cases hin : InCursor px py x y
  · obtain ⟨⟨hx₁, hx₂⟩, hy₁, hy₂⟩ := hin
    obtain ⟨i, hi, rfl⟩ := exists_offset hx₁ hx₂
    obtain ⟨j, hj, rfl⟩ := exists_offset hy₁ hy₂
    unfold mouseRestoreBuffer
    refine grid_establish (P := fun s' =>
      s'.framebuffer (px + BitVec.ofNat 32 i + (py + BitVec.ofNat 32 j) * s.width) =
      back (px + BitVec.ofNat 32 i + (py + BitVec.ofNat 32 j) * s.width)) (fun s' =>
        HasBack s' s back) hi hj
      (fun s' x' y' _ _ hs => ?_) (fun s' hs => ?_) hstart
    · obtain ⟨hs', hkeep, -⟩ := restorePixel hs (px + BitVec.ofNat 32 x') (py + BitVec.ofNat 32 y')
      exact ⟨hs', hkeep _⟩
    · exact (restorePixel hs _ _).2.2 hx hy
  -- the other pixels are not touched by any round
  · have hboth : HasBack (mouseRestoreBuffer s px py) s back ∧
        (mouseRestoreBuffer s px py).framebuffer (x + y * s.width) = back (x + y * s.width) := by
      unfold mouseRestoreBuffer
      refine grid_invariant (fun s' => HasBack s' s back ∧
        s'.framebuffer (x + y * s.width) = back (x + y * s.width))
        (fun s' x' y' _ _ hs => ?_) ⟨hstart, h x y hx hy hin⟩
      obtain ⟨hs', hkeep, -⟩ :=
        restorePixel hs.1 (px + BitVec.ofNat 32 x') (py + BitVec.ofNat 32 y')
      exact ⟨hs', hkeep _ hs.2⟩
    exact hboth.2

/-- The mouse is on a screen that has pixels. -/
def OnScreen (s : Screen) (px py : BitVec 32) : Prop :=
  (s.width = 0 ∨ px < s.width) ∧ (s.height = 0 ∨ py < s.height)

/-- A coordinate stays on the screen, unless there is none. -/
theorem toNat_lt_of_axis {p size a : BitVec 32} (hp : size = 0 ∨ p < size)
    (ha : a.toNat < size.toNat) :
    p.toNat < size.toNat := by
  rcases hp with hzero | hlt
  · rw [hzero] at ha
    exact absurd ha (Nat.not_lt_zero _)
  · exact hlt

/-- Zero is on the screen, unless there is none. -/
theorem axis_zero (size : BitVec 32) : size = 0 ∨ 0 < size := by
  by_cases hzero : size = 0
  · exact .inl hzero
  · exact .inr (Nat.pos_of_ne_zero fun h => hzero (BitVec.eq_of_toNat_eq h))

/-- A pixel of the cursor that is on the screen is in its rectangle: the coordinates do not wrap
    around. -/
theorem inCursor_of_lt {i j : Nat} (hon : OnScreen s px py) (hi : i < CURSOR_WIDTH)
    (hj : j < CURSOR_HEIGHT)
    (hx : px + BitVec.ofNat 32 i < s.width) (hy : py + BitVec.ofNat 32 j < s.height) :
    InCursor px py (px + BitVec.ofNat 32 i) (py + BitVec.ofNat 32 j) := by
  have hi : i < 16 := hi
  have hj : j < 20 := hj
  have hx : (px + BitVec.ofNat 32 i).toNat < s.width.toNat := hx
  have hy : (py + BitVec.ofNat 32 j).toNat < s.height.toNat := hy
  -- the screen has less than 2^30 pixels, so a cursor at its edge does not wrap
  have harea := s.area_lt
  have hwidth : s.width.toNat < 1073741824 :=
    Nat.lt_of_le_of_lt (Nat.le_mul_of_pos_right _ (by omega)) harea
  have hheight : s.height.toNat < 1073741824 :=
    Nat.lt_of_le_of_lt (Nat.le_mul_of_pos_left _ (by omega)) harea
  have hpx : px.toNat < s.width.toNat := toNat_lt_of_axis hon.1 hx
  have hpy : py.toNat < s.height.toNat := toNat_lt_of_axis hon.2 hy
  unfold InCursor
  rw [BitVec.toNat_add, BitVec.toNat_add, BitVec.toNat_ofNat, BitVec.toNat_ofNat]
  omega

/-- Drawing the cursor changes pixels of its rectangle only. -/
theorem mouseDrawCursor_same (hback : s.backBuffer = some back)
    (h : ∀ x y, x < s.width → y < s.height →
      s.framebuffer (x + y * s.width) = back (x + y * s.width))
    (hon : OnScreen s px py) (cursor : Nat → BitVec 32) :
    SameOutside (mouseDrawCursor s px py cursor) (InCursor px py) := by
  have hdraw : HasBack (mouseDrawCursor s px py cursor) s back ∧
      ∀ x y, x < s.width → y < s.height → ¬ InCursor px py x y →
        (mouseDrawCursor s px py cursor).framebuffer (x + y * s.width) =
          back (x + y * s.width) := by
    refine grid_invariant (fun s' => HasBack s' s back ∧ ∀ x y, x < s.width → y < s.height →
      ¬ InCursor px py x y →
      s'.framebuffer (x + y * s.width) = back (x + y * s.width)) (fun s' i j hi hj hs => ?_)
      ⟨⟨rfl, rfl, hback⟩, fun x y hx hy _ => h x y hx hy⟩
    obtain ⟨⟨hwidth, hheight, hback'⟩, hsame⟩ := hs
    dsimp only
    split
    · exact ⟨⟨hwidth, hheight, hback'⟩, hsame⟩
    · split
      · exact ⟨⟨hwidth, hheight, hback'⟩, hsame⟩
      · rename_i hout
        rw [hwidth, hheight, not_or] at hout
        have hx' := BitVec.not_le.mp hout.1
        have hy' := BitVec.not_le.mp hout.2
        refine ⟨⟨hwidth, hheight, hback'⟩, fun x y hx hy hnot => ?_⟩
        dsimp only
        rw [hwidth]
        -- another pixel of the screen has another offset
        have hne : x + y * s.width ≠ px + BitVec.ofNat 32 i +
            (py + BitVec.ofNat 32 j) * s.width := by
          intro heq
          obtain ⟨rfl, rfl⟩ := s.offset_inj hx hy hx' hy' heq
          exact hnot (inCursor_of_lt hon hi hj hx' hy')
        rw [Function.update_of_ne hne]
        exact hsame x y hx hy hnot
  obtain ⟨⟨hwidth, hheight, hback'⟩, hsame⟩ := hdraw
  refine ⟨back, hback', fun x y hx hy hnot => ?_⟩
  rw [hwidth] at hx ⊢
  rw [hheight] at hy
  exact hsame x y hx hy hnot

/-- Drawing the cursor leaves the back buffer alone. -/
theorem mouseRenderCursor_back (d : Display) :
    (mouseRenderCursor d).screen.backBuffer = d.screen.backBuffer := by
  -- both loops set pixels of the framebuffer, or of both buffers to what they were
  have hdraw : ∀ (s : Screen) px py, (mouseDrawCursor s px py d.cursor).backBuffer =
      s.backBuffer := by
    intro s px py
    refine grid_invariant (fun s' : Screen => s'.backBuffer = s.backBuffer)
      (fun s' i j _ _ hs => ?_) rfl
    dsimp only
    split
    · exact hs
    · split
      · exact hs
      · exact hs
  have hrestore : ∀ (s : Screen) px py, (mouseRestoreBuffer s px py).backBuffer = s.backBuffer := by
    intro s px py
    refine grid_invariant (fun s' : Screen => s'.backBuffer = s.backBuffer)
      (fun s' i j _ _ hs => ?_) rfl
    dsimp only
    generalize px + BitVec.ofNat 32 i = x
    generalize py + BitVec.ofNat 32 j = y
    rw [← hs]
    -- without a back buffer there is nothing to keep
    cases hback : s'.backBuffer with
    | none =>
      unfold lfbSetPixel
      split
      · exact hback
      · dsimp only
        rw [hback, Option.map_none]
    | some back =>
      have hstart : HasBack s' s' back := ⟨rfl, rfl, hback⟩
      exact (restorePixel hstart x y).1.back
  unfold mouseRenderCursor
  -- a cursor that has not moved is not drawn again
  split
  · rfl
  · dsimp only
    split
    · exact (hdraw _ _ _).trans (hrestore _ _ _)
    · exact hdraw _ _ _

/-! ## The mouse -/

/-- The clamped coordinate is on the screen. -/
theorem mouseClamp_lt (v size : BitVec 32) : size = 0 ∨ mouseClamp v size < size := by
  by_cases hsize : size = 0
  · exact .inl hsize
  · refine .inr ?_
    have hpos : size.toNat ≠ 0 := fun h => hsize (BitVec.eq_of_toNat_eq h)
    unfold mouseClamp
    dsimp only
    generalize (if v ≥ 0xFFFFFF00 then 0 else v) = v
    split
    · show (size - 1).toNat < size.toNat
      have hlt := size.isLt
      rw [BitVec.toNat_sub, show (1 : BitVec 32).toNat = 1 from rfl]
      omega
    · rename_i hlt
      exact BitVec.not_le.mp hlt

/-- A packet that is handled leaves the mouse on the screen, and notes where it was. -/
theorem mouseHandlePacket_spec (m : Mouse) (width height : BitVec 32) :
    mouseHandlePacket m width height = m ∨
      ((mouseHandlePacket m width height).dirty = true ∧
        (mouseHandlePacket m width height).lastX = m.x ∧
        (mouseHandlePacket m width height).lastY = m.y ∧
        (mouseHandlePacket m width height).rendered = m.rendered ∧
        (width = 0 ∨ (mouseHandlePacket m width height).x < width) ∧
        (height = 0 ∨ (mouseHandlePacket m width height).y < height)) := by
  unfold mouseHandlePacket
  split
  · exact .inl rfl
  · exact .inr ⟨rfl, rfl, rfl, rfl, mouseClamp_lt _ _, mouseClamp_lt _ _⟩

/-- What is hidden: the cursor where it was drawn, which is where the mouse is. -/
def Hidden (d : Display) (x y : BitVec 32) : Prop :=
  d.mouse.rendered = true ∧ InCursor d.mouse.x d.mouse.y x y

/-- Between the calls nothing waits for a redraw. -/
def Drawn (d : Display) : Prop := d.mouse.dirty = false ∧ SameOutside d.screen (Hidden d)

/-- A poll draws the cursor where the mouse is. -/
theorem Drawn.poll (h : Drawn d) : Drawn (kernelPoll d) := by
  obtain ⟨hdirty, hsame⟩ := h
  unfold kernelPoll graphicsRedraw
  rcases mouseHandlePacket_spec d.mouse d.screen.width d.screen.height with
    heq | ⟨hdirty', hlastX, hlastY, hrendered, hx, hy⟩
  · rw [heq, mouseRenderCursor, if_pos hdirty]
    exact ⟨hdirty, hsame⟩
  · generalize mouseHandlePacket d.mouse d.screen.width d.screen.height =
      m at hdirty' hlastX hlastY hrendered hx hy
    obtain ⟨back, hback, hsame⟩ := hsame
    unfold mouseRenderCursor
    dsimp only
    rw [hdirty', if_neg Bool.noConfusion]
    cases hr : d.mouse.rendered with
    | true =>
      -- the old rectangle is restored, then the cursor is drawn at the new place
      rw [hrendered, hr, if_pos rfl, hlastX, hlastY]
      have hrestore := mouseRestoreBuffer_same hback fun x y hx hy hnot =>
        hsame x y hx hy fun hh => hnot hh.2
      obtain ⟨⟨hwidth, hheight, hback'⟩, hequal⟩ := hrestore
      refine ⟨rfl, SameOutside.mono (mouseDrawCursor_same hback' (fun x y hx hy => ?_) ?_ d.cursor)
        fun x y hin => ⟨rfl, hin⟩⟩
      · rw [hwidth] at hx ⊢
        rw [hheight] at hy
        exact hequal x y hx hy
      · unfold OnScreen
        rw [hwidth, hheight]
        exact ⟨hx, hy⟩
    | false =>
      -- the first cursor is drawn in the corner, wherever the mouse is
      rw [hrendered, hr, if_neg Bool.noConfusion]
      have hequal : ∀ x y, x < d.screen.width → y < d.screen.height →
          d.screen.framebuffer (x + y * d.screen.width) = back (x + y * d.screen.width) :=
        fun x y hx hy => hsame x y hx hy fun hh => Bool.noConfusion (hr.symm.trans hh.1)
      have hon : OnScreen d.screen 0 0 := ⟨axis_zero _, axis_zero _⟩
      exact ⟨rfl, SameOutside.mono (mouseDrawCursor_same hback hequal hon d.cursor) fun x y
        hin => ⟨rfl, hin⟩⟩

/-! ## Text -/

/-- Scrolling draws everything anew. -/
theorem lfbScroll_same (h : lfbScroll s = some s') (hidden : BitVec 32 → BitVec 32 → Prop) :
    SameOutside s' hidden := by
  unfold lfbScroll at h
  dsimp only at h
  cases hback : s.backBuffer with
  | none =>
    rw [hback] at h
    exact nomatch h
  | some back =>
    rw [hback] at h
    dsimp only at h
    split at h
    · exact nomatch h
    · rw [← Option.some.inj h]
      refine ⟨_, rfl, fun x y hx hy _ => ?_⟩
      obtain ⟨hoffset, hlt⟩ := s.toNat_offset hx hy
      exact if_pos (hoffset.symm ▸ hlt)

/-- A new line keeps the buffers the same outside the cursor. -/
theorem lfbNewline_same {d d' : Display} (h : lfbNewline d = some d')
    (hsame : SameOutside d.screen hidden) :
    SameOutside d'.screen hidden ∧ d'.mouse = d.mouse := by
  unfold lfbNewline at h
  dsimp only at h
  split at h
  · obtain ⟨screen, hscroll, rfl⟩ := Option.map_eq_some_iff.mp h
    exact ⟨lfbScroll_same hscroll hidden, rfl⟩
  · obtain rfl := Option.some.inj h
    exact ⟨hsame, rfl⟩

/-- So does a character. -/
theorem lfbTerminalPutchar_same {ch : Byte} (h : lfbTerminalPutchar d ch = some d')
    (hsame : SameOutside d.screen hidden) : SameOutside d'.screen hidden ∧ d'.mouse = d.mouse := by
  have hface : SameOutside (lfbDrawFace d.screen d.terminal ch) hidden := by
    unfold lfbDrawFace
    exact grid_invariant (fun s => SameOutside s hidden)
      (fun s i j _ _ hs => hs.setPixel _ _ _) hsame
  unfold lfbTerminalPutchar at h
  split at h
  · exact lfbNewline_same h hsame
  · dsimp only at h
    generalize lfbDrawFace d.screen d.terminal ch = screen at hface h
    split at h
    · obtain ⟨hscreen, hmouse⟩ := lfbNewline_same h hface
      exact ⟨hscreen, hmouse⟩
    · obtain rfl := Option.some.inj h
      exact ⟨hface, rfl⟩

/-- So does clearing the screen. -/
theorem lfbTerminalClearTerminal_same (hsame : SameOutside s hidden) :
    SameOutside (lfbTerminalClearTerminal s) hidden :=
  grid_invariant (fun s => SameOutside s hidden) (fun _ _ _ _ _ hs => hs.setPixel _ _ _) hsame

/-! ## Runs -/

inductive DisplayOp
  /-- `kernel_poll` -/
  | poll
  /-- The interrupt of the mouse, with a byte. -/
  | mouseByte (data : Byte)
  | setPixel (x y color : BitVec 32)
  | putchar (ch : Byte)
  | clear
  /-- The row, the column and the color of the terminal. -/
  | terminal (row column textColor : BitVec 32)

/-- One call; `none` when it does not return. -/
def displayStep (d : Display) : DisplayOp → Option Display
  | .poll => some (kernelPoll d)
  | .mouseByte data => some { d with mouse := mouseReadPacket d.mouse data }
  | .setPixel x y color => some { d with screen := lfbSetPixel d.screen x y color }
  | .putchar ch => lfbTerminalPutchar d ch
  | .clear => some { d with screen := lfbTerminalClearTerminal d.screen }
  | .terminal row column textColor =>
    some { d with terminal := { d.terminal with
      row := row, column := column, textColor := textColor } }

/-- A packet that is not complete moves nothing. -/
theorem mouseReadPacket_place (m : Mouse) (data : Byte) : (mouseReadPacket m data).x = m.x ∧
    (mouseReadPacket m data).y = m.y ∧ (mouseReadPacket m data).dirty = m.dirty ∧
      (mouseReadPacket m data).rendered = m.rendered := by
  unfold mouseReadPacket
  split
  · exact ⟨rfl, rfl, rfl, rfl⟩
  · split <;> exact ⟨rfl, rfl, rfl, rfl⟩

/-- Every call keeps the invariant. -/
theorem Drawn.step {op : DisplayOp} (h : Drawn d)
    (hstep : displayStep d op = some d') : Drawn d' := by
  -- one case per call; those of the mouse do not touch the screen
  cases op with
  | poll =>
    obtain rfl := Option.some.inj hstep
    exact h.poll
  | mouseByte data =>
    obtain rfl := Option.some.inj hstep
    obtain ⟨hx, hy, hdirty, hrendered⟩ := mouseReadPacket_place d.mouse data
    refine ⟨hdirty.trans h.1, h.2.mono fun x y hh => ?_⟩
    unfold Hidden
    dsimp only
    rw [hx, hy, hrendered]
    exact hh
  | setPixel x y color =>
    obtain rfl := Option.some.inj hstep
    exact ⟨h.1, h.2.setPixel x y color⟩
  | putchar ch =>
    obtain ⟨hsame, hmouse⟩ := lfbTerminalPutchar_same hstep h.2
    refine ⟨hmouse ▸ h.1, hsame.mono fun x y hh => ?_⟩
    unfold Hidden
    rw [hmouse]
    exact hh
  | clear =>
    obtain rfl := Option.some.inj hstep
    exact ⟨h.1, lfbTerminalClearTerminal_same h.2⟩
  | terminal row column textColor =>
    obtain rfl := Option.some.inj hstep
    exact h

/-- The buffers are the same, and nothing waits for a redraw. -/
structure SameBuffers (d : Display) : Prop where
  dirty : d.mouse.dirty = false
  same : SameOutside d.screen fun _ _ => False

/-- Without a cursor the buffers are the same everywhere. -/
theorem SameBuffers.drawn (h : SameBuffers d) : Drawn d :=
  ⟨h.dirty, h.same.mono fun _ _ hh => hh.elim⟩

/-- After every redraw of every run the framebuffer is the back buffer outside the rectangle of the
    cursor, and the redraw did not change the back buffer. -/
theorem redraw_same_outside {ops : List DisplayOp} (h : SameBuffers d)
    (hrun : Run displayStep (fun _ _ => True) d ops d') :
    SameOutside (kernelPoll d').screen (InCursor (kernelPoll d').mouse.x (kernelPoll d').mouse.y) ∧
      (kernelPoll d').screen.backBuffer = d'.screen.backBuffer := by
  have hdrawn : Drawn d' := hrun.invariant Drawn (fun _ _ _ hd _ hstep => hd.step hstep) h.drawn
  exact ⟨hdrawn.poll.2.mono fun _ _ hh => hh.2, mouseRenderCursor_back _⟩

/-- A screen of two by two pixels, with a mouse packet that waits. -/
def smallDisplay : Display where
  screen := ⟨2, 2, fun _ => 0, some fun _ => 0, by decide⟩
  terminal := ⟨0, 0, 0xFFFFFFFF, 0, ⟨fun _ => 0, 16⟩⟩
  mouse := ⟨0, 0, 0, 0, [], false, fun _ => 1, 3, 3, false⟩
  cursor := fun _ => 0xFF000000

/-- One pixel is set before the first redraw. -/
theorem redraw_same_outside_small :
    SameOutside (kernelPoll { smallDisplay
      with screen := lfbSetPixel smallDisplay.screen 1 1 5 }).screen
      (InCursor (kernelPoll { smallDisplay
        with screen := lfbSetPixel smallDisplay.screen 1 1 5 }).mouse.x
        (kernelPoll { smallDisplay with
          screen := lfbSetPixel smallDisplay.screen 1 1 5 }).mouse.y) := by
  have hsame : SameBuffers smallDisplay := ⟨rfl, fun _ => 0, rfl, fun _ _ _ _ _ => rfl⟩
  have hrun : Run displayStep (fun _ _ => True) smallDisplay [.setPixel 1 1 5]
      { smallDisplay with screen := lfbSetPixel smallDisplay.screen 1 1 5 } :=
        .cons trivial rfl (.nil _)
  exact (redraw_same_outside hsame hrun).1

end MishaOS
