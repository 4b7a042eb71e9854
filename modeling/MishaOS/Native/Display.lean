import MishaOS.ForStd.Grid
import MishaOS.Native.Word
import Mathlib.Logic.Function.Basic

/-!
# The screen

The linear framebuffer is what one sees; the back buffer has the same picture
without the mouse cursor.  `lfb_set_pixel` writes both, `mouse_render_cursor`
draws into the framebuffer alone, after it has put back what the back buffer
has where the cursor was.  The two buffers are separate memory; a pixel is
addressed by its offset.
-/

namespace MishaOS

/-- The memory of a buffer, by the offset of a pixel. -/
abbrev Pixels := BitVec 32 → BitVec 32

/-! ## Framebuffer -/

/-- `linear_framebuffer`, `lfb_back_buffer` and their size.  A buffer is in memory. -/
structure Screen where
  width : BitVec 32
  height : BitVec 32
  framebuffer : Pixels
  backBuffer : Option Pixels
  fits : width.toNat * height.toNat * 4 < 4294967296

def lfbSetPixel (s : Screen) (x y color : BitVec 32) : Screen :=
  if x ≥ s.width ∨ y ≥ s.height then s
  else
    let offset := x + y * s.width
    { s with
      framebuffer := Function.update s.framebuffer offset color
      backBuffer := s.backBuffer.map fun back => Function.update back offset color }

def lfbGetPixel (s : Screen) (x y : BitVec 32) : BitVec 32 :=
  if x ≥ s.width ∨ y ≥ s.height then 0
  else
    match s.backBuffer with
    | some back => back (x + y * s.width)
    | none => s.framebuffer (x + y * s.width)

/-! ## Mouse -/

structure Mouse where
  x : BitVec 32
  y : BitVec 32
  lastX : BitVec 32
  lastY : BitVec 32
  buttons : List Byte
  dirty : Bool
  packet : Nat → Byte
  packetIndex : Nat
  packetBytes : Nat
  /-- `cursor_rendered` -/
  rendered : Bool

/-- `mouse_read_packet` of the byte `data`. -/
def mouseReadPacket (m : Mouse) (data : Byte) : Mouse :=
  if m.packetIndex ≥ m.packetBytes then m
  else if m.packetIndex = 0 ∧ data &&& 0x08 = 0 then m
  else { m with
    packet := Function.update m.packet m.packetIndex data, packetIndex := m.packetIndex + 1 }

/-- The end of `mouse_handle_packet` for one coordinate: below zero, or past the end. -/
def mouseClamp (v size : BitVec 32) : BitVec 32 :=
  -- `SIZE_MAX - UINT8_MAX`
  let v := if v ≥ 0xFFFFFF00 then 0 else v
  if v ≥ size then size - 1 else v

/-- `mouse_handle_packet`. -/
def mouseHandlePacket (m : Mouse) (lfbWidth lfbHeight : BitVec 32) : Mouse :=
  if m.packetIndex < m.packetBytes then m
  else
    let flags := m.packet 0
    let dx : BitVec 32 := if flags &&& 0x10 ≠ 0 then (m.packet 1).setWidth 32 - 256
      else (m.packet 1).setWidth 32
    let dy : BitVec 32 := if flags &&& 0x20 ≠ 0 then (m.packet 2).setWidth 32 - 256
      else (m.packet 2).setWidth 32
    let x := m.x + dx
    let y := m.y - dy
    let x := if flags &&& 0x40 ≠ 0 then x + (if flags &&& 0x10 ≠ 0 then -255 else 255) else x
    let y := if flags &&& 0x80 ≠ 0 then y + (if flags &&& 0x20 ≠ 0 then 255 else -255) else y
    { m with
      x := mouseClamp x lfbWidth
      y := mouseClamp y lfbHeight
      lastX := m.x
      lastY := m.y
      buttons := [flags &&& 0x01, (flags &&& 0x02) >>> 1, (flags &&& 0x04) >>> 2,
        (m.packet 3 &&& 0x10) >>> 4, (m.packet 3 &&& 0x20) >>> 5]
      dirty := true
      packetIndex := 0 }

/-! ## Terminal -/

/-- `psf_font_t`: the bytes from `buffer` on; a `char` is signed, so an index can be negative. -/
structure PsfFont where
  buffer : Int → Byte
  characterSize : Byte

structure Terminal where
  row : BitVec 32
  column : BitVec 32
  textColor : BitVec 32
  userInputNum : BitVec 32
  font : PsfFont

/-- The screen with what is drawn on it. -/
structure Display where
  screen : Screen
  terminal : Terminal
  mouse : Mouse
  cursor : Nat → BitVec 32

/-- `lfb_terminal.rows` -/
def Screen.rows (s : Screen) : BitVec 32 := s.height / 16

/-- `lfb_terminal.columns` -/
def Screen.columns (s : Screen) : BitVec 32 := s.width / 8

/-- The screen moves up one line; `none` when the copy does not end. -/
def lfbScroll (s : Screen) : Option Screen :=
  let rows := s.rows.toNat
  -- `row_length` in pixels
  let rowLength := s.width.toNat * 16
  match s.backBuffer with
  | none => none
  | some back =>
    -- without a line, `row_length * (rows - 1)` is as good as all of memory
    if rows = 0 ∧ u32 (rowLength * 4) ≠ 0 then none
    else
      let back := fun offset : BitVec 32 =>
        if offset.toNat < rowLength * (rows - 1) then back (offset + BitVec.ofNat 32 rowLength)
        else if offset.toNat < rowLength * rows then 0 else back offset
      some { s with
        framebuffer := fun offset =>
          if offset.toNat < s.width.toNat * s.height.toNat then back offset
            else s.framebuffer offset
        backBuffer := some back }

/-- `lfb_terminal_putchar('\n')`. -/
def lfbNewline (d : Display) : Option Display :=
  let terminal := { d.terminal with column := 0 }
  if terminal.row + 1 ≥ d.screen.rows then
    (lfbScroll d.screen).map fun screen => { d with terminal := terminal, screen := screen }
  else some { d with terminal := { terminal with row := terminal.row + 1 } }

/-- The face of the character `ch` at the place of the terminal. -/
def lfbDrawFace (s : Screen) (t : Terminal) (ch : Byte) : Screen :=
  let face := ch.toInt * t.font.characterSize.toNat
  grid 16 8 (fun s i j =>
    let color := if t.font.buffer (face + j) &&& ((0x80 : Byte) >>> i) ≠ 0 then t.textColor else 0
    lfbSetPixel s (t.column * 8 + BitVec.ofNat 32 i) (t.row * 16 + BitVec.ofNat 32 j) color) s

/-- `lfb_terminal_putchar`; at the end of a line it calls `terminal_putchar('\n')`. -/
def lfbTerminalPutchar (d : Display) (ch : Byte) : Option Display :=
  if ch = 0x0A then lfbNewline d
  else
    let terminal := { d.terminal with column := d.terminal.column + 1 }
    let screen := lfbDrawFace d.screen d.terminal ch
    if terminal.column ≥ screen.columns then
      lfbNewline { d with screen := screen, terminal := { terminal with userInputNum := 0 } }
    else some { d with screen := screen, terminal := terminal }

def lfbTerminalClearTerminal (s : Screen) : Screen :=
  grid s.height.toNat s.width.toNat (fun s x y =>
    lfbSetPixel s (BitVec.ofNat 32 x) (BitVec.ofNat 32 y) 0) s

/-! ## Cursor -/

def CURSOR_WIDTH : Nat := 16
def CURSOR_HEIGHT : Nat := 20

/-- `mouse_restore_buffer`, at the last place of the mouse. -/
def mouseRestoreBuffer (s : Screen) (lastX lastY : BitVec 32) : Screen :=
  grid CURSOR_HEIGHT CURSOR_WIDTH (fun s x y =>
    let x := lastX + BitVec.ofNat 32 x
    let y := lastY + BitVec.ofNat 32 y
    lfbSetPixel s x y (lfbGetPixel s x y)) s

/-- The loops of `mouse_render_cursor`. -/
def mouseDrawCursor (s : Screen) (mouseX mouseY : BitVec 32) (cursor : Nat → BitVec 32) : Screen :=
  grid CURSOR_HEIGHT CURSOR_WIDTH (fun s x y =>
    let color := cursor (y * CURSOR_WIDTH + x)
    if color &&& 0xFF000000 = 0 then s
    else
      let screenX := mouseX + BitVec.ofNat 32 x
      let screenY := mouseY + BitVec.ofNat 32 y
      if screenX ≥ s.width ∨ screenY ≥ s.height then s
      else { s with
        framebuffer := Function.update s.framebuffer (screenX + screenY * s.width) color }) s

/-- `mouse_render_cursor`. -/
def mouseRenderCursor (d : Display) : Display :=
  if d.mouse.dirty = false then d
  else
    let mouse := { d.mouse with dirty := false }
    if mouse.rendered then
      let screen := mouseRestoreBuffer d.screen mouse.lastX mouse.lastY
      { d with screen := mouseDrawCursor screen mouse.x mouse.y d.cursor, mouse := mouse }
    else
      let mouse := { mouse with x := 0, y := 0, rendered := true }
      { d with screen := mouseDrawCursor d.screen mouse.x mouse.y d.cursor, mouse := mouse }

/-- `graphics_redraw`. -/
def graphicsRedraw (d : Display) : Display := mouseRenderCursor d

/-- `kernel_poll`, up to `net_poll`, which draws nothing but text. -/
def kernelPoll (d : Display) : Display :=
  graphicsRedraw { d with mouse := mouseHandlePacket d.mouse d.screen.width d.screen.height }

end MishaOS
