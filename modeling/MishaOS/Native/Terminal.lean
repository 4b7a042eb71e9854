import MishaOS.Native.Stdin

/-!
# The terminal

`terminal.c` over `lfb_terminal.c`.  The kernel copies `lfb_terminal` to
`terminal` and calls `terminal_init` afterwards, so the size that
`lfb_terminal_init` computes is never seen by `terminal_get_columns` and
`terminal_get_rows`.  What is painted is kept as a list of requests to the
frame buffer.
-/

namespace MishaOS

/-- The fields of `terminal_t` that hold the size. -/
structure TerminalSize where
  rows : BitVec 32
  columns : BitVec 32
deriving DecidableEq

/-- `lfb_terminal` as it is initialised statically: the size is left out. -/
def lfbTerminalStatic : TerminalSize := ⟨0, 0⟩

/-- What a call paints. -/
inductive LfbDraw
  /-- The glyph of `ch`, its upper left pixel at `(x, y)`. -/
  | glyph (x y : BitVec 32) (ch : Byte) (color : BitVec 32)
  /-- All rows move up by one. -/
  | scroll
deriving DecidableEq

/-- The globals of `terminal.c` and `lfb_terminal.c`. -/
structure TerminalState where
  terminalRow : BitVec 32
  terminalColumn : BitVec 32
  textColor : BitVec 32
  userInputNum : BitVec 32
  /-- The copy `terminal`. -/
  terminal : TerminalSize
  lfbTerminal : TerminalSize
  drawn : List LfbDraw
  /-- Standard input of `current_process`. -/
  stdin : Option FileDescriptor

def lfbTerminalInit (s : TerminalState) (lfbWidth lfbHeight : BitVec 32) : TerminalState :=
  { s with lfbTerminal := ⟨lfbHeight / 16, lfbWidth / 8⟩ }

def terminalInit (s : TerminalState) (lfbWidth lfbHeight : BitVec 32) : TerminalState :=
  lfbTerminalInit { s with userInputNum := 0, textColor := 0xFFFFFFFF } lfbWidth lfbHeight

/-- `terminal = lfb_terminal; terminal_init();` of `kernel_main`, with the
    cursor where the VGA terminal left it. -/
def kernelLfbTerminal (s : TerminalState) (lfbWidth lfbHeight : BitVec 32) : TerminalState :=
  terminalInit { s with terminal := lfbTerminalStatic, lfbTerminal := lfbTerminalStatic }
    lfbWidth lfbHeight

/-- The case `'\n'` of `lfb_terminal_putchar`. -/
def lfbTerminalNewline (s : TerminalState) : TerminalState :=
  let s := { s with terminalColumn := 0 }
  if s.terminalRow + 1 ≥ s.lfbTerminal.rows then { s with drawn := s.drawn ++ [.scroll] }
  else { s with terminalRow := s.terminalRow + 1 }

def TerminalState.lfbTerminalPutchar (s : TerminalState) (ch : Byte) : TerminalState :=
  if ch = 10 then lfbTerminalNewline s
  else
    let s := { s with
      drawn := s.drawn ++ [.glyph (s.terminalColumn * 8) (s.terminalRow * 16) ch s.textColor]
      terminalColumn := s.terminalColumn + 1 }
    if s.terminalColumn ≥ s.lfbTerminal.columns then
      -- `terminal_putchar('\n')`, which is output of the kernel
      lfbTerminalNewline { s with userInputNum := 0 }
    else s

def terminalPutUserChar (s : TerminalState) (c : Byte) : TerminalState :=
  TerminalState.lfbTerminalPutchar { s with userInputNum := s.userInputNum + 1 } c

def terminalPutchar (s : TerminalState) (c : Byte) : TerminalState :=
  TerminalState.lfbTerminalPutchar { s with userInputNum := 0 } c

/-- The place a backspace goes to. -/
def terminalBack (s : TerminalState) : BitVec 32 × BitVec 32 :=
  let column := s.terminalColumn - 1
  if column = -1 then
    let row := s.terminalRow - 1
    (if row = -1 then s.terminal.rows - 1 else row, s.terminal.columns - 1)
  else (s.terminalRow, column)

/-- A backspace up to `user_input_num -= 2`. -/
def terminalErase (s : TerminalState) : TerminalState :=
  let (row, column) := terminalBack s
  let s := { s with terminalColumn := column, terminalRow := row }
  let s := terminalPutUserChar s 32
  { s with terminalColumn := column }

/-- The write to standard input at the end of `terminal_process_input`. -/
def terminalStdin (s : TerminalState) (c : Byte) : TerminalState :=
  { s with stdin := s.stdin.map fun fd => stdinWrite fd [c] }

def terminalProcessInput (s : TerminalState) (c : Byte) : TerminalState :=
  if c = 8 then
    if s.userInputNum ≠ 0 then
      let s := terminalErase s
      terminalStdin { s with userInputNum := s.userInputNum - 2 } c
    else s
  else terminalStdin (terminalPutUserChar s c) c

/-! ## Output and key presses in any order -/

structure Typing where
  term : TerminalState
  /-- Number of characters typed since the kernel printed last, backspace not counted. -/
  typed : Nat

inductive TerminalOp
  | output (c : Byte)
  | press (c : Byte)

def terminalStep (s : Typing) : TerminalOp → Option Typing
  | .output c => some ⟨terminalPutchar s.term c, 0⟩
  | .press c => some ⟨terminalProcessInput s.term c, if c = 8 then s.typed else s.typed + 1⟩

end MishaOS
