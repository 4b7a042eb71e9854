import MishaOS.ForStd.Run
import MishaOS.Native.Terminal
import MishaOS.Spec.CursorDraw

/-!
# Typing and erasing

`user_input_num` counts what can be erased.  The blank that erases a character
is printed through the routine that also counts, so a backspace takes 2 back.
This is right as long as the blank does not fill the line: the line break goes
through `terminal_putchar`, which sets the count to 0 before the subtraction.
A backspace at the start of a line leaves the cursor in column `2 ^ 32 - 1`,
from where the next one fills the line.

## Key results

- `putchar_shows`: the terminal behaves as the one that sets pixels.
- `terminal_run_typed`: in runs without such a backspace the count stays below
  what was typed, and a character that does not fill its line can be erased.
-/

namespace MishaOS

variable {s t : TerminalState} {c : Byte}

/-- Printing at the cursor moves the screen. -/
def TerminalState.Scrolls (s : TerminalState) (c : Byte) : Prop :=
  .scroll ∈ (terminalProcessInput s c).drawn.drop s.drawn.length

/-- The subtraction at the end of a backspace does not borrow. -/
def TerminalState.EraseCounts (s : TerminalState) : Prop :=
  s.userInputNum ≠ 0 → 2 ≤ (terminalErase s).userInputNum.toNat

/-- Typing `c` and erasing it. -/
def TerminalState.CursorReturns (s : TerminalState) (c : Byte) : Prop :=
  let t := terminalProcessInput (terminalProcessInput s c) 8
  t.terminalRow = s.terminalRow ∧ t.terminalColumn = s.terminalColumn

/-- A printable character of the keyboard's tables. -/
def Printable (c : Byte) : Prop := 32 ≤ c.toNat ∧ c.toNat < 127

/-- A backspace that erases is pressed inside the line, and the count can go up by one. -/
def TerminalOp.Inside (s : Typing) : TerminalOp → Prop
  | .press c => c = 8 → s.term.userInputNum ≠ 0 →
      s.term.terminalColumn.toNat < s.term.lfbTerminal.columns.toNat ∧
      s.term.userInputNum.toNat + 1 < 4294967296
  | .output _ => True

/-! ## One call -/

/-- Drawing does not change the size of the screen. -/
theorem lfbDrawFace_size (screen : Screen) (t : Terminal) (ch : Byte) :
    (lfbDrawFace screen t ch).width = screen.width ∧
    (lfbDrawFace screen t ch).height = screen.height := by
  unfold lfbDrawFace
  apply grid_invariant (fun drawn : Screen => drawn.width = screen.width ∧
    drawn.height = screen.height)
  · intro drawn i j _ _ hdrawn
    rw [lfbSetPixel_width, lfbSetPixel_height]
    exact hdrawn
  · exact ⟨rfl, rfl⟩

/-- Nor does scrolling. -/
theorem lfbScroll_size {screen screen' : Screen} (h : lfbScroll screen = some screen') :
    screen'.width = screen.width ∧ screen'.height = screen.height := by
  unfold lfbScroll at h
  dsimp only at h
  cases hback : screen.backBuffer with
  | none =>
    rw [hback] at h
    cases h
  | some back =>
    rw [hback] at h
    dsimp only at h
    split at h
    · cases h
    · obtain rfl := Option.some.inj h
      exact ⟨rfl, rfl⟩

/-- A new line does not touch the count of typed characters. -/
@[simp] theorem newline_userInputNum (s : TerminalState) :
    (lfbTerminalNewline s).userInputNum = s.userInputNum := by
  unfold lfbTerminalNewline
  dsimp only
  split <;> rfl

/-- It begins at the left. -/
@[simp] theorem newline_column (s : TerminalState) : (lfbTerminalNewline s).terminalColumn = 0 := by
  unfold lfbTerminalNewline
  dsimp only
  split <;> rfl

/-- The terminal keeps its size. -/
@[simp] theorem newline_size (s : TerminalState) :
    (lfbTerminalNewline s).lfbTerminal = s.lfbTerminal ∧
    (lfbTerminalNewline s).terminal = s.terminal := by
  unfold lfbTerminalNewline
  dsimp only
  split <;> exact ⟨rfl, rfl⟩

/-- Above the last row the cursor goes down. -/
theorem newline_row (s : TerminalState) (h : ¬ s.terminalRow + 1 ≥ s.lfbTerminal.rows) :
    (lfbTerminalNewline s).terminalRow = s.terminalRow + 1 := by
  unfold lfbTerminalNewline
  dsimp only
  rw [if_neg h]

/-- In the last row the screen is scrolled. -/
theorem newline_drawn (s : TerminalState) : (lfbTerminalNewline s).drawn =
    s.drawn ++ if s.terminalRow + 1 ≥ s.lfbTerminal.rows then [.scroll] else [] := by
  unfold lfbTerminalNewline
  dsimp only
  split
  · rfl
  · exact (List.append_nil _).symm

/-- What `lfb_terminal_putchar` has painted when it looks at the end of the line. -/
def glyphDraw (s : TerminalState) (c : Byte) : LfbDraw :=
  .glyph (s.terminalColumn * 8) (s.terminalRow * 16) c s.textColor

/-- A character inside the row is drawn, and the cursor goes on. -/
theorem putchar_inside (hc : c ≠ 10) (h : ¬ s.terminalColumn + 1 ≥ s.lfbTerminal.columns) :
    TerminalState.lfbTerminalPutchar s c = { s with
      drawn := s.drawn ++ [glyphDraw s c], terminalColumn := s.terminalColumn + 1 } := by
  unfold TerminalState.lfbTerminalPutchar
  rw [if_neg hc]
  dsimp only
  rw [if_neg h]
  rfl

/-- Behind the last column of a row a new line begins. -/
theorem putchar_end (hc : c ≠ 10) (h : s.terminalColumn + 1 ≥ s.lfbTerminal.columns) :
    TerminalState.lfbTerminalPutchar s c = lfbTerminalNewline { s with
      drawn := s.drawn ++ [glyphDraw s c], terminalColumn := s.terminalColumn + 1
      userInputNum := 0 } := by
  unfold TerminalState.lfbTerminalPutchar
  rw [if_neg hc]
  dsimp only
  rw [if_pos h]
  rfl

/-- The terminal keeps its size. -/
@[simp] theorem putchar_size (s : TerminalState) (c : Byte) :
    (TerminalState.lfbTerminalPutchar s c).lfbTerminal = s.lfbTerminal ∧
      (TerminalState.lfbTerminalPutchar s c).terminal = s.terminal := by
  by_cases hc : c = 10
  · unfold TerminalState.lfbTerminalPutchar
    rw [if_pos hc]
    exact newline_size s
  by_cases h : s.terminalColumn + 1 ≥ s.lfbTerminal.columns
  · rw [putchar_end hc h]
    exact newline_size _
  · rw [putchar_inside hc h]
    exact ⟨rfl, rfl⟩

/-- Printing leaves the count alone or clears it. -/
theorem putchar_count (s : TerminalState) (c : Byte) :
    (TerminalState.lfbTerminalPutchar s c).userInputNum = s.userInputNum ∨
      (TerminalState.lfbTerminalPutchar s c).userInputNum = 0 := by
  by_cases hc : c = 10
  · unfold TerminalState.lfbTerminalPutchar
    rw [if_pos hc]
    exact Or.inl (newline_userInputNum s)
  by_cases h : s.terminalColumn + 1 ≥ s.lfbTerminal.columns
  · rw [putchar_end hc h]
    exact Or.inr (newline_userInputNum _)
  · rw [putchar_inside hc h]
    exact Or.inl rfl

/-- The terminal is the one of the display: the cursor, the color, the count, and the size. -/
structure TerminalState.Shows (s : TerminalState) (d : Display) : Prop where
  row : s.terminalRow = d.terminal.row
  column : s.terminalColumn = d.terminal.column
  color : s.textColor = d.terminal.textColor
  count : s.userInputNum = d.terminal.userInputNum
  size : s.lfbTerminal = ⟨d.screen.rows, d.screen.columns⟩

/-- The screen shows the new line. -/
theorem newline_shows {d d' : Display} (h : s.Shows d) (hd : lfbNewline d = some d') :
    (lfbTerminalNewline s).Shows d' := by
  have hrows : s.terminalRow + 1 ≥ s.lfbTerminal.rows ↔ d.terminal.row + 1 ≥ d.screen.rows := by
    rw [h.row, h.size]
  unfold lfbNewline at hd
  unfold lfbTerminalNewline
  dsimp only at hd ⊢
  -- on the last row the screen scrolls, and the row stays
  by_cases hend : d.terminal.row + 1 ≥ d.screen.rows
  · rw [if_pos hend] at hd
    rw [if_pos (hrows.mpr hend)]
    obtain ⟨screen, hscroll, rfl⟩ := Option.map_eq_some_iff.mp hd
    obtain ⟨hwidth, hheight⟩ := lfbScroll_size hscroll
    refine ⟨h.row, rfl, h.color, h.count, ?_⟩
    show s.lfbTerminal = ⟨screen.height / 16, screen.width / 8⟩
    rw [hwidth, hheight]
    exact h.size
  · rw [if_neg hend] at hd
    rw [if_neg (hrows.not.mpr hend)]
    obtain rfl := Option.some.inj hd
    exact ⟨congrArg (· + 1) h.row, rfl, h.color, h.count, h.size⟩

/-- Painting the requests, or the pixels: the terminal is the same. -/
theorem putchar_shows {d d' : Display} (h : s.Shows d) (hd : lfbTerminalPutchar d c = some d') :
    (s.lfbTerminalPutchar c).Shows d' := by
  unfold lfbTerminalPutchar at hd
  unfold TerminalState.lfbTerminalPutchar
  -- a newline, or a character that is drawn
  by_cases hc : c = 10
  · rw [if_pos hc] at hd ⊢
    exact newline_shows h hd
  · rw [if_neg hc] at hd ⊢
    dsimp only at hd ⊢
    obtain ⟨hwidth, hheight⟩ := lfbDrawFace_size d.screen d.terminal c
    generalize lfbDrawFace d.screen d.terminal c = screen at hwidth hheight hd
    have hsize : s.lfbTerminal = ⟨screen.rows, screen.columns⟩ := by
      rw [h.size]
      unfold Screen.rows Screen.columns
      rw [hwidth, hheight]
    have hcolumn : s.terminalColumn + 1 = d.terminal.column + 1 := congrArg (· + 1) h.column
    have hcolumns : s.terminalColumn + 1 ≥ s.lfbTerminal.columns ↔
        d.terminal.column + 1 ≥ screen.columns := by
      rw [hcolumn, hsize]
    -- behind the last column the line ends
    by_cases hend : d.terminal.column + 1 ≥ screen.columns
    · rw [if_pos hend] at hd
      rw [if_pos (hcolumns.mpr hend)]
      refine newline_shows ?_ hd
      exact ⟨h.row, hcolumn, h.color, rfl, hsize⟩
    · rw [if_neg hend] at hd
      rw [if_neg (hcolumns.not.mpr hend)]
      obtain rfl := Option.some.inj hd
      exact ⟨h.row, hcolumn, h.color, h.count, hsize⟩

/-- Erasing keeps the size. -/
@[simp] theorem erase_size (s : TerminalState) :
    (terminalErase s).lfbTerminal = s.lfbTerminal ∧ (terminalErase s).terminal = s.terminal := by
  unfold terminalErase terminalPutUserChar
  dsimp only
  exact putchar_size _ _

/-- So does any input. -/
@[simp] theorem processInput_size (s : TerminalState) (c : Byte) :
    (terminalProcessInput s c).lfbTerminal = s.lfbTerminal ∧
      (terminalProcessInput s c).terminal = s.terminal := by
  unfold terminalProcessInput
  split
  · split
    · exact erase_size s
    · exact ⟨rfl, rfl⟩
  · exact putchar_size _ _

/-- The column the blank is printed in: the copy `terminal` knows no size. -/
theorem terminalBack_column (hstale : s.terminal = lfbTerminalStatic) :
    (terminalBack s).2 = s.terminalColumn - 1 := by
  unfold terminalBack
  dsimp only
  split
  · rename_i h
    rw [h, hstale]
    rfl
  · rfl

/-- Inside a line the row stays. -/
theorem terminalBack_row (h : s.terminalColumn ≠ 0) : (terminalBack s).1 = s.terminalRow := by
  unfold terminalBack
  dsimp only
  rw [if_neg (by bv_omega)]

/-- Before the left column comes the row above. -/
theorem terminalBack_start (hstale : s.terminal = lfbTerminalStatic) (h : s.terminalColumn = 0) :
    (terminalBack s).1 = s.terminalRow - 1 := by
  unfold terminalBack
  dsimp only
  rw [h, hstale]
  split
  · dsimp only
    split
    · rename_i hrow
      rw [hrow]
      rfl
    · rfl
  · rename_i hcol
    exact absurd rfl hcol

/-- The blank is counted if it does not fill the line. -/
theorem erase_inside (hstale : s.terminal = lfbTerminalStatic)
    (h : ¬ s.terminalColumn ≥ s.lfbTerminal.columns) :
    terminalErase s = { s with
      terminalRow := (terminalBack s).1
      terminalColumn := s.terminalColumn - 1
      userInputNum := s.userInputNum + 1
      drawn := (terminalErase s).drawn } := by
  -- the blank is printed one column to the left, and moves the cursor back
  have hcolumn : s.terminalColumn - 1 + 1 = s.terminalColumn := by bv_omega
  unfold terminalErase terminalPutUserChar
  dsimp only
  rw [terminalBack_column hstale, putchar_inside (by decide)]
  dsimp only
  rw [hcolumn]
  exact h

/-- The blank that fills the line clears the count. -/
theorem erase_end (hstale : s.terminal = lfbTerminalStatic)
    (h : s.terminalColumn ≥ s.lfbTerminal.columns) : (terminalErase s).userInputNum = 0 := by
  -- the column is full after the blank
  have hcolumn : s.terminalColumn - 1 + 1 = s.terminalColumn := by bv_omega
  unfold terminalErase terminalPutUserChar
  dsimp only
  rw [terminalBack_column hstale, putchar_end (by decide) (by dsimp only; rw [hcolumn]; exact h)]
  exact newline_userInputNum _

/-- The subtraction is safe exactly inside the line. -/
theorem eraseCounts_iff (hstale : s.terminal = lfbTerminalStatic) (hnum : s.userInputNum ≠ 0) :
    s.EraseCounts ↔ s.terminalColumn.toNat < s.lfbTerminal.columns.toNat ∧
      s.userInputNum.toNat + 1 < 4294967296 := by
  unfold TerminalState.EraseCounts
  by_cases h : s.terminalColumn ≥ s.lfbTerminal.columns
  · rw [erase_end hstale h]
    bv_omega
  · rw [erase_inside hstale h]
    dsimp only
    bv_omega

/-! ## Erasing what was typed -/

/-- A typed character inside the row. -/
theorem type_inside (hc : c ≠ 8) (hc' : c ≠ 10)
    (h : ¬ s.terminalColumn + 1 ≥ s.lfbTerminal.columns) :
    terminalProcessInput s c = terminalStdin { s with
      drawn := s.drawn ++ [glyphDraw s c]
      terminalColumn := s.terminalColumn + 1
      userInputNum := s.userInputNum + 1 } c := by
  unfold terminalProcessInput
  rw [if_neg hc]
  show terminalStdin
    (TerminalState.lfbTerminalPutchar { s with userInputNum := s.userInputNum + 1 } c) c = _
  rw [putchar_inside hc' (by exact h)]
  rfl

/-- A typed character in the last column. -/
theorem type_end (hc : c ≠ 8) (hc' : c ≠ 10)
    (h : s.terminalColumn + 1 ≥ s.lfbTerminal.columns) :
    terminalProcessInput s c = terminalStdin (lfbTerminalNewline { s with
      drawn := s.drawn ++ [glyphDraw s c]
      terminalColumn := s.terminalColumn + 1
      userInputNum := 0 }) c := by
  unfold terminalProcessInput
  rw [if_neg hc]
  show terminalStdin
    (TerminalState.lfbTerminalPutchar { s with userInputNum := s.userInputNum + 1 } c) c = _
  rw [putchar_end hc' (by exact h)]
  rfl

/-- Typing scrolls at the end of the last line only. -/
theorem scrolls_iff (hc : c ≠ 8) (hc' : c ≠ 10) :
    s.Scrolls c ↔ s.terminalColumn + 1 ≥ s.lfbTerminal.columns ∧
      s.terminalRow + 1 ≥ s.lfbTerminal.rows := by
  unfold TerminalState.Scrolls
  by_cases h : s.terminalColumn + 1 ≥ s.lfbTerminal.columns
  -- what is painted behind the glyph is the line break
  · have hdrawn := newline_drawn { s with
      drawn := s.drawn ++ [glyphDraw s c], terminalColumn :=
        s.terminalColumn + 1, userInputNum := 0 }
    rw [type_end hc hc' h]
    unfold terminalStdin
    dsimp only at hdrawn ⊢
    rw [hdrawn, List.append_assoc, List.drop_left]
    by_cases hr : s.terminalRow + 1 ≥ s.lfbTerminal.rows
    · rw [if_pos hr]
      exact iff_of_true (by simp) ⟨h, hr⟩
    · rw [if_neg hr]
      exact iff_of_false (by simp [glyphDraw]) fun hend => hr hend.2
  · rw [type_inside hc hc' h]
    unfold terminalStdin
    dsimp only
    rw [List.drop_left]
    exact iff_of_false (by simp [glyphDraw]) fun hend => h hend.1

/-- A backspace without count does nothing. -/
theorem processInput_no_count (h : s.userInputNum = 0) : terminalProcessInput s 8 = s := by
  unfold terminalProcessInput
  rw [if_pos rfl, if_neg (by rw [h]; exact fun hne => hne rfl)]

/-- A backspace erases what has been typed. -/
theorem processInput_erase (h : s.userInputNum ≠ 0) :
    (terminalProcessInput s 8).terminalRow = (terminalErase s).terminalRow ∧
      (terminalProcessInput s 8).terminalColumn = (terminalErase s).terminalColumn ∧
      (terminalProcessInput s 8).userInputNum = (terminalErase s).userInputNum - 2 := by
  unfold terminalProcessInput
  rw [if_pos rfl, if_pos h]
  exact ⟨rfl, rfl, rfl⟩

/-- The cursor comes back exactly if the character did not fill the line. -/
theorem cursorReturns_iff (hstale : s.terminal = lfbTerminalStatic)
    (hsize : 2 ≤ s.lfbTerminal.columns.toNat) (hc : c ≠ 8) (hc' : c ≠ 10)
    (hscroll : ¬ s.Scrolls c) :
    s.CursorReturns c ↔ s.terminalColumn.toNat + 1 < s.lfbTerminal.columns.toNat ∧
      s.userInputNum.toNat + 1 < 4294967296 := by
  rw [scrolls_iff hc hc'] at hscroll
  unfold TerminalState.CursorReturns
  dsimp only
  by_cases h : s.terminalColumn + 1 ≥ s.lfbTerminal.columns
  · -- the line break has cleared the count, so the backspace does nothing
    have hrow : ¬ s.terminalRow + 1 ≥ s.lfbTerminal.rows := fun hr => hscroll ⟨h, hr⟩
    have hnum : (terminalProcessInput s c).userInputNum = 0 := by
      rw [type_end hc hc' h]
      exact newline_userInputNum _
    have hdown : (terminalProcessInput s c).terminalRow = s.terminalRow + 1 := by
      rw [type_end hc hc' h]
      exact newline_row _ hrow
    rw [processInput_no_count hnum, hdown]
    constructor
    · intro hback
      have hne := hback.1
      bv_omega
    · intro hin
      bv_omega
  -- the character is in the line, so the backspace erases it
  · have htype := type_inside hc hc' h
    generalize hu : terminalProcessInput s c = u at htype
    have hrow : u.terminalRow = s.terminalRow := by rw [htype]; rfl
    have hcolumn : u.terminalColumn = s.terminalColumn + 1 := by rw [htype]; rfl
    have hcount : u.userInputNum = s.userInputNum + 1 := by rw [htype]; rfl
    have hlfb : u.lfbTerminal = s.lfbTerminal := by rw [htype]; rfl
    have hcopy : u.terminal = lfbTerminalStatic := by rw [htype]; exact hstale
    by_cases hnum : u.userInputNum = 0
    · -- the count has gone around
      rw [processInput_no_count hnum, hcolumn]
      constructor
      · intro hback
        have hne := hback.2
        bv_omega
      · intro hin
        bv_omega
    · obtain ⟨hr, hcol, _⟩ := processInput_erase hnum
      have hinside : ¬ u.terminalColumn ≥ u.lfbTerminal.columns := by rw [hcolumn, hlfb]; exact h
      rw [hr, hcol, erase_inside hcopy hinside]
      dsimp only
      rw [hcolumn]
      by_cases hstart : s.terminalColumn + 1 = 0
      · -- the cursor has come around to column 0, and the backspace takes the row above
        rw [terminalBack_start hcopy (by rw [hcolumn]; exact hstart), hrow]
        bv_omega
      · rw [terminalBack_row (by rw [hcolumn]; exact hstart), hrow]
        rw [hcount] at hnum
        exact iff_of_true ⟨rfl, BitVec.add_sub_cancel _ _⟩ ⟨by bv_omega, by bv_omega⟩

/-! ## Runs -/

/-- What holds between the calls. -/
structure Typing.Inv (s : Typing) : Prop where
  copy : s.term.terminal = lfbTerminalStatic
  columns : 2 ≤ s.term.lfbTerminal.columns.toNat
  typed : s.term.userInputNum.toNat ≤ s.typed

/-- Every step keeps the invariant. -/
theorem terminalStep_inv {s t : Typing} {op : TerminalOp} (hinv : s.Inv) (hok : op.Inside s)
    (hstep : terminalStep s op = some t) : t.Inv := by
  obtain ⟨hcopy, hcolumns, htyped⟩ := hinv
  cases op with
  | output c =>
    obtain rfl : _ = t := Option.some.inj hstep
    obtain ⟨hlfb, hterm⟩ := putchar_size { s.term with userInputNum := 0 } c
    -- output of the kernel clears the count
    have hnum : (terminalPutchar s.term c).userInputNum = 0 := by
      rcases putchar_count { s.term with userInputNum := 0 } c with h | h <;> exact h
    refine ⟨hterm.trans hcopy, ?_, ?_⟩
    · show 2 ≤ (terminalPutchar s.term c).lfbTerminal.columns.toNat
      rw [show (terminalPutchar s.term c).lfbTerminal = s.term.lfbTerminal from hlfb]
      exact hcolumns
    · show (terminalPutchar s.term c).userInputNum.toNat ≤ 0
      rw [hnum]
      decide
  | press c =>
    obtain rfl : _ = t := Option.some.inj hstep
    obtain ⟨hlfb, hterm⟩ := processInput_size s.term c
    refine ⟨hterm.trans hcopy, by rw [hlfb]; exact hcolumns, ?_⟩
    show (terminalProcessInput s.term c).userInputNum.toNat ≤ if c = 8 then s.typed else s.typed + 1
    by_cases hc : c = 8
    · rw [if_pos hc, hc]
      -- without a count nothing is erased
      by_cases hnum : s.term.userInputNum = 0
      · rw [processInput_no_count hnum]
        exact htyped
      · obtain ⟨hin, hmax⟩ := hok hc hnum
        rw [(processInput_erase hnum).2.2, erase_inside hcopy (by bv_omega)]
        dsimp only
        bv_omega
    · rw [if_neg hc]
      have hput : (terminalProcessInput s.term c).userInputNum =
          (terminalPutUserChar s.term c).userInputNum := by
        unfold terminalProcessInput
        rw [if_neg hc]
        rfl
      rw [hput]
      rcases putchar_count { s.term with userInputNum := s.term.userInputNum + 1 } c with h | h
      · rw [show (terminalPutUserChar s.term c).userInputNum = s.term.userInputNum + 1 from h]
        bv_omega
      · rw [show (terminalPutUserChar s.term c).userInputNum = 0 from h]
        exact Nat.zero_le _

/-- The state the kernel starts with. -/
def lfbTyping (s : TerminalState) (lfbWidth lfbHeight : BitVec 32) : Typing :=
  ⟨kernelLfbTerminal s lfbWidth lfbHeight, 0⟩

/-- In a run in which no erasing backspace is pressed past the end of the line
    the count never exceeds what was typed; the next subtraction borrows only
    past the end of the line, and a character that does not scroll the screen
    can be erased exactly if it does not fill its line. -/
theorem terminal_run_typed (s : TerminalState) (lfbWidth lfbHeight : BitVec 32)
    (hsize : 2 ≤ (lfbWidth / 8).toNat) (ops : List TerminalOp) (t : Typing)
    (hrun : Run terminalStep (fun s op => op.Inside s) (lfbTyping s lfbWidth lfbHeight) ops t) :
    t.term.userInputNum.toNat ≤ t.typed ∧
      (t.term.userInputNum ≠ 0 → (t.term.EraseCounts ↔
        t.term.terminalColumn.toNat < t.term.lfbTerminal.columns.toNat ∧
          t.term.userInputNum.toNat + 1 < 4294967296)) ∧
      ∀ c, Printable c → ¬ t.term.Scrolls c → (t.term.CursorReturns c ↔
        t.term.terminalColumn.toNat + 1 < t.term.lfbTerminal.columns.toNat ∧
          t.term.userInputNum.toNat + 1 < 4294967296) := by
  have hinv : t.Inv := hrun.invariant Typing.Inv (fun _ _ _ hinv hok hstep =>
    terminalStep_inv hinv hok hstep) ⟨rfl, hsize, Nat.zero_le _⟩
  refine ⟨hinv.typed, fun hnum => eraseCounts_iff hinv.copy hnum, ?_⟩
  intro c hprint hscroll
  -- neither a backspace nor a newline is printable
  have hc : c ≠ 8 := by
    intro h
    have hlow := hprint.1
    rw [h] at hlow
    exact absurd hlow (by decide)
  have hc' : c ≠ 10 := by
    intro h
    have hlow := hprint.1
    rw [h] at hlow
    exact absurd hlow (by decide)
  exact cursorReturns_iff hinv.copy hinv.columns hc hc' hscroll

/-- The terminal the kernel boots with, its cursor in column `column`. -/
def vgaTerminal (column : BitVec 32) : TerminalState where
  terminalRow := 0
  terminalColumn := column
  textColor := 0xFFFFFFFF
  userInputNum := 0
  terminal := ⟨25, 25⟩
  lfbTerminal := lfbTerminalStatic
  drawn := []
  stdin := none

/-- A letter is typed and erased, and another one typed. -/
theorem terminal_run_typed_letter :
    ∃ t, Run terminalStep (fun s op => op.Inside s) (lfbTyping (vgaTerminal 0) 640 480)
        [.press 97, .press 8, .press 98] t ∧ t.typed = 2 ∧
      t.term.userInputNum.toNat ≤ t.typed ∧ t.term.CursorReturns 99 := by
  have hrun : Run terminalStep (fun s op => op.Inside s) (lfbTyping (vgaTerminal 0) 640 480)
      [.press 97, .press 8, .press 98] _ :=
    .cons (fun h => absurd h (by decide)) rfl (.cons (fun _ _ => ⟨by decide, by decide⟩) rfl
      (.cons (fun h => absurd h (by decide)) rfl (.nil _)))
  obtain ⟨htyped, _, hreturn⟩ :=
    terminal_run_typed (vgaTerminal 0) 640 480 (by decide) _ _ hrun
  refine ⟨_, hrun, rfl, htyped, (hreturn 99 ⟨by decide, by decide⟩ ?_).2 ⟨by decide, by decide⟩⟩
  rw [scrolls_iff (by decide) (by decide)]
  decide

/-- Enter twice and backspace twice: the count wraps.  A letter in the last
    column: backspace leaves the cursor in the next line. -/
theorem terminal_run_typed_wraps :
    (∃ t, Run terminalStep (fun _ _ => True) (lfbTyping (vgaTerminal 0) 640 480)
        [.press 10, .press 10, .press 8, .press 8] t ∧
      t.typed = 2 ∧ t.term.userInputNum = 0xFFFFFFFE) ∧
    ∃ t, Run terminalStep (fun _ _ => True) (lfbTyping (vgaTerminal 79) 640 480) [] t ∧
      Printable 97 ∧ ¬ t.term.Scrolls 97 ∧ ¬ t.term.CursorReturns 97 := by
  refine ⟨⟨_, .cons trivial rfl (.cons trivial rfl (.cons trivial rfl
    (.cons trivial rfl (.nil _)))), rfl, by decide⟩, _, .nil _, ⟨by decide, by decide⟩, ?_, ?_⟩
  · rw [scrolls_iff (by decide) (by decide)]
    decide
  · intro hback
    exact absurd hback.1 (by decide)

end MishaOS
