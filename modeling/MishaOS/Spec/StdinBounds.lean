import MishaOS.Spec.StdinStream

/-!
# Standard input inside its page

Which bytes of the page the calls touch.  A read is inside the page while the
fields of the descriptor are in bounds, and leaves them in bounds.  A write
moves neither, but it adds to `length`, and nothing but a read takes from it.

## Key results

- `stdin_read_around`: what a read returns, where it takes it from, and what it
  leaves.
- `stdin_run_inside_iff`: a run stays inside the page exactly when each write
  finds room.
-/

namespace MishaOS

open Ring

variable {fd : FileDescriptor} {len : Nat} {buf : List (BitVec 8)} {s s' : Stdin} {op : StdinOp}

/-- The piece lies in the page. -/
def Piece.Inside (p : Piece) : Prop := p.offset + p.count ≤ 0x1000

/-- Around a page at most one byte is taken twice, and none outside. -/
theorem pagePieces_inside {position count : Nat} (hpos : position < 0x1000)
    (hcount : count ≤ 0x1000) :
    ∀ p ∈ pagePieces position count, p.Inside := by
  have hsum : u32 (position + count) = position + count := u32_of_lt (by omega)
  have hfirst : sub32 0x1000 position = 0x1000 - position := sub32_of_le (by omega) (by omega)
  unfold pagePieces
  rw [hsum, hfirst]
  dsimp only
  -- nothing to copy, or one piece or two
  split
  · simp
  · split
    · have hrest : sub32 count (0x1000 - position) = count - (0x1000 - position) :=
        sub32_of_le (by omega) (by omega)
      rw [if_pos (by omega), hrest]
      simp only [List.mem_cons, List.not_mem_nil, or_false, forall_eq_or_imp,
        forall_eq, Piece.Inside]
      omega
    · simp only [List.mem_singleton, forall_eq, Piece.Inside]
      omega

/-- The copied bytes are those of the pieces. -/
theorem stdinRead_pieces (fd : FileDescriptor) (len : Nat) :
    (stdinRead fd len).1 = (stdinReadPieces fd len).flatMap fun p =>
      slice fd.context p.offset p.count := by
  unfold stdinRead stdinReadPieces pagePieces
  dsimp only
  generalize (if len < fd.length then len else fd.length) = k
  -- the branches of the two calls are those of `pagePieces`
  by_cases hk : k = 0
  · simp [hk]
  by_cases hend : u32 (fd.position + k) ≥ 0x1000
  · by_cases hrest : sub32 0x1000 fd.position = 0 <;> simp [hk, hend, hrest]
  · simp [hk, hend]

theorem stdinReadPieces_inside (hpos : fd.position < 0x1000) (hlen : fd.length ≤ 0x1000) :
    ∀ p ∈ stdinReadPieces fd len, p.Inside :=
  pagePieces_inside hpos (by split <;> omega)

/-- Nothing else of the page is written. -/
theorem stdinWrite_pieces {a : Nat}
    (ha : ∀ p ∈ stdinWritePieces fd buf, a < p.offset ∨ p.offset + p.count ≤ a) :
    (stdinWrite fd buf).context a = fd.context a := by
  -- a piece is at most as long as its count
  have hout : ∀ (context : Nat → BitVec 8) pos k (l : List (BitVec 8)),
      a < pos ∨ pos + k ≤ a → blit context pos (l.take k) a = context a := by
    intro context pos k l h
    have hlen : (l.take k).length ≤ k := List.length_take_le k l
    exact blit_outside (by omega)
  unfold stdinWrite
  unfold stdinWritePieces pagePieces at ha
  dsimp only at ha ⊢
  generalize (if buf.length < 0x1000 then buf.length else 0x1000) = k at ha ⊢
  by_cases hk : k = 0
  · simp [hk]
  by_cases hend : u32 (fd.position + k) ≥ 0x1000
  · by_cases hrest : sub32 0x1000 fd.position = 0
    · simp only [hk, hend, hrest, if_true, if_false, ne_eq, not_true_eq_false] at ha ⊢
      exact hout _ _ _ _ (ha ⟨0, k⟩ List.mem_cons_self)
    · simp only [hk, hend, hrest, if_true, if_false, ne_eq, not_false_eq_true] at ha ⊢
      rw [hout _ _ _ _ (ha ⟨0, _⟩ (by simp)), hout _ _ _ _ (ha ⟨fd.position, _⟩ (by simp))]
  · simp only [hk, hend, if_false] at ha ⊢
    exact hout _ _ _ _ (ha ⟨fd.position, k⟩ List.mem_cons_self)

/-- A read copies the first `min len length` bytes around the circle, out of the page,
    and returns their number. -/
theorem stdin_read_around (hpos : fd.position < 0x1000) (hlen : fd.length ≤ 0x1000) :
    stdinRead fd len = (around 0x1000 fd.context fd.position (min len fd.length), { fd with
        position := (fd.position + min len fd.length) % 0x1000
        length := fd.length - min len fd.length }) ∧
      stdinReadResult fd len = ((min len fd.length : Nat) : Int) ∧
      (stdinRead fd len).1 =
        ((stdinReadPieces fd len).flatMap fun p => slice fd.context p.offset p.count) ∧
      ∀ p ∈ stdinReadPieces fd len, p.Inside := by
  -- the position wraps by itself when the second piece is empty
  refine ⟨stdinRead_eq hpos hlen len, ?_, stdinRead_pieces fd len, ?_⟩
  · have hmin : (if len < fd.length then len else fd.length) = min len fd.length := by
      split <;> omega
    rw [stdinReadResult, hmin]
    dsimp only
    split
    · rename_i h0
      rw [h0]
      rfl
    · rw [BitVec.toInt_eq_toNat_of_lt (by simp; omega), BitVec.toNat_ofNat,
        Nat.mod_eq_of_lt (by omega)]
  · exact stdinReadPieces_inside hpos hlen

/-- Five bytes, the last three of the page and the first two. -/
theorem stdin_read_around_end :
    (stdinRead ⟨fun a => BitVec.ofNat 8 a, 0xFFD, 5⟩ 7).1 = [0xFD, 0xFE, 0xFF, 0, 1] ∧
      ∀ p ∈ stdinReadPieces ⟨fun a => BitVec.ofNat 8 a, 0xFFD, 5⟩ 7, p.Inside := by
  generalize hfd : (⟨fun a => BitVec.ofNat 8 a, 0xFFD, 5⟩ : FileDescriptor) = fd
  -- `position` starts three bytes before the end of the page
  have hpos : fd.position < 0x1000 := by
    rw [← hfd]
    decide
  have hlen : fd.length ≤ 0x1000 := by
    rw [← hfd]
    decide
  obtain ⟨hread, -, -, hin⟩ : _ ∧ _ ∧ _ ∧ ∀ p ∈ stdinReadPieces fd 7, p.Inside :=
    stdin_read_around hpos hlen
  refine ⟨?_, hin⟩
  rw [hread, ← hfd]
  decide +kernel

/-! ## Every run -/

/-- `position` and `length` are in bounds. -/
def FileDescriptor.Bounded (fd : FileDescriptor) : Prop := fd.position < 0x1000 ∧ fd.length ≤ 0x1000

/-- The bytes of the page that a call touches. -/
def stdinPieces (s : Stdin) : StdinOp → List Piece
  | .write buf => stdinWritePieces s.fd buf
  | .read len => stdinReadPieces s.fd len

/-- The call stays inside the page and leaves the fields in bounds. -/
def StdinOpInside (s : Stdin) (op : StdinOp) : Prop :=
  (∀ p ∈ stdinPieces s op, p.Inside) ∧ ∀ s', stdinStep s op = some s' → s'.fd.Bounded

/-- There is room for the bytes of a write. -/
def StdinOpRoom (s : Stdin) : StdinOp → Prop
  | .write buf => s.fd.length + min buf.length 0x1000 ≤ 0x1000
  | .read _ => True

/-- A write moves `length` only. -/
theorem stdinWrite_fields (h : fd.Bounded) (buf : List (BitVec 8)) :
    (stdinWrite fd buf).position = fd.position ∧
      (stdinWrite fd buf).length = fd.length + min buf.length 0x1000 := by
  obtain ⟨hpos, hlen⟩ := h
  have hmin : (if buf.length < 0x1000 then buf.length else 0x1000) = min buf.length 0x1000 := by
    split <;> omega
  unfold stdinWrite
  dsimp only
  rw [hmin]
  -- `length` is added to once or twice, by `count` in the end
  have hk : min buf.length 0x1000 ≤ 0x1000 := by omega
  generalize min buf.length 0x1000 = k at hk
  have hsum : u32 (fd.position + k) = fd.position + k := u32_of_lt (by omega)
  have hfirst : sub32 0x1000 fd.position = 0x1000 - fd.position := sub32_of_le (by omega) (by omega)
  rw [hsum, hfirst]
  split
  · simp [*]
  · split
    · have hrest : sub32 k (0x1000 - fd.position) = k - (0x1000 - fd.position) :=
        sub32_of_le (by omega) (by omega)
      rw [if_pos (by omega), hrest]
      refine ⟨rfl, ?_⟩
      change u32 (u32 (fd.length + (0x1000 - fd.position)) + (k - (0x1000 - fd.position))) =
        fd.length + k
      have hend : fd.length + (0x1000 - fd.position) ≤ 0x2000 := by omega
      rw [u32_of_lt (n := fd.length + (0x1000 - fd.position)) (by omega), u32_of_lt (by omega)]
      omega
    · refine ⟨rfl, ?_⟩
      change u32 (fd.length + k) = fd.length + k
      exact u32_of_lt (by omega)

/-- From fields in bounds, a call keeps inside exactly when it finds room. -/
theorem stdinOpInside_iff (h : s.fd.Bounded) : StdinOpInside s op ↔ StdinOpRoom s op := by
  cases op with
  | write buf =>
    have hin : ∀ p ∈ stdinWritePieces s.fd buf, p.Inside :=
      pagePieces_inside h.1 (by split <;> omega)
    obtain ⟨hpos, hlen⟩ := stdinWrite_fields h buf
    constructor
    -- the bytes of a write are inside in any case; it is `length` that goes too far
    · rintro ⟨-, hstep⟩
      have hle := (hstep _ rfl).2
      change (stdinWrite s.fd buf).length ≤ 0x1000 at hle
      rwa [hlen] at hle
    · refine fun hroom => ⟨hin, fun s' hs => ?_⟩
      obtain rfl := Option.some.inj hs
      change (stdinWrite s.fd buf).position < 0x1000 ∧ (stdinWrite s.fd buf).length ≤ 0x1000
      rw [hpos, hlen]
      exact ⟨h.1, hroom⟩
  | read len =>
    refine iff_of_true ⟨(stdinReadPieces_inside h.1 h.2), fun s' hs => ?_⟩ trivial
    obtain rfl := Option.some.inj hs
    change (stdinRead s.fd len).2.Bounded
    rw [stdinRead_eq h.1 h.2]
    exact ⟨Nat.mod_lt _ (by omega), Nat.le_trans (Nat.sub_le _ _) h.2⟩

/-- A run keeps inside the page, with the fields in bounds, exactly when each write finds room. -/
theorem stdin_run_inside_iff {context : Nat → BitVec 8} {ops : List StdinOp} :
    Run stdinStep StdinOpInside ⟨⟨context, 0, 0⟩, [], []⟩ ops s ↔
      Run stdinStep StdinOpRoom ⟨⟨context, 0, 0⟩, [], []⟩ ops s := by
  have hstart : (⟨⟨context, 0, 0⟩, [], []⟩ : Stdin).fd.Bounded :=
    ⟨Nat.zero_lt_succ _, Nat.zero_le _⟩
  generalize (⟨⟨context, 0, 0⟩, [], []⟩ : Stdin) = s₀ at hstart
  -- both runs make the same calls, and the fields are in bounds before each
  constructor
  · intro hrun
    induction hrun with
    | nil s => exact .nil s
    | cons hin hs _ ih => exact .cons ((stdinOpInside_iff hstart).mp hin) hs (ih (hin.2 _ hs))
  · intro hrun
    induction hrun with
    | nil s => exact .nil s
    | cons hroom hs _ ih =>
      have hin := (stdinOpInside_iff hstart).mpr hroom
      exact .cons hin hs (ih (hin.2 _ hs))

/-- Key presses that nothing reads. -/
theorem stdin_presses {context : Nat → BitVec 8} {x : BitVec 8} {n : Nat} (hn : n < 4294967296) :
    ∃ s, Run stdinStep (fun _ _ => True) ⟨⟨context, 0, 0⟩, [], []⟩
      (List.replicate n (.write [x])) s ∧
      s.fd.position = 0 ∧ s.fd.length = n := by
  -- every press adds one to `length`
  induction n with
  | zero => exact ⟨_, .nil _, rfl, rfl⟩
  | succ n ih =>
    obtain ⟨s, hrun, hpos, hlen⟩ := ih (by omega)
    refine ⟨{ s with fd := stdinWrite s.fd [x], written := s.written ++ [x] }, ?_, ?_, ?_⟩
    · rw [List.replicate_succ']
      exact hrun.append (.cons trivial rfl (.nil _))
    · simp [stdinWrite, hpos, u32]
    · simp [stdinWrite, hpos, hlen, u32]
      omega

/-- 8193 key presses: `length` is past the page, and a read of all of them copies 4097 bytes
    from its start. -/
theorem stdin_presses_overrun :
    ∃ s, Run stdinStep (fun _ _ => True) ⟨⟨fun _ => 0, 0, 0⟩, [], []⟩
      (List.replicate 0x2001 (.write [0x61])) s ∧ ¬ s.fd.Bounded ∧
      ⟨0, 0x1001⟩ ∈ stdinReadPieces s.fd 0x2001 ∧ ¬ StdinOpInside s (.read 0x2001) := by
  obtain ⟨s, hrun, hpos, hlen⟩ : ∃ s, Run stdinStep (fun _ _ => True) ⟨⟨fun _ => 0, 0, 0⟩, [], []⟩
      (List.replicate 0x2001 (.write [0x61])) s ∧ s.fd.position = 0 ∧ s.fd.length = 0x2001 :=
    stdin_presses (by decide)
  -- the second piece of the read is what is left behind the end of the page
  have hmem : ⟨0, 0x1001⟩ ∈ stdinReadPieces s.fd 0x2001 := by
    rw [stdinReadPieces, hpos, hlen]
    decide +kernel
  refine ⟨s, hrun, fun hb => ?_, hmem, fun hin => ?_⟩
  · have hle := hb.2
    rw [hlen] at hle
    exact absurd hle (by decide)
  · have hle : 0 + 0x1001 ≤ 0x1000 := hin.1 _ hmem
    exact absurd hle (by decide)

end MishaOS
