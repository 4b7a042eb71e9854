import MishaOS.ForStd.RunLength
import MishaOS.Native.Tga

/-!
# The loops of the picture decoder

The pixels of a file come row by row, from the bottom if the origin is zero.
The loop over the rows moves through the destination in order and looks the
source up; the loop over the packets moves through the source in order, and the
destination jumps at the start of every row.  Both do the same exchange of rows.

## Key results

- `tgaRows_spec`, `tgaRows_reads`: the rows when all pixels can be read, and that they can
  when the loop ends.
- `tgaPackets_spec`, `tgaPackets_inv`: the same for packets.
-/

namespace MishaOS

open RunLength (Chunk Packet)

variable {t : TgaHeader} {s s' : TgaOut} {v : BitVec 32} {vs vs' : List (BitVec 32)}
    {f : Nat → BitVec 32}
  {read : Nat → Option (BitVec 32)} {stride c n m j k : Nat} {ptr : List Byte}

/-! ## The place of a pixel -/

/-- The pixel number `c` of the file belongs here, and the other way round. -/
def TgaHeader.place (t : TgaHeader) (c : Nat) : Nat :=
  if t.origin = 0 then (t.h - 1 - c / t.w) * t.w + c % t.w else c

/-- The row of a pixel. -/
theorem row_lt (hc : c < t.w * t.h) : c / t.w < t.h := Nat.div_lt_of_lt_mul hc

/-- A picture with a pixel is not empty. -/
theorem width_pos (hc : c < t.w * t.h) : 0 < t.w :=
  Nat.pos_of_mul_pos_right (Nat.lt_of_le_of_lt (Nat.zero_le c) hc)

/-- The index of a pixel. -/
theorem index_lt {q r : Nat} (hq : q < t.h) (hr : r < t.w) : q * t.w + r < t.w * t.h := by
  calc q * t.w + r < q * t.w + t.w := Nat.add_lt_add_left hr _
    _ = (q + 1) * t.w := (Nat.succ_mul q t.w).symm
    _ ≤ t.h * t.w := Nat.mul_le_mul_right _ hq
    _ = t.w * t.h := Nat.mul_comm _ _

/-- Its row. -/
theorem index_div {q r : Nat} (hr : r < t.w) : (q * t.w + r) / t.w = q := by
  rw [Nat.mul_comm, Nat.mul_add_div (by omega), Nat.div_eq_of_lt hr, Nat.add_zero]

/-- Its column. -/
theorem index_mod {q r : Nat} (hr : r < t.w) : (q * t.w + r) % t.w = r := by
  rw [Nat.add_comm, Nat.add_mul_mod_self_right, Nat.mod_eq_of_lt hr]

/-- Row and column make up the index. -/
theorem index_eq (c : Nat) : c / t.w * t.w + c % t.w = c := by
  rw [Nat.mul_comm]
  exact Nat.div_add_mod c t.w

/-- In the row `q`, at `r`. -/
theorem place_index {q r : Nat} (hq : q < t.h) (hr : r < t.w) :
    (t.place (q * t.w + r) : Int) = t.row q * t.w + r := by
  unfold TgaHeader.place TgaHeader.row
  split
  · have hrow : ((t.h - 1 - q : Nat) : Int) = t.h - q - 1 := by omega
    rw [index_div hr, index_mod hr, Int.natCast_add, Int.natCast_mul, hrow]
  · push_cast
    rfl

/-- The place of a pixel is in the picture. -/
theorem place_lt (hc : c < t.w * t.h) : t.place c < t.w * t.h := by
  unfold TgaHeader.place
  split
  · have hpos : 0 < t.h := Nat.lt_of_le_of_lt (Nat.zero_le _) (row_lt hc)
    have hlt : t.h - 1 - c / t.w < t.h := Nat.lt_of_le_of_lt (Nat.sub_le _ _) (by omega)
    exact index_lt hlt (Nat.mod_lt c (width_pos hc))
  · exact hc

/-- Turning over twice gives it back. -/
theorem place_place (hc : c < t.w * t.h) : t.place (t.place c) = c := by
  have hrow := row_lt hc
  have hmod := Nat.mod_lt c (width_pos hc)
  unfold TgaHeader.place
  by_cases horigin : t.origin = 0
  · rw [if_pos horigin, if_pos horigin, index_div hmod, index_mod hmod,
      Nat.sub_sub_self (by omega), index_eq]
  · rw [if_neg horigin, if_neg horigin]

/-- No two pixels go to one place. -/
theorem place_inj (hc : c < t.w * t.h) (hk : k < t.w * t.h)
    (h : t.place c = t.place k) : c = k := by
  rw [← place_place hc, h, place_place hk]

/-! ## Rows -/

/-- The destination is filled with `f`, up to `c`. -/
structure TgaOut.Filled (t : TgaHeader) (f : Nat → BitVec 32) (c : Nat) (s : TgaOut) : Prop where
  i_eq : s.i = c
  data_eq : ∀ k < c, s.data (2 + k) = f k

/-- One more pixel is written. -/
theorem TgaOut.Filled.put (h : s.Filled t f c) (hc : c < t.w * t.h) :
    ∃ s', s.put t (f c) = some s' ∧ s'.Filled t f (c + 1) ∧ s'.y = s.y := by
  have hlt : (c : Int) < t.w * t.h := by exact_mod_cast hc
  refine ⟨_, if_pos ⟨by rw [h.i_eq]; omega, by rw [h.i_eq]; exact hlt⟩, ⟨?_, fun k hk => ?_⟩, rfl⟩
  · show s.i + 1 = _
    rw [h.i_eq]
    rfl
  · show Function.update s.data (2 + s.i.toNat) (f c) (2 + k) = f k
    rw [h.i_eq, Int.toNat_natCast]
    rcases Nat.lt_succ_iff_lt_or_eq.mp hk with hk | rfl
    · rw [Function.update_of_ne (by omega), h.data_eq k hk]
    · rw [Function.update_self]

/-- A row, when its pixels can be read. -/
theorem tgaRow_spec (h : s.Filled t f c) (hfit : c + n ≤ t.w * t.h)
    (hread : ∀ x < n, read (j + x * stride) = some (f (c + x)))
    (hint : j + n * stride < 2147483648) :
    ∃ s', tgaRow t read stride n j s = some s' ∧ s'.Filled t f (c + n) ∧ s'.y = s.y := by
  induction n generalizing s c j with
  | zero => exact ⟨s, rfl, h, rfl⟩
  | succ n ih =>
    rw [Nat.succ_mul] at hint
    obtain ⟨s', hput, hfilled, hy⟩ := h.put (by omega)
    have hfirst : read j = some (f c) := by simpa using hread 0 (Nat.succ_pos n)
    -- the offset behind the last pixel of a row is computed too, though nothing is read there
    have hnext : CInt.checked (j + stride) = some ((j + stride : Nat) : Int) := by
      rw [← Int.natCast_add]
      exact CInt.checked_of_le (by omega) (by omega)
    have hrest : ∀ x < n, read (j + stride + x * stride) = some (f (c + 1 + x)) := by
      intro x hx
      have := hread (x + 1) (Nat.succ_lt_succ hx)
      rwa [Nat.succ_mul, show j + (x * stride + stride) = j + stride + x * stride by omega,
        show c + (x + 1) = c + 1 + x by omega] at this
    obtain ⟨s'', hrow, hfilled', hy'⟩ := ih hfilled (by omega) hrest (by omega)
    refine ⟨s'', ?_, ?_, hy'.trans hy⟩
    · simp only [tgaRow, hfirst, hput, hnext, Option.bind_eq_bind, Option.bind_some,
        Int.toNat_natCast]
      exact hrow
    · rw [show c + (n + 1) = c + 1 + n by omega]
      exact hfilled'

/-- A row that ends has been read. -/
theorem tgaRow_reads (h : tgaRow t read stride n j s = some s') :
    (∀ x < n, ∃ v, read (j + x * stride) = some v) ∧ (0 < n → j + n * stride < 2147483648) := by
  induction n generalizing s j with
  | zero => exact ⟨fun x hx => absurd hx (Nat.not_lt_zero x), fun h => absurd h (Nat.lt_irrefl 0)⟩
  | succ n ih =>
    simp only [tgaRow, Option.bind_eq_bind, Option.bind_eq_some_iff] at h
    obtain ⟨v, hv, s₁, -, next, hnext, hrow⟩ := h
    obtain ⟨rfl, -, hlt⟩ := CInt.checked_eq_some.mp hnext
    rw [← Int.natCast_add] at hrow hlt
    rw [Int.toNat_natCast] at hrow
    obtain ⟨hreads, hint⟩ := ih hrow
    refine ⟨fun x hx => ?_, fun _ => ?_⟩
    · cases x with
      | zero => exact ⟨v, by simpa using hv⟩
      | succ x =>
        have := hreads x (Nat.lt_of_succ_lt_succ hx)
        rwa [Nat.succ_mul, show j + (x * stride + stride) = j + stride + x * stride by omega]
    · rw [Nat.succ_mul]
      -- the bound of a row comes from its last round
      rcases Nat.eq_zero_or_pos n with rfl | hn
      · omega
      · have := hint hn
        omega

/-- The row counter stays. -/
theorem TgaOut.put_y (h : s.put t v = some s') : s'.y = s.y := by
  unfold TgaOut.put at h
  split at h
  · rw [← Option.some.inj h]
  · exact absurd h nofun

/-- It stays within a row. -/
theorem tgaRow_y (h : tgaRow t read stride n j s = some s') : s'.y = s.y := by
  induction n generalizing s j with
  | zero => rw [← Option.some.inj h]
  | succ n ih =>
    simp only [tgaRow, Option.bind_eq_bind, Option.bind_eq_some_iff] at h
    obtain ⟨v, -, s₁, hput, next, -, hrow⟩ := h
    rw [ih hrow, TgaOut.put_y hput]

/-- The offset of the first pixel of a row, which is computed in `int`. -/
structure RowStart (t : TgaHeader) (stride : Nat) (first : Int → Option Int) : Prop where
  fits : ∀ q < t.h, q * t.w * stride < 2147483648 →
    first (q : Int) = some ((q * t.w * stride : Nat) : Int)
  value : ∀ (q : Nat) j, first (q : Int) = some j → j = (q * t.w * stride : Nat)

/-- The row of the source, as a number. -/
theorem row_eq (hn : n < t.h) : ∃ q : Nat, t.row n = q ∧ q < t.h := by
  unfold TgaHeader.row
  split
  · exact ⟨t.h - n - 1, by omega, by omega⟩
  · exact ⟨n, rfl, hn⟩

/-- The bytes up to the end of a row. -/
theorem row_end_le {q : Nat} (hq : q < t.h) (stride : Nat) :
    q * t.w * stride + t.w * stride ≤ t.w * t.h * stride := by
  calc
    q * t.w * stride + t.w * stride = (q + 1) * t.w * stride := by
      rw [← Nat.add_mul, ← Nat.succ_mul]
    _ ≤ t.h * t.w * stride := Nat.mul_le_mul_right _ (Nat.mul_le_mul_right _ hq)
    _ = t.w * t.h * stride := by rw [Nat.mul_comm t.h]

/-- All rows, when all pixels can be read: the exchange of rows. -/
theorem tgaRows_spec {first : Int → Option Int} (hfirst : RowStart t stride first)
    (hy : s.y + n = t.h)
    (h : s.Filled t (fun k => f (t.place k)) (s.y * t.w))
    (hread : ∀ c < t.w * t.h, read (c * stride) = some (f c))
    (hint : t.w * t.h * stride < 2147483648) :
    ∃ s', tgaRows t read stride first n s = some s' ∧
      s'.Filled t (fun k => f (t.place k)) (t.w * t.h) := by
  induction n generalizing s with
  | zero =>
    refine ⟨s, rfl, ?_⟩
    rw [show s.y = t.h by omega, Nat.mul_comm] at h
    exact h
  | succ n ih =>
    obtain ⟨q, hq, hlt⟩ := row_eq (t := t) (n := s.y) (by omega)
    have hend := row_end_le hlt stride
    -- row `q` of the file is row `s.y` of the picture
    have hplace : ∀ x < t.w, t.place (s.y * t.w + x) = q * t.w + x := by
      intro x hx
      have := place_index (t := t) (q := s.y) (by omega) hx
      rw [hq] at this
      exact_mod_cast this
    have hrow : ∀ x < t.w, read (q * t.w * stride + x * stride) =
        some (f (t.place (s.y * t.w + x))) := by
      intro x hx
      rw [← Nat.add_mul, hread _ (index_lt hlt hx), hplace x hx]
    have hfit : s.y * t.w + t.w ≤ t.w * t.h := by
      rw [← Nat.succ_mul, Nat.mul_comm t.w]
      exact Nat.mul_le_mul_right _ (by omega)
    obtain ⟨s₁, hs₁, hfilled, hy₁⟩ := tgaRow_spec h hfit hrow (by omega)
    rw [← Nat.succ_mul, ← hy₁] at hfilled
    obtain ⟨s', hs', hdone⟩ :=
      ih (s := { s₁ with y := s₁.y + 1 }) (by show s₁.y + 1 + n = t.h; omega)
      ⟨hfilled.i_eq, hfilled.data_eq⟩
    refine ⟨s', ?_, hdone⟩
    simp only [tgaRows, hq, hfirst.fits q hlt (by omega), Option.bind_eq_bind, Option.bind_some,
      Int.toNat_natCast, hs₁]
    exact hs'

/-- Every source row is one of the rows that are still to come. -/
theorem exists_row {q : Nat} (hq : q < t.h) : ∃ y < t.h, t.row y = q := by
  unfold TgaHeader.row
  by_cases horigin : t.origin = 0
  · exact ⟨t.h - 1 - q, by omega, by rw [if_pos horigin]; omega⟩
  · exact ⟨q, hq, by rw [if_neg horigin]⟩

/-- Rows that end have been read, each from its start. -/
theorem tgaRows_each {first : Int → Option Int} (hfirst : RowStart t stride first)
    (h : tgaRows t read stride first n s = some s') (hy : s.y + n = t.h) (hk : s.y ≤ k)
    (hkh : k < t.h) {q : Nat}
    (hq : t.row k = q) : (∀ x < t.w, ∃ v, read ((q * t.w + x) * stride) = some v) ∧
      (0 < t.w → q * t.w * stride + t.w * stride < 2147483648) := by
  induction n generalizing s with
  | zero => omega
  | succ n ih =>
    simp only [tgaRows, Option.bind_eq_bind, Option.bind_eq_some_iff] at h
    obtain ⟨j, hj, s₁, hs₁, hrest⟩ := h
    -- row `k` is read in this round or in a later one
    by_cases heq : s.y = k
    · rw [heq, hq] at hj
      rw [hfirst.value q j hj, Int.toNat_natCast] at hs₁
      obtain ⟨hreads, hint⟩ := tgaRow_reads hs₁
      refine ⟨fun x hx => ?_, hint⟩
      rw [Nat.add_mul]
      exact hreads x hx
    · have hy₁ : s₁.y = s.y := tgaRow_y hs₁
      exact ih hrest (by show s₁.y + 1 + n = t.h; omega) (by show s₁.y + 1 ≤ k; omega)

/-- Rows that end have read every pixel. -/
theorem tgaRows_reads {first : Int → Option Int} (hfirst : RowStart t stride first)
    (h : tgaRows t read stride first t.h s = some s') (hy : s.y = 0) (hw : 0 < t.w) (hh : 0 < t.h) :
    (∀ c < t.w * t.h, ∃ v, read (c * stride) = some v) ∧ t.w * t.h * stride < 2147483648 := by
  constructor
  · intro c hc
    obtain ⟨y, hy', hq⟩ := exists_row (row_lt hc)
    have := (tgaRows_each hfirst h (by omega) (by omega) hy' hq).1 (c % t.w) (Nat.mod_lt _ hw)
    rwa [index_eq] at this
  · -- the last row ends at the end
    obtain ⟨y, hy', hq⟩ := exists_row (t := t) (q := t.h - 1) (by omega)
    have hlast := (tgaRows_each hfirst h (by omega) (by omega) hy' hq).2 hw
    have hend : (t.h - 1) * t.w * stride + t.w * stride = t.w * t.h * stride := by
      rw [← Nat.add_mul, ← Nat.succ_mul, Nat.succ_eq_add_one, Nat.sub_add_cancel hh,
        Nat.mul_comm t.h]
    omega

/-! ## Packets -/

/-- The pixels `vs` are in their places, and the next one is found from `i` and `y`. -/
structure TgaOut.Shows (t : TgaHeader) (vs : List (BitVec 32)) (s : TgaOut) : Prop where
  le : vs.length ≤ t.w * t.h
  pixel : ∀ k v, vs[k]? = some v → s.data (2 + t.place k) = v
  start : vs.length % t.w = 0 → s.i % t.w = 0 ∧ s.y = vs.length / t.w
  middle : vs.length % t.w ≠ 0 → s.i = t.row (vs.length / t.w) * t.w + (vs.length % t.w : Nat) ∧
    s.y = vs.length / t.w + 1

/-- Nothing is shown yet. -/
theorem TgaOut.Shows.empty (t : TgaHeader) (data : Nat → BitVec 32) :
    TgaOut.Shows t [] ⟨0, 0, data⟩ where
  le := Nat.zero_le _
  pixel k v hv := by simp at hv
  start _ := ⟨Int.zero_emod _, (Nat.zero_div _).symm⟩
  middle h := absurd (Nat.zero_mod _) h

/-- One more pixel is in its place, and `i` is behind it. -/
theorem TgaOut.Shows.snoc (h : s.Shows t vs) (hlt : vs.length < t.w * t.h)
    (hi : s'.i = t.place vs.length + 1)
    (hy : s'.y = vs.length / t.w + 1)
    (hdata : s'.data = Function.update s.data (2 + t.place vs.length) v) :
    s'.Shows t (vs ++ [v]) := by
  have hw := width_pos hlt
  have hmod := Nat.mod_lt vs.length hw
  have hplace := place_index (row_lt hlt) hmod
  rw [index_eq] at hplace
  have hsucc : vs.length + 1 = vs.length / t.w * t.w + (vs.length % t.w + 1) := by
    rw [← Nat.add_assoc, index_eq]
  constructor
  case le =>
    rw [List.length_append]
    exact hlt
  case pixel =>
    intro k v' hk
    rw [hdata]
    rcases Nat.lt_trichotomy k vs.length with hklt | rfl | hgt
    · rw [List.getElem?_append_left hklt] at hk
      -- no earlier pixel has the same place
      have hne : 2 + t.place k ≠ 2 + t.place vs.length := fun heq =>
        absurd (place_inj (by omega) hlt (Nat.add_left_cancel heq)) (Nat.ne_of_lt hklt)
      rw [Function.update_of_ne hne]
      exact h.pixel k v' hk
    · rw [List.getElem?_append_right (Nat.le_refl _), Nat.sub_self] at hk
      rw [Function.update_self]
      exact Option.some.inj hk
    · rw [List.getElem?_eq_none (by rw [List.length_append]; exact hgt)] at hk
      exact absurd hk nofun
  case start =>
    intro hzero
    rw [List.length_append, List.length_singleton] at hzero ⊢
    -- the row is full
    have hfull : vs.length % t.w + 1 = t.w := by
      by_contra hne
      rw [hsucc, index_mod (by omega)] at hzero
      omega
    rw [hfull, ← Nat.succ_mul] at hsucc
    rw [hi, hplace, hy, hsucc, Nat.mul_div_cancel _ hw, Int.add_assoc,
      show ((vs.length % t.w : Nat) : Int) + 1 = t.w by omega]
    exact ⟨by rw [Int.add_emod_right, Int.mul_emod_left], rfl⟩
  case middle =>
    intro hne
    rw [List.length_append, List.length_singleton] at hne ⊢
    have hroom : vs.length % t.w + 1 < t.w := by
      by_contra hge
      rw [hsucc, show vs.length % t.w + 1 = t.w by omega, ← Nat.succ_mul] at hne
      exact hne (Nat.mul_mod_left _ _)
    rw [hsucc, index_div hroom, index_mod hroom, hi, hplace, hy]
    exact ⟨by push_cast; omega, rfl⟩

/-- The next pixel has room. -/
theorem TgaOut.Shows.next (h : s.Shows t vs) (hlt : vs.length < t.w * t.h) (v : BitVec 32) :
    ∃ s', s.next t v = some s' ∧ s'.Shows t (vs ++ [v]) := by
  have hw := width_pos hlt
  have hmod := Nat.mod_lt vs.length hw
  have hplace := place_index (row_lt hlt) hmod
  rw [index_eq] at hplace
  have hfit : ((t.place vs.length : Nat) : Int) < t.w * t.h := by exact_mod_cast place_lt hlt
  -- only inside a row `i` says where the next pixel goes
  by_cases hzero : vs.length % t.w = 0
  · obtain ⟨hi, hy⟩ := h.start hzero
    rw [hzero, Int.natCast_zero, Int.add_zero, ← hy] at hplace
    have hinside : 0 ≤ t.row s.y * t.w ∧ t.row s.y * t.w < t.w * t.h := by
      rw [← hplace]
      exact ⟨Int.natCast_nonneg _, hfit⟩
    refine ⟨⟨t.row s.y * t.w + 1, s.y + 1, Function.update s.data (2 + (t.row s.y * t.w).toNat) v⟩,
      ?_,
      h.snoc hlt ?_ ?_ ?_⟩
    · rw [TgaOut.next, if_pos hi, TgaOut.put, if_pos hinside]
    · show t.row s.y * t.w + 1 = _
      rw [hplace]
    · show s.y + 1 = _
      rw [hy]
    · show Function.update s.data (2 + (t.row s.y * t.w).toNat) v = _
      rw [← hplace, Int.toNat_natCast]
  · obtain ⟨hi, hy⟩ := h.middle hzero
    have hnot : ¬ s.i % t.w = 0 := by
      rw [hi, Int.add_comm, Int.add_mul_emod_self_right, ← Int.natCast_emod, Nat.mod_eq_of_lt hmod]
      omega
    rw [← hi] at hplace
    have hinside : 0 ≤ s.i ∧ s.i < t.w * t.h := by
      rw [← hplace]
      exact ⟨Int.natCast_nonneg _, hfit⟩
    refine ⟨⟨s.i + 1, s.y, Function.update s.data (2 + s.i.toNat) v⟩, ?_, h.snoc hlt ?_ hy ?_⟩
    · rw [TgaOut.next, if_neg hnot, TgaOut.put, if_pos hinside]
    · show s.i + 1 = _
      rw [hplace]
    · show Function.update s.data (2 + s.i.toNat) v = _
      rw [← hplace, Int.toNat_natCast]

/-- Behind the last pixel there is no row. -/
theorem TgaOut.Shows.next_full (h : s.Shows t vs) (hw : 0 < t.w) (hfull : vs.length = t.w * t.h)
    (v : BitVec 32) :
    s.next t v = none := by
  obtain ⟨hi, hy⟩ := h.start (by rw [hfull]; exact Nat.mul_mod_right _ _)
  rw [hfull, Nat.mul_div_cancel_left _ hw] at hy
  rw [TgaOut.next, if_pos hi, TgaOut.put, if_neg]
  rintro ⟨hge, hlt⟩
  dsimp only at hge hlt
  rw [hy] at hge hlt
  -- the row is above the first one or below the last
  unfold TgaHeader.row at hge hlt
  split at hge
  · rw [show (t.h : Int) - t.h - 1 = -1 by omega] at hge
    omega
  · rename_i horigin
    rw [if_neg horigin, Int.mul_comm] at hlt
    exact Int.lt_irrefl _ hlt

/-- A pixel is only written when it has room. -/
theorem TgaOut.Shows.next_inv (h : s.Shows t vs) (hw : 0 < t.w) (hnext : s.next t v = some s') :
    vs.length < t.w * t.h ∧ s'.Shows t (vs ++ [v]) := by
  rcases Nat.lt_or_eq_of_le h.le with hlt | hfull
  · obtain ⟨s₁, hs₁, hshows⟩ := h.next hlt v
    obtain rfl : s₁ = s' := Option.some.inj (hs₁.symm.trans hnext)
    exact ⟨hlt, hshows⟩
  · rw [h.next_full hw hfull v] at hnext
    exact absurd hnext nofun

/-- A pixel is written `n` times. -/
theorem tgaRepeat_spec (h : s.Shows t vs) (hfit : vs.length + n ≤ t.w * t.h) (v : BitVec 32) :
    ∃ s', tgaRepeat t v n s = some s' ∧ s'.Shows t (vs ++ List.replicate n v) := by
  induction n generalizing s vs with
  | zero => exact ⟨s, rfl, by simpa using h⟩
  | succ n ih =>
    obtain ⟨s₁, hs₁, hshows⟩ := h.next (by omega) v
    obtain ⟨s', hs', hdone⟩ := ih hshows (by rw [List.length_append, List.length_singleton]; omega)
    refine ⟨s', ?_, ?_⟩
    · rw [tgaRepeat, hs₁]
      exact hs'
    · rw [List.replicate_succ, List.append_cons]
      exact hdone

/-- This is all the loop can do. -/
theorem tgaRepeat_inv (h : s.Shows t vs) (hw : 0 < t.w) (hrun : tgaRepeat t v n s = some s') :
    s'.Shows t (vs ++ List.replicate n v) := by
  induction n generalizing s vs with
  | zero =>
    rw [← Option.some.inj hrun]
    simpa using h
  | succ n ih =>
    simp only [tgaRepeat, Option.bind_eq_bind, Option.bind_eq_some_iff] at hrun
    obtain ⟨s₁, hs₁, hrest⟩ := hrun
    rw [List.replicate_succ, List.append_cons]
    exact ih (h.next_inv hw hs₁).2 hrest

/-- `read` reads units of `stride` bytes of the file, and `col` is the colour of a unit. -/
structure Reads (ptr : List Byte) (stride : Nat) (read : Nat → Option (BitVec 32))
    (col : Chunk stride → Option (BitVec 32)) : Prop where
  unit : ∀ m (u : Chunk stride) rest, ptr.drop m = u.val ++ rest → read m = col u
  inside : ∀ m v, read m = some v → m + stride ≤ ptr.length

variable {col : Chunk stride → Option (BitVec 32)} {us : List (Chunk stride)}
    {ps : List (Packet stride)}
  {rest : List Byte}

/-- The unit that has been read. -/
theorem Reads.exists_unit (h : Reads ptr stride read col) (hread : read m = some v) :
    ∃ u : Chunk stride, ptr.drop m = u.val ++ ptr.drop (m + stride) ∧ col u = some v := by
  have hlen := h.inside m v hread
  have hunit : ((ptr.drop m).take stride).length = stride := by
    rw [List.length_take, List.length_drop]
    omega
  have hsplit : ptr.drop m = (ptr.drop m).take stride ++ ptr.drop (m + stride) := by
    rw [← List.drop_drop, List.take_append_drop]
  exact ⟨⟨_, hunit⟩, hsplit, (h.unit m ⟨_, hunit⟩ _ hsplit).symm.trans hread⟩

/-- The file behind a piece. -/
theorem drop_of_append {l : List Byte} (h : ptr.drop m = l ++ rest) :
    ptr.drop (m + l.length) = rest := by
  rw [← List.drop_drop, h, List.drop_left]

/-- The pixels of a raw packet are written. -/
theorem tgaCopy_spec (hreads : Reads ptr stride read col) (h : s.Shows t vs)
    (hfit : vs.length + us.length ≤ t.w * t.h)
    (hptr : ptr.drop m = us.flatMap Subtype.val ++ rest) (hcol : us.map col = vs'.map some) :
    ∃ s', tgaCopy t read stride us.length m s = some s' ∧ s'.Shows t (vs ++ vs') := by
  -- pixel by pixel
  induction us generalizing s vs vs' m with
  | nil =>
    obtain rfl : vs' = [] := by simpa using hcol.symm
    exact ⟨s, rfl, by simpa using h⟩
  | cons u us ih =>
    obtain ⟨v, vs', rfl⟩ : ∃ v vs₁, vs' = v :: vs₁ := by
      cases vs' with
      | nil => simp at hcol
      | cons v vs₁ => exact ⟨v, vs₁, rfl⟩
    rw [List.map_cons, List.map_cons, List.cons.injEq] at hcol
    rw [List.length_cons] at hfit
    rw [List.flatMap_cons, List.append_assoc] at hptr
    obtain ⟨s₁, hs₁, hshows⟩ := h.next (by omega) v
    -- the next unit is `stride` bytes further
    have hnext := drop_of_append hptr
    rw [u.property] at hnext
    obtain ⟨s', hs', hdone⟩ :=
      ih hshows (by rw [List.length_append, List.length_singleton]; omega) hnext hcol.2
    refine ⟨s', ?_, ?_⟩
    · simp only [List.length_cons, tgaCopy, hreads.unit m u _ hptr, hcol.1, Option.bind_eq_bind,
        Option.bind_some, hs₁]
      exact hs'
    · rw [List.append_cons]
      exact hdone

/-- This is all the loop can do. -/
theorem tgaCopy_inv (hreads : Reads ptr stride read col) (h : s.Shows t vs) (hw : 0 < t.w)
    (hrun : tgaCopy t read stride n m s = some s') : ∃ (us : List (Chunk stride))
    (vs' : List (BitVec 32)),
      us.length = n ∧ ptr.drop m = us.flatMap Subtype.val ++ ptr.drop (m + n * stride) ∧
      us.map col = vs'.map some ∧
      s'.Shows t (vs ++ vs') := by
  -- each round has read one unit and written one colour
  induction n generalizing s vs m with
  | zero =>
    rw [← Option.some.inj hrun]
    exact ⟨[], [], rfl, by simp, rfl, by simpa using h⟩
  | succ n ih =>
    simp only [tgaCopy, Option.bind_eq_bind, Option.bind_eq_some_iff] at hrun
    obtain ⟨v, hv, s₁, hs₁, hrest⟩ := hrun
    obtain ⟨u, hu, hcol⟩ := hreads.exists_unit hv
    obtain ⟨us, vs', hlen, hptr, hcols, hshows⟩ := ih (h.next_inv hw hs₁).2 hrest
    refine ⟨u :: us, v :: vs', by rw [List.length_cons, hlen], ?_, ?_, ?_⟩
    · rw [hu, hptr, List.flatMap_cons, List.append_assoc, Nat.succ_mul,
        show m + (n * stride + stride) = m + stride + n * stride by omega]
    · rw [List.map_cons, List.map_cons, hcol, hcols]
    · rw [List.append_cons]
      exact hshows

/-- Results that are all there can be split where their arguments are. -/
theorem map_some_append {us us' : List (Chunk stride)} (h : (us ++ us').map col = vs.map some) :
    ∃ a b, vs = a ++ b ∧ us.map col = a.map some ∧ us'.map col = b.map some := by
  rw [List.map_append] at h
  obtain ⟨a, b, hvs, ha, hb⟩ := List.map_eq_append_iff.mp h.symm
  exact ⟨a, b, hvs, ha.symm, hb.symm⟩

/-- A repeated pixel has one colour. -/
theorem map_some_replicate {u : Chunk stride} (hn : 0 < n)
    (h : (List.replicate n u).map col = vs.map some) :
    ∃ v, col u = some v ∧ vs = List.replicate n v := by
  rw [List.map_replicate] at h
  have hlen : vs.length = n := by simpa using (congrArg List.length h).symm
  have hall : ∀ x ∈ vs, some x = col u := fun x hx =>
    List.eq_of_mem_replicate (h ▸ List.mem_map_of_mem hx)
  cases vs with
  | nil => exact absurd hlen (Nat.ne_of_lt hn)
  | cons v vs =>
    refine ⟨v, (hall v List.mem_cons_self).symm, List.eq_replicate_iff.mpr ⟨hlen, fun x hx => ?_⟩⟩
    exact Option.some.inj ((hall x hx).trans (hall v List.mem_cons_self).symm)

/-- The first byte of a piece. -/
theorem getElem?_of_drop {b : Byte} {l : List Byte} (h : ptr.drop m = b :: l) :
    ptr[m]? = some b := by
  have := congrArg (fun l : List Byte => l[0]?) h
  simpa using this

/-- The number of pixels is an `int`. -/
theorem checked_size (hint : t.w * t.h < 2147483648) : CInt.checked (t.w * t.h) = some
    ((t.w * t.h : Nat) : Int) := by
  rw [← Int.natCast_mul]
  exact CInt.checked_of_le (by omega) (by omega)

/-- No packet is empty. -/
theorem length_encode (p : Packet stride) : 0 < p.encode.length := by
  cases p <;> exact Nat.succ_pos _

/-- One round of the loop, over a packet whose units can be read. -/
theorem tgaPackets_packet (fuel : Nat) {p : Packet stride} (hreads : Reads ptr stride read col)
    (hint : t.w * t.h < 2147483648) (hok : p.Ok) (hptr : ptr.drop m = p.encode ++ rest)
    (hcol : p.expand.map col = vs'.map some) (h : s.Shows t vs)
    (hfit : vs.length + vs'.length ≤ t.w * t.h) :
    ∃ s', s'.Shows t (vs ++ vs') ∧ tgaPackets t ptr ptr.length read stride
      (fuel + 1) vs.length m s =
      tgaPackets t ptr ptr.length read stride fuel (vs ++ vs').length (m + p.encode.length) s' := by
  obtain ⟨hlo, hhi⟩ := hok
  have hlen : vs'.length = p.expand.length := by simpa using (congrArg List.length hcol).symm
  have hm : m < ptr.length := by
    have := congrArg List.length hptr
    rw [List.length_drop, List.length_append] at this
    have := length_encode p
    omega
  -- the packet starts inside the file and before the last pixel
  have hloop : (vs.length : Int) < (t.w * t.h : Nat) ∧ m < ptr.length := ⟨by omega, hm⟩
  have hx : CInt.checked (vs.length + vs'.length) = some (((vs ++ vs').length : Nat) : Int) := by
    rw [List.length_append, Int.natCast_add]
    exact CInt.checked_of_le (by omega) (by omega)
  cases p with
  | same n u =>
    simp only [Packet.expand, List.length_replicate] at hlo hhi hlen hcol
    obtain ⟨v, hv, rfl⟩ := map_some_replicate (by omega) hcol
    obtain ⟨s', hs', hshows⟩ := tgaRepeat_spec (n := n) h (by omega) v
    have hcode : ptr[m]? = some (BitVec.ofNat 8 (n + 127)) := getElem?_of_drop hptr
    have hk : (BitVec.ofNat 8 (n + 127)).toNat = n + 127 := by
      rw [BitVec.toNat_ofNat]
      omega
    have hunit : ptr.drop (m + 1) = u.val ++ rest :=
      drop_of_append (l := [BitVec.ofNat 8 (n + 127)]) hptr
    rw [List.length_replicate] at hx
    refine ⟨s', hshows, ?_⟩
    simp only [tgaPackets, checked_size hint, Option.bind_eq_bind, Option.bind_some, hcode, hk]
    rw [if_pos hloop, if_pos (by omega), Nat.add_sub_cancel, hx, hreads.unit _ u _ hunit, hv]
    simp only [Option.bind_some, hs']
    rw [Packet.encode, List.length_cons, u.property,
      show m + 1 + stride = m + (stride + 1) by omega]
  | each us =>
    simp only [Packet.expand] at hlo hhi hlen hcol
    have hcode : ptr[m]? = some (BitVec.ofNat 8 (us.length - 1)) := getElem?_of_drop hptr
    have hk : (BitVec.ofNat 8 (us.length - 1)).toNat = us.length - 1 := by
      rw [BitVec.toNat_ofNat]
      omega
    have hunits : ptr.drop (m + 1) = us.flatMap Subtype.val ++ rest :=
      drop_of_append (l := [BitVec.ofNat 8 (us.length - 1)]) hptr
    obtain ⟨s', hs', hshows⟩ := tgaCopy_spec hreads h (by omega) hunits hcol
    rw [hlen] at hx
    refine ⟨s', hshows, ?_⟩
    simp only [tgaPackets, checked_size hint, Option.bind_eq_bind, Option.bind_some, hcode, hk]
    rw [if_pos hloop, if_neg (by omega), Nat.sub_add_cancel hlo, hx, hs']
    simp only [Option.bind_some]
    rw [Packet.encode, List.length_cons, RunLength.length_flatMap_val,
      show m + 1 + us.length * stride = m + (us.length * stride + 1) by omega]

/-- Packets that cover the picture are all decoded. -/
theorem tgaPackets_spec {fuel : Nat} (hreads : Reads ptr stride read col)
    (hint : t.w * t.h < 2147483648)
    (hps : ∀ p ∈ ps, p.Ok) (hptr : ptr.drop m = RunLength.encode ps ++ rest)
    (hcol : (RunLength.expand ps).map col = vs'.map some) (h : s.Shows t vs)
    (htotal : vs.length + vs'.length = t.w * t.h) (hm : m ≤ ptr.length)
    (hfuel : ptr.length < m + fuel) :
    ∃ s', tgaPackets t ptr ptr.length read stride fuel vs.length m s = some s' ∧
      s'.Shows t (vs ++ vs') := by
  induction ps generalizing s vs vs' m fuel with
  | nil =>
    -- all pixels are there, so the loop does not look at the rest of the file
    obtain rfl : vs' = [] := by simpa using hcol.symm
    obtain ⟨fuel, rfl⟩ : ∃ f, fuel = f + 1 := ⟨fuel - 1, by omega⟩
    refine ⟨s, ?_, by simpa using h⟩
    rw [List.length_nil, Nat.add_zero] at htotal
    simp only [tgaPackets, checked_size hint, Option.bind_eq_bind, Option.bind_some]
    rw [if_neg (by omega)]
  | cons p ps ih =>
    obtain ⟨fuel, rfl⟩ : ∃ f, fuel = f + 1 := ⟨fuel - 1, by omega⟩
    rw [RunLength.expand_cons] at hcol
    obtain ⟨a, b, rfl, ha, hb⟩ := map_some_append hcol
    rw [List.length_append] at htotal
    rw [RunLength.encode_cons, List.append_assoc] at hptr
    have hnext := drop_of_append hptr
    have hmlen := congrArg List.length hptr
    rw [List.length_drop, List.length_append] at hmlen
    have hpos := length_encode p
    obtain ⟨s₁, hshows, hstep⟩ :=
      tgaPackets_packet fuel hreads hint (hps p List.mem_cons_self) hptr ha h (by omega)
    have htotal' : (vs ++ a).length + b.length = t.w * t.h := by
      rw [List.length_append]
      omega
    have hfuel' : ptr.length < m + p.encode.length + fuel := by omega
    obtain ⟨s', hs', hdone⟩ := ih (fun q hq => hps q (List.mem_cons_of_mem _ hq)) hnext hb hshows
      htotal' (by omega)
      hfuel'
    exact ⟨s', hstep.trans hs', by rwa [← List.append_assoc]⟩

/-- A round that ends has decoded a packet. -/
theorem tgaPackets_round {fuel : Nat} (hreads : Reads ptr stride read col) (hw : 0 < t.w)
    (h : s.Shows t vs)
    (hint : t.w * t.h < 2147483648) (hlt : vs.length < t.w * t.h) (hm : m < ptr.length)
    (hrun : tgaPackets t ptr ptr.length read stride (fuel + 1) vs.length m s = some s') :
    ∃ (p : Packet stride) (vs' : List (BitVec 32)) (s₁ : TgaOut), p.Ok ∧
      ptr.drop m = p.encode ++ ptr.drop (m + p.encode.length) ∧ p.expand.map col = vs'.map some ∧
      s₁.Shows t (vs ++ vs') ∧
      tgaPackets t ptr ptr.length read stride fuel (vs ++ vs').length (m + p.encode.length) s₁ =
        some s' := by
  have hloop : (vs.length : Int) < (t.w * t.h : Nat) ∧ m < ptr.length := ⟨by omega, hm⟩
  have hsplit : ptr.drop m = ptr[m] :: ptr.drop (m + 1) := List.drop_eq_getElem_cons hm
  have hbyte : ptr[m] = BitVec.ofNat 8 ptr[m].toNat := by simp
  have hlt256 := ptr[m].isLt
  simp only [tgaPackets, checked_size hint, Option.bind_eq_bind, Option.bind_some] at hrun
  rw [if_pos hloop, List.getElem?_eq_getElem hm, Option.bind_some] at hrun
  -- from here on the byte is the number of pixels, which gives the packet back
  generalize ptr[m].toNat = k at hrun hbyte hlt256
  split at hrun
  · rename_i hk
    simp only [Option.bind_eq_some_iff] at hrun
    obtain ⟨x, hx, v, hv, s₁, hs₁, hrest⟩ := hrun
    obtain ⟨rfl, -, -⟩ := CInt.checked_eq_some.mp hx
    obtain ⟨u, hu, hcol⟩ := hreads.exists_unit hv
    refine ⟨.same (k - 127) u, List.replicate (k - 127) v, s₁, ?_, ?_, ?_,
      tgaRepeat_inv h hw hs₁, ?_⟩
    · unfold Packet.Ok
      rw [Packet.expand, List.length_replicate]
      omega
    · rw [Packet.encode, List.length_cons, u.property, List.cons_append, hsplit, hu, hbyte,
        show k - 127 + 127 = k by omega, show m + (stride + 1) = m + 1 + stride by omega]
    · rw [Packet.expand, List.map_replicate, List.map_replicate, hcol]
    · rw [Packet.encode, List.length_cons, u.property, List.length_append, List.length_replicate,
        Int.natCast_add,
        show m + (stride + 1) = m + 1 + stride by omega]
      exact hrest
  · rename_i hk
    simp only [Option.bind_eq_some_iff] at hrun
    obtain ⟨x, hx, s₁, hs₁, hrest⟩ := hrun
    obtain ⟨rfl, -, -⟩ := CInt.checked_eq_some.mp hx
    obtain ⟨us, vs', hlen, hptr, hcols, hshows⟩ := tgaCopy_inv hreads h hw hs₁
    have hlen' : vs'.length = k + 1 := by
      rw [← hlen]
      simpa using (congrArg List.length hcols).symm
    refine ⟨.each us, vs', s₁, ?_, ?_, hcols, hshows, ?_⟩
    · unfold Packet.Ok
      rw [Packet.expand, hlen]
      omega
    · rw [Packet.encode, List.length_cons, RunLength.length_flatMap_val, hlen, List.cons_append,
        hsplit, hptr, hbyte,
        Nat.add_sub_cancel, show m + ((k + 1) * stride + 1) = m + 1 + (k + 1) * stride by omega]
    · rw [Packet.encode, List.length_cons, RunLength.length_flatMap_val, hlen, List.length_append,
        hlen', Int.natCast_add,
        show m + ((k + 1) * stride + 1) = m + 1 + (k + 1) * stride by omega]
      exact hrest

/-- A loop that ends has decoded packets, up to the end of the picture or of the file. -/
theorem tgaPackets_inv {fuel : Nat} (hreads : Reads ptr stride read col) (hw : 0 < t.w)
    (h : s.Shows t vs)
    (hrun : tgaPackets t ptr ptr.length read stride fuel vs.length m s = some s') :
    t.w * t.h < 2147483648 ∧
      ∃ (ps : List (Packet stride)) (rest : List Byte) (vs' : List (BitVec 32)), (∀ p ∈ ps, p.Ok) ∧
        ptr.drop m = RunLength.encode ps ++ rest ∧ (RunLength.expand ps).map col = vs'.map some ∧
        s'.Shows t (vs ++ vs') ∧ (vs.length + vs'.length = t.w * t.h ∨ rest = []) := by
  induction fuel generalizing s vs m with
  | zero => exact absurd hrun nofun
  | succ fuel ih =>
    have hint : t.w * t.h < 2147483648 := by
      simp only [tgaPackets, Option.bind_eq_bind, Option.bind_eq_some_iff] at hrun
      obtain ⟨size, hsize, -⟩ := hrun
      obtain ⟨-, -, hlt⟩ := CInt.checked_eq_some.mp hsize
      rw [← Int.natCast_mul] at hlt
      omega
    refine ⟨hint, ?_⟩
    -- another packet, or one of the two reasons to stop
    by_cases hloop : vs.length < t.w * t.h ∧ m < ptr.length
    · obtain ⟨p, a, s₁, hok, hptr, hcol, hshows, hrest⟩ :=
        tgaPackets_round hreads hw h hint hloop.1 hloop.2 hrun
      obtain ⟨-, ps, rest, b, hps, hptr', hcols, hshows', hend⟩ := ih hshows hrest
      refine ⟨p :: ps, rest, a ++ b, ?_, ?_, ?_, ?_, ?_⟩
      · intro q hq
        rcases List.mem_cons.mp hq with rfl | hq
        · exact hok
        · exact hps q hq
      · rw [hptr, hptr', RunLength.encode_cons, List.append_assoc]
      · rw [RunLength.expand_cons, List.map_append, List.map_append, hcol, hcols]
      · rwa [← List.append_assoc]
      · rw [List.length_append] at hend ⊢
        rwa [← Nat.add_assoc]
    · simp only [tgaPackets, checked_size hint, Option.bind_eq_bind, Option.bind_some] at hrun
      rw [if_neg fun hc => hloop ⟨by omega, hc.2⟩] at hrun
      rw [← Option.some.inj hrun]
      refine ⟨[], ptr.drop m, [], fun p hp => absurd hp List.not_mem_nil, rfl, rfl,
        by simpa using h, ?_⟩
      have hle := h.le
      by_cases hm : m < ptr.length
      · exact .inl (by rw [List.length_nil]; omega)
      · exact .inr (List.drop_eq_nil_of_le (Nat.not_lt.mp hm))

end MishaOS
