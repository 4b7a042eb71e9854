import MishaOS.Spec.McWrap

/-!
# Fields that are read back

A field of each type is written as its bytes, and read back from them wherever
they are and whatever follows.  A word of 32 bits is written with its second
byte twice and without its highest one, and the null byte behind a string is
never stored, so these fields come back only when nothing was lost.

## Key results

- `mcReadFields_iff`: when fields that were written are read back.
- `mcReadFields_word`: a word that is not read back.
-/

namespace MishaOS

open Bytes Ring

variable {tx : McTx} {b : McBuf} {block : Mem} {l l' : List Byte}

/-! ## The bytes of a field -/

def bytes16 (v : BitVec 16) : List Byte := [(v >>> 8).setWidth 8, v.setWidth 8]

/-- `mc_write32` shifts by 8 for the upper half. -/
def bytes32 (v : BitVec 32) : List Byte :=
  bytes16 ((v >>> 8).setWidth 16) ++ bytes16 (v.setWidth 16)

def bytes64 (v : BitVec 64) : List Byte :=
  bytes32 ((v >>> 32).setWidth 32) ++ bytes32 (v.setWidth 32)

/-- Two bytes. -/
@[simp] theorem length_bytes16 (v : BitVec 16) : (bytes16 v).length = 2 := rfl

/-- Four bytes. -/
@[simp] theorem length_bytes32 (v : BitVec 32) : (bytes32 v).length = 4 := rfl

/-- Eight bytes. -/
@[simp] theorem length_bytes64 (v : BitVec 64) : (bytes64 v).length = 8 := rfl

def McField.bytes : McField → List Byte
  | .var v => mcVarencode v
  | .str s => mcVarencode (BitVec.ofNat 32 s.bytes.length) ++ s.bytes
  | .u8 v => [v]
  | .u16 v => bytes16 v
  | .u32 v => bytes32 v
  | .u64 v => bytes64 v

/-! ## Writing -/

/-- Bytes stored one after the other. -/
theorem McTx.put_put (h : tx.stop + l.length < 4294967296) :
    (tx.put l).put l' = tx.put (l ++ l') := by
  have hstop : u32 (tx.stop + l.length) = tx.stop + l.length := u32_of_lt h
  unfold McTx.put
  dsimp only
  rw [hstop, blit_append, List.length_append, Nat.add_assoc]

/-- Two bytes are appended. -/
theorem mcWrite16_eq (v : BitVec 16) (h : tx.stop + 1 < 4294967296) :
    mcWrite16 tx v = tx.put (bytes16 v) :=
  McTx.put_put h

/-- Four bytes are appended. -/
theorem mcWrite32_eq (v : BitVec 32) (h : tx.stop + 4 < 4294967296) :
    mcWrite32 tx v = tx.put (bytes32 v) := by
  -- the lower half is written behind the upper one
  have hstop : (tx.put (bytes16 ((v >>> 8).setWidth 16))).stop = tx.stop + 2 :=
    u32_of_lt (by rw [length_bytes16]; omega)
  have hhigh : mcWrite16 tx ((v >>> 8).setWidth 16) = tx.put (bytes16 ((v >>> 8).setWidth 16)) :=
    mcWrite16_eq _ (by omega)
  unfold mcWrite32
  rw [hhigh, mcWrite16_eq _ (by omega)]
  exact McTx.put_put (by rw [length_bytes16]; omega)

/-- Eight bytes are appended. -/
theorem mcWrite64_eq (v : BitVec 64) (h : tx.stop + 8 < 4294967296) :
    mcWrite64 tx v = tx.put (bytes64 v) := by
  have hstop : (tx.put (bytes32 ((v >>> 32).setWidth 32))).stop = tx.stop + 4 :=
    u32_of_lt (by rw [length_bytes32]; omega)
  have hhigh : mcWrite32 tx ((v >>> 32).setWidth 32) = tx.put (bytes32 ((v >>> 32).setWidth 32)) :=
    mcWrite32_eq _ (by omega)
  unfold mcWrite64
  rw [hhigh, mcWrite32_eq _ (by omega)]
  exact McTx.put_put (by rw [length_bytes32]; omega)

/-- A field is appended. -/
theorem mcWriteField_eq (f : McField) (h : tx.stop + f.bytes.length < 4294967296) :
    mcWriteField tx f = tx.put f.bytes := by
  cases f with
  | var v => rfl
  | str s =>
    have hlen : (mcVarencode (BitVec.ofNat 32 s.bytes.length) ++ s.bytes).length =
      (mcVarencode (BitVec.ofNat 32 s.bytes.length)).length + s.bytes.length := List.length_append
    change tx.stop + (_ ++ s.bytes).length < _ at h
    -- the length fits 32 bits, so all of the string is copied
    have hall : s.bytes.take (BitVec.ofNat 32 s.bytes.length).toNat = s.bytes := by
      rw [BitVec.toNat_ofNat]
      exact List.take_of_length_le (by omega)
    show (tx.put _).put (s.bytes.take _) = tx.put _
    rw [hall]
    exact McTx.put_put (by omega)
  | u8 v => rfl
  | u16 v => exact mcWrite16_eq v (by have : tx.stop + 2 < 4294967296 := h; omega)
  | u32 v => exact mcWrite32_eq v h
  | u64 v => exact mcWrite64_eq v h

/-- So is a list of fields. -/
theorem mcWriteFields_eq (fields : List McField)
    (h : tx.stop + (fields.flatMap McField.bytes).length < 4294967296) :
    mcWriteFields tx fields = tx.put (fields.flatMap McField.bytes) := by
  -- each field is stored behind the ones before it
  induction fields generalizing tx with
  | nil =>
    have hstop : u32 tx.stop = tx.stop := u32_of_lt h
    show tx = ⟨blit tx.mem tx.stop [], tx.start, u32 tx.stop⟩
    rw [blit_nil, hstop]
  | cons f fields ih =>
    rw [List.flatMap_cons, List.length_append] at h
    have hstop : (tx.put f.bytes).stop = tx.stop + f.bytes.length := u32_of_lt (by omega)
    show mcWriteFields (mcWriteField tx f) fields = _
    rw [mcWriteField_eq f (by omega), ih (by omega), List.flatMap_cons]
    exact McTx.put_put (by omega)

/-! ## Reading -/

/-- The two halves of a word. -/
theorem toNat_join {n : Nat} (high low : BitVec n) :
    (high.setWidth (n + n) <<< n ||| low.setWidth (n + n)).toNat =
      high.toNat <<< n + low.toNat := by
  have hle : 2 ^ n ≤ 2 ^ (n + n) := Nat.pow_le_pow_right (by decide) (Nat.le_add_left n n)
  have hshift : high.toNat <<< n < 2 ^ (n + n) := by
    rw [Nat.shiftLeft_eq, Nat.pow_add]
    exact Nat.mul_lt_mul_of_pos_right high.isLt (Nat.two_pow_pos n)
  rw [BitVec.toNat_or, BitVec.toNat_shiftLeft, BitVec.toNat_setWidth_of_le (Nat.le_add_left n n),
    BitVec.toNat_setWidth_of_le (Nat.le_add_left n n), Nat.mod_eq_of_lt hshift,
    Nat.shiftLeft_add_eq_or_of_lt low.isLt]

/-- Two bytes are read back. -/
theorem mcRead16_eq {v : BitVec 16} (h : At b.mem b.start (bytes16 v))
    (hroom : b.start + 1 < 4294967296) :
    mcRead16 b = (v, { b with start := u32 (b.start + 2) }) := by
  obtain ⟨hhigh, hlow⟩ := at_cons.mp h
  obtain ⟨hlow, -⟩ := at_cons.mp hlow
  have hstop : u32 (b.start + 1) = b.start + 1 := u32_of_lt hroom
  -- the two bytes are the word
  have hvalue : ((v >>> 8).setWidth 8).setWidth 16 <<< 8 ||| (v.setWidth 8).setWidth 16 = v := by
    apply BitVec.eq_of_toNat_eq
    have hjoin := toNat_join ((v >>> 8).setWidth 8) (v.setWidth 8)
    rw [BitVec.toNat_setWidth, BitVec.toNat_setWidth, BitVec.toNat_ushiftRight] at hjoin
    have hv := v.isLt
    refine hjoin.trans ?_
    omega
  unfold mcRead16 mcRead8
  dsimp only
  rw [hstop, hhigh, hlow, hvalue]

/-- What comes back for a word of 32 bits. -/
def readBack32 (v : BitVec 32) : BitVec 32 :=
  ((v >>> 8).setWidth 16).setWidth 32 <<< 16 ||| (v.setWidth 16).setWidth 32

def readBack64 (v : BitVec 64) : BitVec 64 :=
  (readBack32 ((v >>> 32).setWidth 32)).setWidth 64 <<< 32 |||
    (readBack32 (v.setWidth 32)).setWidth 64

/-- Four bytes come back with another upper half. -/
theorem mcRead32_eq {v : BitVec 32} (h : At b.mem b.start (bytes32 v))
    (hroom : b.start + 3 < 4294967296) :
    mcRead32 b = (readBack32 v, { b with start := u32 (b.start + 4) }) := by
  obtain ⟨hhigh, hlow⟩ := at_append.mp h
  have hstop : u32 (b.start + 2) = b.start + 2 := u32_of_lt (by omega)
  unfold mcRead32
  rw [mcRead16_eq hhigh (by omega), hstop]
  dsimp only
  rw [mcRead16_eq hlow (by show b.start + 2 + 1 < 4294967296; omega)]
  rfl

/-- The same for both halves of eight bytes. -/
theorem mcRead64_eq {v : BitVec 64} (h : At b.mem b.start (bytes64 v))
    (hroom : b.start + 7 < 4294967296) :
    mcRead64 b = (readBack64 v, { b with start := u32 (b.start + 8) }) := by
  obtain ⟨hhigh, hlow⟩ := at_append.mp h
  have hstop : u32 (b.start + 4) = b.start + 4 := u32_of_lt (by omega)
  unfold mcRead64
  rw [mcRead32_eq hhigh (by omega), hstop]
  dsimp only
  rw [mcRead32_eq hlow (by show b.start + 4 + 3 < 4294967296; omega)]
  rfl

/-- A varint is read back. -/
theorem mcReadVar_eq {v : BitVec 32} (h : At b.mem b.start (mcVarencode v)) :
    mcReadVar b = (v, { b with start := u32 (b.start + (mcVarencode v).length) }) := by
  have hreads : ReadsAt (fun i => b.mem (b.start + i)) 0 (mcVarencode v) := by
    intro k x hk
    rw [Nat.zero_add]
    exact h k x hk
  unfold mcReadVar
  rw [mcVardecode_encode hreads]

/-- What is read for the field `f` into the block. -/
def McField.readBack (block : Mem) : McField → McValue
  | .var v => .var v
  | .str s => .str (blit block 0 s.bytes)
  | .u8 v => .u8 v
  | .u16 v => .u16 v
  | .u32 v => .u32 (readBack32 v)
  | .u64 v => .u64 (readBack64 v)

/-- A field is read back. -/
theorem mcReadField_eq {f : McField} (h : At b.mem b.start f.bytes)
    (hroom : b.start + f.bytes.length < 4294967296) :
    mcReadField b block f = (f.readBack block,
      { b with start := u32 (b.start + f.bytes.length) }) := by
  cases f with
  | var v =>
    unfold mcReadField
    rw [mcReadVar_eq h]
    rfl
  | str s =>
    obtain ⟨hlen, hbytes⟩ := at_append.mp h
    have hlength : (mcVarencode (BitVec.ofNat 32 s.bytes.length) ++ s.bytes).length =
      (mcVarencode (BitVec.ofNat 32 s.bytes.length)).length + s.bytes.length := List.length_append
    change b.start + (_ ++ s.bytes).length < _ at hroom
    have hstop : u32 (b.start + (mcVarencode (BitVec.ofNat 32 s.bytes.length)).length) =
      b.start + (mcVarencode (BitVec.ofNat 32 s.bytes.length)).length := u32_of_lt (by omega)
    -- the length that is read is the length of the string
    have hcount : (BitVec.ofNat 32 s.bytes.length).toNat = s.bytes.length := by
      rw [BitVec.toNat_ofNat]
      omega
    unfold mcReadField mcReadStr
    rw [mcReadVar_eq hlen, hstop]
    dsimp only
    rw [hcount, hbytes.slice_eq, Nat.add_assoc, ← hlength]
    rfl
  | u8 v =>
    obtain ⟨hv, -⟩ := at_cons.mp h
    unfold mcReadField mcRead8
    rw [hv]
    rfl
  | u16 v =>
    unfold mcReadField
    rw [mcRead16_eq h (by have : b.start + 2 < 4294967296 := hroom; omega)]
    rfl
  | u32 v =>
    unfold mcReadField
    rw [mcRead32_eq h (by have : b.start + 4 < 4294967296 := hroom; omega)]
    rfl
  | u64 v =>
    unfold mcReadField
    rw [mcRead64_eq h (by have : b.start + 8 < 4294967296 := hroom; omega)]
    rfl

/-! ## The same values -/

/-- The value that was read is the one that was written; for a string, the block has it with its
    null byte. -/
def McField.Same : McField → McValue → Prop
  | .var v, .var w => v = w
  | .str s, .str block => At block 0 (s.bytes ++ [0])
  | .u8 v, .u8 w => v = w
  | .u16 v, .u16 w => v = w
  | .u32 v, .u32 w => v = w
  | .u64 v, .u64 w => v = w
  | _, _ => False

/-- The three high bytes of a word of 32 bits are equal. -/
def HighEqual (v : BitVec 32) : Prop :=
  (v >>> 24).setWidth 8 = ((v >>> 16).setWidth 8 : Byte) ∧
    (v >>> 16).setWidth 8 = ((v >>> 8).setWidth 8 : Byte)

/-- Nothing of the field is lost: the words have equal high bytes, and there was a null byte in the
    block where the string will end. -/
def McField.Kept (block : Mem) : McField → Prop
  | .str s => block s.bytes.length = 0
  | .u32 v => HighEqual v
  | .u64 v => HighEqual ((v >>> 32).setWidth 32) ∧ HighEqual (v.setWidth 32)
  | _ => True

/-- A number whose second byte takes the place of the third one, and its third of the fourth. -/
theorem shifted_eq_iff {n : Nat} (hn : n < 4294967296) : n = n / 256 % 65536 * 65536 + n % 65536 ↔
    n / 16777216 = n / 65536 % 256 ∧ n / 65536 % 256 = n / 256 % 256 := by
  have hupper : n = n / 256 % 65536 * 65536 + n % 65536 ↔ n / 65536 = n / 256 % 65536 := by omega
  have hmiddle : n / 256 % 65536 = n / 256 % 256 + 256 * (n / 65536 % 256) := by
    rw [show 65536 = 256 * 256 from rfl, Nat.mod_mul, Nat.div_div_eq_div_mul]
  have hhigh : n / 16777216 = n / 65536 / 256 := by rw [Nat.div_div_eq_div_mul]
  have hlt : n / 65536 < 65536 := by omega
  have hsecond : n / 256 % 256 < 256 := Nat.mod_lt _ (by decide)
  rw [hupper, hmiddle, hhigh]
  generalize n / 65536 = upper at *
  generalize n / 256 % 256 = second at *
  omega

/-- When four bytes survive. -/
theorem readBack32_eq_iff (v : BitVec 32) : v = readBack32 v ↔ HighEqual v := by
  -- the upper half that is read is the word shifted by 8
  have hback : (readBack32 v).toNat = v.toNat / 256 % 65536 * 65536 + v.toNat % 65536 := by
    have hjoin := toNat_join ((v >>> 8).setWidth 16) (v.setWidth 16)
    rw [BitVec.toNat_setWidth, BitVec.toNat_setWidth, BitVec.toNat_ushiftRight, Nat.shiftLeft_eq,
      Nat.shiftRight_eq_div_pow] at hjoin
    exact hjoin
  have hfourth : v.toNat / 16777216 % 256 = v.toNat / 16777216 := by
    have hv := v.isLt
    omega
  unfold HighEqual
  rw [← BitVec.toNat_inj, hback, ← BitVec.toNat_inj, ← BitVec.toNat_inj, shifted_eq_iff v.isLt]
  simp only [BitVec.toNat_setWidth, BitVec.toNat_ushiftRight,
    Nat.shiftRight_eq_div_pow, Nat.reducePow]
  rw [hfourth]

/-- When eight bytes survive. -/
theorem readBack64_eq_iff (v : BitVec 64) : v = readBack64 v ↔
    HighEqual ((v >>> 32).setWidth 32) ∧ HighEqual (v.setWidth 32) := by
  have hback : (readBack64 v).toNat =
      (readBack32 ((v >>> 32).setWidth 32)).toNat * 4294967296 +
        (readBack32 (v.setWidth 32)).toNat := by
    have hjoin := toNat_join (readBack32 ((v >>> 32).setWidth 32)) (readBack32 (v.setWidth 32))
    rw [Nat.shiftLeft_eq] at hjoin
    exact hjoin
  have hhigh := (readBack32 ((v >>> 32).setWidth 32)).isLt
  have hlow := (readBack32 (v.setWidth 32)).isLt
  have hv := v.isLt
  rw [← readBack32_eq_iff, ← readBack32_eq_iff, ← BitVec.toNat_inj, hback, ← BitVec.toNat_inj,
    ← BitVec.toNat_inj]
  simp only [BitVec.toNat_setWidth, BitVec.toNat_ushiftRight, Nat.shiftRight_eq_div_pow]
  omega

/-- The copy ends in a null byte if there was one. -/
theorem string_in_block (l : List Byte) : At (blit block 0 l) 0 (l ++ [0]) ↔
    block l.length = 0 := by
  -- the byte behind the copy is as it was
  have hend : blit block 0 l (0 + l.length) = block l.length := by
    rw [Nat.zero_add]
    exact blit_outside (.inr (by omega))
  rw [at_append, and_iff_right blit_at, at_cons, and_iff_left at_nil, hend]

/-- When a field survives. -/
theorem McField.same_readBack (f : McField) : f.Same (f.readBack block) ↔ f.Kept block := by
  cases f with
  | var v => exact iff_of_true rfl trivial
  | str s => exact string_in_block s.bytes
  | u8 v => exact iff_of_true rfl trivial
  | u16 v => exact iff_of_true rfl trivial
  | u32 v => exact readBack32_eq_iff v
  | u64 v => exact readBack64_eq_iff v

/-- The fields from number `k` on. -/
theorem mcReadFields_eq {blocks : Nat → Mem} {fields : List McField} {k : Nat}
    (h : At b.mem b.start (fields.flatMap McField.bytes))
    (hroom : b.start + (fields.flatMap McField.bytes).length < 4294967296) :
    (List.Forall₂ McField.Same fields (mcReadFields b blocks fields k).1 ↔
      ∀ (i : Nat) (f : McField), fields[i]? = some f → f.Kept (blocks (k + i))) ∧
    (mcReadFields b blocks fields k).2.start = b.start + (fields.flatMap McField.bytes).length := by
  -- the fields that are left are at the pointer
  induction fields generalizing b k with
  | nil =>
    constructor
    · exact iff_of_true .nil fun i f hf => nomatch hf
    · rfl
  | cons f fields ih =>
    rw [List.flatMap_cons] at h hroom ⊢
    rw [List.length_append] at hroom ⊢
    obtain ⟨hfield, hfields⟩ := at_append.mp h
    have hstop : u32 (b.start + f.bytes.length) = b.start + f.bytes.length := u32_of_lt (by omega)
    have hread : mcReadField b (blocks k) f =
        (f.readBack (blocks k), { b with start := b.start + f.bytes.length }) := by
      rw [mcReadField_eq hfield (by omega), hstop]
    obtain ⟨hvalues, hend⟩ := ih (b := { b with start := b.start + f.bytes.length })
      (k := k + 1) hfields
      (by show b.start + f.bytes.length + _ < _; omega)
    rw [mcReadFields, hread]
    dsimp only
    constructor
    · rw [List.forall₂_cons, McField.same_readBack, hvalues]
      constructor
      · intro ⟨hf, hrest⟩ i g hg
        cases i with
        | zero =>
          cases hg
          exact hf
        | succ i =>
          rw [← Nat.succ_add_eq_add_succ]
          exact hrest i g hg
      · intro hall
        constructor
        · exact hall 0 f rfl
        · intro i g hg
          rw [Nat.succ_add_eq_add_succ]
          exact hall (i + 1) g hg
    · rw [hend]
      show b.start + f.bytes.length + _ = _
      omega

/-- The fields that were written are read back, and the pointer is then where the writing stopped.
    -/
def McReadBack (tx : McTx) (fields : List McField) (blocks : Nat → Mem) : Prop :=
  let written := mcWriteFields tx fields
  let (values, rest) := mcReadFields ⟨written.mem, tx.stop⟩ blocks fields 0
  List.Forall₂ McField.Same fields values ∧ rest.start = written.stop

/-- When a list of fields survives. -/
theorem mcReadFields_iff (tx : McTx) (fields : List McField) (blocks : Nat → Mem)
    (hroom : tx.stop + (fields.flatMap McField.bytes).length < 4294967296) :
    McReadBack tx fields blocks ↔ ∀ (k : Nat) (f : McField), fields[k]? = some f →
    f.Kept (blocks k) := by
  have hwritten := mcWriteFields_eq fields hroom
  have hstop : u32 (tx.stop + (fields.flatMap McField.bytes).length) = _ := u32_of_lt hroom
  let b : McBuf := ⟨(tx.put (fields.flatMap McField.bytes)).mem, tx.stop⟩
  have hat : At b.mem b.start (fields.flatMap McField.bytes) := blit_at
  obtain ⟨hvalues, hend⟩ := mcReadFields_eq (b := b) (k := 0) hat hroom
  unfold McReadBack
  rw [hwritten]
  show List.Forall₂ McField.Same fields (mcReadFields b blocks fields 0).1 ∧
    (mcReadFields b blocks fields 0).2.start = u32 _ ↔ _
  rw [hvalues, hend, hstop, and_iff_left rfl]
  simp only [Nat.zero_add]

/-- A number, a string in a block with null bytes, and words with equal high bytes. -/
theorem mcReadFields_kept : McReadBack ⟨fun _ => 0, 256, 256⟩ [.var 300, .str ⟨[97, 98], by decide⟩,
    .u32 80, .u64 7]
    fun _ _ => 0 := by
  apply (mcReadFields_iff _ _ _ (by decide)).mpr
  intro k f hf
  match k, hf with
  | 0, rfl => exact trivial
  | 1, rfl => exact rfl
  | 2, rfl => exact ⟨rfl, rfl⟩
  | 3, rfl => exact ⟨⟨rfl, rfl⟩, rfl, rfl⟩

/-- `0x12345678` comes back as `0x34565678`, and a string in a block without null bytes does not
    end. -/
theorem mcReadFields_lost : ¬ McReadBack ⟨fun _ => 0, 256, 256⟩ [.u32 0x12345678] (fun _ _ => 0) ∧
    ¬ McReadBack ⟨fun _ => 0, 256, 256⟩ [.str ⟨[97], by decide⟩] (fun _ _ => 255) := by
  constructor
  · intro ⟨hvalues, _⟩
    have hlost : (mcRead32 ⟨(mcWrite32 ⟨fun _ => 0, 256, 256⟩ 0x12345678).mem, 256⟩).1 =
        0x34565678 := by decide +kernel
    have hvalue :
        0x12345678 = (mcRead32 ⟨(mcWrite32 ⟨fun _ => 0, 256, 256⟩ 0x12345678).mem, 256⟩).1 :=
      (List.forall₂_cons.mp hvalues).1
    rw [hlost] at hvalue
    exact absurd hvalue (by decide)
  · intro ⟨hvalues, _⟩
    have hlost :
        (mcReadStr ⟨(mcWriteStr ⟨fun _ => 0, 256, 256⟩ ⟨[97], by decide⟩).mem, 256⟩ fun _ => 255).1
        1 = 255 := by
      decide +kernel
    have hvalue :
        At (mcReadStr ⟨(mcWriteStr ⟨fun _ => 0, 256, 256⟩ ⟨[97], by decide⟩).mem, 256⟩ fun _ =>
        255).1 0 [97, 0] :=
      (List.forall₂_cons.mp hvalues).1
    have hnull := hvalue 1 0 rfl
    rw [hlost] at hnull
    exact absurd hnull (by decide)

end MishaOS
