import Mathlib
import MishaOS.Native.McProtocol

/-!
# Numbers of the Minecraft protocol

## Key results

- `mcVardecode_encode`: reading a number that was written.
- `mcVarlen_eq`: the length a number is said to have is the length it has.
-/

namespace MishaOS

variable {ptr : Mem} {i n : Nat} {b : Byte} {l l' : List Byte} {v value : BitVec 32}

/-! ## Bytes in memory -/

/-- The bytes `l` are in memory from `i` on. -/
def ReadsAt (ptr : Mem) (i : Nat) (l : List Byte) : Prop := ∀ k b, l[k]? = some b → ptr (i + k) = b

theorem readsAt_cons : ReadsAt ptr i (b :: l) ↔ ptr i = b ∧ ReadsAt ptr (i + 1) l := by
  constructor
  · intro h
    refine ⟨h 0 b rfl, fun k c hk => ?_⟩
    rw [Nat.add_assoc, Nat.add_comm 1]
    exact h (k + 1) c hk
  · rintro ⟨hb, h⟩ k c hk
    cases k with
    | zero => exact hb.trans (Option.some.inj hk)
    | succ k =>
      rw [← Nat.add_assoc, Nat.add_right_comm]
      exact h k c hk

theorem readsAt_append : ReadsAt ptr i (l ++ l') ↔ ReadsAt ptr i l ∧
    ReadsAt ptr (i + l.length) l' := by
  induction l generalizing i with
  | nil => exact ⟨fun h => ⟨(fun _ _ hk => nomatch hk), h⟩, And.right⟩
  | cons b l ih =>
    rw [List.cons_append, readsAt_cons, readsAt_cons, ih, List.length_cons, and_assoc,
      Nat.add_right_comm,
      Nat.add_assoc]

/-! ## Groups of seven bits -/

theorem toNat_low (v : BitVec 32) : (v &&& 0x7F).toNat = v.toNat % 128 := by
  rw [BitVec.toNat_and]
  exact Nat.and_two_pow_sub_one_eq_mod v.toNat 7

theorem toNat_rest (v : BitVec 32) : (v >>> 7).toNat = v.toNat / 128 := by
  rw [BitVec.toNat_ushiftRight, Nat.shiftRight_eq_div_pow]

/-- The loops stop at a number of seven bits. -/
theorem and_compl_eq_zero (v : BitVec 32) : v &&& ~~~0x7F = 0 ↔ v.toNat < 128 := by
  constructor
  · intro h
    have hor : v = (v &&& 0x7F) ||| (v &&& ~~~0x7F) := by
      rw [← BitVec.and_or_distrib_left, BitVec.or_not_self, BitVec.and_allOnes]
    have hself : v &&& 0x7F = v := by
      rw [h] at hor
      exact (hor.trans BitVec.or_zero).symm
    have hlow := toNat_low v
    rw [hself] at hlow
    omega
  · intro h
    have hlow : v &&& 0x7F = v := by
      apply BitVec.eq_of_toNat_eq
      rw [toNat_low, Nat.mod_eq_of_lt h]
    rw [← hlow, BitVec.and_assoc, BitVec.and_not_self]
    exact BitVec.and_zero

/-- The lowest group and the others. -/
theorem low_or_rest (v : BitVec 32) : (v &&& (0x7F : BitVec 32)) ||| ((v >>> 7) <<< 7) = v := by
  have hmask : ∀ i : Fin 32, (127#32)[i.val] = decide (i.val < 7) := by decide
  ext i hi
  simp only [BitVec.getElem_or, BitVec.getElem_and, BitVec.ofNat_eq_ofNat, hmask ⟨i, hi⟩,
    BitVec.getElem_shiftLeft,
    BitVec.getElem_ushiftRight]
  by_cases h : i < 7
  · simp [h]
  · rw [Nat.add_sub_cancel' (Nat.le_of_not_lt h), BitVec.getLsbD_eq_getElem hi]
    simp [h]

/-- A byte that goes on has the lowest group, and the bit. -/
theorem byte_more (v : BitVec 32) :
    ((((v &&& 0x7F).setWidth 8 ||| 0x80 : Byte) &&& 0x7F).setWidth 32 = v &&& 0x7F) ∧
      ((v &&& 0x7F).setWidth 8 ||| 0x80 : Byte) &&& 0x80 ≠ 0 := by
  have hbyte : ∀ b : Byte, b < 0x80 → (b ||| 0x80) &&& 0x7F = b ∧ (b ||| 0x80) &&& 0x80 ≠ 0 := by
    decide
  have hlt := toNat_low v
  have hb : (v &&& 0x7F).setWidth 8 < (0x80 : Byte) := by
    show ((v &&& 0x7F).setWidth 8).toNat < 128
    rw [BitVec.toNat_setWidth]
    omega
  obtain ⟨hlow, hmore⟩ := hbyte _ hb
  refine ⟨?_, hmore⟩
  rw [hlow]
  apply BitVec.eq_of_toNat_eq
  rw [BitVec.toNat_setWidth, BitVec.toNat_setWidth]
  omega

/-- The last byte has the last group. -/
theorem byte_last (h : v.toNat < 128) :
    ((v.setWidth 8 : Byte) &&& 0x7F).setWidth 32 = v ∧ (v.setWidth 8 : Byte) &&& 0x80 = 0 := by
  have hbyte : ∀ b : Byte, b < 0x80 → b &&& 0x7F = b ∧ b &&& 0x80 = 0 := by decide
  have hb : (v.setWidth 8 : Byte) < 0x80 := by
    show (v.setWidth 8).toNat < 128
    rw [BitVec.toNat_setWidth]
    omega
  obtain ⟨hlow, hlast⟩ := hbyte _ hb
  refine ⟨?_, hlast⟩
  rw [hlow]
  apply BitVec.eq_of_toNat_eq
  rw [BitVec.toNat_setWidth, BitVec.toNat_setWidth]
  omega

/-! ## Reading what was written -/

/-- The rest of a number is read into the bits that are left. -/
theorem vardecodeLoop_encode (hv : v.toNat < 2 ^ (7 * (n + 1)))
    (h : ReadsAt ptr i (varencodeLoop n v))
    (value : BitVec 32) :
    vardecodeLoop ptr (n + 1) i value =
      (value ||| v <<< (7 * i), i + (varencodeLoop n v).length) := by
  -- seven bits a round
  induction n generalizing i v value with
  | zero =>
    obtain ⟨hbyte, -⟩ := readsAt_cons.mp h
    obtain ⟨hlow, hlast⟩ := byte_last hv
    rw [vardecodeLoop, hbyte, if_pos hlast, hlow]
    rfl
  | succ n ih =>
    rw [varencodeLoop] at h
    -- either more bits follow or this byte is the last
    split at h <;> rename_i hmore
    · obtain ⟨hbyte, hrest⟩ := readsAt_cons.mp h
      obtain ⟨hlow, hbit⟩ := byte_more v
      have hlt : (v >>> 7).toNat < 2 ^ (7 * (n + 1)) := by
        rw [toNat_rest, Nat.div_lt_iff_lt_mul (by decide)]
        exact Nat.lt_of_lt_of_eq hv (by rw [Nat.mul_succ 7 (n + 1), Nat.pow_add])
      rw [vardecodeLoop, hbyte, if_neg hbit, hlow, ih hlt hrest, varencodeLoop, if_pos hmore,
        List.length_cons,
        Nat.add_right_comm i 1, Nat.add_assoc i]
      have hvalue : value ||| (v &&& 0x7F) <<< (7 * i) ||| (v >>> 7) <<< (7 * (i + 1)) =
          value ||| v <<< (7 * i) := by
        rw [Nat.mul_succ, Nat.add_comm, BitVec.shiftLeft_add, BitVec.or_assoc,
          ← BitVec.shiftLeft_or_distrib,
          low_or_rest]
      rw [hvalue]
    · have hlt := (and_compl_eq_zero v).mp (not_not.mp hmore)
      obtain ⟨hbyte, -⟩ := readsAt_cons.mp h
      obtain ⟨hlow, hlast⟩ := byte_last hlt
      rw [vardecodeLoop, hbyte, if_pos hlast, hlow, varencodeLoop, if_neg hmore]
      rfl

/-- A number that was written is read. -/
theorem mcVardecode_encode (h : ReadsAt ptr 0 (mcVarencode v)) :
    mcVardecode ptr = (v, (mcVarencode v).length) := by
  have hv : v.toNat < 2 ^ (7 * (4 + 1)) := Nat.lt_trans v.isLt (by decide)
  have hloop := vardecodeLoop_encode hv h 0
  unfold mcVardecode
  rw [hloop]
  simp [mcVarencode]

theorem mcVarlen_eq (v : BitVec 32) : mcVarlen v = (mcVarencode v).length := by
  unfold mcVarlen mcVarencode
  generalize 4 = n
  induction n generalizing v with
  | zero => rfl
  | succ n ih =>
    rw [varlenLoop, varencodeLoop]
    split
    · rw [List.length_cons, ih]
    · rfl

theorem length_varencode_pos (v : BitVec 32) : 0 < (mcVarencode v).length := by
  unfold mcVarencode varencodeLoop
  split <;> exact Nat.succ_pos _

end MishaOS
