import Mathlib.Tactic.ByContra
import Mathlib.Tactic.SplitIfs
import MishaOS.Native.DetectMemory

/-!
# What `detect_memory` reports

The loop keeps an answer of 24 bytes if bit 0 of its attributes is clear, which
is the wrong way round, and the fallback starts in the slot the loop has
reached.  So the buffer is right if the BIOS answers in the short form, or if
it fails before an answer has been kept.

## Key results

- `e820Loop_kept`: the slots after the loop hold the answers it has kept.
- `e801Fallback_tiles_iff`: when the table of the fallback is without gap and overlap.
- `detectMemory_iff`: when the caller's buffer is right.
-/

namespace MishaOS

/-! ## What the buffer should hold -/

def E820Answer.Ok (a : E820Answer) : Prop := a.signature = SMAP_SIGNATURE

/-- An answer that counts: only the long form can say that it does not. -/
def E820Answer.Valid (a : E820Answer) : Prop := ¬ (a.bytes > 20 ∧ a.entry.acpi &&& 1 = 0)

/-- What the code drops. -/
def E820Answer.Skipped (a : E820Answer) : Prop := a.bytes > 20 ∧ a.entry.acpi &&& 1 ≠ 0

instance (a : E820Answer) : Decidable a.Ok := inferInstanceAs (Decidable (_ = _))
instance (a : E820Answer) : Decidable a.Valid := inferInstanceAs (Decidable (¬ _))
instance (a : E820Answer) : Decidable a.Skipped := inferInstanceAs (Decidable (_ ∧ _))

/-- The slot holds the answer to call `call`. -/
structure Slot.Holds (slot : Slot) (a : E820Answer) (call : Nat) : Prop where
  writer : slot.writer = some (.e820 call)
  base1 : slot.entry.base1 = a.entry.base1
  base2 : slot.entry.base2 = a.entry.base2
  length1 : slot.entry.length1 = a.entry.length1
  length2 : slot.entry.length2 = a.entry.length2
  type : slot.entry.type = a.entry.type
  acpi : a.bytes > 20 → slot.entry.acpi = a.entry.acpi

/-- The answers that count, with the numbers of their calls. -/
def validCalls (answers : List E820Answer) : List (E820Answer × Nat) :=
  answers.zipIdx.filter fun a => decide a.1.Valid

/-- The first `n` slots are the answers that count, in order. -/
def E820Reported (answers : List E820Answer) (slots : Nat → Slot) (n : Int) : Prop :=
  n = (validCalls answers).length ∧
    ∀ i a call, (validCalls answers)[i]? = some (a, call) → (slots i).Holds a call

/-- No call has failed and an answer counts. -/
def E820Success (answers : List E820Answer) : Prop :=
  (∀ a ∈ answers, a.Ok) ∧ ∃ a ∈ answers, a.Valid

def SmapEntry.covers (e : SmapEntry) (addr : Nat) : Bool :=
  let base := e.base1.toNat + 4294967296 * e.base2.toNat
  let length := e.length1.toNat + 4294967296 * e.length2.toNat
  decide (base ≤ addr ∧ addr < base + length)

/-- The end of the memory that the fallback finds: 16 MiB and the blocks of 64 KiB above. -/
def E801Answer.memoryEnd (r : E801Answer) : Nat := 0x1000000 + r.registers.2.toNat * 0x10000

/-- The first `n` slots are from the fallback, and each address below the end
    of the memory, and none above, is in exactly one of them. -/
def E801Tiles (r : E801Answer) (slots : Nat → Slot) (n : Int) : Prop :=
  (∀ i : Nat, i < n → (slots i).writer = some .e801) ∧
    ∀ addr, ((List.range n.toNat).countP fun i => (slots i).entry.covers addr) =
      if addr < r.memoryEnd then 1 else 0

/-- The buffer after a call that returns `n`. -/
def MemoryDetected (answers : List E820Answer) (r : E801Answer) (slots : Nat → Slot)
    (n : Int) : Prop :=
  n > 0 → (E820Success answers → E820Reported answers slots n) ∧
    (¬ E820Success answers → E801Tiles r slots n)

/-- The call with `0xE801` has failed. -/
def E801Answer.Failed (r : E801Answer) : Prop :=
  (r.registers.1 >>> 8).setWidth 8 = (0x86 : BitVec 8) ∨
    (r.registers.1 >>> 8).setWidth 8 = (0x80 : BitVec 8)

/-- The answers for which the buffer is right: all in the short form; or the
    fallback fails as well; or a call fails before an answer was kept, and no
    more than 15 MiB are reported below 16 MiB. -/
def DetectsRight (answers : List E820Answer) (r : E801Answer) : Prop :=
  (∀ a ∈ answers, a.Ok ∧ ¬ a.bytes > 20) ∨
    (((∃ a ∈ answers, ¬ a.Ok) ∨ ∀ a ∈ answers, a.Skipped) ∧ r.Failed) ∨
    ((∃ a ∈ answers, ¬ a.Ok) ∧ (∀ a ∈ answers, a.Ok → a.Skipped) ∧ r.registers.1.toNat ≤ 0x3C00)

/-! ## The loop -/

variable {s s' : DetectState} {a : E820Answer} {answers : List E820Answer}
    {call : Nat} {count : Int}

/-- What the loop keeps, with the numbers of the calls. -/
def keptCalls (answers : List E820Answer) (call : Nat) : List (E820Answer × Nat) :=
  (answers.zipIdx call).filter fun a => decide (a.1.Ok ∧ ¬ a.1.Skipped)

/-- The first answer is kept. -/
theorem keptCalls_cons_kept (hok : a.Ok) (hskip : ¬ a.Skipped) :
    keptCalls (a :: answers) call = (a, call) :: keptCalls answers (call + 1) := by
  unfold keptCalls
  rw [List.zipIdx_cons, List.filter_cons_of_pos (by simp [hok, hskip])]

/-- The first answer is left out. -/
theorem keptCalls_cons_dropped (h : ¬ (a.Ok ∧ ¬ a.Skipped)) :
    keptCalls (a :: answers) call = keptCalls answers (call + 1) := by
  unfold keptCalls
  rw [List.zipIdx_cons, List.filter_cons_of_neg (by simpa using h)]

/-- Writing an entry does not move on. -/
@[simp] theorem e820Write_buffer : (e820Write s call a).buffer = s.buffer := by
  unfold e820Write
  split <;> rfl

/-- Nor does it count. -/
@[simp] theorem e820Write_entries : (e820Write s call a).entries = s.entries := by
  unfold e820Write
  split <;> rfl

/-- Other slots stay. -/
theorem e820Write_other {j : Nat} (hj : j ≠ s.buffer) :
    (e820Write s call a).slots j = s.slots j := by
  unfold e820Write
  split
  · exact Function.update_of_ne hj _ _
  · rfl

/-- The slot holds the answer. -/
theorem e820Write_holds (hok : a.Ok) : ((e820Write s call a).slots s.buffer).Holds a call := by
  unfold e820Write
  rw [if_pos (show a.signature = SMAP_SIGNATURE from hok)]
  dsimp only
  rw [Function.update_self]
  -- an answer in the short form keeps what `acpi` was
  by_cases hlong : a.bytes > 20
  · rw [if_pos hlong]
    exact ⟨rfl, rfl, rfl, rfl, rfl, rfl, fun _ => rfl⟩
  · rw [if_neg hlong]
    exact ⟨rfl, rfl, rfl, rfl, rfl, rfl, fun h => absurd h hlong⟩

/-- What the loop has done to the state it began with. -/
structure KeptFrom (answers : List E820Answer) (call : Nat) (s s' : DetectState) : Prop where
  buffer : s'.buffer = s.buffer + (keptCalls answers call).length
  entries : (∀ a ∈ answers, a.Ok) → s'.entries = s.entries + (keptCalls answers call).length
  failed : (∃ a ∈ answers, ¬ a.Ok) → s'.entries = -1
  slots : ∀ i a c, (keptCalls answers call)[i]? = some (a, c) → (s'.slots (s.buffer + i)).Holds a c
  below : ∀ j, j < s.buffer → s'.slots j = s.slots j

/-- The code drops what it should keep and the other way round. -/
theorem e820Write_skip (hok : a.Ok) :
    a.bytes > 20 ∧ ((e820Write s call a).slots (e820Write s call a).buffer).entry.acpi &&& 1 ≠ 0 ↔
      a.Skipped := by
  unfold E820Answer.Skipped
  rw [e820Write_buffer]
  constructor
  · intro ⟨hlong, hacpi⟩
    rw [(e820Write_holds hok).acpi hlong] at hacpi
    exact ⟨hlong, hacpi⟩
  · intro ⟨hlong, hacpi⟩
    rw [(e820Write_holds hok).acpi hlong]
    exact ⟨hlong, hacpi⟩

/-- Nothing has been called. -/
theorem KeptFrom.refl (call : Nat) (s : DetectState) : KeptFrom [] call s s :=
  ⟨rfl, fun _ => (Int.add_zero _).symm, fun ⟨_, hmem, _⟩ => absurd hmem List.not_mem_nil,
    fun _ _ _ hi => absurd hi (by simp [keptCalls]), fun _ _ => rfl⟩

/-- The call that has failed is one of the others. -/
theorem exists_failed_tail (hok : a.Ok) (h : ∃ b ∈ a :: answers, ¬ b.Ok) :
    ∃ b ∈ answers, ¬ b.Ok := by
  obtain ⟨b, hb, hbad⟩ := h
  rcases List.mem_cons.mp hb with rfl | hb
  · exact absurd hok hbad
  · exact ⟨b, hb, hbad⟩

/-- An answer that is dropped: the next one goes to the same slot. -/
theorem KeptFrom.skip (hok : a.Ok) (hskip : a.Skipped)
    (h : KeptFrom answers (call + 1) (e820Write s call a) s') :
    KeptFrom (a :: answers) call s s' := by
  -- the answer is not among those that are kept
  obtain ⟨hbuffer, hentries, hfailed, hslots, hbelow⟩ := h
  have hkept : keptCalls (a :: answers) call = keptCalls answers (call + 1) :=
    keptCalls_cons_dropped fun hkeep => hkeep.2 hskip
  rw [e820Write_buffer] at hbuffer hslots hbelow
  rw [e820Write_entries] at hentries
  refine ⟨hkept ▸ hbuffer, fun hall => ?_, fun h => hfailed (exists_failed_tail hok h),
    hkept ▸ hslots, ?_⟩
  · rw [hkept]
    exact hentries fun b hb => hall b (List.mem_cons_of_mem _ hb)
  · intro j hj
    rw [hbelow j hj]
    exact e820Write_other (by omega)

/-- An answer that is kept: its slot is not written again. -/
theorem KeptFrom.keep (hok : a.Ok) (hskip : ¬ a.Skipped)
    (h : KeptFrom answers (call + 1) { e820Write s call a with
      buffer := (e820Write s call a).buffer + 1, entries := (e820Write s call a).entries + 1 } s') :
    KeptFrom (a :: answers) call s s' := by
  -- its slot is below the ones that the rest of the loop writes
  obtain ⟨hbuffer, hentries, hfailed, hslots, hbelow⟩ := h
  have hkept : keptCalls (a :: answers) call = (a, call) :: keptCalls answers (call + 1) :=
    keptCalls_cons_kept hok hskip
  dsimp only at hbuffer hentries hslots hbelow
  rw [e820Write_buffer] at hbuffer hslots hbelow
  rw [e820Write_entries] at hentries
  refine ⟨?_, fun hall => ?_, fun h => hfailed (exists_failed_tail hok h), ?_, ?_⟩
  · rw [hbuffer, hkept, List.length_cons]
    omega
  · rw [hentries fun b hb => hall b (List.mem_cons_of_mem _ hb), hkept, List.length_cons]
    omega
  · intro i b c hi
    rw [hkept] at hi
    cases i with
    | zero =>
      obtain ⟨rfl, rfl⟩ : a = b ∧ call = c := by simpa using hi
      rw [Nat.add_zero, hbelow s.buffer (by omega)]
      exact e820Write_holds hok
    | succ i =>
      have hi' := hslots i b c hi
      rw [show s.buffer + 1 + i = s.buffer + (i + 1) by omega] at hi'
      exact hi'
  · intro j hj
    rw [hbelow j (by omega)]
    exact e820Write_other (by omega)

/-- The loop keeps the answers it has room for, one slot after the other. -/
theorem e820Loop_kept (h : e820Loop count answers call s = some s') :
    KeptFrom answers call s s' := by
  induction answers generalizing call s with
  | nil => exact absurd h (by simp [e820Loop])
  | cons a answers ih =>
    -- the loop goes on, or this was the last answer
    have hrest : ∀ u, (if a.contId ≠ 0 ∧ u.entries < count then e820Loop count answers (call + 1) u
        else if answers.isEmpty then some u else none) = some s' →
        KeptFrom answers (call + 1) u s' := by
      intro u hu
      split at hu
      · exact ih hu
      · split at hu
        · rename_i hempty
          obtain rfl : u = s' := Option.some.inj hu
          rw [List.isEmpty_iff.mp hempty]
          exact KeptFrom.refl _ u
        · exact absurd hu (by simp)
    rw [e820Loop] at h
    dsimp only at h
    by_cases hok : a.Ok
    · rw [if_neg (not_not_intro (show a.signature = SMAP_SIGNATURE from hok))] at h
      by_cases hskip : a.Skipped
      · rw [if_pos ((e820Write_skip hok).2 hskip)] at h
        exact KeptFrom.skip hok hskip (hrest _ h)
      · rw [if_neg (fun hcode => hskip ((e820Write_skip hok).1 hcode))] at h
        exact KeptFrom.keep hok hskip (hrest _ h)
    · rw [if_pos (show a.signature ≠ SMAP_SIGNATURE from hok)] at h
      split at h
      · rename_i hempty
        obtain rfl := Option.some.inj h
        have hkept : keptCalls (a :: answers) call = [] := by
          rw [keptCalls_cons_dropped fun hkeep => hok hkeep.1, List.isEmpty_iff.mp hempty]
          rfl
        -- a call that has failed stores nothing
        have hsame : e820Write s call a = s := by
          unfold e820Write
          rw [if_neg (show ¬ a.signature = SMAP_SIGNATURE from hok)]
        refine ⟨?_, fun hall => absurd (hall a List.mem_cons_self) hok, fun _ => rfl, ?_, ?_⟩
        · rw [hkept, hsame]
          rfl
        · intro i b c hi
          rw [hkept] at hi
          exact absurd hi (by simp)
        · intro j hj
          rw [hsame]
      · exact absurd h (by simp)

/-! ## The fallback -/

variable {r : E801Answer}

/-- The slot was written by the fallback, without upper halves. -/
structure Slot.Piece (slot : Slot) (base length : Nat) : Prop where
  writer : slot.writer = some .e801
  base1 : slot.entry.base1.toNat = base
  base2 : slot.entry.base2 = 0
  length1 : slot.entry.length1.toNat = length
  length2 : slot.entry.length2 = 0

/-- The addresses that an entry covers. -/
theorem Slot.Piece.covers {slot : Slot} {base length : Nat}
    (h : slot.Piece base length) (addr : Nat) :
    slot.entry.covers addr = decide (base ≤ addr ∧ addr < base + length) := by
  unfold SmapEntry.covers
  rw [h.base1, h.base2, h.length1, h.length2]
  rfl

/-- A slot holds one piece of memory. -/
theorem e801Write_piece (s : DetectState) (base1 length1 type : BitVec 32) :
    ((e801Write s base1 length1 type).slots s.buffer).Piece base1.toNat length1.toNat := by
  unfold e801Write
  dsimp only
  rw [Function.update_self]
  exact ⟨rfl, rfl, rfl, rfl, rfl⟩

/-- Other slots stay. -/
theorem e801Write_other {base1 length1 type : BitVec 32} {j : Nat} (hj : j ≠ s.buffer) :
    (e801Write s base1 length1 type).slots j = s.slots j := by
  unfold e801Write
  exact Function.update_of_ne hj _ _

/-- The bytes between what is reported below 16 MiB and 16 MiB. -/
def E801Answer.hole (r : E801Answer) : BitVec 32 := 15 * 0x100000 - r.registers.1.setWidth 32 * 1024

/-- The kibibytes below 16 MiB, in bytes. -/
theorem e801_bytes (x : BitVec 16) : (x.setWidth 32 * 1024 : BitVec 32).toNat = x.toNat * 1024 := by
  have hx := x.isLt
  rw [BitVec.toNat_mul, BitVec.toNat_setWidth, show (1024 : BitVec 32).toNat = 1024 from rfl]
  omega

/-- The blocks of 64 KiB, in bytes. -/
theorem e801_blocks (x : BitVec 16) :
    (x.setWidth 32 * 64 * 1024 : BitVec 32).toNat = x.toNat * 0x10000 := by
  have hx := x.isLt
  rw [BitVec.toNat_mul, BitVec.toNat_mul, BitVec.toNat_setWidth,
    show (1024 : BitVec 32).toNat = 1024 from rfl,
    show (64 : BitVec 32).toNat = 64 from rfl]
  omega

/-- A piece stays when another slot is written. -/
theorem Slot.Piece.other {j base length : Nat} {base1 length1 type : BitVec 32}
    (h : (s.slots j).Piece base length) (hj : j ≠ s.buffer) :
    ((e801Write s base1 length1 type).slots j).Piece base length := by
  rw [e801Write_other hj]
  exact h

/-- The buffer before the test for the hole. -/
def e801Third (s : DetectState) (r : E801Answer) : DetectState :=
  e801Write (e801Write (e801Write s 0 0x100000 2).advance
    0x100000 (r.registers.1.setWidth 32 * 1024) 1).advance
    (0x100000 + r.registers.1.setWidth 32 * 1024) r.hole 2

/-- Two pieces have been written. -/
theorem e801Third_buffer : (e801Third s r).buffer = s.buffer + 2 := rfl

/-- The third one is the hole. -/
theorem e801Third_length1 :
    ((e801Third s r).slots (e801Third s r).buffer).entry.length1 = r.hole := by
  unfold e801Third e801Write
  dsimp only
  rw [Function.update_self]

/-- Three pieces, and the hole below 16 MiB if there is one. -/
theorem e801Fallback_eq (h : ¬ r.Failed) : e801Fallback s r =
    if r.hole ≠ 0
      then (4, e801Write (e801Third s r).advance 0x1000000
      (r.registers.2.setWidth 32 * 64 * 1024) 1)
    else (3, e801Write (e801Third s r) 0x1000000 (r.registers.2.setWidth 32 * 64 * 1024) 1) := by
  have hlen := e801Third_length1 (s := s) (r := r)
  unfold E801Answer.Failed at h
  unfold e801Fallback
  unfold e801Third E801Answer.hole at hlen ⊢
  generalize r.registers = regs at h hlen ⊢
  obtain ⟨ax, bx⟩ := regs
  dsimp only at h hlen ⊢
  rw [if_neg h, hlen]
  split <;> rfl

/-- The first three entries of the table, from the slot on that the loop has reached. -/
structure ThreePieces (r : E801Answer) (s s' : DetectState) : Prop where
  low : (s'.slots s.buffer).Piece 0 0x100000
  reported : (s'.slots (s.buffer + 1)).Piece 0x100000 (r.registers.1.toNat * 1024)
  hole : (s'.slots (s.buffer + 2)).Piece (0x100000 + r.registers.1.toNat * 1024) r.hole.toNat
  below : ∀ j, j < s.buffer → s'.slots j = s.slots j

/-- The first three pieces. -/
theorem e801Third_pieces : ThreePieces r s (e801Third s r) := by
  have hax := r.registers.1.isLt
  have hto16 := e801_bytes r.registers.1
  have hend : (0x100000 + r.registers.1.setWidth 32 * 1024 : BitVec 32).toNat =
      0x100000 + r.registers.1.toNat * 1024 := by
    rw [BitVec.toNat_add, hto16, show (0x100000 : BitVec 32).toNat = 0x100000 from rfl]
    omega
  refine ⟨?_, ?_, ?_, ?_⟩
  -- the two later writes are to other slots
  · have hlow := e801Write_piece s 0 0x100000 2
    apply Slot.Piece.other _ (show s.buffer ≠ s.buffer + 2 by omega)
    exact Slot.Piece.other (s := (e801Write s 0 0x100000 2).advance) hlow
      (show s.buffer ≠ s.buffer + 1 by omega)
  · have hrep := e801Write_piece (e801Write s 0 0x100000 2).advance 0x100000
      (r.registers.1.setWidth 32 * 1024) 1
    rw [hto16] at hrep
    exact Slot.Piece.other (s := (e801Write (e801Write s 0 0x100000 2).advance 0x100000
      (r.registers.1.setWidth 32 * 1024) 1).advance) hrep
        (show s.buffer + 1 ≠ s.buffer + 2 by omega)
  · have hhole := e801Write_piece (e801Write (e801Write s 0 0x100000 2).advance 0x100000
      (r.registers.1.setWidth 32 * 1024) 1).advance
        (0x100000 + r.registers.1.setWidth 32 * 1024) r.hole 2
    rw [hend] at hhole
    exact hhole
  · intro j hj
    unfold e801Third
    rw [e801Write_other (show j ≠ s.buffer + 2 by omega)]
    show (e801Write (e801Write s 0 0x100000 2).advance 0x100000
      (r.registers.1.setWidth 32 * 1024) 1).slots j = _
    rw [e801Write_other (show j ≠ s.buffer + 1 by omega)]
    exact e801Write_other (by omega)

/-- The hole wraps when the answer is above 15 MiB. -/
theorem E801Answer.hole_toNat (r : E801Answer) : r.hole.toNat =
    if r.registers.1.toNat ≤ 0x3C00 then 0xF00000 - r.registers.1.toNat * 1024
    else 0x100F00000 - r.registers.1.toNat * 1024 := by
  have hax := r.registers.1.isLt
  unfold E801Answer.hole
  rw [BitVec.toNat_sub, e801_bytes, show (15 * 0x100000 : BitVec 32).toNat = 0xF00000 from rfl]
  split <;> omega

/-- The number of entries that contain an address, with one entry more. -/
theorem countP_covers_succ {slots : Nat → Slot} {n base length : Nat}
    (h : (slots n).Piece base length) (addr : Nat) :
    ((List.range (n + 1)).countP fun i => (slots i).entry.covers addr) =
      ((List.range n).countP fun i => (slots i).entry.covers addr) +
        if base ≤ addr ∧ addr < base + length then 1 else 0 := by
  rw [List.range_succ, List.countP_append, List.countP_singleton, h.covers]
  simp only [decide_eq_true_eq]

/-- From slot 0 on the table tiles the memory exactly if the hole below 16 MiB
    has not become negative. -/
theorem e801Fallback_tiles_iff (hbuffer : s.buffer = 0) (h : ¬ r.Failed) :
    E801Tiles r (e801Fallback s r).2.slots (e801Fallback s r).1 ↔ r.registers.1.toNat ≤ 0x3C00 := by
  -- the first two entries do not depend on the registers
  have hax := r.registers.1.isLt
  have hhole := r.hole_toNat
  obtain ⟨hlow, hrep, hpiece, _⟩ := @e801Third_pieces s r
  rw [hbuffer] at hlow hrep hpiece
  have hblocks := e801_blocks r.registers.2
  rw [e801Fallback_eq h]
  unfold E801Tiles E801Answer.memoryEnd
  by_cases hzero : r.hole = 0
  · -- no hole: 15 MiB are reported, and the last entry takes the third slot
    have hfull : r.registers.1.toNat = 0x3C00 := by
      rw [hzero] at hhole
      change 0 = _ at hhole
      split at hhole <;> omega
    have hbuf : (e801Third s r).buffer = 2 := by rw [e801Third_buffer, hbuffer]
    -- the third entry is the memory above 16 MiB
    have habove :=
      e801Write_piece (e801Third s r) 0x1000000 (r.registers.2.setWidth 32 * 64 * 1024) 1
    rw [hbuf, hblocks] at habove
    rw [if_neg (not_not_intro hzero)]
    dsimp only
    have hlow' :
      ((e801Write (e801Third s r) 0x1000000 (r.registers.2.setWidth 32 * 64 * 1024) 1).slots
      0).Piece 0 0x100000 := hlow.other (by rw [hbuf]; decide)
    have hrep' :
      ((e801Write (e801Third s r) 0x1000000 (r.registers.2.setWidth 32 * 64 * 1024) 1).slots
      1).Piece 0x100000 (r.registers.1.toNat * 1024) := hrep.other (by rw [hbuf]; decide)
    generalize (e801Write (e801Third s r) 0x1000000
      (r.registers.2.setWidth 32 * 64 * 1024) 1).slots =
      slots at habove hlow' hrep'
    refine iff_of_true ⟨?_, ?_⟩ (by omega)
    · intro i hi
      obtain rfl | rfl | rfl : i = 0 ∨ i = 1 ∨ i = 2 := by omega
      · exact hlow'.writer
      · exact hrep'.writer
      · exact habove.writer
    -- every address is covered as often as the memory has it
    · intro addr
      show ((List.range 3).countP fun i => (slots i).entry.covers addr) = _
      rw [countP_covers_succ habove, countP_covers_succ hrep', countP_covers_succ hlow',
        List.range_zero,
        List.countP_nil, hfull, show (0x1000000 : BitVec 32).toNat = 0x1000000 from rfl]
      split_ifs <;> omega
  -- the hole gets an entry of its own, in slot 2
  · have hbuf : (e801Third s r).advance.buffer = 3 := by
      show (e801Third s r).buffer + 1 = 3
      rw [e801Third_buffer, hbuffer]
    have habove :=
      e801Write_piece (e801Third s r).advance 0x1000000 (r.registers.2.setWidth 32 * 64 * 1024) 1
    rw [hbuf, hblocks] at habove
    rw [if_pos hzero]
    dsimp only
    have hlow' :
      ((e801Write (e801Third s r).advance 0x1000000 (r.registers.2.setWidth 32 * 64 * 1024) 1).slots
      0).Piece 0 0x100000 := Slot.Piece.other hlow (by rw [hbuf]; decide)
    have hrep' :
      ((e801Write (e801Third s r).advance 0x1000000 (r.registers.2.setWidth 32 * 64 * 1024) 1).slots
      1).Piece 0x100000 (r.registers.1.toNat * 1024) := Slot.Piece.other hrep (by rw [hbuf]; decide)
    have hpiece' :
      ((e801Write (e801Third s r).advance 0x1000000 (r.registers.2.setWidth 32 * 64 * 1024)
      1).slots 2).Piece (0x100000 + r.registers.1.toNat * 1024) r.hole.toNat :=
      Slot.Piece.other hpiece (by rw [hbuf]; decide)
    generalize (e801Write (e801Third s r).advance 0x1000000
      (r.registers.2.setWidth 32 * 64 * 1024) 1).slots =
      slots at habove hlow' hrep' hpiece'
    rw [hhole] at hpiece'
    rw [show (0x1000000 : BitVec 32).toNat = 0x1000000 from rfl] at habove
    have hcovers (addr : Nat) := countP_covers_succ habove addr
    simp only [countP_covers_succ hpiece', countP_covers_succ hrep', countP_covers_succ hlow',
      List.range_zero,
      List.countP_nil] at hcovers
    constructor
    · -- the second entry goes beyond 16 MiB
      intro ⟨_, htile⟩
      by_contra hmore
      -- 16 MiB are covered twice, once by each of the two
      have hcount := htile 0x1000000
      change ((List.range 4).countP fun i => (slots i).entry.covers 0x1000000) = _ at hcount
      rw [hcovers] at hcount
      split_ifs at hcount <;> omega
    · intro hle
      refine ⟨?_, ?_⟩
      · intro i hi
        obtain rfl | rfl | rfl | rfl : i = 0 ∨ i = 1 ∨ i = 2 ∨ i = 3 := by omega
        · exact hlow'.writer
        · exact hrep'.writer
        · exact hpiece'.writer
        · exact habove.writer
      · intro addr
        show ((List.range 4).countP fun i => (slots i).entry.covers addr) = _
        rw [hcovers, if_pos hle]
        split_ifs <;> omega

/-! ## The whole call -/

/-- Nothing is kept when every valid answer is to be skipped. -/
theorem keptCalls_eq_nil_iff : keptCalls answers call = [] ↔ ∀ a ∈ answers, a.Ok → a.Skipped := by
  induction answers generalizing call with
  | nil => simp [keptCalls]
  | cons a answers ih =>
    by_cases h : a.Ok ∧ ¬ a.Skipped
    · rw [keptCalls_cons_kept h.1 h.2]
      exact iff_of_false (by simp) fun hall => h.2 (hall a List.mem_cons_self h.1)
    · rw [keptCalls_cons_dropped h, ih, List.forall_mem_cons]
      have hskip : a.Ok → a.Skipped := fun hok => by_contra fun hn => h ⟨hok, hn⟩
      exact (and_iff_right hskip).symm

/-- An answer in the long form is kept or counts, but not both. -/
theorem valid_iff_skipped (hlong : a.bytes > 20) : a.Valid ↔ a.Skipped := by
  unfold E820Answer.Valid E820Answer.Skipped
  exact ⟨fun h => ⟨hlong, fun hz => h ⟨hlong, hz⟩⟩, fun h hz => h.2 hz.2⟩

/-- In the short form every answer counts and none is dropped. -/
theorem validCalls_eq_kept (hall : ∀ a ∈ answers, a.Ok ∧ ¬ a.bytes > 20) :
    validCalls answers = keptCalls answers 0 := by
  apply List.filter_congr
  intro x hx
  have hmem : x.1 ∈ answers := List.mem_of_getElem? (List.mem_zipIdx_iff_getElem?.mp hx)
  obtain ⟨hok, hshort⟩ := hall x.1 hmem
  have hvalid : x.1.Valid := fun h => hshort h.1
  have hkeep : x.1.Ok ∧ ¬ x.1.Skipped := ⟨hok, fun h => hshort h.1⟩
  rw [decide_eq_true hvalid, decide_eq_true hkeep]

/-- Two lists of answers that are in the same slots are the same calls. -/
theorem mem_of_same_slots {slots : Nat → Slot} {l l' : List (E820Answer × Nat)} {c : Nat}
    (hlen : l.length = l'.length) (hl : ∀ i a c, l[i]? = some (a, c) → (slots i).Holds a c)
    (hl' : ∀ i a c, l'[i]? = some (a, c) → (slots i).Holds a c)
    (hcalls : ∀ x ∈ l, x ∈ answers.zipIdx)
    (hcalls' : ∀ x ∈ l', x ∈ answers.zipIdx) (h : (a, c) ∈ l) : (a, c) ∈ l' := by
  obtain ⟨i, hi⟩ := List.getElem?_of_mem h
  have hlt : i < l'.length := by
    have hlt := (List.getElem?_eq_some_iff.mp hi).1
    omega
  obtain ⟨⟨b, d⟩, hget⟩ : ∃ x, l'[i]? = some x := ⟨l'[i], List.getElem?_eq_getElem hlt⟩
  have hwriter := (hl i a c hi).writer.symm.trans (hl' i b d hget).writer
  obtain rfl : c = d := by simpa using hwriter
  have ha := List.mem_zipIdx_iff_getElem?.mp (hcalls (a, c) h)
  have hb := List.mem_zipIdx_iff_getElem?.mp (hcalls' (b, c) (List.mem_of_getElem? hget))
  obtain rfl : a = b := Option.some.inj (ha.symm.trans hb)
  exact List.mem_of_getElem? hget

/-- If the slots hold both the answers that count and the answers that were
    kept, no answer was in the long form. -/
theorem short_of_reported {slots : Nat → Slot} {n : Int} (hrep : E820Reported answers slots n)
    (hn : n = (keptCalls answers 0).length)
    (hkept : ∀ i a c, (keptCalls answers 0)[i]? = some (a, c) → (slots i).Holds a c)
    (hok : ∀ a ∈ answers, a.Ok) : ∀ a ∈ answers, ¬ a.bytes > 20 := by
  intro a ha hlong
  obtain ⟨hlen, hslots⟩ := hrep
  obtain ⟨c, hc⟩ := List.getElem?_of_mem ha
  have hmem : (a, c) ∈ answers.zipIdx := List.mem_zipIdx_iff_getElem?.mpr hc
  -- a long answer is in one of the two lists only, and the slots cannot hold both lists
  have hvalidCalls : ∀ x ∈ validCalls answers, x ∈ answers.zipIdx :=
    fun _ hx => (List.mem_filter.mp hx).1
  have hkeptCalls : ∀ x ∈ keptCalls answers 0, x ∈ answers.zipIdx :=
    fun _ hx => (List.mem_filter.mp hx).1
  by_cases hvalid : a.Valid
  · have hin : (a, c) ∈ validCalls answers := List.mem_filter.mpr ⟨hmem, decide_eq_true hvalid⟩
    have hkeep := mem_of_same_slots (by omega) hslots hkept hvalidCalls hkeptCalls hin
    exact (of_decide_eq_true (List.mem_filter.mp hkeep).2).2 ((valid_iff_skipped hlong).1 hvalid)
  · have hin : (a, c) ∈ keptCalls answers 0 :=
      List.mem_filter.mpr ⟨hmem, decide_eq_true ⟨hok a ha,
        fun h => hvalid ((valid_iff_skipped hlong).2 h)⟩⟩
    have hcount := mem_of_same_slots (by omega) hkept hslots hkeptCalls hvalidCalls hin
    exact hvalid (of_decide_eq_true (List.mem_filter.mp hcount).2)

/-- The fallback has failed, or it has written at least one slot. -/
theorem e801Fallback_failed (h : r.Failed) : (e801Fallback s r).1 = -1 := by
  unfold E801Answer.Failed at h
  unfold e801Fallback
  generalize r.registers = regs at h ⊢
  obtain ⟨ax, bx⟩ := regs
  dsimp only at h ⊢
  rw [if_pos h]

/-- The second way finds something. -/
theorem e801Fallback_pos (h : ¬ r.Failed) : (e801Fallback s r).1 > 0 := by
  rw [e801Fallback_eq h]
  split
  · show (4 : Int) > 0
    decide
  · show (3 : Int) > 0
    decide

/-- It does not touch the slots before. -/
theorem e801Fallback_below {j : Nat} (h : ¬ r.Failed) (hj : j < s.buffer) :
    (e801Fallback s r).2.slots j = s.slots j := by
  have hbelow := (@e801Third_pieces s r).below j hj
  rw [e801Fallback_eq h]
  split
  · dsimp only
    rw [e801Write_other (show j ≠ s.buffer + 3 by omega)]
    exact hbelow
  · dsimp only
    rw [e801Write_other (show j ≠ s.buffer + 2 by omega)]
    exact hbelow

/-- The first slot of the fallback. -/
theorem e801Fallback_first (h : ¬ r.Failed) :
    ((e801Fallback s r).2.slots s.buffer).writer = some .e801 := by
  have hlow := (@e801Third_pieces s r).low
  rw [e801Fallback_eq h]
  split
  · exact (Slot.Piece.other (s := (e801Third s r).advance) hlow
      (show s.buffer ≠ s.buffer + 3 by omega)).writer
  · exact (Slot.Piece.other (s := e801Third s r) hlow
      (show s.buffer ≠ s.buffer + 2 by omega)).writer

variable {slots : Nat → Slot}

/-- What was kept first is in slot 0. -/
theorem KeptFrom.first (hloop : KeptFrom answers 0 ⟨slots, 0, 0⟩ s) (h : keptCalls answers 0 ≠ []) :
    ∃ c, (s.slots 0).writer = some (.e820 c) := by
  obtain ⟨⟨a, c⟩, l, hcons⟩ := List.exists_cons_of_ne_nil h
  have hholds := hloop.slots 0 a c (by rw [hcons]; rfl)
  exact ⟨c, hholds.writer⟩

/-- A call that ends in the fallback. -/
theorem detectMemory_fallback (hloop : KeptFrom answers 0 ⟨slots, 0, 0⟩ s) (hne : answers ≠ [])
    (hfall : (∃ a ∈ answers, ¬ a.Ok) ∨ keptCalls answers 0 = []) :
    MemoryDetected answers r (e801Fallback s r).2.slots (e801Fallback s r).1 ↔
    DetectsRight answers r := by
  have hbuffer : s.buffer = (keptCalls answers 0).length := by
    rw [hloop.buffer]
    exact Nat.zero_add _
  -- a failed or a dropped answer excludes that all are short
  have hlong : ¬ ∀ a ∈ answers, a.Ok ∧ ¬ a.bytes > 20 := by
    intro hall
    rcases hfall with hfail | hnil
    · obtain ⟨a, ha, hbad⟩ := hfail
      exact hbad (hall a ha).1
    · obtain ⟨a, ha⟩ := List.exists_mem_of_ne_nil answers hne
      exact (hall a ha).2 (keptCalls_eq_nil_iff.mp hnil a ha (hall a ha).1).1
  unfold MemoryDetected DetectsRight
  by_cases hr : r.Failed
  · have hall : (∃ a ∈ answers, ¬ a.Ok) ∨ ∀ a ∈ answers, a.Skipped := by
      -- a failure ends the loop with -1, and without one an empty result leads to the fallback too
      by_cases hfail : ∃ a ∈ answers, ¬ a.Ok
      · exact Or.inl hfail
      · have hnil := hfall.resolve_left hfail
        exact Or.inr fun a ha => keptCalls_eq_nil_iff.mp hnil a ha
          (by_contra fun h => hfail ⟨a, ha, h⟩)
    rw [e801Fallback_failed hr]
    exact iff_of_true (fun hpos => absurd hpos (by decide)) (Or.inr (Or.inl ⟨hall, hr⟩))
  have hpos := e801Fallback_pos (s := s) hr
  have hfirst := e801Fallback_first (s := s) hr
  -- only the last of the three cases is left
  rw [or_iff_right hlong, or_iff_right fun h => hr h.2]
  by_cases hfail : ∃ a ∈ answers, ¬ a.Ok
  · have hno : ¬ E820Success answers := fun hsucc => by
      obtain ⟨a, ha, hbad⟩ := hfail
      exact hbad (hsucc.1 a ha)
    by_cases hnil : keptCalls answers 0 = []
    · have hzero : s.buffer = 0 := by rw [hbuffer, hnil, List.length_nil]
      have htile := e801Fallback_tiles_iff hzero hr
      constructor
      · intro h
        exact ⟨hfail, keptCalls_eq_nil_iff.mp hnil, htile.1 ((h hpos).2 hno)⟩
      · intro ⟨_, _, hle⟩ _
        exact ⟨fun hsucc => absurd hsucc hno, fun _ => htile.2 hle⟩
    · -- slot 0 still holds an answer of the loop
      obtain ⟨c, hwriter⟩ := hloop.first hnil
      have hlt : 0 < s.buffer := by
        rw [hbuffer]
        exact List.length_pos_iff.mpr hnil
      constructor
      · intro h
        have hzero := ((h hpos).2 hno).1 0 hpos
        rw [e801Fallback_below hr hlt, hwriter] at hzero
        exact absurd hzero (by simp)
      · intro ⟨_, hskip, _⟩
        exact absurd (keptCalls_eq_nil_iff.mpr hskip) hnil
  · -- all answers count and none was kept
    have hnil := hfall.resolve_left hfail
    have hzero : s.buffer = 0 := by rw [hbuffer, hnil, List.length_nil]
    have hok : ∀ a ∈ answers, a.Ok := fun a ha => by_contra fun h => hfail ⟨a, ha, h⟩
    have hvalid : ∀ a ∈ answers, a.Valid := fun a ha =>
      (valid_iff_skipped (keptCalls_eq_nil_iff.mp hnil a ha (hok a ha)).1).2
        (keptCalls_eq_nil_iff.mp hnil a ha (hok a ha))
    constructor
    · intro h
      obtain ⟨a, l, hcons⟩ := List.exists_cons_of_ne_nil hne
      have hmem : a ∈ answers := hcons ▸ List.mem_cons_self
      have hslots := ((h hpos).1 ⟨hok, a, hmem, hvalid a hmem⟩).2
      have hhead : (validCalls answers)[0]? = some (a, 0) := by
        unfold validCalls
        rw [hcons, List.zipIdx_cons,
          List.filter_cons_of_pos (by exact decide_eq_true (hvalid a hmem))]
        rfl
      have hwriter := (hslots 0 a 0 hhead).writer
      rw [hzero] at hfirst
      rw [hfirst] at hwriter
      exact absurd hwriter (by simp)
    · intro ⟨hbad, _⟩
      exact absurd hbad hfail

/-- A call that returns what the loop has kept. -/
theorem detectMemory_direct (hloop : KeptFrom answers 0 ⟨slots, 0, 0⟩ s) (hok : ∀ a ∈ answers, a.Ok)
    (hkeep : keptCalls answers 0 ≠ []) :
    MemoryDetected answers r s.slots s.entries ↔ DetectsRight answers r := by
  have hentries : s.entries = (keptCalls answers 0).length := by
    rw [hloop.entries hok]
    exact Int.zero_add _
  -- slot `i` holds the answer that was kept as the `i`-th
  have hslots : ∀ i a c, (keptCalls answers 0)[i]? = some (a, c) → (s.slots i).Holds a c := by
    intro i a c hi
    have h := hloop.slots i a c hi
    rw [show (0 : Nat) + i = i from Nat.zero_add i] at h
    exact h
  have hlen := List.length_pos_iff.mpr hkeep
  have hpos : s.entries > 0 := by omega
  obtain ⟨c, hwriter⟩ := hloop.first hkeep
  have hskip : ¬ ∀ a ∈ answers, a.Ok → a.Skipped := fun h => hkeep (keptCalls_eq_nil_iff.mpr h)
  constructor
  · intro h
    refine Or.inl fun a ha => ⟨hok a ha, ?_⟩
    -- the loop has kept what is to be reported, or nothing of the E820 answers counts
    by_cases hsucc : E820Success answers
    · exact short_of_reported ((h hpos).1 hsucc) hentries hslots hok a ha
    · have hzero := ((h hpos).2 hsucc).1 0 hpos
      rw [hwriter] at hzero
      exact absurd hzero (by simp)
  · intro h
    obtain h | h | h := h
    · intro _
      have hsame := validCalls_eq_kept h
      -- every answer is full length, so what is valid was kept
      have hrep : E820Reported answers s.slots s.entries :=
        ⟨by rw [hsame, hentries], by rw [hsame]; exact hslots⟩
      refine ⟨fun _ => hrep, fun hno => absurd ?_ hno⟩
      obtain ⟨⟨a, c⟩, l, hcons⟩ := List.exists_cons_of_ne_nil hkeep
      have hmem : (a, c) ∈ keptCalls answers 0 := hcons ▸ List.mem_cons_self
      have ha : a ∈ answers :=
        List.mem_of_getElem? (List.mem_zipIdx_iff_getElem?.mp (List.mem_filter.mp hmem).1)
      exact ⟨hok, a, ha, fun hinvalid => (h a ha).2 hinvalid.1⟩
    · obtain ⟨hall | hall, _⟩ := h
      · obtain ⟨a, ha, hbad⟩ := hall
        exact absurd (hok a ha) hbad
      · exact absurd (fun a ha _ => hall a ha) hskip
    · obtain ⟨a, ha, hbad⟩ := h.1
      exact absurd (hok a ha) hbad

/-- The buffer is right exactly for the answers of `DetectsRight`. -/
theorem detectMemory_iff (slots : Nat → Slot) (count : Int) (answers : List E820Answer)
    (r : E801Answer)
    (n : Int) (s : DetectState) (h : detectMemory slots count answers r = some (n, s)) :
    MemoryDetected answers r s.slots n ↔ DetectsRight answers r := by
  unfold detectMemory at h
  obtain ⟨t, hloop, hres⟩ := Option.map_eq_some_iff.mp h
  have hne : answers ≠ [] := by
    intro hnil
    rw [hnil] at hloop
    exact absurd hloop (by simp [e820Loop])
  have hkept := e820Loop_kept hloop
  -- an answer with the carry flag sends the function to E801
  by_cases hfail : ∃ a ∈ answers, ¬ a.Ok
  · rw [if_pos (by rw [hkept.failed hfail]; decide)] at hres
    have hiff := detectMemory_fallback (r := r) hkept hne (Or.inl hfail)
    rw [hres] at hiff
    exact hiff
  -- every call succeeded, but it may be that nothing was kept
  have hok : ∀ a ∈ answers, a.Ok := fun a ha => by_contra fun h => hfail ⟨a, ha, h⟩
  have hentries := hkept.entries hok
  by_cases hnil : keptCalls answers 0 = []
  · rw [hnil] at hentries
    rw [if_pos (by rw [hentries]; exact Int.le_refl 0)] at hres
    have hiff := detectMemory_fallback (r := r) hkept hne (Or.inr hnil)
    rw [hres] at hiff
    exact hiff
  · have hlen := List.length_pos_iff.mpr hnil
    dsimp only at hentries
    rw [if_neg (by omega)] at hres
    obtain ⟨rfl, rfl⟩ : t.entries = n ∧ t = s := by simpa using hres
    exact detectMemory_direct hkept hok hnil

/-- The buffer of the caller before the call. -/
def blankSlots : Nat → Slot := fun _ => ⟨⟨0, 0, 0, 0, 0, 0⟩, none⟩

/-- A map of three entries in the short form. -/
def shortAnswers : List E820Answer :=
  [⟨SMAP_SIGNATURE, 20, 1, ⟨0, 0, 0x9FC00, 0, 1, 0⟩⟩,
    ⟨SMAP_SIGNATURE, 20, 2, ⟨0x9FC00, 0, 0x400, 0, 2, 0⟩⟩,
    ⟨SMAP_SIGNATURE, 20, 0, ⟨0x100000, 0, 0x7EF0000, 0, 1, 0⟩⟩]

/-- It is reported as it is. -/
theorem detectMemory_short :
    ∃ s, detectMemory blankSlots 341 shortAnswers ⟨0x3C00, 0x100, 0, 0⟩ = some (3, s) ∧
      MemoryDetected shortAnswers ⟨0x3C00, 0x100, 0, 0⟩ s.slots 3 :=
  ⟨_, rfl, (detectMemory_iff blankSlots 341 _ _ _ _ rfl).2 (Or.inl (by decide))⟩

/-- An entry that does not count. -/
def uncountedAnswers : List E820Answer := [⟨SMAP_SIGNATURE, 24, 0, ⟨0, 0, 0x9FC00, 0, 1, 0⟩⟩]

/-- A failure in the second call. -/
def failedAnswers : List E820Answer :=
  [⟨SMAP_SIGNATURE, 20, 1, ⟨0, 0, 0x9FC00, 0, 1, 0⟩⟩, ⟨0x8600, 0, 0, ⟨0, 0, 0, 0, 0, 0⟩⟩]

/-- An entry that does not count is reported; and after a failure in the second
    call slot 0 is not from the fallback. -/
theorem detectMemory_wrong :
    (∃ s, detectMemory blankSlots 341 uncountedAnswers ⟨0, 0, 0, 0⟩ = some (1, s) ∧
      ¬ MemoryDetected uncountedAnswers ⟨0, 0, 0, 0⟩ s.slots 1) ∧
    ∃ s, detectMemory blankSlots 341 failedAnswers ⟨0x3C00, 0x100, 0, 0⟩ = some (3, s) ∧
      ¬ MemoryDetected failedAnswers ⟨0x3C00, 0x100, 0, 0⟩ s.slots 3 := by
  refine ⟨⟨_, rfl, fun h => ?_⟩, _, rfl, fun h => ?_⟩
  · have hno : ¬ E820Success uncountedAnswers := by
      unfold E820Success
      decide
    exact absurd (((h (by decide)).2 hno).1 0 (by decide)) (by decide)
  · have hno : ¬ E820Success failedAnswers := by
      unfold E820Success
      decide
    exact absurd (((h (by decide)).2 hno).1 0 (by decide)) (by decide)

end MishaOS
