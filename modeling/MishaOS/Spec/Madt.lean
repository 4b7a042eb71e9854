import Mathlib.Tactic.ByContra
import MishaOS.Native.Acpi

/-!
# The walk over the MADT

The length byte of a record drives the walk.  A record of length 0 stops it for
ever, and the fields of a record that begins near the end of the table are read
behind the table; nothing else can go wrong.

## Key results

- `apicWalk_count`: there are never more than 16 processors.
- `apicWalk_inside`, `inside_of_apicWalk`: the walk over records that stand in the table, and back.
- `acpiParseApic_iff`: when the table is read as it should be.
-/

namespace MishaOS

open Bytes

variable {mem : Nat → Byte} {last it n fuel : Nat} {s s' : AcpiState}

/-! ## Records -/

/-- The addresses of the records from `it` on, at most `n` of them. -/
def madtRecords (mem : Nat → Byte) (last : Nat) : Nat → Nat → List Nat
  | 0, _ => []
  | n + 1, it => if it < last then it :: madtRecords mem last n (it + (mem (it + 1)).toNat) else []

/-- The ids of the local APICs among the records. -/
def localApicIds (mem : Nat → Byte) (records : List Nat) : List Byte :=
  (records.filter fun it => decide (mem it = LOCAL_APIC)).map fun it => mem (it + 3)

/-- Every record has a length and stands in the table with its header and with
    the fields that are used; the id of a local APIC is used while there is
    `room` for it. -/
def RecordsInside (mem : Nat → Byte) (last : Nat) : Nat → List Nat → Prop
  | _, [] => True
  | room, it :: records =>
    it + 2 ≤ last ∧ mem (it + 1) ≠ 0 ∧ (mem it = LOCAL_APIC → room ≠ 0 → it + 4 ≤ last) ∧
      (mem it = IO_APIC → it + 8 ≤ last) ∧
      RecordsInside mem last (if mem it = LOCAL_APIC then room - 1 else room) records

instance instDecidableRecordsInside (mem : Nat → Byte) (last : Nat) :
    (room : Nat) → (records : List Nat) → Decidable (RecordsInside mem last room records)
  | _, [] => inferInstanceAs (Decidable True)
  | room, it :: records =>
    have := instDecidableRecordsInside mem last
      (if mem it = LOCAL_APIC then room - 1 else room) records
    inferInstanceAs (Decidable (_ ∧ _))

/-- The table at `madt` is read as it should be: the walk ends, the ids are those
    of the first 16 local APICs, and nothing outside the table is read. -/
def MadtParsed (mem : Nat → Byte) (madt : Nat) : Prop :=
  let length := word32 mem (madt + 4)
  ∀ fuel, length < fuel → ∃ s, acpiParseApic mem madt fuel acpiStart = some s ∧
    s.cpuIds.length ≤ ACPI_MAX_CPUS ∧
    s.cpuIds = (localApicIds mem (madtRecords mem (madt + length) length (madt + MADT_SIZE))).take
      ACPI_MAX_CPUS ∧
    ∀ a ∈ s.seen, madt ≤ a ∧ a < madt + length

/-! ## One record -/

theorem apicRecord_ids (mem : Nat → Byte) (it : Nat) (s : AcpiState) :
    (apicRecord mem it s).cpuIds =
    s.cpuIds ++ if mem it = LOCAL_APIC ∧ s.cpuIds.length < ACPI_MAX_CPUS
      then [mem (it + 3)] else [] := by
  unfold apicRecord AcpiState.read
  dsimp only
  by_cases hlocal : mem it = LOCAL_APIC
  · rw [if_pos hlocal]
    by_cases hroom : s.cpuIds.length < ACPI_MAX_CPUS
    · rw [if_pos hroom, if_pos ⟨hlocal, hroom⟩]
    · rw [if_neg hroom, if_neg fun h => hroom h.2, List.append_nil]
  · rw [if_neg hlocal, if_neg (show ¬ (mem it = LOCAL_APIC ∧ s.cpuIds.length < ACPI_MAX_CPUS) from
      fun h => hlocal h.1), List.append_nil]
    split <;> rfl

/-- The places that are left for processors. -/
theorem apicRecord_room {room : Nat} (hroom : s.cpuIds.length + room = ACPI_MAX_CPUS) :
    (apicRecord mem it s).cpuIds.length + (if mem it = LOCAL_APIC then room - 1 else room) =
      ACPI_MAX_CPUS := by
  rw [apicRecord_ids, List.length_append]
  by_cases htype : mem it = LOCAL_APIC
  · rw [if_pos htype]
    by_cases hfree : s.cpuIds.length < ACPI_MAX_CPUS
    · rw [if_pos ⟨htype, hfree⟩, List.length_singleton]
      omega
    · rw [if_neg fun hc => hfree hc.2, List.length_nil]
      omega
  · rw [if_neg htype, if_neg fun hc => htype hc.1]
    exact hroom

/-- The fields that are read besides the length. -/
theorem apicRecord_seen (mem : Nat → Byte) (it : Nat) (s : AcpiState) : (apicRecord mem it s).seen =
    s.seen ++ it :: if mem it = LOCAL_APIC then
        if s.cpuIds.length < ACPI_MAX_CPUS then [it + 3] else []
      else if mem it = IO_APIC then List.range' (it + 4) 4 else [] := by
  unfold apicRecord AcpiState.read
  dsimp only
  split
  · split
    · simp
    · rfl
  · split
    · simp
    · rfl

/-- The count never exceeds the array, whatever the table holds. -/
theorem apicWalk_count (h : apicWalk mem last fuel it s = some s')
    (hs : s.cpuIds.length ≤ ACPI_MAX_CPUS) :
    s'.cpuIds.length ≤ ACPI_MAX_CPUS := by
  -- one record a round; the array grows only while there is room
  induction fuel generalizing it s with
  | zero => exact absurd h (by simp [apicWalk])
  | succ fuel ih =>
    rw [apicWalk] at h
    split at h
    · apply ih h
      show (apicRecord mem it s).cpuIds.length ≤ ACPI_MAX_CPUS
      rw [apicRecord_ids, List.length_append]
      split
      · rename_i hroom
        have hlt := hroom.2
        rw [List.length_singleton]
        omega
      · exact hs
    · cases h
      exact hs

/-- What has been read stays noted. -/
theorem apicWalk_seen {a : Nat} (h : apicWalk mem last fuel it s = some s') (ha : a ∈ s.seen) :
    a ∈ s'.seen := by
  induction fuel generalizing it s with
  | zero => exact absurd h (by simp [apicWalk])
  | succ fuel ih =>
    rw [apicWalk] at h
    split at h
    · apply ih h
      show a ∈ (apicRecord mem it s).seen ++ List.range' (it + 1) 1
      rw [apicRecord_seen]
      exact List.mem_append_left _ (List.mem_append_left _ ha)
    · cases h
      exact ha

/-- The pointer to the next record does not wrap around. -/
theorem nextRecord_eq (hlt : it < last) (hend : last + 255 ≤ 4294967296) :
    u32 (it + (mem (it + 1)).toNat) = it + (mem (it + 1)).toNat := by
  have hbyte := (mem (it + 1)).isLt
  exact u32_of_lt (by omega)

/-- A record without length is looked at for ever. -/
theorem apicWalk_stuck (hlt : it < last) (hend : last + 255 ≤ 4294967296)
    (hzero : mem (it + 1) = 0) :
    apicWalk mem last fuel it s = none := by
  induction fuel generalizing s with
  | zero => rfl
  | succ fuel ih =>
    have hnext : u32 (it + (mem (it + 1)).toNat) = it := by
      rw [nextRecord_eq hlt hend, hzero]
      rfl
    rw [apicWalk, if_pos hlt, hnext]
    exact ih

/-! ## The walk -/

theorem localApicIds_cons (records : List Nat) : localApicIds mem (it :: records) =
    (if mem it = LOCAL_APIC then [mem (it + 3)] else []) ++ localApicIds mem records := by
  unfold localApicIds
  by_cases h : mem it = LOCAL_APIC
  · rw [if_pos h, List.filter_cons_of_pos (by exact decide_eq_true h)]
    rfl
  · rw [if_neg h, List.filter_cons_of_neg (by simpa using h)]
    rfl

/-- The fields of a record that stands in the table do so too. -/
theorem apicRecord_inside {first room : Nat} (hfirst : first ≤ it) (hhead : it + 2 ≤ last)
    (hlocal : mem it = LOCAL_APIC → room ≠ 0 → it + 4 ≤ last)
    (hio : mem it = IO_APIC → it + 8 ≤ last)
    (hroom : s.cpuIds.length + room = ACPI_MAX_CPUS) (hseen : ∀ a ∈ s.seen, first ≤ a ∧ a < last) :
    ∀ a ∈ ((apicRecord mem it s).read (it + 1) 1).seen, first ≤ a ∧ a < last := by
  intro a ha
  change a ∈ (apicRecord mem it s).seen ++ [it + 1] at ha
  rw [apicRecord_seen] at ha
  simp only [List.mem_append, List.mem_cons, List.not_mem_nil, or_false] at ha
  -- before this record, its type, its fields, its length
  rcases ha with (ha | rfl | ha) | rfl
  · exact hseen a ha
  · omega
  · split at ha
    · rename_i htype
      split at ha
      · rename_i hfree
        have hfour := hlocal htype (by omega)
        obtain rfl : a = it + 3 := List.mem_singleton.mp ha
        omega
      · exact absurd ha List.not_mem_nil
    · split at ha
      · rename_i htype
        have height := hio htype
        rw [List.mem_range'_1] at ha
        omega
      · exact absurd ha List.not_mem_nil
  · omega

/-- The walk over records that stand in the table. -/
theorem apicWalk_inside {first room : Nat} (hend : last + 255 ≤ 4294967296)
    (hn : last - it ≤ n) (hfuel : n < fuel) (hfirst : first ≤ it)
    (hin : RecordsInside mem last room (madtRecords mem last n it))
    (hroom : s.cpuIds.length + room = ACPI_MAX_CPUS) (hseen : ∀ a ∈ s.seen, first ≤ a ∧ a < last) :
    ∃ s', apicWalk mem last fuel it s = some s' ∧
      s'.cpuIds = s.cpuIds ++ (localApicIds mem (madtRecords mem last n it)).take room ∧
      ∀ a ∈ s'.seen, first ≤ a ∧ a < last := by
  -- the records that are left, and the places that are left for processors
  induction n generalizing it s fuel room with
  | zero =>
    obtain ⟨f, rfl⟩ : ∃ f, fuel = f + 1 := ⟨fuel - 1, by omega⟩
    refine ⟨s, ?_, ?_, hseen⟩
    · rw [apicWalk, if_neg (by omega)]
    · rw [madtRecords]
      simp [localApicIds]
  | succ n ih =>
    obtain ⟨f, rfl⟩ : ∃ f, fuel = f + 1 := ⟨fuel - 1, by omega⟩
    rw [madtRecords] at hin ⊢
    rw [apicWalk]
    by_cases hlt : it < last
    · rw [if_pos hlt] at hin ⊢
      rw [if_pos hlt]
      dsimp only
      rw [nextRecord_eq hlt hend]
      obtain ⟨hhead, hlen, hlocal, hio, hrest⟩ := hin
      -- a length of 0 would not lead on
      have hpos : (mem (it + 1)).toNat ≠ 0 := fun hz => hlen (BitVec.eq_of_toNat_eq hz)
      have hseen' := apicRecord_inside hfirst hhead hlocal hio hroom hseen
      have hids : ((apicRecord mem it s).read (it + 1) 1).cpuIds =
          s.cpuIds ++ if mem it = LOCAL_APIC ∧ s.cpuIds.length < ACPI_MAX_CPUS
            then [mem (it + 3)] else [] :=
        apicRecord_ids mem it s
      have hcount : ((apicRecord mem it s).read (it + 1) 1).cpuIds.length +
          (if mem it = LOCAL_APIC then room - 1 else room) = ACPI_MAX_CPUS := apicRecord_room hroom
      generalize (apicRecord mem it s).read (it + 1) 1 = u at hseen' hids hcount ⊢
      obtain ⟨s', hwalk, hres, hall⟩ :=
        ih (by omega) (show n < f by omega) (by omega) hrest hcount hseen'
      refine ⟨s', hwalk, ?_, hall⟩
      rw [hres, hids, localApicIds_cons, List.append_assoc]
      congr 1
      by_cases htype : mem it = LOCAL_APIC
      · rw [if_pos htype, if_pos htype]
        by_cases hfree : s.cpuIds.length < ACPI_MAX_CPUS
        · obtain ⟨k, rfl⟩ : ∃ k, room = k + 1 := ⟨room - 1, by omega⟩
          rw [if_pos ⟨htype, hfree⟩, Nat.add_sub_cancel]
          rfl
        · obtain rfl : room = 0 := by omega
          rw [if_neg fun h => hfree h.2]
          rfl
      · rw [if_neg htype, if_neg htype, if_neg fun h => htype h.1]
        rfl
    · rw [if_neg hlt] at hin ⊢
      rw [if_neg hlt]
      exact ⟨s, rfl, by simp [localApicIds], hseen⟩

/-- A walk that ends and stays in the table has met no other records. -/
theorem inside_of_apicWalk {room : Nat} (hend : last + 255 ≤ 4294967296)
    (h : apicWalk mem last fuel it s = some s')
    (hroom : s.cpuIds.length + room = ACPI_MAX_CPUS) (hseen : ∀ a ∈ s'.seen, a < last) (n : Nat) :
    RecordsInside mem last room (madtRecords mem last n it) := by
  -- each field that is read shows that the record stands in the table
  induction n generalizing it s fuel room with
  | zero => exact trivial
  | succ n ih =>
    rw [madtRecords]
    by_cases hlt : it < last
    · rw [if_pos hlt]
      by_cases hzero : mem (it + 1) = 0
      · rw [apicWalk_stuck hlt hend hzero] at h
        exact absurd h (by simp)
      cases fuel with
      | zero => exact absurd h (by simp [apicWalk])
      | succ fuel =>
        rw [apicWalk, if_pos hlt] at h
        dsimp only at h
        rw [nextRecord_eq hlt hend] at h
        have hread : ∀ a, a ∈ (apicRecord mem it s).seen ++ [it + 1] → a < last :=
          fun a ha => hseen a (apicWalk_seen h ha)
        have hfields := hread
        rw [apicRecord_seen] at hfields
        refine ⟨?_, hzero, ?_, ?_, ?_⟩
        · have hlen := hread (it + 1) (by simp)
          omega
        · intro htype hfree
          have hid := hfields (it + 3) (by
            rw [if_pos htype, if_pos (by omega)]
            simp)
          omega
        · intro htype
          have hlocal : ¬ mem it = LOCAL_APIC := by
            rw [htype]
            decide
          have haddr := hfields (it + 7) (by
            rw [if_neg hlocal, if_pos htype]
            simp [List.mem_range'_1])
          omega
        · exact ih h (apicRecord_room hroom)
    · rw [if_neg hlt]
      exact trivial

/-! ## The table -/

/-- The table is read as it should be exactly if its length is in it and its
    records, up to the fields that are used, are too. -/
theorem acpiParseApic_iff (mem : Nat → Byte) (madt : Nat)
    (hend : madt + word32 mem (madt + 4) + 255 ≤ 4294967296) :
    MadtParsed mem madt ↔ 8 ≤ word32 mem (madt + 4) ∧
      RecordsInside mem (madt + word32 mem (madt + 4)) ACPI_MAX_CPUS
        (madtRecords mem (madt + word32 mem (madt + 4)) (word32 mem (madt + 4))
          (madt + MADT_SIZE)) := by
  unfold MadtParsed acpiParseApic
  dsimp only
  generalize word32 mem (madt + 4) = length at hend ⊢
  -- neither the first record nor the end of the table wraps around
  have hfirst : u32 (madt + MADT_SIZE) = madt + MADT_SIZE :=
    u32_of_lt (show madt + 44 < 4294967296 by omega)
  have hlast : u32 (madt + length) = madt + length := u32_of_lt (by omega)
  rw [hfirst, hlast]
  have hstart : (acpiStart.read (madt + 4) 4).seen = List.range' (madt + 4) 4 := rfl
  constructor
  · intro h
    obtain ⟨s, hwalk, _, _, hseen⟩ := h (length + 1) (by omega)
    refine ⟨?_, inside_of_apicWalk hend hwalk rfl (fun a ha => (hseen a ha).2) length⟩
    have hfield := hseen (madt + 7) (apicWalk_seen hwalk (by
      rw [hstart, List.mem_range'_1]
      omega))
    omega
  · intro ⟨hlen, hin⟩ fuel hfuel
    obtain ⟨s, hwalk, hids, hseen⟩ := apicWalk_inside (s := acpiStart.read (madt + 4) 4) hend
      (show madt + length - (madt + MADT_SIZE) ≤ length by omega) hfuel
        (show madt ≤ madt + MADT_SIZE by omega)
      hin rfl (by
        intro a ha
        rw [hstart, List.mem_range'_1] at ha
        omega)
    exact ⟨s, hwalk, apicWalk_count hwalk (show 0 ≤ 16 by decide), hids, hseen⟩

/-- A table at `0x1000` with two processors, an I/O APIC and the given bytes behind them. -/
def madtSample (rest : List Byte) (i : Nat) : Byte :=
  ([0x41, 0x50, 0x49, 0x43] ++ le32 (72 + rest.length) ++ List.replicate 36 0 ++
    [0, 8, 0, 0, 1, 0, 0, 0] ++ [0, 8, 1, 1, 1, 0, 0, 0] ++
    [1, 12, 2, 0, 0, 0, 0xC0, 0xFE, 0, 0, 0, 0] ++ rest).getD (i - 0x1000) 0

/-- A table that is read as it should be. -/
theorem acpiParseApic_sample : MadtParsed (madtSample []) 0x1000 :=
  (acpiParseApic_iff (madtSample []) 0x1000 (by decide)).2 (by decide)

/-- A record without length behind them: the walk does not end. -/
theorem acpiParseApic_stuck : ¬ MadtParsed (madtSample [0, 0]) 0x1000 := by
  intro h
  obtain ⟨s, hwalk, _⟩ := h 75 (by decide)
  have hnone : acpiParseApic (madtSample [0, 0]) 0x1000 75 acpiStart = none := by
    decide +kernel
  rw [hnone] at hwalk
  exact absurd hwalk (by simp)

end MishaOS
