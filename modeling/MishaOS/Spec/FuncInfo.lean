import MishaOS.Native.FuncInfo

/-!
# The name of a kernel function

A record is read back as it was written, and its length leads to the next
record or to the two null bytes at the end of the file.

## Key results

- `FuncInfo.fields`: the fields of a record.
- `funcWalk_spec`: the walk over the records that are left.
- `kernelGetFuncName_spec`: the name of the first function with the address.
-/

namespace MishaOS

open Bytes

variable {mem : Nat → Byte} {p addr lo hi fuel : Nat} {f : FuncInfo} {funcs : List FuncInfo}

theorem FuncInfo.length_record (f : FuncInfo) : f.record.length = 11 + f.name.bytes.length := by
  unfold FuncInfo.record
  simp only [List.length_append, length_le32, le16, List.length_cons, List.length_nil]
  omega

/-- The record as `kernel_func_info_t`. -/
theorem FuncInfo.fields (h : At mem p f.record) :
    word16 mem p = f.record.length ∧ word32 mem (p + 2) = f.lowpc.toNat ∧
      word32 mem (p + 6) = f.highpc.toNat ∧ At mem (p + 10) (f.name.bytes ++ [0]) := by
  have hshort := f.short
  rw [f.length_record]
  unfold FuncInfo.record at h
  simp only [List.append_assoc, at_append, length_le32] at h
  obtain ⟨hlen, hlow, hhigh, hname, hnull⟩ := h
  refine ⟨word16_le16 hlen (by omega), word32_le32 hlow f.lowpc.isLt,
    word32_le32 hhigh f.highpc.isLt, ?_⟩
  rw [at_append]
  exact ⟨hname, hnull⟩

/-- The function has the address. -/
def FuncInfo.Covers (f : FuncInfo) (addr : Nat) : Prop :=
  f.lowpc.toNat ≤ addr ∧ addr < f.highpc.toNat

instance (f : FuncInfo) (addr : Nat) : Decidable (f.Covers addr) :=
  inferInstanceAs (Decidable (_ ∧ _))

/-- The first function with the address. -/
def funcLookup (funcs : List FuncInfo) (addr : Nat) : Option FuncInfo :=
  funcs.find? fun f => decide (f.Covers addr)

/-- The result is the name of `found`, a string within the bytes from `lo` to
    `hi`, or `"??"`. -/
def NameIs (mem : Nat → Byte) (lo hi : Nat) (found : Option FuncInfo) (res : Option Nat) : Prop :=
  match found, res with
  | some f, some s => At mem s (f.name.bytes ++ [0]) ∧ lo ≤ s ∧ s + f.name.bytes.length + 1 ≤ hi
  | none, none => True
  | _, _ => False

theorem exportDebug_cons (f : FuncInfo) (funcs : List FuncInfo) :
    exportDebug (f :: funcs) = f.record ++ exportDebug funcs := by
  unfold exportDebug
  rw [List.flatMap_cons, List.append_assoc]

/-- The length of the next record, or 0 at the end of the file. -/
theorem word16_exportDebug (h : At mem p (exportDebug funcs)) : word16 mem p = 0 ↔ funcs = [] := by
  cases funcs with
  | nil =>
    have hzero : At mem p (le16 0) := h
    exact iff_of_true (word16_le16 hzero (by decide)) rfl
  | cons g funcs =>
    rw [exportDebug_cons, at_append] at h
    have hlen := (FuncInfo.fields h.1).1
    have hpos := g.length_record
    refine iff_of_false ?_ (by simp)
    omega

/-- The addresses of a record. -/
theorem funcSeen_inside (func : Nat) : ∀ a ∈ funcSeen mem func addr, func + 2 ≤ a ∧
    a < func + 10 := by
  intro a ha
  unfold funcSeen at ha
  rw [List.mem_append, List.mem_range'_1] at ha
  rcases ha with ha | ha
  · omega
  · split at ha
    · exact absurd ha List.not_mem_nil
    · rw [List.mem_range'_1] at ha
      omega

/-- Walking over the records that are left. -/
theorem funcWalk_spec (hne : funcs ≠ []) (hat : At mem p (exportDebug funcs)) (hlo : lo ≤ p)
    (hhi : p + (exportDebug funcs).length ≤ hi) (hfit : hi ≤ 4294967296)
    (hfuel : funcs.length < fuel) :
    ∃ res seen, funcWalk mem addr fuel p = some (res, seen) ∧
      NameIs mem lo hi (funcLookup funcs addr) res ∧ ∀ a ∈ seen, lo ≤ a ∧ a < hi := by
  induction funcs generalizing p fuel with
  | nil => exact absurd rfl hne
  | cons f funcs ih =>
    obtain ⟨k, rfl⟩ : ∃ k, fuel = k + 1 := ⟨fuel - 1, by omega⟩
    have hrec := f.length_record
    rw [exportDebug_cons] at hat hhi
    rw [List.length_append] at hhi
    rw [at_append] at hat
    obtain ⟨hlen, hlow, hhigh, hname⟩ := FuncInfo.fields hat.1
    -- the two null bytes are always there
    have hend : 2 ≤ (exportDebug funcs).length := by
      unfold exportDebug
      rw [List.length_append]
      exact Nat.le_add_left _ _
    -- what the condition reads is in this record
    have hread := @funcSeen_inside mem addr p
    rw [funcWalk, hlow, hhigh, hlen]
    by_cases hcov : f.Covers addr
    · obtain ⟨hle, hlt⟩ := hcov
      have hfound : funcLookup (f :: funcs) addr = some f :=
        List.find?_cons_of_pos (decide_eq_true ⟨hle, hlt⟩)
      rw [if_neg (by omega), hfound]
      refine ⟨_, _, rfl, ⟨hname, by omega, by omega⟩, fun a ha => ?_⟩
      have hin := hread a ha
      omega
    · have hnext : u32 (p + f.record.length) = p + f.record.length := u32_of_lt (by omega)
      have hrest : funcLookup (f :: funcs) addr = funcLookup funcs addr :=
        List.find?_cons_of_neg (by simpa using hcov)
      have hseen : ∀ a ∈ funcSeen mem p addr ++ List.range' p 2 ++
        List.range' (p + f.record.length) 2,
          lo ≤ a ∧ a < hi := by
        intro a ha
        rw [List.mem_append, List.mem_append, List.mem_range'_1, List.mem_range'_1] at ha
        rcases ha with (ha | ha) | ha
        · have hin := hread a ha
          omega
        · omega
        · omega
      unfold FuncInfo.Covers at hcov
      rw [if_pos (by omega), hnext, hrest]
      by_cases hnil : funcs = []
      · -- the two null bytes
        rw [if_pos ((word16_exportDebug hat.2).2 hnil), hnil]
        exact ⟨_, _, rfl, trivial, hseen⟩
      · obtain ⟨res, seen, hwalk, hres, hall⟩ :=
          ih hnil hat.2 (by omega) (by omega) (show funcs.length < k by
          rw [List.length_cons] at hfuel
          omega)
        rw [if_neg fun h => hnil ((word16_exportDebug hat.2).1 h), hwalk]
        refine ⟨res, _, rfl, hres, fun a ha => ?_⟩
        rcases List.mem_append.mp ha with ha | ha
        · exact hseen a ha
        · exact hall a ha

/-- The name of the first function with the address is found, and nothing
    outside the file is read. -/
theorem kernelGetFuncName_spec (mem : Nat → Byte) (kernelFuncs addr fuel : Nat)
    (funcs : List FuncInfo)
    (hne : funcs ≠ []) (hloaded : kernelFuncs ≠ 0) (hat : At mem kernelFuncs (exportDebug funcs))
    (hfit : kernelFuncs + (exportDebug funcs).length ≤ 4294967296) (hfuel : funcs.length < fuel) :
    ∃ res seen, kernelGetFuncName mem kernelFuncs addr fuel = some (res, seen) ∧
      NameIs mem kernelFuncs (kernelFuncs + (exportDebug funcs).length)
        (funcLookup funcs addr) res ∧
      ∀ a ∈ seen, kernelFuncs ≤ a ∧ a < kernelFuncs + (exportDebug funcs).length := by
  unfold kernelGetFuncName
  rw [if_neg hloaded]
  exact funcWalk_spec hne hat (Nat.le_refl _) (Nat.le_refl _) hfit hfuel

/-- Two functions of the kernel. -/
def funcSample : List FuncInfo :=
  [⟨⟨[107], by decide⟩, 0x100000, 0x100010, by decide⟩,
    ⟨⟨[109, 107], by decide⟩, 0x100010, 0x100040, by decide⟩]

theorem kernelGetFuncName_sample : ∃ res seen,
    kernelGetFuncName (Ring.blit (fun _ => 0) 0x1000 (exportDebug funcSample)) 0x1000 0x100020 3 =
        some (res, seen) ∧
      NameIs (Ring.blit (fun _ => 0) 0x1000 (exportDebug funcSample)) 0x1000 (0x1000 + 27)
        (funcLookup funcSample 0x100020) res ∧
      ∀ a ∈ seen, 0x1000 ≤ a ∧ a < 0x1000 + 27 :=
  kernelGetFuncName_spec _ 0x1000 0x100020 3 funcSample (by decide) (by decide) blit_at
    (by decide) (by decide)

end MishaOS
