import MishaOS.Native.ExecMem
import MishaOS.Spec.ExecPages
import MishaOS.Spec.NewPages

/-!
# Writing to pages that have been mapped one after the other

`exec` maps pages from some address on, in order, and writes to those it has
mapped.  Each page has a frame of its own, so the pages are a straight piece of
memory, whichever frames they lie in: `Reflects` says that the frames hold the
contents of such a memory.

## Key results

- `pageRun_phys`: a page keeps its frame when further pages are mapped.
- `storeBytes_spec`: a write into the pages is a write into the straight memory.
-/

namespace MishaOS

open Bytes Ring

variable {m : Paging} {s : LoadMem} {V : Nat → Byte} {l : List Byte} {d start a a' n N i t : Nat}

/-- Pages are mapped from `start` on, one after the other. -/
def mapRun (m : Paging) (start n : Nat) : Paging :=
  ((List.range n).map fun i => start + i * 0x1000).foldl mapNewPage m

theorem mapRun_succ (m : Paging) (start n : Nat) :
    mapRun m start (n + 1) = mapNewPage (mapRun m start n) (start + n * 0x1000) := by
  simp [mapRun, List.range_succ]

theorem mapRun_add (m : Paging) (start n k : Nat) :
    mapRun m start (n + k) =
      ((List.range k).map fun i => start + (n + i) * 0x1000).foldl mapNewPage
        (mapRun m start n) := by
  rw [mapRun, List.range_add, List.map_append, List.foldl_append, List.map_map]
  rfl

theorem mapRun_kept (m : Paging) (start n k : Nat) :
    Kept (fun _ => False) (mapRun m start n) (mapRun m start (n + k)) := by
  rw [mapRun_add]
  exact foldl_mapNewPage_kept _ _

/-- The frame of page `i`. -/
def runFrame (m : Paging) (start i : Nat) : Nat := (mapRun m start i).requestPage.1

section

variable (hown : OwnTables m d) (hcur : m.currentPageDirectory = d)
include hown hcur

theorem mapRun_page (hclean : (mapRun m start (i + 1)).pfa.overcommitted = false) :
    NewPage (mapRun m start i) (mapRun m start (i + 1)) d
      (start + i * 0x1000) (runFrame m start i) := by
  obtain ⟨hown', hcur'⟩ := foldl_mapNewPage_own hown hcur ((mapRun_kept m start i 1).clean hclean)
  rw [mapRun_succ] at hclean ⊢
  exact hown'.mapNewPage hcur' hclean

/-- A page keeps its frame when further pages are mapped. -/
theorem mapRun_phys (hclean : (mapRun m start n).pfa.overcommitted = false)
    (hstart : start % 0x1000 = 0)
    (hi : i < n) (ha : a / 0x1000 = start / 0x1000 + i) :
    pagePresent (mapRun m start n) d a = true ∧
      pdeGetPhysAddr (mapRun m start n) d a = runFrame m start i + a % 0x1000 := by
  -- split the run behind the page
  obtain ⟨k, rfl⟩ := Nat.exists_eq_add_of_le hi
  have hpage := mapRun_page hown hcur ((mapRun_kept m start (i + 1) k).clean hclean)
  obtain ⟨hpresent, hphys⟩ := hpage.mapped a (by omega)
  -- the pages that follow are other pages
  have hsame : SamePage (mapRun m start (i + 1)) (mapRun m start (i + 1 + k)) d a := by
    rw [mapRun_add m start (i + 1)] at hclean ⊢
    apply mapNewPages_same hpage.own hpage.current hclean
    intro v hv
    obtain ⟨j, -, rfl⟩ := List.mem_map.mp hv
    omega
  exact ⟨hsame.present.trans hpresent, (hsame.phys hpresent).trans hphys⟩

/-- The frame was free. -/
theorem runFrame_free (hclean : (mapRun m start n).pfa.overcommitted = false) (hi : i < n) :
    ¬ m.pfa.used (runFrame m start i / 0x1000) := by
  obtain ⟨k, rfl⟩ := Nat.exists_eq_add_of_le hi
  have hpage := mapRun_page hown hcur ((mapRun_kept m start (i + 1) k).clean hclean)
  intro hused
  have hkept := mapRun_kept m start 0 i
  rw [Nat.zero_add] at hkept
  exact hpage.free (hkept.used _ hused)

theorem runFrame_lt (hclean : (mapRun m start n).pfa.overcommitted = false) {j : Nat} (hij : i < j)
    (hj : j < n) : runFrame m start i / 0x1000 ≠ runFrame m start j / 0x1000 := by
  obtain ⟨k, rfl⟩ := Nat.exists_eq_add_of_le hj
  have hcleanj := (mapRun_kept m start (j + 1) k).clean hclean
  obtain ⟨e, rfl⟩ := Nat.exists_eq_add_of_le hij
  -- when the later frame is requested, the earlier one is in use
  have hkeptj := mapRun_kept m start (i + 1) e
  have hpagej := mapRun_page hown hcur hcleanj
  have hcleani := hkeptj.clean ((mapRun_kept m start (i + 1 + e) 1).clean hcleanj)
  have hpagei := mapRun_page hown hcur hcleani
  intro heq
  exact hpagej.free (heq ▸ hkeptj.used _ hpagei.used)

/-- Different addresses in the pages are different bytes of the frames. -/
theorem mapRun_inj (hclean : (mapRun m start n).pfa.overcommitted = false)
    (hstart : start % 0x1000 = 0)
    (ha : start ≤ a ∧ a < start + n * 0x1000) (ha' : start ≤ a' ∧ a' < start + n * 0x1000)
    (heq : pdeGetPhysAddr (mapRun m start n) d a = pdeGetPhysAddr (mapRun m start n) d a') :
    a = a' := by
  obtain ⟨i, hi⟩ : ∃ i, a / 0x1000 = start / 0x1000 + i := ⟨a / 0x1000 - start / 0x1000, by omega⟩
  obtain ⟨j, hj⟩ : ∃ j, a' / 0x1000 = start / 0x1000 + j := ⟨a' / 0x1000 - start / 0x1000, by omega⟩
  have hin : i < n := by omega
  have hjn : j < n := by omega
  obtain ⟨-, hphysi⟩ := mapRun_phys hown hcur hclean hstart hin hi
  obtain ⟨-, hphysj⟩ := mapRun_phys hown hcur hclean hstart hjn hj
  rw [hphysi, hphysj] at heq
  have haligni : runFrame m start i % 0x1000 = 0 := requestPage_aligned _
  have halignj : runFrame m start j % 0x1000 = 0 := requestPage_aligned _
  -- one frame is one page
  have hij : i = j := by
    rcases Nat.lt_trichotomy i j with hlt | heq' | hgt
    · have hne := runFrame_lt hown hcur hclean hlt hjn
      omega
    · exact heq'
    · have hne := runFrame_lt hown hcur hclean hgt hin
      omega
  subst hij
  omega

end

/-! ## The straight memory -/

/-- The `N` pages from `start` on, once they are all mapped, hold the contents of `V`. -/
def Reflects (m : Paging) (d start N : Nat) (bytes V : Nat → Byte) : Prop :=
  ∀ a, start ≤ a → a < start + N * 0x1000 → bytes (pdeGetPhysAddr (mapRun m start N) d a) = V a

section

variable (hown : OwnTables m d) (hcur : m.currentPageDirectory = d)
  (hclean : (mapRun m start N).pfa.overcommitted = false) (hstart : start % 0x1000 = 0)
include hown hcur hclean hstart

theorem Reflects.update {bytes : Nat → Byte} (h : Reflects m d start N bytes V)
    (ha : start ≤ a ∧ a < start + N * 0x1000) (b : Byte) :
    Reflects m d start N (Function.update bytes (pdeGetPhysAddr (mapRun m start N) d a) b)
      (Function.update V a b) := by
  intro a' hle hlt
  -- another address is another byte of the frames
  by_cases haa : a' = a
  · rw [haa, Function.update_self, Function.update_self]
  · have hne : pdeGetPhysAddr (mapRun m start N) d a' ≠ pdeGetPhysAddr (mapRun m start N) d a :=
      fun heq => haa (mapRun_inj hown hcur hclean hstart ⟨hle, hlt⟩ ha heq)
    rw [Function.update_of_ne hne, Function.update_of_ne haa]
    exact h a' hle hlt

/-- A byte is written to a page that has been mapped. -/
theorem store_spec (hpaging : s.paging = mapRun m start n) (hn : n ≤ N)
    (ha : start ≤ a ∧ a < start + n * 0x1000) (b : Byte) :
    s.store a b =
      some ⟨s.paging, Function.update s.bytes (pdeGetPhysAddr (mapRun m start N) d a) b⟩ := by
  obtain ⟨i, hi⟩ : ∃ i, a / 0x1000 = start / 0x1000 + i := ⟨a / 0x1000 - start / 0x1000, by omega⟩
  obtain ⟨k, rfl⟩ := Nat.exists_eq_add_of_le hn
  have hclean' := (mapRun_kept m start n k).clean hclean
  obtain ⟨hpresent, hphys⟩ := mapRun_phys hown hcur hclean' hstart (by omega) hi
  obtain ⟨-, hphysN⟩ := mapRun_phys hown hcur hclean hstart (i := i) (by omega) hi
  -- the page is there, with the frame it will have in the end
  have hdir : s.paging.currentPageDirectory = d := by
    rw [hpaging]
    exact (foldl_mapNewPage_own hown hcur hclean').2
  rw [← hpaging] at hpresent hphys
  have hthere : (s.paging.dir d).tables (a / 0x1000 / 1024) ≠ 0 ∧
      (s.paging.table ((s.paging.dir d).tables (a / 0x1000 / 1024)) (a / 0x1000 % 1024)).present =
        true := by
    unfold pagePresent translate at hpresent
    split at hpresent
    · cases hpresent
    · rename_i hne
      exact ⟨hne, hpresent⟩
  unfold LoadMem.store
  dsimp only
  rw [hdir, if_pos hthere, hphys, hphysN]

/-- A write into the pages that have been mapped is a write into the straight memory. -/
theorem storeBytes_spec (hbound : start + N * 0x1000 < 4294967296)
    (hpaging : s.paging = mapRun m start n)
    (hn : n ≤ N) (hle : start ≤ t) (hlt : t + l.length ≤ start + n * 0x1000)
    (h : Reflects m d start N s.bytes V) :
    ∃ s', s.storeBytes t l = some s' ∧ s'.paging = s.paging ∧
      Reflects m d start N s'.bytes (blit V t l) := by
  -- each byte may lie in another page, so the write goes byte by byte
  induction l generalizing s V t with
  | nil => exact ⟨s, rfl, rfl, blit_nil ▸ h⟩
  | cons b l ih =>
    rw [List.length_cons] at hlt
    have hstore := store_spec hown hcur hclean hstart hpaging hn (a := t) ⟨hle, by omega⟩ b
    have hN : n * 0x1000 ≤ N * 0x1000 := Nat.mul_le_mul_right _ hn
    have hnext : u32 (t + 1) = t + 1 := u32_of_lt (by omega)
    rw [LoadMem.storeBytes, hstore, Option.bind_eq_bind, Option.bind_some, hnext, blit_cons]
    exact ih hpaging (by omega) (by omega) (h.update hown hcur hclean hstart ⟨hle, by omega⟩ b)

end

end MishaOS
