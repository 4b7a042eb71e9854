import MishaOS.Native.Mount
import MishaOS.Spec.VfsRoundTrip

/-!
# Paths

`open` handles the last component of a path on a path of its own, and every other
one through a copy.  Together they look up one component after the other, also
an empty one between two slashes.

## Key results

- `openPath_eq`: `open` resolves the components of the path from its start.
- `open_path`: and a name behind a path is looked up in what the path leads to.
-/

namespace MishaOS

variable {fs : VfsFilesystem} {m : Mount} {workingDir : Option Nat} {path name : CString}
    {str : List Byte} {n fuel : Nat}

/-- What is in a part is in the whole. -/
theorem mem_of_mem_splitOn {c : List Byte} {a x : Byte} (hc : c ∈ str.splitOn a)
    (hx : x ∈ c) : x ∈ str := by
  induction str generalizing c with
  | nil =>
    obtain rfl : c = [] := by simpa using hc
    exact hx
  | cons y str ih =>
    rw [List.splitOn_cons_eq_if_modifyHead] at hc
    split at hc
    · rcases List.mem_cons.mp hc with rfl | hc
      · exact absurd hx List.not_mem_nil
      · exact List.mem_cons_of_mem _ (ih hc hx)
    · -- `y` belongs to the first piece of the rest
      obtain ⟨first, rest, hsplit⟩ := List.exists_cons_of_ne_nil (List.splitOn_ne_nil a str)
      rw [hsplit, List.modifyHead_cons] at hc
      rcases List.mem_cons.mp hc with rfl | hc
      · rcases List.mem_cons.mp hx with rfl | hx
        · exact List.mem_cons_self
        · exact List.mem_cons_of_mem _ (ih (hsplit ▸ List.mem_cons_self) hx)
      · exact List.mem_cons_of_mem _ (ih (hsplit ▸ List.mem_cons_of_mem _ hc) hx)

/-- The pieces between the slashes. -/
def CString.components (path : CString) : List CString :=
  (path.bytes.splitOn slash).pmap CString.mk fun _ hc h => path.noNull (mem_of_mem_splitOn hc h)

/-- `path/name` -/
def CString.slashed (path name : CString) : CString where
  bytes := path.bytes ++ slash :: name.bytes
  noNull h := by
    rcases List.mem_append.mp h with h | h
    · exact path.noNull h
    · rcases List.mem_cons.mp h with h | h
      · exact absurd h (by decide)
      · exact name.noNull h

/-- Where the resolution starts. -/
def CString.start (path : CString) (m : Mount) (workingDir : Option Nat) : Option Nat :=
  if path.bytes.head? = some slash then some m.root else workingDir

/-- What is resolved from there. -/
def CString.relative (path : CString) : CString :=
  if path.bytes.head? = some slash then path.drop 1 else path

/-! ## Components -/

/-- The components are the parts between the slashes. -/
theorem components_bytes (path : CString) :
    path.components.map CString.bytes = path.bytes.splitOn slash := by
  rw [CString.components, List.map_pmap, List.pmap_eq_map, List.map_id']

/-- Names with the same bytes are the same. -/
theorem components_inj {l l' : List CString}
    (h : l.map CString.bytes = l'.map CString.bytes) : l = l' :=
  List.map_injective_iff.mpr (fun _ _ => CString.ext) h

/-- A path without a slash has one component. -/
theorem components_of_not_mem (h : slash ∉ path.bytes) : path.components = [path] :=
  components_inj (by rw [components_bytes, List.splitOn_eq_singleton h]; rfl)

/-- The components of two paths with a slash between them. -/
theorem components_slashed (path name : CString) :
    (path.slashed name).components = path.components ++ name.components :=
  components_inj (by
    rw [List.map_append, components_bytes, components_bytes, components_bytes]
    exact List.splitOn_append_cons_self _ _)

/-- `strchr` finds no slash, or the end of the first component. -/
theorem strchr_slash (str : List Byte) :
    (strchr str slash = none ∧ slash ∉ str) ∨ ∃ n, strchr str slash = some n ∧ n < str.length ∧
      slash ∉ str.take n ∧ str = str.take n ++ slash :: str.drop (n + 1) := by
  -- byte by byte up to the first slash
  induction str with
  | nil => exact .inl ⟨rfl, List.not_mem_nil⟩
  | cons c str ih =>
    by_cases hc : c = slash
    · refine .inr ⟨0, if_pos hc, Nat.succ_pos _, List.not_mem_nil, ?_⟩
      rw [hc]
      rfl
    · rw [strchr, if_neg hc]
      rcases ih with ⟨hnone, hmem⟩ | ⟨n, hsome, hlt, hmem, heq⟩
      · rw [hnone]
        exact .inl ⟨rfl, List.not_mem_cons_of_ne_of_not_mem (Ne.symm hc) hmem⟩
      · rw [hsome]
        refine .inr ⟨n + 1, rfl, Nat.succ_lt_succ hlt, ?_, ?_⟩
        · rw [List.take_succ_cons]
          exact List.not_mem_cons_of_ne_of_not_mem (Ne.symm hc) hmem
        · rw [List.take_succ_cons, List.drop_succ_cons, List.cons_append, ← heq]

/-! ## Resolution -/

/-- A path is resolved in two steps. -/
theorem vfsResolve_append (fs : VfsFilesystem) (l l' : List CString) (entry : Nat) :
    vfsResolve fs entry (l ++ l') = (vfsResolve fs entry l).bind fun r =>
      match r with
      | none => some none
      | some e => vfsResolve fs e l' := by
  induction l generalizing entry with
  | nil => rfl
  | cons name l ih =>
    rw [List.cons_append, vfsResolve, vfsResolve]
    cases vfsFindEntryIn fs entry name with
    | none => rfl
    | some r =>
      cases r with
      | none => rfl
      | some e => exact ih e

/-- A name is looked up in its directory. -/
theorem vfsResolve_singleton (fs : VfsFilesystem) (entry : Nat) (name : CString) :
    vfsResolve fs entry [name] = vfsFindEntryIn fs entry name := by
  rw [vfsResolve]
  cases vfsFindEntryIn fs entry name with
  | none => rfl
  | some r => cases r <;> rfl

/-- The loop of `open`, for a path whose components but the last one fit the buffer. -/
theorem openLoop_eq (parent : Nat) (hfuel : path.bytes.length < fuel)
    (hlen : ∀ c ∈ path.components.dropLast, c.bytes.length ≤ 256) :
    openLoop fs fuel parent path = vfsResolve fs parent path.components := by
  induction fuel generalizing path parent with
  | zero => exact absurd hfuel (Nat.not_lt_zero _)
  | succ fuel ih =>
    rw [openLoop]
    -- the last component is looked up in the path itself, every other one through the buffer
    rcases strchr_slash path.bytes with ⟨hnone, hmem⟩ | ⟨n, hsome, hlt, hmem, heq⟩
    · rw [hnone, components_of_not_mem hmem, vfsResolve_singleton]
    · have hpath : path = (path.take n).slashed (path.drop (n + 1)) := CString.ext heq
      have hcomponents : path.components = path.take n :: (path.drop (n + 1)).components := by
        conv_lhs => rw [hpath, components_slashed]
        rw [components_of_not_mem hmem]
        rfl
      -- a component is behind it, so its length is bounded
      have hrest : (path.drop (n + 1)).components ≠ [] := by
        intro hnil
        have := congrArg (List.map CString.bytes) hnil
        rw [components_bytes] at this
        exact List.splitOn_ne_nil _ _ this
      rw [hcomponents, List.dropLast_cons_of_ne_nil hrest] at hlen
      have hfits : n ≤ 256 := by
        have := hlen _ List.mem_cons_self
        rwa [show (path.take n).bytes = path.bytes.take n from rfl, List.length_take,
          Nat.min_eq_left (Nat.le_of_lt hlt)] at this
      rw [hsome]
      dsimp only
      rw [if_neg (by omega), hcomponents, vfsResolve]
      have hdrop : (path.drop (n + 1)).bytes.length < fuel := by
        rw [show (path.drop (n + 1)).bytes = path.bytes.drop (n + 1) from rfl, List.length_drop]
        omega
      cases vfsFindEntryIn fs parent (path.take n) with
      | none => rfl
      | some r =>
        cases r with
        | none => rfl
        | some next => exact ih next hdrop fun c hc => hlen c (List.mem_cons_of_mem _ hc)

/-! ## Paths -/

/-- The path without its first slash. -/
theorem components_relative (path : CString) :
    ∀ c ∈ path.relative.components, c ∈ path.components := by
  intro c hc
  unfold CString.relative at hc
  split at hc
  · rename_i hhead
    -- the empty component in front of the first slash is left out
    have hpath : path = CString.slashed ⟨[], List.not_mem_nil⟩ (path.drop 1) := by
      apply CString.ext
      cases hbytes : path.bytes with
      | nil => simp [hbytes] at hhead
      | cons x rest =>
        rw [hbytes, List.head?_cons, Option.some.injEq] at hhead
        show x :: rest = [] ++ slash :: path.bytes.drop 1
        rw [hbytes, hhead]
        rfl
    rw [hpath, components_slashed]
    exact List.mem_append_right _ hc
  · exact hc

/-- `open_path` resolves the components from the start of the path. -/
theorem openPath_eq (hlen : ∀ c ∈ path.components, c.bytes.length ≤ 256) :
    openPath m workingDir path =
    match path.start m workingDir with
    | none => some none
    | some entry => vfsResolve m.filesystem entry path.relative.components := by
  have hrelative : ∀ c ∈ path.relative.components.dropLast, c.bytes.length ≤ 256 := fun c hc =>
    hlen c (components_relative path c (List.mem_of_mem_dropLast hc))
  unfold openPath CString.start
  unfold CString.relative at hrelative ⊢
  split
  · rename_i hhead
    rw [if_pos hhead] at hrelative
    -- the fuel is for the whole path
    have hlt : (path.drop 1).bytes.length < path.bytes.length + 1 := by
      rw [show (path.drop 1).bytes = path.bytes.drop 1 from rfl, List.length_drop]
      omega
    exact openLoop_eq m.root hlt hrelative
  · rename_i hhead
    rw [if_neg hhead] at hrelative
    cases workingDir with
    | none => rfl
    | some parent => exact openLoop_eq parent (Nat.lt_succ_self _) hrelative

/-- A name behind a path does not change its beginning. -/
theorem head_slashed (hne : path.bytes ≠ []) (name : CString) :
    (path.slashed name).bytes.head? = path.bytes.head? := by
  show (path.bytes ++ slash :: name.bytes).head? = path.bytes.head?
  rw [List.head?_append_of_ne_nil _ hne]

/-- So it can be added before the first slash is taken off or behind. -/
theorem relative_slashed (hne : path.bytes ≠ []) (name : CString) :
    (path.slashed name).relative = path.relative.slashed name := by
  unfold CString.relative
  rw [head_slashed hne]
  split
  · refine CString.ext ?_
    show (path.bytes ++ slash :: name.bytes).drop 1 = path.bytes.drop 1 ++ slash :: name.bytes
    exact List.drop_append_of_le_length (List.length_pos_iff.mpr hne)
  · rfl

/-- `open` looks one component after the other up, from the root or from the working directory;
    a name behind a path is looked up in what the path leads to. -/
theorem open_path (hlen : ∀ c ∈ path.components, c.bytes.length ≤ 256) :
    (openPath m workingDir path =
      match path.start m workingDir with
      | none => some none
      | some entry => vfsResolve m.filesystem entry path.relative.components) ∧
    (path.bytes ≠ [] → slash ∉ name.bytes → name.bytes.length ≤ 256 →
      openPath m workingDir (path.slashed name) = (openPath m workingDir path).bind fun r =>
        match r with
        | none => some none
        | some entry => vfsFindEntryIn m.filesystem entry name) := by
  refine ⟨openPath_eq hlen, fun hne hname hnameLen => ?_⟩
  have hlen' : ∀ c ∈ (path.slashed name).components, c.bytes.length ≤ 256 := by
    intro c hc
    rw [components_slashed, components_of_not_mem hname] at hc
    rcases List.mem_append.mp hc with hc | hc
    · exact hlen c hc
    · rw [List.mem_singleton.mp hc]
      exact hnameLen
  -- the components of the path come first, and `vfsResolve` takes them apart there
  rw [openPath_eq hlen', openPath_eq hlen, relative_slashed hne, components_slashed,
    components_of_not_mem hname]
  have hstart : (path.slashed name).start m workingDir = path.start m workingDir := by
    unfold CString.start
    rw [head_slashed hne]
  rw [hstart]
  cases path.start m workingDir with
  | none => rfl
  | some entry =>
    dsimp only
    rw [vfsResolve_append]
    congr 1
    funext r
    cases r with
    | none => rfl
    | some e => exact vfsResolve_singleton _ e name

/-- An image with a directory `a` in its root, and a file `f` in that. -/
def treeImage : Nat → Byte :=
  Bytes.writeAll (fun _ => 0)
    [(32, VfsEntry.bytes (fun _ => 0) ⟨[], 0, .directory, 0, 400, 0⟩),
      (400, VfsEntry.bytes (fun _ => 0) ⟨[0x61], 0, .directory, 0, 800, 0⟩),
      (800, VfsEntry.bytes (fun _ => 0) ⟨[0x66], 800, .file, 0, 0, 2⟩)]

def treeMount : Mount := ⟨⟨VFS_SIGNATURE, 1, 1077, 32, treeImage⟩, 32⟩

/-- The path `/a`. -/
def dirPath : CString := ⟨[0x2F, 0x61], by decide⟩

/-- The name `f`. -/
def leafName : CString := ⟨[0x66], by decide⟩

/-- `/a` is looked up in the root, `/a/f` in what it leads to, and that is the file. -/
theorem open_path_leaf :
    (openPath treeMount none dirPath =
      match dirPath.start treeMount none with
      | none => some none
      | some entry => vfsResolve treeMount.filesystem entry dirPath.relative.components) ∧
    openPath treeMount none (dirPath.slashed leafName) =
      ((openPath treeMount none dirPath).bind fun r =>
        match r with
        | none => some none
        | some entry => vfsFindEntryIn treeMount.filesystem entry leafName) ∧
    openPath treeMount none (dirPath.slashed leafName) = some (some 800) := by
  obtain ⟨hpath, hname⟩ := @open_path treeMount none dirPath leafName (by decide)
  exact ⟨hpath, hname (by decide) (by decide) (by decide), by decide +kernel⟩

end MishaOS
