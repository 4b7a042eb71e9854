import MishaOS.Spec.FormatRead

/-!
# Formats from end to end

`kvprintf` prints what the conversions of a format print, one after the other,
as long as every conversion is complete and finds its arguments.

## Key results

- `kvprintf_counts_iff`: the formats and arguments for which it returns what it has printed.
-/

namespace MishaOS

variable {format rest text : List Byte} {list left own : List Arg} {s s' : Printed} {c : FormatSpec}
    {v : Conversion}
  {fuel : Nat}

/-- A format in which every conversion has a specifier and finds its arguments, and its text. -/
inductive FormatPrints : List Byte → List Arg → List Byte → Prop
  | done (list : List Arg) : FormatPrints [] list []
  | ordinary {c : Byte} (hc : c ≠ chr '%') {format : List Byte} {list : List Arg} {text : List Byte}
      (h : FormatPrints format list text) : FormatPrints (c :: format) list (c :: text)
  | conversion {format rest : List Byte} {c : FormatSpec}
    (hread : readConversion format = some (c, rest))
      {stars own : List Arg} {v : Conversion} (his : c.Is stars v) {text : List Byte}
        (hprints : v.Prints own text)
      {list : List Arg} {text' : List Byte} (h : FormatPrints rest list text') :
      FormatPrints (chr '%' :: format) (stars ++ own ++ list) (text ++ text')

/-! ## Reading on -/

theorem readNumber_suffix (l : List Byte) : (readNumber l).2 <:+ l := by
  unfold readNumber
  split
  · exact (List.tail_suffix _).trans (List.dropWhile_suffix _)
  · exact List.dropWhile_suffix _

theorem readPrecision_suffix (l : List Byte) : (readPrecision l).2 <:+ l := by
  unfold readPrecision
  split
  · exact (readNumber_suffix _).trans (List.tail_suffix _)
  · exact List.suffix_rfl

theorem readLength_suffix (l : List Byte) : (readLength l).2 <:+ l := by
  cases l with
  | nil => exact List.suffix_rfl
  | cons c l =>
    rw [readLength]
    split
    · exact List.suffix_rfl
    · split
      · exact List.suffix_cons c l
      · split
        · exact (List.tail_suffix _).trans (List.suffix_cons c l)
        · exact List.suffix_cons c l

/-- The specifier and what follows it are the end of the format. -/
theorem readConversion_suffix (h : readConversion format = some (c, rest)) :
    c.specifier :: rest <:+ format := by
  unfold readConversion at h
  dsimp only at h
  split at h
  · exact absurd h nofun
  · rename_i specifier rest' hrest
    obtain ⟨rfl, rfl⟩ := Prod.mk.inj (Option.some.inj h)
    show specifier :: rest' <:+ format
    rw [← hrest]
    exact (readLength_suffix _).trans ((readPrecision_suffix _).trans
      ((readNumber_suffix _).trans (List.dropWhile_suffix _)))

theorem FormatNumber.Is.lt {n : FormatNumber} {i : Int} (h : n.Is own i) : i < 2147483648 := by
  cases h with
  | digits _ hint => omega
  | star _ _ v => exact v.toInt_lt

theorem FormatSpec.Is.lengthSpec_lt (h : c.Is own v) : v.lengthSpec < 2147483648 := by
  cases h with
  | intro hwidth _ => exact hwidth.lt

/-! ## The loop -/

/-- One round at an ordinary character. -/
theorem kvprintfLoop_ordinary {c : Byte} (hzero : c ≠ 0) (hc : c ≠ chr '%') :
    kvprintfLoop (fuel + 1) (c :: format ++ [0]) s =
      s.put [c] >>= kvprintfLoop fuel (format ++ [0]) := by
  rw [kvprintfLoop, List.cons_append, List.head?_cons, Option.bind_eq_bind, Option.bind_some,
    if_neg hzero, if_neg hc]
  rfl

/-- One round at a per cent sign. -/
theorem kvprintfLoop_percent : kvprintfLoop (fuel + 1) (chr '%' :: format ++ [0]) s =
    scanConversion (format ++ [0]) s.list >>= fun (v, format, list) =>
      convert v { s with list } >>= kvprintfLoop fuel format.tail := by
  rw [kvprintfLoop, List.cons_append, List.head?_cons, Option.bind_eq_bind, Option.bind_some,
    if_neg (by decide),
    if_pos rfl]
  rfl

theorem kvprintfLoop_sound (hzero : 0 ∉ format) (hs : s.chars < 2147483648)
    (h : kvprintfLoop fuel (format ++ [0]) s = some s') :
    ∃ text, FormatPrints format s.list text ∧ s'.text = s.text ++ text ∧ s'.chars < 2147483648 := by
  induction fuel generalizing format s with
  | zero => exact absurd h nofun
  | succ fuel ih =>
    cases format with
    | nil =>
      rw [← Option.some.inj h]
      exact ⟨[], .done _, (List.append_nil _).symm, hs⟩
    | cons c format =>
      rw [List.mem_cons, not_or] at hzero
      by_cases hc : c = chr '%'
      · subst hc
        rw [kvprintfLoop_percent] at h
        simp only [Option.bind_eq_bind, Option.bind_eq_some_iff, Prod.exists] at h
        obtain ⟨v, format', list', hscan, s₁, hconvert, hrest⟩ := h
        -- behind the per cent sign there is a conversion, or the format ends too early
        cases hread : readConversion format with
        | none =>
          -- nothing can be read behind the null byte
          rw [scanConversion_none hread hscan] at hrest
          cases fuel <;> exact absurd hrest nofun
        | some found =>
          obtain ⟨c, rest⟩ := found
          obtain ⟨stars, hlist, rfl, his⟩ := (scanConversion_some hread).mp hscan
          obtain ⟨own, text, hprints, hstep⟩ :=
            convert_sound his.lengthSpec_lt
            (show Printed.chars { s with list := list' } < 2147483648 from hs) hconvert
          -- the rest is a suffix of the format, so it has no null byte either
          have hrest0 : 0 ∉ rest := fun hmem =>
            hzero.2 ((readConversion_suffix hread).subset (List.mem_cons_of_mem _ hmem))
          obtain ⟨text', hformat, htext, hlt⟩ := ih hrest0 hstep.chars_lt hrest
          refine ⟨text ++ text', ?_, by rw [htext, hstep.text_eq, List.append_assoc], hlt⟩
          have hown : list' = own ++ s₁.list := hstep.list_eq
          rw [hlist, hown, ← List.append_assoc]
          exact .conversion hread his hprints hformat
      · rw [kvprintfLoop_ordinary (Ne.symm hzero.1) hc] at h
        obtain ⟨s₁, hput, hrest⟩ := Option.bind_eq_some_iff.mp h
        obtain ⟨rfl, hlt⟩ := put_eq hput
        obtain ⟨text, hformat, htext, hlt'⟩ := ih hzero.2 hlt hrest
        exact ⟨c :: text, .ordinary hc hformat, by rw [htext, List.append_assoc]; rfl, hlt'⟩

theorem kvprintfLoop_complete (h : FormatPrints format list text) (hzero : 0 ∉ format)
    (hlist : s.list = list)
    (hs : s.Counts) (hlt : (s.text ++ text).length < 2147483648) (hfuel : format.length < fuel) :
    ∃ s', kvprintfLoop fuel (format ++ [0]) s = some s' ∧ s'.Counts ∧ s'.text = s.text ++ text := by
  -- along the parts of the format, the fuel being one for each
  induction h generalizing s fuel with
  | done list =>
    obtain ⟨fuel, rfl⟩ : ∃ f, fuel = f + 1 := ⟨fuel - 1, by omega⟩
    exact ⟨s, rfl, hs, (List.append_nil _).symm⟩
  | ordinary hc h ih =>
    rename_i c format list text
    obtain ⟨fuel, rfl⟩ : ∃ f, fuel = f + 1 := ⟨fuel - 1, by omega⟩
    rw [List.mem_cons, not_or] at hzero
    rw [List.append_cons] at hlt
    have hlt₁ : (s.text ++ [c]).length < 2147483648 := by
      rw [List.length_append] at hlt
      omega
    obtain ⟨s', hs', hcounts, htext⟩ :=
      ih (s := { s with text := s.text ++ [c], chars := (s.text ++ [c]).length }) hzero.2
      hlist rfl hlt (Nat.lt_of_succ_lt_succ hfuel)
    refine ⟨s', ?_, hcounts, htext.trans (List.append_cons _ _ _).symm⟩
    rw [kvprintfLoop_ordinary (Ne.symm hzero.1) hc, hs.put hlt₁]
    exact hs'
  | conversion hread his hprints h ih =>
    rename_i format rest c stars own v text list text'
    obtain ⟨fuel, rfl⟩ : ∃ f, fuel = f + 1 := ⟨fuel - 1, by omega⟩
    rw [List.mem_cons, not_or] at hzero
    rw [← List.append_assoc] at hlt
    -- the text so far is bounded by the whole one, which the counter can hold
    have hlt₁ : (s.text ++ text).length < 2147483648 := by
      rw [List.length_append] at hlt
      omega
    have hsuffix := readConversion_suffix hread
    have hrest0 : 0 ∉ rest := fun hmem => hzero.2 (hsuffix.subset (List.mem_cons_of_mem _ hmem))
    have hshort : rest.length < format.length := hsuffix.length_le
    have hscan : scanConversion (format ++ [0]) s.list =
        some (v, c.specifier :: rest ++ [0], own ++ list) :=
      (scanConversion_some hread).mpr ⟨stars, by rw [hlist, List.append_assoc], rfl, his⟩
    obtain ⟨s₁, hconvert, hcounts, htext, hleft⟩ :=
      convert_complete (s := { s with list := own ++ list }) his.lengthSpec_lt hprints hs rfl hlt₁
    obtain ⟨s', hs', hcounts', htext'⟩ := ih hrest0 hleft hcounts (by rw [htext]; exact hlt)
      (show rest.length < fuel by rw [List.length_cons] at hfuel; omega)
    refine ⟨s', ?_, hcounts', by rw [htext', htext, List.append_assoc]⟩
    rw [kvprintfLoop_percent, hscan, Option.bind_eq_bind, Option.bind_some]
    show convert v { s with list := own ++ list } >>= kvprintfLoop fuel (rest ++ [0]) = some s'
    rw [hconvert]
    exact hs'

/-- `kvprintf` returns the number of the characters it has printed if the format is complete, all
    arguments are found and the number fits. -/
theorem kvprintf_counts_iff (format : CString) (list : List Arg) :
    (∃ s, kvprintf format list = some s ∧ s.chars = s.text.length) ↔
      ∃ text, FormatPrints format.bytes list text ∧ text.length < 2147483648 := by
  constructor
  · rintro ⟨s, hs, hcounts⟩
    obtain ⟨text, hprints, htext, hlt⟩ :=
      kvprintfLoop_sound format.noNull (show (0 : Int) < 2147483648 by decide) hs
    rw [List.nil_append] at htext
    refine ⟨text, hprints, ?_⟩
    rw [hcounts, htext] at hlt
    omega
  · rintro ⟨text, hprints, hlt⟩
    obtain ⟨s, hs, hcounts, -⟩ := kvprintfLoop_complete (s := ⟨[], 0, list, []⟩) hprints
      format.noNull rfl rfl
      (by rw [List.nil_append]; exact hlt) (Nat.lt_succ_self _)
    exact ⟨s, hs, hcounts⟩

/-- A per cent sign at the end. -/
theorem percent_runs_on : ¬ ∃ s, kvprintf ⟨ascii "100%", by decide⟩ [] = some s ∧
    s.chars = s.text.length := by
  rintro ⟨s, hs, -⟩
  exact absurd hs nofun

end MishaOS
