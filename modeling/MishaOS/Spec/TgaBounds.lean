import MishaOS.Spec.TgaImage

/-!
# Files of any content

`tga_parse` gets a file as it is.  It knows the size of the file, but only
compares it with the start of a packet, so a header can ask for more than the
file has and a packet for more than the picture has.

## Key results

- `tga_parse_safe_iff`: the files that are decoded or refused as they should be.
-/

namespace MishaOS

open RunLength (Chunk Packet Covers Short Long expand encode)

/-- Bytes of a pixel. -/
def TgaHeader.stride (t : TgaHeader) : Nat := (t.depth >>> 3).toNat

/-- The file ends before the last pixel. -/
inductive TgaHeader.Truncated (t : TgaHeader) (ptr : List Byte) : Prop
  | type1 (htype : t.imageType = 1) (h : ptr.length < t.m + t.w * t.h)
  | type2 (htype : t.imageType = 2) (h : ptr.length < t.m + t.w * t.h * t.stride)
  | type9 (htype : t.imageType = 9) (h : Short 1 (ptr.drop t.m) (t.w * t.h))
  | type10 (htype : t.imageType = 10) (h : Short t.stride (ptr.drop t.m) (t.w * t.h))

/-- The last packet goes beyond the last pixel. -/
inductive TgaHeader.Overlong (t : TgaHeader) (ptr : List Byte) : Prop
  | type9 (htype : t.imageType = 9) (h : Long 1 (ptr.drop t.m) (t.w * t.h))
  | type10 (htype : t.imageType = 10) (h : Long t.stride (ptr.drop t.m) (t.w * t.h))

/-- `tga_parse` returns, has stayed inside the file and the array, and has refused what is truncated
    or too long. -/
def TgaSafe (data : Nat → BitVec 32) (ptr : List Byte) : Prop :=
  ∃ r, tgaParse data ptr ptr.length = some r ∧
    ∀ t, tgaHeader ptr = some t → t.Truncated ptr ∨ t.Overlong ptr → r = none

/-- The header is refused. -/
inductive TgaHeader.Refused (t : TgaHeader) : Prop
  | size (h : t.w < 1 ∨ t.h < 1)
  | map (htype : t.imageType = 1 ∨ t.imageType = 9) (h : t.badMap = true)
  | colour (htype : t.imageType = 2 ∨ t.imageType = 10) (h : t.badTrue = true)
  | type (h : t.imageType ≠ 1 ∧ t.imageType ≠ 2 ∧ t.imageType ≠ 9 ∧ t.imageType ≠ 10)

/-- The colour of an index is inside the file. -/
def TgaHeader.HasColour (t : TgaHeader) (ptr : List Byte) (q : Byte) : Prop :=
  q.toNat * (t.mapDepth >>> 3).toNat + 18 + (t.mapDepth >>> 3).toNat ≤ ptr.length

/-- The file has what its header asks for. -/
inductive TgaHeader.Fits (t : TgaHeader) (ptr : List Byte) : Prop
  | refused (h : t.Refused)
  | type1 (htype : t.imageType = 1) (hint : t.w * t.h < 2147483648)
      (h : ∀ c < t.w * t.h, ∃ q, ptr[t.m + c]? = some q ∧ t.HasColour ptr q)
  | type2 (htype : t.imageType = 2) (hint : t.w * t.h * t.stride < 2147483648)
      (h : t.m + t.w * t.h * t.stride ≤ ptr.length)
  | type9 (htype : t.imageType = 9) (hint : t.w * t.h < 2147483648) (ps : List (Packet 1))
    (rest : List Byte)
      (hps : ∀ q ∈ ps, q.Ok) (hptr : ptr.drop t.m = encode ps ++ rest)
        (hlen : (expand ps).length = t.w * t.h)
      (h : ∀ u ∈ expand ps, t.HasColour ptr (u.val.headD 0))
  | type10 (htype : t.imageType = 10) (hint : t.w * t.h < 2147483648)
      (h : Covers t.stride (ptr.drop t.m) (t.w * t.h))

variable {t : TgaHeader} {ptr : List Byte} {data : Nat → BitVec 32} {stride m k size : Nat}

/-! ## Refused headers -/

/-- A header that is refused ends the parser. -/
theorem tgaParse_refused (hheader : tgaHeader ptr = some t) (h : t.Refused) :
    tgaParse data ptr size = some none := by
  simp only [tgaParse, hheader, Option.bind_eq_bind, Option.bind_some]
  -- the dimensions are looked at before the type
  by_cases hsize : t.w < 1 ∨ t.h < 1
  · rw [if_pos hsize]
    rfl
  · rw [if_neg hsize]
    cases h with
    | size h => exact absurd h hsize
    | map htype h => rcases htype with htype | htype <;> simp [htype, h]
    | colour htype h => rcases htype with htype | htype <;> simp [htype, h]
    | type h =>
      rw [if_neg h.1, if_neg h.2.1, if_neg h.2.2.1, if_neg h.2.2.2]
      rfl

/-- What a header that is not refused has. -/
theorem not_refused (h : ¬ t.Refused) : ¬ (t.w < 1 ∨ t.h < 1) ∧
    ((t.imageType = 1 ∨ t.imageType = 9) ∧ t.badMap = false ∨ (t.imageType = 2 ∨ t.imageType = 10) ∧
      t.badTrue = false) := by
  refine ⟨fun hsize => h (.size hsize), ?_⟩
  by_cases hmap : t.imageType = 1 ∨ t.imageType = 9
  · exact .inl ⟨hmap, by simpa using fun hbad => h (.map hmap hbad)⟩
  · by_cases htrue : t.imageType = 2 ∨ t.imageType = 10
    · exact .inr ⟨htrue, by simpa using fun hbad => h (.colour htrue hbad)⟩
    · exact absurd (.type (by tauto)) h

/-- A header that is not refused leads to one of the loops. -/
theorem tgaSafe_of_run {run : Option TgaOut} (hheader : tgaHeader ptr = some t)
    (hparse : tgaParse data ptr ptr.length = run >>= finished t) :
    TgaSafe data ptr ↔ (∃ s, run = some s) ∧ ¬ t.Truncated ptr ∧ ¬ t.Overlong ptr := by
  unfold TgaSafe
  rw [hparse]
  constructor
  · rintro ⟨r, hr, hbad⟩
    obtain ⟨s, hs, hfinished⟩ := Option.bind_eq_some_iff.mp hr
    obtain rfl := Option.some.inj hfinished
    have hnot : ¬ (t.Truncated ptr ∨ t.Overlong ptr) := fun h => absurd (hbad t hheader h) nofun
    exact ⟨⟨s, hs⟩, not_or.mp hnot⟩
  · rintro ⟨⟨s, hs⟩, htruncated, hoverlong⟩
    refine ⟨_, by rw [hs]; rfl, fun t' ht' h => ?_⟩
    obtain rfl : t' = t := Option.some.inj (ht'.symm.trans hheader)
    exact absurd h (not_or.mpr ⟨htruncated, hoverlong⟩)

/-! ## Rows -/

/-- The loop over the rows ends if all pixels can be read. -/
theorem tgaRows_isSome_iff {read : Nat → Option (BitVec 32)} {first : Int → Option Int}
    (hfirst : RowStart t stride first)
    (hsize : ¬ (t.w < 1 ∨ t.h < 1)) : (∃ s, tgaRows t read stride first t.h ⟨0, 0, data⟩ = some s) ↔
      t.w * t.h * stride < 2147483648 ∧ ∀ c < t.w * t.h, ∃ v, read (c * stride) = some v := by
  constructor
  · rintro ⟨s, hs⟩
    exact (tgaRows_reads hfirst hs rfl (by omega) (by omega)).symm
  · rintro ⟨hint, hread⟩
    -- the colours that are read are the picture
    choose! f hf using hread
    have hempty : TgaOut.Filled t (fun k => f (t.place k)) (0 * t.w) ⟨0, 0, data⟩ :=
      ⟨by rw [Nat.zero_mul]; rfl, fun k hk => by omega⟩
    obtain ⟨s, hs, -⟩ := tgaRows_spec (s := ⟨0, 0, data⟩) hfirst (Nat.zero_add _) hempty hf hint
    exact ⟨s, hs⟩

/-- A pixel can be read if it is in the file. -/
theorem tgaPixel_isSome_iff {depth : Byte} (hdepth : depth = 24 ∨ depth = 32) :
    (∃ v, tgaPixel ptr depth m = some v) ↔ m + (depth >>> 3).toNat ≤ ptr.length := by
  obtain ⟨stride, hstride, rfl⟩ : ∃ stride, (stride = 3 ∨ stride = 4) ∧
      depth = depthByte stride := by
    rcases hdepth with rfl | rfl
    · exact ⟨3, .inl rfl, rfl⟩
    · exact ⟨4, .inr rfl, rfl⟩
  rw [depthByte_shift hstride]
  constructor
  · rintro ⟨v, hv⟩
    exact tgaPixel_inside hstride hv
  · intro hlen
    have hunit : ((ptr.drop m).take stride).length = stride := by
      rw [List.length_take, List.length_drop]
      omega
    exact ⟨_, (tgaPixel_iff hstride ⟨_, hunit⟩).mpr (List.take_prefix _ _)⟩

/-- The depth of the palette. -/
theorem mapDepth_eq (h : t.badMap = false) : t.mapDepth = 24 ∨ t.mapDepth = 32 := by
  simp only [TgaHeader.badMap, Bool.or_eq_false_iff, Bool.and_eq_false_iff,
    decide_eq_false_iff_not, not_not] at h
  exact h.2

/-- The depth of the pixels. -/
theorem depth_eq (h : t.badTrue = false) : t.depth = 24 ∨ t.depth = 32 := by
  simp only [TgaHeader.badTrue, Bool.or_eq_false_iff, Bool.and_eq_false_iff,
    decide_eq_false_iff_not, not_not] at h
  exact h.2

/-- So can a colour. -/
theorem mapColour_isSome_iff (h : t.badMap = false) (u : Chunk 1) :
    (∃ v, mapColour ptr t.mapDepth u = some v) ↔ t.HasColour ptr (u.val.headD 0) :=
  tgaPixel_isSome_iff (mapDepth_eq h)

/-- So can the colour of an index. -/
theorem tgaMapped_isSome_iff (h : t.badMap = false) :
    (∃ v, tgaMapped ptr t k = some v) ↔ ∃ q, ptr[k]? = some q ∧ t.HasColour ptr q := by
  unfold tgaMapped
  cases ptr[k]? with
  | none => simp
  | some q =>
    refine (tgaPixel_isSome_iff (mapDepth_eq h)).trans ⟨fun hcolour => ⟨q, rfl, hcolour⟩, ?_⟩
    rintro ⟨q', hq', hcolour⟩
    obtain rfl := Option.some.inj hq'
    exact hcolour

/-! ## Packets -/

/-- The loop over the packets ends, and they are neither short nor long. -/
theorem tgaPackets_safe_iff {read : Nat → Option (BitVec 32)}
    {col : Chunk stride → Option (BitVec 32)}
    (hreads : Reads ptr stride read col) (hsize : ¬ (t.w < 1 ∨ t.h < 1)) :
    ((∃ s, tgaPackets t ptr ptr.length read stride (ptr.length + 1) 0 m ⟨0, 0, data⟩ = some s) ∧
        ¬ Short stride (ptr.drop m) (t.w * t.h) ∧ ¬ Long stride (ptr.drop m) (t.w * t.h)) ↔
      t.w * t.h < 2147483648 ∧ ∃ (ps : List (Packet stride)) (rest : List Byte), (∀ q ∈ ps, q.Ok) ∧
        ptr.drop m = encode ps ++ rest ∧ (expand ps).length = t.w * t.h ∧ ∀ u ∈ expand ps, ∃ v,
        col u = some v := by
  have hpos : 0 < t.w * t.h := Nat.mul_pos (by omega) (by omega)
  constructor
  · rintro ⟨⟨s, hs⟩, hshort, -⟩
    obtain ⟨hint, ps, rest, vs, hps, hptr, hcol, hshows, hend⟩ :=
      tgaPackets_inv hreads (by omega) (.empty t data) hs
    have hlen : (expand ps).length = vs.length := by simpa using congrArg List.length hcol
    refine ⟨hint, ps, rest, hps, hptr, ?_, fun u hu => ?_⟩
    · rw [List.length_nil, Nat.zero_add] at hend
      rcases hend with hend | rfl
      · exact hlen.trans hend
      · -- the file ends with a packet
        by_contra hne
        have hle := hshows.le
        rw [List.nil_append] at hle
        rw [List.append_nil] at hptr
        exact hshort (RunLength.short_of_encode hps hptr (by omega))
    · have hmem : col u ∈ vs.map some := hcol ▸ List.mem_map_of_mem hu
      obtain ⟨v, -, hv⟩ := List.mem_map.mp hmem
      exact ⟨v, hv.symm⟩
  · rintro ⟨hint, ps, rest, hps, hptr, hlen, hread⟩
    have hcovers : Covers stride (ptr.drop m) (t.w * t.h) := ⟨ps, rest, hps, hptr, hlen⟩
    choose! f hf using hread
    have hcol : (expand ps).map col = ((expand ps).map f).map some := by
      rw [List.map_map]
      exact List.map_congr_left hf
    have hm : m ≤ ptr.length := by
      -- behind the end of the file there is no packet
      by_contra hlt
      rw [List.drop_eq_nil_of_le (by omega)] at hptr
      rw [RunLength.encode_eq_nil (List.append_eq_nil_iff.mp hptr.symm).1] at hlen
      exact absurd hlen (Nat.ne_of_lt hpos)
    obtain ⟨s, hs, -⟩ := tgaPackets_spec hreads hint hps hptr hcol (.empty t data)
      (by rw [List.length_map, List.length_nil, Nat.zero_add, hlen]) hm
      (show ptr.length < m + (ptr.length + 1) by omega)
    exact ⟨⟨s, hs⟩, hcovers.not_short, hcovers.not_long⟩

/-! ## The four types -/

/-- When a mapped picture is read inside the file. -/
theorem type1_safe_iff (hheader : tgaHeader ptr = some t) (hsize : ¬ (t.w < 1 ∨ t.h < 1))
    (htype : t.imageType = 1)
    (hok : t.badMap = false) : TgaSafe data ptr ↔
      t.w * t.h < 2147483648 ∧ ∀ c < t.w * t.h, ∃ q, ptr[t.m + c]? = some q ∧
      t.HasColour ptr q := by
  have hread : (∃ s, tgaType1 t ptr data = some s) ↔
      t.w * t.h < 2147483648 ∧ ∀ c < t.w * t.h, ∃ q, ptr[t.m + c]? = some q ∧
        t.HasColour ptr q := by
    -- the rows are read when every pixel is
    refine (tgaRows_isSome_iff (rowStart_type1 t) hsize).trans ?_
    simp only [Nat.mul_one, tgaMapped_isSome_iff hok]
  rw [tgaSafe_of_run hheader (tgaParse_type1 hheader hsize htype hok), hread]
  refine and_iff_left_of_imp fun h => ⟨fun htruncated => ?_, fun hoverlong => ?_⟩
  · -- the last pixel is in the file
    have hpos : 0 < t.w * t.h := Nat.mul_pos (by omega) (by omega)
    obtain ⟨q, hq, -⟩ := h.2 (t.w * t.h - 1) (by omega)
    obtain ⟨hlast, -⟩ := List.getElem?_eq_some_iff.mp hq
    cases htruncated with
    | type1 _ hshort => omega
    | _ htype' => exact absurd (htype.symm.trans htype') (by decide)
  -- type 1 has no packets, so none is too long
  · cases hoverlong with
    | _ htype' => exact absurd (htype.symm.trans htype') (by decide)

/-- The same for a true-colour picture. -/
theorem type2_safe_iff (hheader : tgaHeader ptr = some t) (hsize : ¬ (t.w < 1 ∨ t.h < 1))
    (htype : t.imageType = 2)
    (hok : t.badTrue = false) : TgaSafe data ptr ↔
      t.w * t.h * t.stride < 2147483648 ∧ t.m + t.w * t.h * t.stride ≤ ptr.length := by
  -- the product of all pixels bounds every offset only if a pixel has a byte
  have hstride : 0 < t.stride := by
    unfold TgaHeader.stride
    rcases depth_eq hok with hdepth | hdepth <;> rw [hdepth] <;> decide
  have hread : (∃ s, tgaType2 t ptr data = some s) ↔
      t.w * t.h * t.stride < 2147483648 ∧ ∀ c < t.w * t.h, c * t.stride + t.stride ≤
        ptr.length := by
    refine (tgaRows_isSome_iff (rowStart_type2 t hstride) hsize).trans ?_
    simp only [tgaPixel_isSome_iff (depth_eq hok)]
    rfl
  have htruncated : ¬ t.Truncated ptr ↔ t.m + t.w * t.h * t.stride ≤ ptr.length := by
    rw [← Nat.not_lt]
    refine not_congr ⟨fun h => ?_, .type2 htype⟩
    cases h with
    | type2 _ h => exact h
    | _ htype' => exact absurd (htype.symm.trans htype') (by decide)
  have hoverlong : ¬ t.Overlong ptr := by
    intro h
    cases h with
    | _ htype' => exact absurd (htype.symm.trans htype') (by decide)
  rw [tgaSafe_of_run hheader (tgaParse_type2 hheader hsize htype hok), hread, htruncated]
  constructor
  · rintro ⟨⟨hint, -⟩, hlen, -⟩
    exact ⟨hint, hlen⟩
  · rintro ⟨hint, hlen⟩
    refine ⟨⟨hint, fun c hc => ?_⟩, hlen, hoverlong⟩
    calc c * t.stride + t.stride = (c + 1) * t.stride := (Nat.succ_mul c t.stride).symm
      _ ≤ t.w * t.h * t.stride := Nat.mul_le_mul_right _ hc
      _ ≤ ptr.length := by omega

/-- The same for a mapped picture in packets. -/
theorem type9_safe_iff (hheader : tgaHeader ptr = some t) (hsize : ¬ (t.w < 1 ∨ t.h < 1))
    (htype : t.imageType = 9)
    (hok : t.badMap = false) : TgaSafe data ptr ↔
      t.w * t.h < 2147483648 ∧ ∃ (ps : List (Packet 1)) (rest : List Byte), (∀ q ∈ ps, q.Ok) ∧
        ptr.drop t.m = encode ps ++ rest ∧ (expand ps).length = t.w * t.h ∧
        ∀ u ∈ expand ps, t.HasColour ptr (u.val.headD 0) := by
  -- the two ways in which packets and pixels do not fit, for this type
  have htruncated : t.Truncated ptr ↔ Short 1 (ptr.drop t.m) (t.w * t.h) := by
    refine ⟨fun h => ?_, .type9 htype⟩
    cases h with
    | type9 _ h => exact h
    | _ htype' => exact absurd (htype.symm.trans htype') (by decide)
  have hoverlong : t.Overlong ptr ↔ Long 1 (ptr.drop t.m) (t.w * t.h) := by
    refine ⟨fun h => ?_, .type9 htype⟩
    cases h with
    | type9 _ h => exact h
    | _ htype' => exact absurd (htype.symm.trans htype') (by decide)
  rw [tgaSafe_of_run hheader (tgaParse_type9 hheader hsize htype hok), htruncated, hoverlong]
  simp only [← mapColour_isSome_iff hok]
  exact tgaPackets_safe_iff (reads_mapped ptr t) hsize

/-- The same for a true-colour picture in packets. -/
theorem type10_safe_iff (hheader : tgaHeader ptr = some t) (hsize : ¬ (t.w < 1 ∨ t.h < 1))
    (htype : t.imageType = 10)
    (hok : t.badTrue = false) : TgaSafe data ptr ↔
      t.w * t.h < 2147483648 ∧ Covers t.stride (ptr.drop t.m) (t.w * t.h) := by
  have htruncated : t.Truncated ptr ↔ Short t.stride (ptr.drop t.m) (t.w * t.h) := by
    refine ⟨fun h => ?_, .type10 htype⟩
    cases h with
    | type10 _ h => exact h
    | _ htype' => exact absurd (htype.symm.trans htype') (by decide)
  have hoverlong : t.Overlong ptr ↔ Long t.stride (ptr.drop t.m) (t.w * t.h) := by
    refine ⟨fun h => ?_, .type10 htype⟩
    cases h with
    | type10 _ h => exact h
    | _ htype' => exact absurd (htype.symm.trans htype') (by decide)
  -- the depth is 24 or 32 bits
  have hreads : Reads ptr t.stride (tgaPixel ptr t.depth) (fun u => some (colour u.val)) := by
    unfold TgaHeader.stride
    rcases depth_eq hok with hdepth | hdepth <;> rw [hdepth]
    · exact reads_pixel (.inl rfl) ptr
    · exact reads_pixel (.inr rfl) ptr
  rw [tgaSafe_of_run hheader (tgaParse_type10 hheader hsize htype hok), htruncated, hoverlong]
  refine (tgaPackets_safe_iff hreads hsize).trans (and_congr Iff.rfl ?_)
  -- a colour is read from any unit, so that part of the condition says nothing
  constructor
  · rintro ⟨ps, rest, hps, hptr, hlen, -⟩
    exact ⟨ps, rest, hps, hptr, hlen⟩
  · rintro ⟨ps, rest, hps, hptr, hlen⟩
    exact ⟨ps, rest, hps, hptr, hlen, fun u _ => ⟨_, rfl⟩⟩

/-! ## Files -/

/-- 18 bytes are a header. -/
theorem exists_header (h : 18 ≤ ptr.length) : ∃ t, tgaHeader ptr = some t := by
  iterate 18
    obtain _ | ⟨_, ptr⟩ := ptr
    · simp at h
  exact ⟨_, rfl⟩

/-- A file is decoded or refused as it should be only where it has exactly what its header asks for.
    -/
theorem tga_parse_safe_iff (hsize : 18 ≤ ptr.length) (data : Nat → BitVec 32) :
    TgaSafe data ptr ↔ ∃ t, tgaHeader ptr = some t ∧ t.Fits ptr := by
  obtain ⟨t, hheader⟩ := exists_header hsize
  have hfits : (∃ t', tgaHeader ptr = some t' ∧ t'.Fits ptr) ↔ t.Fits ptr := by
    rw [hheader]
    simp
  rw [hfits]
  -- a refused file is safe, whatever it has
  by_cases hrefused : t.Refused
  · exact iff_of_true ⟨none, tgaParse_refused hheader hrefused,
      fun _ _ _ => rfl⟩ (.refused hrefused)
  -- otherwise it is of one of the four types
  obtain ⟨hdim, ⟨htype | htype, hok⟩ | ⟨htype | htype, hok⟩⟩ := not_refused hrefused
  · rw [type1_safe_iff hheader hdim htype hok]
    refine ⟨fun h => .type1 htype h.1 h.2, fun h => ?_⟩
    cases h with
    | refused h => exact absurd h hrefused
    | type1 _ hint h => exact ⟨hint, h⟩
    | _ htype' => exact absurd (htype.symm.trans htype') (by decide)
  · rw [type9_safe_iff hheader hdim htype hok]
    refine ⟨fun ⟨hint, ps, rest, hps, hptr, hlen, h⟩ =>
      .type9 htype hint ps rest hps hptr hlen h, fun h => ?_⟩
    cases h with
    | refused h => exact absurd h hrefused
    | type9 _ hint ps rest hps hptr hlen h => exact ⟨hint, ps, rest, hps, hptr, hlen, h⟩
    | _ htype' => exact absurd (htype.symm.trans htype') (by decide)
  · rw [type2_safe_iff hheader hdim htype hok]
    refine ⟨fun h => .type2 htype h.1 h.2, fun h => ?_⟩
    cases h with
    | refused h => exact absurd h hrefused
    | type2 _ hint h => exact ⟨hint, h⟩
    | _ htype' => exact absurd (htype.symm.trans htype') (by decide)
  · rw [type10_safe_iff hheader hdim htype hok]
    refine ⟨fun h => .type10 htype h.1 h.2, fun h => ?_⟩
    cases h with
    | refused h => exact absurd h hrefused
    | type10 _ hint h => exact ⟨hint, h⟩
    | _ htype' => exact absurd (htype.symm.trans htype') (by decide)

/-- A mapped picture of four pixels in three packets. -/
theorem tga_parse_safe_iff_chequer : TgaSafe (fun _ => 0) (chequer.type9 chequerPackets) :=
  (tga_parse_safe_iff (by decide) _).mpr
    ⟨_, rfl, .type9 rfl (by decide) chequerPackets [] chequerPackets_ok rfl rfl
      (by unfold TgaHeader.HasColour; decide)⟩

/-- Two pixels in a packet of a picture with one. -/
theorem long_run_unsafe : ¬ ∀ ptr : List Byte, 18 ≤ ptr.length → TgaSafe (fun _ => 0) ptr := by
  intro h
  have hsafe := h ((dot (⟨[1, 2, 3], rfl⟩ : Chunk 3)).type10 [.same 2 ⟨[1, 2, 3], rfl⟩]) (by decide)
  have hheader := tgaHeader_eq (dot (⟨[1, 2, 3], rfl⟩ : Chunk 3)) 0 10 0 0 24
    (encode [.same 2 (⟨[1, 2, 3], rfl⟩ : Chunk 3)])
  have hcovers := ((type10_safe_iff hheader (by decide) rfl rfl).mp hsafe).2
  refine hcovers.not_long ⟨[], .same 2 ⟨[1, 2, 3], rfl⟩, [], fun q hq => ?_, rfl,
    by decide, by decide⟩
  rw [List.mem_singleton.mp hq]
  exact ⟨by decide, by decide⟩

end MishaOS
