import MishaOS.ForStd.Bytes
import MishaOS.Spec.TgaLoops

/-!
# Pictures and their files

A picture can be stored with its colours or with the indices of a palette, and
either in full or in packets.  `tga_parse` decodes three of these files; in the
fourth one it takes the header for the first pixels.

## Key results

- `true_colour_iff`: when both files of a picture with its colours are decoded.
- `mapped_decodes`: both files of a picture with a palette are.
-/

namespace MishaOS

open Bytes (le16)
open RunLength (Chunk Packet expand encode)

/-- The colour of a pixel of three or four bytes, blue first; three bytes are opaque. -/
def colour : List Byte → BitVec 32
  | [b, g, r] => (0xFF : Byte) ++ r ++ g ++ b
  | [b, g, r, a] => a ++ r ++ g ++ b
  | _ => 0

/-- A picture, row by row from the top left, and what a header says besides. -/
structure Picture (α : Type) where
  w : Nat
  h : Nat
  origin : Nat
  xOrigin : Nat
  descriptor : Byte
  pixel : Nat → α
  w_pos : 1 ≤ w
  w_lt : w < 65536
  h_pos : 1 ≤ h
  h_lt : h < 65536
  origin_lt : origin < 65536

variable {α : Type} {stride m c : Nat} {ptr rest : List Byte} {depth : Byte}
    {data data' : Nat → BitVec 32}

/-- The pixel number `c` of the file: the last row comes first if the origin is zero. -/
def Picture.fileIndex (p : Picture α) (c : Nat) : Nat :=
  if p.origin = 0 then (p.h - 1 - c / p.w) * p.w + c % p.w else c

/-- The pixels in the order of the file. -/
def Picture.stored (p : Picture α) : List α :=
  (List.range (p.w * p.h)).map fun c => p.pixel (p.fileIndex c)

def Picture.header (p : Picture α) (mapType imageType mapLength mapDepth depth : Byte) :
    List Byte :=
  [0, mapType, imageType, 0, 0, mapLength, 0, mapDepth] ++ le16 p.xOrigin ++ le16 p.origin ++
    le16 p.w ++ le16 p.h ++
    [depth, p.descriptor]

/-- `tga_parse` returns an array with the size of the picture and its colours. -/
def Picture.Decoded (p : Picture α) (colour : α → BitVec 32)
    (r : Option (Option (Nat → BitVec 32))) : Prop :=
  ∃ data, r = some (some data) ∧ data 0 = BitVec.ofNat 32 p.w ∧ data 1 = BitVec.ofNat 32 p.h ∧
    ∀ i < p.w * p.h, data (2 + i) = colour (p.pixel i)

/-- Pixels of three or four bytes. -/
def depthByte (stride : Nat) : Byte := BitVec.ofNat 8 (8 * stride)

/-- The header as it is read. -/
def Picture.read (p : Picture α) (mapType imageType mapLength mapDepth depth : Byte) :
    TgaHeader where
  mapType := mapType
  imageType := imageType
  mapStart := 0
  mapStartHigh := 0
  mapLength := mapLength
  mapLengthHigh := 0
  mapDepth := mapDepth
  origin := p.origin
  w := p.w
  h := p.h
  depth := depth

/-- The two bytes of a number. -/
theorem le16_toNat {n : Nat} (hn : n < 65536) :
    (BitVec.ofNat 8 (n / 256)).toNat * 256 + (BitVec.ofNat 8 n).toNat = n := by
  rw [BitVec.toNat_ofNat, BitVec.toNat_ofNat]
  omega

/-- The header is read as it was written. -/
theorem tgaHeader_eq (p : Picture α) (mapType imageType mapLength mapDepth depth : Byte)
    (rest : List Byte) :
    tgaHeader (p.header mapType imageType mapLength mapDepth depth ++ rest) =
      some (p.read mapType imageType mapLength mapDepth depth) := by
  show some _ = some _
  simp only [Picture.read, le16_toNat p.origin_lt, le16_toNat p.w_lt, le16_toNat p.h_lt]

/-- A header has 18 bytes. -/
theorem length_header (p : Picture α) (mapType imageType mapLength mapDepth depth : Byte) :
    (p.header mapType imageType mapLength mapDepth depth).length = 18 := rfl

/-! ## Reading -/

/-- The depth in bytes. -/
theorem depthByte_shift (hstride : stride = 3 ∨ stride = 4) :
    (depthByte stride >>> 3).toNat = stride := by
  rcases hstride with rfl | rfl <;> rfl

/-- The colour of the unit at `m`. -/
theorem tgaPixel_unit (hstride : stride = 3 ∨ stride = 4) (u : Chunk stride)
    (hptr : ptr.drop m = u.val ++ rest) :
    tgaPixel ptr (depthByte stride) m = some (colour u.val) := by
  obtain ⟨u, hu⟩ := u
  have hcell : ∀ i, ptr[m + i]? = (u ++ rest)[i]? := fun i => by
    rw [← hptr, List.getElem?_drop]
  have hzero := hcell 0
  rw [Nat.add_zero] at hzero
  unfold tgaPixel
  rw [hcell, hcell, hcell, hzero]
  rcases hstride with rfl | rfl
  · obtain ⟨b, g, r, rfl⟩ := List.length_eq_three.mp hu
    rfl
  · match u, hu with
    | [b, g, r, a], _ => rfl

/-- A pixel that is read is in the file. -/
theorem tgaPixel_inside {v : BitVec 32} (hstride : stride = 3 ∨ stride = 4)
    (h : tgaPixel ptr (depthByte stride) m = some v) : m + stride ≤ ptr.length := by
  unfold tgaPixel at h
  rcases hstride with rfl | rfl
  · rw [if_neg (by decide)] at h
    simp only [Option.bind_eq_bind, Option.bind_eq_some_iff] at h
    obtain ⟨a, -, r, hr, -⟩ := h
    exact (List.getElem?_eq_some_iff.mp hr).1
  · rw [if_pos (by decide)] at h
    simp only [Option.bind_eq_bind, Option.bind_eq_some_iff] at h
    obtain ⟨a, ha, -⟩ := h
    exact (List.getElem?_eq_some_iff.mp ha).1

/-- Pixels are read one after the other. -/
theorem reads_pixel (hstride : stride = 3 ∨ stride = 4) (ptr : List Byte) :
    Reads ptr stride (tgaPixel ptr (depthByte stride)) (fun u => some (colour u.val)) where
  unit _ u _ hptr := tgaPixel_unit hstride u hptr
  inside _ _ h := tgaPixel_inside hstride h

/-- Every byte of a pixel can be seen in its colour. -/
theorem append_inj {w v : Nat} {a a' : BitVec w} {b b' : BitVec v} (h : a ++ b = a' ++ b') :
    a = a' ∧ b = b' := by
  constructor
  · rw [← BitVec.extractLsb'_append_eq_left (a := a) (b := b), h, BitVec.extractLsb'_append_eq_left]
  · rw [← BitVec.extractLsb'_append_eq_right (a := a) (b := b), h,
      BitVec.extractLsb'_append_eq_right]

/-- Different pixels have different colours. -/
theorem colour_inj (hstride : stride = 3 ∨ stride = 4) {u v : Chunk stride}
    (h : colour u.val = colour v.val) : u = v := by
  obtain ⟨u, hu⟩ := u
  obtain ⟨v, hv⟩ := v
  refine Subtype.ext ?_
  show u = v
  rcases hstride with rfl | rfl
  · match u, hu, v, hv with
    | [b, g, r], _, [b', g', r'], _ =>
      obtain ⟨h, hb⟩ := append_inj h
      obtain ⟨h, hg⟩ := append_inj h
      rw [hb, hg, (append_inj h).2]
  · match u, hu, v, hv with
    | [b, g, r, a], _, [b', g', r', a'], _ =>
      obtain ⟨h, hb⟩ := append_inj h
      obtain ⟨h, hg⟩ := append_inj h
      rw [hb, hg, (append_inj h).1, (append_inj h).2]

/-- Only the unit itself has its colour. -/
theorem tgaPixel_iff (hstride : stride = 3 ∨ stride = 4) (u : Chunk stride) :
    tgaPixel ptr (depthByte stride) m = some (colour u.val) ↔ u.val <+: ptr.drop m := by
  constructor
  · intro h
    obtain ⟨v, hptr, hcol⟩ := (reads_pixel hstride ptr).exists_unit h
    rw [hptr, colour_inj hstride (Option.some.inj hcol)]
    exact List.prefix_append _ _
  · rintro ⟨rest, hrest⟩
    exact tgaPixel_unit hstride u hrest.symm

/-- The colour of an index, if the palette has it. -/
def mapColour (ptr : List Byte) (mapDepth : Byte) (u : Chunk 1) : Option (BitVec 32) :=
  tgaPixel ptr mapDepth ((u.val.headD 0).toNat * (mapDepth >>> 3).toNat + 18)

/-- So are indices into the palette. -/
theorem reads_mapped (ptr : List Byte) (t : TgaHeader) :
    Reads ptr 1 (tgaMapped ptr t) (mapColour ptr t.mapDepth) where
  unit m u rest hptr := by
    obtain ⟨u, hu⟩ := u
    obtain ⟨q, rfl⟩ := List.length_eq_one_iff.mp hu
    rw [tgaMapped, getElem?_of_drop hptr]
    rfl
  inside m v h := by
    simp only [tgaMapped, Option.bind_eq_bind, Option.bind_eq_some_iff] at h
    obtain ⟨q, hq, -⟩ := h
    exact (List.getElem?_eq_some_iff.mp hq).1

/-! ## Decoded pictures -/

/-- What `tga_parse` makes of the pixels in the end. -/
def finished (t : TgaHeader) (s : TgaOut) : Option (Option (Nat → BitVec 32)) :=
  some (some (Function.update (Function.update s.data 0 (BitVec.ofNat 32 t.w)) 1
    (BitVec.ofNat 32 t.h)))

variable {p : Picture α} {mapType imageType mapLength mapDepth : Byte} {s : TgaOut}
    {f : α → BitVec 32}

/-- The place of a pixel in the file. -/
theorem place_read (p : Picture α) (mapType imageType mapLength mapDepth depth : Byte) (c : Nat) :
    (p.read mapType imageType mapLength mapDepth depth).place c = p.fileIndex c := rfl

/-- Turning the picture over twice gives it back. -/
theorem fileIndex_fileIndex (p : Picture α) (hc : c < p.w * p.h) :
    p.fileIndex (p.fileIndex c) = c :=
  place_place (t := p.read 0 0 0 0 0) hc

/-- A pixel stays in the picture. -/
theorem fileIndex_lt (p : Picture α) (hc : c < p.w * p.h) : p.fileIndex c < p.w * p.h :=
  place_lt (t := p.read 0 0 0 0 0) hc

/-- The pixels in the order of the file. -/
theorem stored_getElem? (p : Picture α) (hc : c < p.w * p.h) :
    p.stored[c]? = some (p.pixel (p.fileIndex c)) := by
  rw [Picture.stored, List.getElem?_map, List.getElem?_range hc]
  rfl

/-- All pixels are stored. -/
theorem length_stored (p : Picture α) : p.stored.length = p.w * p.h := by
  rw [Picture.stored, List.length_map, List.length_range]

/-- The array holds the colours of the picture. -/
theorem decoded_finished :
    p.Decoded f (finished (p.read mapType imageType mapLength mapDepth depth) s) ↔
    ∀ i < p.w * p.h, s.data (2 + i) = f (p.pixel i) := by
  -- width and height are in front of the colours
  have hdata : ∀ i, Function.update (Function.update s.data 0 (BitVec.ofNat 32 p.w)) 1
    (BitVec.ofNat 32 p.h) (2 + i) =
      s.data (2 + i) := fun i => by
    rw [Function.update_of_ne (by omega), Function.update_of_ne (by omega)]
  constructor
  · rintro ⟨data, heq, -, -, hpixel⟩ i hi
    rw [finished, Option.some.injEq, Option.some.injEq] at heq
    rw [← hdata i, ← hpixel i hi, ← heq]
    rfl
  · intro hpixel
    refine ⟨_, rfl, ?_, ?_, fun i hi => (hdata i).trans (hpixel i hi)⟩
    · rw [Function.update_of_ne (by omega), Function.update_self]
      rfl
    · rw [Function.update_self]
      rfl

/-- The packets have put the stored pixels into their places. -/
theorem decoded_of_shows
    (h : s.Shows (p.read mapType imageType mapLength mapDepth depth) (p.stored.map f)) :
    p.Decoded f (finished (p.read mapType imageType mapLength mapDepth depth) s) := by
  refine decoded_finished.mpr fun i hi => ?_
  have hcell : (p.stored.map f)[p.fileIndex i]? = some (f (p.pixel i)) := by
    rw [List.getElem?_map, stored_getElem? p (fileIndex_lt p hi), fileIndex_fileIndex p hi]
    rfl
  have := h.pixel _ _ hcell
  rwa [place_read, fileIndex_fileIndex p hi] at this

/-- The rows are decoded if every pixel is read as it is stored. -/
theorem decoded_rows_iff {t : TgaHeader} {read : Nat → Option (BitVec 32)}
    {first : Int → Option Int}
    (ht : t = p.read mapType imageType mapLength mapDepth depth)
    (hfirst : RowStart t stride first) :
    p.Decoded f (tgaRows t read stride first t.h ⟨0, 0, data⟩ >>= finished t) ↔
      p.w * p.h * stride < 2147483648 ∧ ∀ c u, p.stored[c]? = some u →
      read (c * stride) = some (f u) := by
  subst ht
  have hempty : ∀ g, TgaOut.Filled (p.read mapType imageType mapLength mapDepth depth) g
      (0 * p.w) ⟨0, 0, data⟩ :=
    fun g => ⟨by rw [Nat.zero_mul]; rfl, fun k hk => by omega⟩
  constructor
  · rintro ⟨out, heq, hdims⟩
    obtain ⟨s, hs, hfinished⟩ := Option.bind_eq_some_iff.mp heq
    have hdecoded : p.Decoded f (finished (p.read mapType imageType mapLength mapDepth depth) s) :=
      ⟨out, hfinished, hdims⟩
    -- a loop that ends has read every pixel, so it has filled the array with what it read
    obtain ⟨hreads, hint⟩ := tgaRows_reads hfirst hs rfl p.w_pos p.h_pos
    have hread : ∀ c < p.w * p.h, read (c * stride) = some ((read (c * stride)).getD 0) := by
      intro c hc
      obtain ⟨v, hv⟩ := hreads c hc
      rw [hv]
      rfl
    obtain ⟨s', hs', hfilled⟩ := tgaRows_spec (s := ⟨0, 0, data⟩) hfirst (Nat.zero_add _)
      (hempty _) hread hint
    obtain rfl : s' = s := Option.some.inj (hs'.symm.trans hs)
    refine ⟨hint, fun c u hu => ?_⟩
    obtain ⟨hc, -⟩ := List.getElem?_eq_some_iff.mp hu
    rw [length_stored] at hc
    rw [stored_getElem? p hc] at hu
    -- the pixel is in its place, so what was read is its colour
    have hplace := hfilled.data_eq _ (fileIndex_lt p hc)
    rw [decoded_finished.mp hdecoded _ (fileIndex_lt p hc), place_read, fileIndex_fileIndex p hc,
      Option.some.inj hu] at hplace
    rw [hread c hc, hplace]
  · intro ⟨hint, hread⟩
    have hread' : ∀ c < p.w * p.h, read (c * stride) = some (f (p.pixel (p.fileIndex c))) :=
      fun c hc => hread c _ (stored_getElem? p hc)
    obtain ⟨s, hs, hfilled⟩ := tgaRows_spec (s := ⟨0, 0, data⟩) hfirst (Nat.zero_add _)
      (hempty _) hread' hint
    rw [hs]
    refine decoded_finished.mpr fun i hi => ?_
    rw [hfilled.data_eq i hi, place_read, fileIndex_fileIndex p hi]

/-! ## The four types -/

variable {t : TgaHeader} {size : Nat}

/-- A mapped picture goes to its loop. -/
theorem tgaParse_type1 (hheader : tgaHeader ptr = some t) (hsize : ¬ (t.w < 1 ∨ t.h < 1))
    (htype : t.imageType = 1)
    (hok : t.badMap = false) : tgaParse data ptr size = tgaType1 t ptr data >>= finished t := by
  simp only [tgaParse, hheader, Option.bind_eq_bind, Option.bind_some, if_neg hsize, htype, hok]
  rfl

/-- So does a true-colour picture. -/
theorem tgaParse_type2 (hheader : tgaHeader ptr = some t) (hsize : ¬ (t.w < 1 ∨ t.h < 1))
    (htype : t.imageType = 2)
    (hok : t.badTrue = false) : tgaParse data ptr size = tgaType2 t ptr data >>= finished t := by
  simp only [tgaParse, hheader, Option.bind_eq_bind, Option.bind_some, if_neg hsize, htype, hok]
  rfl

/-- So does a mapped picture in packets. -/
theorem tgaParse_type9 (hheader : tgaHeader ptr = some t) (hsize : ¬ (t.w < 1 ∨ t.h < 1))
    (htype : t.imageType = 9)
    (hok : t.badMap = false) : tgaParse data ptr size =
      tgaType9 t ptr size data >>= finished t := by
  simp only [tgaParse, hheader, Option.bind_eq_bind, Option.bind_some, if_neg hsize, htype, hok]
  rfl

/-- So does a true-colour picture in packets. -/
theorem tgaParse_type10 (hheader : tgaHeader ptr = some t) (hsize : ¬ (t.w < 1 ∨ t.h < 1))
    (htype : t.imageType = 10)
    (hok : t.badTrue = false) : tgaParse data ptr size =
      tgaType10 t ptr size data >>= finished t := by
  simp only [tgaParse, hheader, Option.bind_eq_bind, Option.bind_some, if_neg hsize, htype, hok]
  rfl

/-! ## Colours in packets -/

/-- Type 10: the pixels in packets. -/
def Picture.type10 (p : Picture (Chunk stride)) (ps : List (Packet stride)) : List Byte :=
  p.header 0 10 0 0 (depthByte stride) ++ encode ps

/-- The header of a true-colour picture passes the checks. -/
theorem not_badTrue (p : Picture α) (imageType : Byte) (hstride : stride = 3 ∨ stride = 4) :
    (p.read 0 imageType 0 0 (depthByte stride)).badTrue = false := by
  rcases hstride with rfl | rfl <;> rfl

/-- So does the header of a mapped one. -/
theorem not_badMap (p : Picture α) (imageType mapLength : Byte) (hstride : stride = 3 ∨ stride = 4)
    (depth : Byte) :
    (p.read 1 imageType mapLength (depthByte stride) depth).badMap = false := by
  rcases hstride with rfl | rfl <;> rfl

/-- The dimensions of a picture pass the first test. -/
theorem not_empty (p : Picture α) : ¬ (p.w < 1 ∨ p.h < 1) := by
  have := p.w_pos
  have := p.h_pos
  omega

/-- A true-colour picture in packets is decoded, however it is cut into packets. -/
theorem type10_decodes (p : Picture (Chunk stride)) (hstride : stride = 3 ∨ stride = 4)
    (hint : p.w * p.h < 2147483648) {ps : List (Packet stride)} (hps : ∀ q ∈ ps, q.Ok)
    (hexpand : expand ps = p.stored)
    (data : Nat → BitVec 32) :
    p.Decoded (fun u => colour u.val) (tgaParse data (p.type10 ps) (p.type10 ps).length) := by
  -- behind the header there is nothing but the packets
  have hdrop : (p.type10 ps).drop 18 = encode ps ++ [] := by
    rw [Picture.type10, List.append_nil]
    exact List.drop_left' (length_header p _ _ _ _ _)
  have hlen : 18 ≤ (p.type10 ps).length := by
    rw [Picture.type10, List.length_append, length_header]
    omega
  -- each unit of the packets is a pixel of the picture
  have hcol : (expand ps).map (fun u => some (colour u.val)) =
      (p.stored.map fun u => colour u.val).map some := by
    rw [hexpand, List.map_map]
    rfl
  obtain ⟨s, hs, hshows⟩ := tgaPackets_spec (t := p.read 0 10 0 0 (depthByte stride))
    (reads_pixel hstride (p.type10 ps))
    hint hps hdrop hcol (.empty _ data)
      (by rw [List.length_map, length_stored, List.length_nil, Nat.zero_add]; rfl) hlen
    (show (p.type10 ps).length < 18 + ((p.type10 ps).length + 1) by omega)
  -- the header is read as it was written
  have hheader : tgaHeader (p.type10 ps) = some (p.read 0 10 0 0 (depthByte stride)) :=
    tgaHeader_eq p _ _ _ _ _ _
  have hrun : tgaType10 (p.read 0 10 0 0 (depthByte stride)) (p.type10 ps) (p.type10 ps).length
      data = some s := by
    unfold tgaType10
    show tgaPackets _ _ _ (tgaPixel _ (depthByte stride)) (depthByte stride >>> 3).toNat _ _ _ _ =
      some s
    rw [depthByte_shift hstride]
    exact hs
  rw [tgaParse_type10 hheader (not_empty p) rfl (not_badTrue p 10 hstride), hrun]
  exact decoded_of_shows hshows

/-! ## Colours in full -/

/-- Type 2: the pixels one after the other. -/
def Picture.type2 (p : Picture (Chunk stride)) : List Byte :=
  p.header 0 2 0 0 (depthByte stride) ++ p.stored.flatMap Subtype.val

/-- The two products of an offset. -/
theorem rowStart_type2 (t : TgaHeader) (hstride : 0 < stride) :
    RowStart t stride (fun row => do CInt.checked ((← CInt.checked (row * t.w)) * stride)) where
  fits q _ hlt := by
    have hle : q * t.w ≤ q * t.w * stride := Nat.le_mul_of_pos_right _ hstride
    have hrow : CInt.checked (q * t.w) = some ((q * t.w : Nat) : Int) := by
      rw [← Int.natCast_mul]
      exact CInt.checked_of_le (by omega) (by omega)
    rw [hrow, Option.bind_eq_bind, Option.bind_some, ← Int.natCast_mul]
    exact CInt.checked_of_le (by omega) (by omega)
  value q j hj := by
    obtain ⟨row, hrow, hj⟩ := Option.bind_eq_some_iff.mp hj
    rw [← (CInt.checked_eq_some.mp hj).1, ← (CInt.checked_eq_some.mp hrow).1, ← Int.natCast_mul,
      ← Int.natCast_mul]

/-- The first pixels of the file are the ones that are read. -/
theorem type2_decodes_iff (p : Picture (Chunk stride)) (hstride : stride = 3 ∨ stride = 4)
    (data : Nat → BitVec 32) :
    p.Decoded (fun u => colour u.val) (tgaParse data p.type2 p.type2.length) ↔
      p.w * p.h * stride < 2147483648 ∧ p.stored.flatMap Subtype.val <+: p.type2 := by
  have hheader : tgaHeader p.type2 = some (p.read 0 2 0 0 (depthByte stride)) :=
    tgaHeader_eq p _ _ _ _ _ _
  -- the offset of a row does not count the header
  have hrun : tgaType2 (p.read 0 2 0 0 (depthByte stride)) p.type2 data =
      tgaRows (p.read 0 2 0 0 (depthByte stride)) (tgaPixel p.type2 (depthByte stride)) stride
        (fun row => do CInt.checked ((← CInt.checked (row * p.w)) * stride)) p.h ⟨0, 0, data⟩ := by
    unfold tgaType2
    show tgaRows _ (tgaPixel _ (depthByte stride)) (depthByte stride >>> 3).toNat
      (fun row => do CInt.checked ((← CInt.checked (row * p.w)) * (depthByte stride >>> 3).toNat)) _
        _ = _
    rw [depthByte_shift hstride]
    rfl
  rw [tgaParse_type2 hheader (not_empty p) rfl (not_badTrue p 2 hstride), hrun]
  refine (decoded_rows_iff rfl (rowStart_type2 _ (by omega))).trans (and_congr Iff.rfl ?_)
  rw [RunLength.flatMap_prefix_iff]
  exact forall₃_congr fun c u _ => tgaPixel_iff hstride u

/-- The pixels in full are decoded only where they are the header of the file over and over. -/
theorem true_colour_iff (p : Picture (Chunk stride)) (hstride : stride = 3 ∨ stride = 4)
    (hint : p.w * p.h < 2147483648) {ps : List (Packet stride)} (hps : ∀ q ∈ ps, q.Ok)
    (hexpand : expand ps = p.stored)
    (data : Nat → BitVec 32) :
    (p.Decoded (fun u => colour u.val) (tgaParse data p.type2 p.type2.length) ∧
        p.Decoded (fun u => colour u.val) (tgaParse data (p.type10 ps) (p.type10 ps).length)) ↔
      p.w * p.h * stride < 2147483648 ∧ p.stored.flatMap Subtype.val <+: p.type2 := by
  rw [type2_decodes_iff p hstride data]
  exact and_iff_left (type10_decodes p hstride hint hps hexpand data)

/-- One pixel. -/
def dot (u : α) : Picture α where
  w := 1
  h := 1
  origin := 0
  xOrigin := 0
  descriptor := 0
  pixel _ := u
  w_pos := by decide
  w_lt := by decide
  h_pos := by decide
  h_lt := by decide
  origin_lt := by decide

/-- Four pixels that are the first bytes of their own file, the lower row first. -/
def headerPicture : Picture (Chunk 3) where
  w := 2
  h := 2
  origin := 0
  xOrigin := 0x504
  descriptor := 0
  pixel c :=
    match c with
    | 0 => ⟨[0, 0, 4], rfl⟩
    | 1 => ⟨[5, 0, 0], rfl⟩
    | 2 => ⟨[0, 0, 2], rfl⟩
    | _ => ⟨[0, 0, 0], rfl⟩
  w_pos := by decide
  w_lt := by decide
  h_pos := by decide
  h_lt := by decide
  origin_lt := by decide

/-- They are decoded, in full and in packets. -/
theorem true_colour_iff_header :
    (headerPicture.Decoded (fun u => colour u.val)
        (tgaParse (fun _ => 0) headerPicture.type2 headerPicture.type2.length) ∧
      headerPicture.Decoded (fun u => colour u.val)
        (tgaParse (fun _ => 0) (headerPicture.type10 [.each headerPicture.stored])
          (headerPicture.type10 [.each headerPicture.stored]).length)) :=
  (true_colour_iff headerPicture (.inl rfl) (by decide)
    (by intro q hq; rw [List.mem_singleton.mp hq]; exact ⟨by decide, by decide⟩) rfl
    (fun _ => 0)).mpr ⟨by decide, by decide⟩

/-- Any other colour is not found. -/
theorem dot_lost : ¬ ∀ (stride : Nat) (p : Picture (Chunk stride)) (ps : List (Packet stride)),
    stride = 3 ∨ stride = 4 → p.w * p.h < 2147483648 → (∀ q ∈ ps, q.Ok) → expand ps = p.stored →
    p.Decoded (fun u => colour u.val) (tgaParse (fun _ => 0) p.type2 p.type2.length) ∧
      p.Decoded (fun u => colour u.val)
        (tgaParse (fun _ => 0) (p.type10 ps) (p.type10 ps).length) := by
  intro h
  have hps : ∀ q ∈ [Packet.each [(⟨[1, 2, 3], rfl⟩ : Chunk 3)]], q.Ok := by
    intro q hq
    rw [List.mem_singleton.mp hq]
    exact ⟨by decide, by decide⟩
  have hfirst :=
    ((type2_decodes_iff _ (.inl rfl) _).mp
    (h 3 (dot ⟨[1, 2, 3], rfl⟩) _ (.inl rfl) (by decide) hps rfl).1).2
  exact absurd hfirst (by decide)

/-! ## Palettes -/

variable {palette : List (Chunk stride)}

def indexByte (i : Fin palette.length) : Chunk 1 := ⟨[BitVec.ofNat 8 i], rfl⟩

def paletteColour (palette : List (Chunk stride)) (i : Fin palette.length) : BitVec 32 :=
  colour (palette.get i).val

/-- The header and the palette, which starts behind it. -/
def Picture.mapHeader (p : Picture (Fin palette.length)) (imageType : Byte) : List Byte :=
  p.header 1 imageType (BitVec.ofNat 8 palette.length) (depthByte stride) 8 ++
    palette.flatMap Subtype.val

/-- Type 1: the indices of the pixels one after the other. -/
def Picture.type1 (p : Picture (Fin palette.length)) : List Byte :=
  p.mapHeader 1 ++ (p.stored.map indexByte).flatMap Subtype.val

/-- Type 9: the indices in packets. -/
def Picture.type9 (p : Picture (Fin palette.length)) (ps : List (Packet 1)) : List Byte :=
  p.mapHeader 9 ++ encode ps

variable {p : Picture (Fin palette.length)} {imageType : Byte}

/-- The pixels begin behind the palette. -/
theorem m_read (p : Picture α) (imageType : Byte) (hstride : stride = 3 ∨ stride = 4)
    (hlen : palette.length ≤ 255) :
    (p.read 1 imageType (BitVec.ofNat 8 palette.length) (depthByte stride) 8).m =
      palette.length * stride + 18 := by
  show (depthByte stride >>> 3).toNat * (BitVec.ofNat 8 palette.length).toNat + 18 = _
  rw [depthByte_shift hstride, BitVec.toNat_ofNat, Nat.mod_eq_of_lt (by omega), Nat.mul_comm]

/-- Header and palette come first. -/
theorem length_mapHeader (p : Picture (Fin palette.length)) (imageType : Byte) :
    (p.mapHeader imageType).length = palette.length * stride + 18 := by
  rw [Picture.mapHeader, List.length_append, length_header,
    RunLength.length_flatMap_val, Nat.add_comm]

/-- The colour of an index that the palette has. -/
theorem mapColour_indexByte (hstride : stride = 3 ∨ stride = 4) (hlen : palette.length ≤ 255)
    (hptr : ptr = p.mapHeader imageType ++ rest) (i : Fin palette.length) :
    mapColour ptr (depthByte stride) (indexByte i) = some (paletteColour palette i) := by
  -- an index of a palette of at most 255 colours is a byte
  have hbyte : (BitVec.ofNat 8 (i : Nat)).toNat = i := by
    rw [BitVec.toNat_ofNat, Nat.mod_eq_of_lt (by omega)]
  have hpalette : palette.flatMap Subtype.val <+: ptr.drop 18 := by
    rw [hptr, Picture.mapHeader, List.append_assoc, List.drop_left' (length_header p _ _ _ _ _)]
    exact List.prefix_append _ _
  have hunit := RunLength.flatMap_prefix_iff.mp hpalette i _ (List.getElem?_eq_getElem i.isLt)
  rw [List.drop_drop, Nat.add_comm] at hunit
  show tgaPixel ptr (depthByte stride)
    ((BitVec.ofNat 8 (i : Nat)).toNat * (depthByte stride >>> 3).toNat + 18) = _
  rw [hbyte, depthByte_shift hstride]
  exact (tgaPixel_iff hstride _).mpr hunit

/-- Where a row of indices begins. -/
theorem rowStart_type1 (t : TgaHeader) : RowStart t 1 (fun row => CInt.checked (row * t.w)) where
  fits q _ hlt := by
    rw [Nat.mul_one] at hlt ⊢
    rw [← Int.natCast_mul]
    exact CInt.checked_of_le (by omega) (by omega)
  value q j hj := by
    rw [← (CInt.checked_eq_some.mp hj).1, Nat.mul_one, Int.natCast_mul]

/-- A mapped picture is decoded. -/
theorem type1_decodes (p : Picture (Fin palette.length)) (hstride : stride = 3 ∨ stride = 4)
    (hlen : palette.length ≤ 255)
    (hint : p.w * p.h < 2147483648) (data : Nat → BitVec 32) :
    p.Decoded (paletteColour palette) (tgaParse data p.type1 p.type1.length) := by
  have hheader :
      tgaHeader p.type1 =
      some (p.read 1 1 (BitVec.ofNat 8 palette.length) (depthByte stride) 8) := by
    unfold Picture.type1 Picture.mapHeader
    rw [List.append_assoc]
    exact tgaHeader_eq p _ _ _ _ _ _
  rw [tgaParse_type1 hheader (not_empty p) rfl (not_badMap p 1 _ hstride _)]
  refine (decoded_rows_iff rfl (rowStart_type1 _)).mpr ⟨by rwa [Nat.mul_one], fun c i hi => ?_⟩
  -- the indices are behind the palette, a byte each
  have hindices : (p.stored.map indexByte).flatMap Subtype.val <+:
      p.type1.drop (palette.length * stride + 18) :=
    ⟨[], by rw [List.append_nil]; exact (List.drop_left' (length_mapHeader p 1)).symm⟩
  obtain ⟨rest, hrest⟩ := RunLength.flatMap_prefix_iff.mp hindices c (indexByte i)
    (by rw [List.getElem?_map, hi]; rfl)
  rw [List.drop_drop] at hrest
  rw [m_read p 1 hstride hlen]
  exact ((reads_mapped _ _).unit _ _ _ hrest.symm).trans (mapColour_indexByte hstride hlen rfl i)

/-- So is a mapped picture in packets. -/
theorem type9_decodes (p : Picture (Fin palette.length)) (hstride : stride = 3 ∨ stride = 4)
    (hlen : palette.length ≤ 255)
    (hint : p.w * p.h < 2147483648) {ps : List (Packet 1)} (hps : ∀ q ∈ ps, q.Ok)
    (hexpand : expand ps = p.stored.map indexByte) (data : Nat → BitVec 32) :
    p.Decoded (paletteColour palette) (tgaParse data (p.type9 ps) (p.type9 ps).length) := by
  have hheader : tgaHeader (p.type9 ps) =
      some (p.read 1 9 (BitVec.ofNat 8 palette.length) (depthByte stride) 8) := by
    unfold Picture.type9 Picture.mapHeader
    rw [List.append_assoc]
    exact tgaHeader_eq p _ _ _ _ _ _
  have hm := m_read p 9 hstride hlen
  have hfile : (p.type9 ps).length = palette.length * stride + 18 + (encode ps).length := by
    rw [Picture.type9, List.length_append, length_mapHeader]
  -- behind header and palette there is nothing but the packets
  have hdrop : (p.type9 ps).drop (palette.length * stride + 18) = encode ps ++ [] := by
    rw [Picture.type9, List.append_nil]
    exact List.drop_left' (length_mapHeader p 9)
  -- each unit of the packets is an index into the palette
  have hcol : (expand ps).map (mapColour (p.type9 ps) (depthByte stride)) =
      (p.stored.map (paletteColour palette)).map some := by
    rw [hexpand, List.map_map, List.map_map]
    exact List.map_congr_left fun i _ => mapColour_indexByte hstride hlen rfl i
  have htotal : ([] : List (BitVec 32)).length + (p.stored.map (paletteColour palette)).length =
      p.w * p.h := by
    rw [List.length_map, length_stored, List.length_nil, Nat.zero_add]
  have hfuel : (p.type9 ps).length < palette.length * stride + 18 + ((p.type9 ps).length + 1) := by
    omega
  have hreads :=
    reads_mapped (p.type9 ps) (p.read 1 9 (BitVec.ofNat 8 palette.length) (depthByte stride) 8)
  have hempty :=
    TgaOut.Shows.empty (p.read 1 9 (BitVec.ofNat 8 palette.length) (depthByte stride) 8) data
  -- what the general lemma about packets asks for is collected
  obtain ⟨s, hs, hshows⟩ := tgaPackets_spec hreads hint hps hdrop hcol hempty htotal
    (by omega) hfuel
  have hrun : tgaType9 (p.read 1 9 (BitVec.ofNat 8 palette.length) (depthByte stride) 8)
    (p.type9 ps) (p.type9 ps).length
      data = some s := by
    unfold tgaType9
    rw [hm]
    exact hs
  rw [tgaParse_type9 hheader (not_empty p) rfl (not_badMap p 9 _ hstride _), hrun]
  exact decoded_of_shows hshows

/-- The indices in full and in packets are decoded to the same colours. -/
theorem mapped_decodes (p : Picture (Fin palette.length)) (hstride : stride = 3 ∨ stride = 4)
    (hlen : palette.length ≤ 255)
    (hint : p.w * p.h < 2147483648) {ps : List (Packet 1)} (hps : ∀ q ∈ ps, q.Ok)
    (hexpand : expand ps = p.stored.map indexByte) (data : Nat → BitVec 32) :
    p.Decoded (paletteColour palette) (tgaParse data p.type1 p.type1.length) ∧
      p.Decoded (paletteColour palette) (tgaParse data (p.type9 ps) (p.type9 ps).length) :=
  ⟨type1_decodes p hstride hlen hint data, type9_decodes p hstride hlen hint hps hexpand data⟩

def blackWhite : List (Chunk 3) := [⟨[0, 0, 0], rfl⟩, ⟨[0xFF, 0xFF, 0xFF], rfl⟩]

/-- Two black and two white pixels. -/
def chequer : Picture (Fin blackWhite.length) where
  w := 2
  h := 2
  origin := 0
  xOrigin := 0
  descriptor := 0
  pixel c := if c = 0 ∨ c = 3 then ⟨1, by decide⟩ else ⟨0, by decide⟩
  w_pos := by decide
  w_lt := by decide
  h_pos := by decide
  h_lt := by decide
  origin_lt := by decide

/-- Its indices, the two white ones as a run. -/
def chequerPackets : List (Packet 1) :=
  [.each [⟨[0], rfl⟩], .same 2 ⟨[1], rfl⟩, .each [⟨[0], rfl⟩]]

theorem chequerPackets_ok : ∀ q ∈ chequerPackets, q.Ok := by
  simp only [chequerPackets, List.forall_mem_cons]
  exact ⟨⟨by decide, by decide⟩, ⟨by decide, by decide⟩, ⟨by decide, by decide⟩, by simp⟩

/-- The picture of four pixels is decoded, in full and in packets. -/
theorem mapped_decodes_chequer :
    chequer.Decoded (paletteColour blackWhite)
        (tgaParse (fun _ => 0) chequer.type1 chequer.type1.length) ∧
      chequer.Decoded (paletteColour blackWhite)
        (tgaParse (fun _ => 0) (chequer.type9 chequerPackets)
          (chequer.type9 chequerPackets).length) :=
  mapped_decodes chequer (.inl rfl) (by decide) (by decide) chequerPackets_ok rfl (fun _ => 0)

end MishaOS
