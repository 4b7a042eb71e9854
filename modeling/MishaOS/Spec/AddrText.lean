import MishaOS.Native.AddrText
import MishaOS.Spec.ByteOrder
import MishaOS.Spec.IntText
import MishaOS.Spec.NumberText

/-!
# Numbers and addresses are read back from their text

`itoa` writes the digits from a pointer on and turns them round there; what is in
memory is the text of the list model.  `atoi` goes over the digits from the front
and stops at a separator.  In the text of an address a point is found among the
first four characters of a byte and the colon among the first sixteen.

## Key results

- `itoaAt_eq`: the text is in memory, and the pointer is at the null byte.
- `atoi_numberText`: the number is read back.
- `ip4ptoaAt_eq`, `atoip4p_addrText`: the same for an address and a port.
-/

namespace MishaOS

open Bytes Ring
open Function (update)
open Numeral (numeral digitsLoop)

variable {mem : Nat → Byte} {l t rest : List Byte} {radix n k p : Nat} {target : Int}

/-! ## In memory -/

/-- The bytes in memory are exchanged like those of the list. -/
theorem memrevAt_blit (mem : Nat → Byte) (p : Nat) (l rest : List Byte) :
    memrevAt (blit mem p (l ++ rest)) p l.length = blit mem p (memrev l ++ rest) := by
  unfold memrevAt memrev
  -- after every round, up to the middle, the memory holds what the list has become
  obtain ⟨k, hk, hrounds⟩ : ∃ k, k ≤ l.length / 2 ∧ l.length / 2 = k := ⟨_, Nat.le_refl _, rfl⟩
  rw [hrounds]
  clear hrounds
  induction k with
  | zero => rfl
  | succ k ih =>
    have hlen := (exchanged_foldl (l := l) (k := k) (by omega)).length_eq
    rw [List.range_succ, List.foldl_append, List.foldl_append, ih (by omega)]
    dsimp only [List.foldl_cons, List.foldl_nil] at hlen ⊢
    generalize (List.range k).foldl _ l = buf at hlen ⊢
    have hcell : ∀ i < l.length, blit mem p (buf ++ rest) (p + i) = buf.getD i 0 := by
      intro i hi
      apply blit_inside
      rw [List.getElem?_append_left (by omega), List.getD_eq_getElem?_getD,
        List.getElem?_eq_getElem (by omega)]
      rfl
    have hat : p + l.length - k - 1 = p + (l.length - k - 1) := by omega
    rw [hat, hcell k (by omega), hcell (l.length - k - 1) (by omega),
      update_blit (by rw [List.length_append]; omega),
      update_blit (by rw [List.length_set, List.length_append]; omega),
      List.set_append_left _ _ (by omega),
      List.set_append_left _ _ (by rw [List.length_set]; omega),
      List.length_set, hlen]

/-- `strlen` of a string in memory, which ends within `k` bytes. -/
theorem strlen_slice (hat : At mem p (l ++ [0])) (hzero : 0 ∉ l) (hk : l.length < k) :
    strlen (slice mem p k) = some l.length := by
  have hend : l.length + 1 + (k - (l.length + 1)) = k := by omega
  have hsplit : slice mem p k = l ++ 0 :: slice mem (p + (l.length + 1)) (k - (l.length + 1)) := by
    have htake : (slice mem p k).take (l.length + 1) = slice mem p (l.length + 1) :=
      take_slice (by omega)
    have hcells := hat.slice_eq
    rw [List.length_append, List.length_singleton] at hcells
    rw [hcells] at htake
    rw [← drop_slice, List.append_cons, ← htake, List.take_append_drop]
  rw [hsplit, strlen_append hzero]

/-- The digits are written one behind the other. -/
theorem itoaLoop_eq (radix fuel : Nat) (mem : Nat → Byte) (buf n : Nat) :
    itoaLoop radix fuel mem buf n =
      (blit mem buf ((digitsLoop radix fuel n).map fun d => alphabet.getD d 0),
        buf + (digitsLoop radix fuel n).length) := by
  induction fuel generalizing mem buf n with
  | zero => rw [itoaLoop, digitsLoop, List.map_nil, blit_nil, List.length_nil, Nat.add_zero]
  | succ fuel ih =>
    rw [itoaLoop, digitsLoop, List.map_cons, blit_cons, List.length_cons]
    split
    · rw [List.map_nil, blit_nil, List.length_nil]
    · rw [ih, Nat.add_assoc, Nat.add_comm 1]

/-- The last byte is written again. -/
theorem update_last (mem : Nat → Byte) (p : Nat) (l : List Byte) (c d : Byte) :
    update (blit mem p (l ++ [c])) (p + l.length) d = blit mem p (l ++ [d]) := by
  rw [update_blit (by rw [List.length_append, List.length_singleton]; omega),
    List.set_append_right _ _ (Nat.le_refl _), Nat.sub_self, List.set_cons_zero]

/-! ## The text of a number -/

/-- A number, with the sign of a negative one in front. -/
def numberText (radix : Nat) (target : Int) : List Byte :=
  (if target < 0 then ascii "-" else []) ++ numeralText radix target.natAbs

/-- What `atoi` finds in a digit, and that no digit is a separator. -/
theorem alphabet_spec : ∀ d < 36, strchr alphabet (toupper (alphabet.getD d 0)) = some d ∧
    strchr blanks (alphabet.getD d 0) = none ∧ alphabet.getD d 0 ≠ chr '-' ∧ alphabet.getD d 0 ≠ 0 ∧
    alphabet.getD d 0 ≠ chr '.' ∧ alphabet.getD d 0 ≠ chr ':' := by
  decide

/-- Every character is a digit. -/
theorem exists_of_mem_numeralText (hlo : 2 ≤ radix) {c : Byte} (hc : c ∈ numeralText radix n) :
    ∃ d < radix, c = alphabet.getD d 0 := by
  obtain ⟨d, hd, rfl⟩ := List.mem_map.mp hc
  exact ⟨d, Numeral.lt_of_mem_numeral hlo hd, rfl⟩

/-- The text has no null byte. -/
theorem zero_not_mem_numberText (hlo : 2 ≤ radix) (hhi : radix ≤ 36) (target : Int) :
    0 ∉ numberText radix target := by
  intro h
  rcases List.mem_append.mp h with hsign | hdigit
  · split at hsign
    · simp [ascii] at hsign
    · simp at hsign
  · obtain ⟨d, hd, hc⟩ := exists_of_mem_numeralText hlo hdigit
    exact (alphabet_spec d (by omega)).2.2.2.1 hc.symm

/-- It has at most 64 characters. -/
theorem length_numberText_le (hlo : 2 ≤ radix) (hge : -9223372036854775808 < target)
    (hlt : target < 9223372036854775808) : (numberText radix target).length ≤ 64 := by
  have hpow := natAbs_lt_pow hlo hge hlt
  have hdigits := (Numeral.length_numeral_le (k := 63) hlo (by omega)).mpr hpow
  unfold numberText numeralText
  rw [List.length_append, List.length_map]
  split
  · simp [ascii]
    omega
  · simp
    omega

/-- The sign is written behind the digits. -/
theorem sign_blit (mem : Nat → Byte) (buf : Nat) (target : Int) (l : List Byte) :
    (if target < 0 then (update (blit mem buf l) (buf + l.length) (chr '-'), buf + l.length + 1)
      else (blit mem buf l, buf + l.length)) =
      (blit mem buf (l ++ if target < 0 then ascii "-" else []),
        buf + (l ++ if target < 0 then ascii "-" else []).length) := by
  split
  · rw [← blit_singleton, blit_append, List.length_append, Nat.add_assoc]
    rfl
  · rw [List.append_nil]

/-- `itoa` leaves the text and a null byte in memory, and returns a pointer to the null byte. -/
theorem itoaAt_eq (mem : Nat → Byte) (buf : Nat) (hlo : 2 ≤ radix) (hhi : radix ≤ 36)
    (hge : -9223372036854775808 < target) (hlt : target < 9223372036854775808) :
    itoaAt mem target buf radix =
      some (blit mem buf (numberText radix target ++ [0]),
        some (buf + (numberText radix target).length)) := by
  have hzero := zero_not_mem_numberText hlo hhi target
  have hlength := length_numberText_le hlo hge hlt
  have hpow := natAbs_lt_pow hlo hge hlt
  -- what is written before it is turned round
  obtain ⟨l, hl⟩ : ∃ l, l = (numeralText radix target.natAbs).reverse ++ if target < 0
      then ascii "-" else [] := ⟨_, rfl⟩
  have htext : numberText radix target = l.reverse := by
    rw [hl, List.reverse_append, List.reverse_reverse, numberText]
    split <;> rfl
  rw [htext, List.mem_reverse] at hzero
  rw [htext, List.length_reverse] at hlength
  have hloop := sign_blit mem buf target (numeralText radix target.natAbs).reverse
  rw [← hl] at hloop
  have hdigits : (digitsLoop radix 63 target.natAbs).map (fun d => alphabet.getD d 0) =
      (numeralText radix target.natAbs).reverse := by
    rw [Numeral.digitsLoop_eq hlo hpow, List.map_reverse, numeralText]
  have hcount : (digitsLoop radix 63 target.natAbs).length =
      (numeralText radix target.natAbs).reverse.length := by
    rw [← hdigits, List.length_map]
  have hend : update (blit mem buf l) (buf + l.length) 0 = blit mem buf (l ++ [0]) := by
    rw [← blit_append, blit_singleton]
  rw [itoaAt, if_neg (by omega), if_neg (by omega), itoaLoop_eq, hdigits, hcount]
  dsimp only
  rw [hloop]
  dsimp only
  rw [hend, strlen_slice blit_at hzero (by omega), Option.map_some, memrevAt_blit, memrev_eq, htext,
    List.length_reverse]

/-! ## Numbers are read back -/

/-- What `atoi` stops at. -/
def Stops (rest : List Byte) : Prop := ∀ c t, rest = c :: t → c = chr '.' ∨ c = chr ':'

/-- `atoi` stops at the end. -/
theorem stops_nil : Stops [] := by
  intro c t h
  cases h

/-- It stops at a point. -/
theorem stops_point (t : List Byte) : Stops (chr '.' :: t) := by
  intro c t h
  exact .inl (List.cons.inj h).1.symm

/-- It stops at a colon. -/
theorem stops_colon (t : List Byte) : Stops (chr ':' :: t) := by
  intro c t h
  exact .inr (List.cons.inj h).1.symm

/-- Where it stops the number is left as it is. -/
theorem atoiLoop_stop (hrest : Stops rest) (sign : Bool) (res : Int) :
    atoiLoop radix rest sign res = some (sign, res) := by
  have hpoint : chr '.' ≠ chr '-' ∧ strchr blanks (chr '.') = none ∧
      strchr alphabet (toupper (chr '.')) = none := by
    decide
  have hcolon : chr ':' ≠ chr '-' ∧ strchr blanks (chr ':') = none ∧
      strchr alphabet (toupper (chr ':')) = none := by
    decide
  cases rest with
  | nil => rfl
  | cons c t =>
    have hc : c ≠ chr '-' ∧ strchr blanks c = none ∧ strchr alphabet (toupper c) = none := by
      rcases hrest c t rfl with rfl | rfl
      · exact hpoint
      · exact hcolon
    rw [atoiLoop, if_neg hc.1, hc.2.1, hc.2.2]
    rfl

/-- The number that the digits read so far are the first ones of only grows. -/
theorem le_foldl_digits (hradix : 0 < radix) (ds : List Nat) (n : Nat) :
    n ≤ ds.foldl (fun n d => n * radix + d) n := by
  induction ds generalizing n with
  | nil => exact Nat.le_refl n
  | cons d ds ih =>
    calc n ≤ n * radix := Nat.le_mul_of_pos_right n hradix
      _ ≤ n * radix + d := Nat.le_add_right _ d
      _ ≤ _ := ih (n * radix + d)

/-- `atoi` goes over digits without an overflow. -/
theorem atoiLoop_digits (hlo : 2 ≤ radix) (hhi : radix ≤ 36) (sign : Bool) {ds : List Nat}
    (hds : ∀ d ∈ ds, d < radix)
    {n : Nat} (hlt : ds.foldl (fun n d => n * radix + d) n < 9223372036854775808)
    (rest : List Byte) :
    atoiLoop radix ((ds.map fun d => alphabet.getD d 0) ++ rest) sign n =
      atoiLoop radix rest sign (ds.foldl (fun n d => n * radix + d) n : Nat) := by
  -- digit by digit; neither the product nor the sum leaves the 64 bits
  induction ds generalizing n with
  | nil => rfl
  | cons d ds ih =>
    have hd := hds d List.mem_cons_self
    obtain ⟨hdigit, hblank, hminus, -⟩ := alphabet_spec d (by omega)
    rw [List.foldl_cons] at hlt
    have hle := le_foldl_digits (show 0 < radix by omega) ds (n * radix + d)
    have hproduct : CInt.checked64 ((n : Int) * radix) = some ((n * radix : Nat) : Int) := by
      rw [← Nat.cast_mul]
      exact CInt.checked64_of_le (by omega) (by omega)
    have hsum : CInt.checked64 (((n * radix : Nat) : Int) + d) =
        some ((n * radix + d : Nat) : Int) := by
      rw [← Nat.cast_add]
      exact CInt.checked64_of_le (by omega) (by omega)
    rw [List.map_cons, List.cons_append, atoiLoop, if_neg hminus, hblank, hdigit]
    dsimp only
    rw [if_neg (by simp), if_neg (by omega), hproduct, Option.bind_some, hsum, Option.bind_some,
      ih (fun e he => hds e (List.mem_cons_of_mem d he)) hlt, List.foldl_cons]

/-- A numeral is read as its number. -/
theorem atoiLoop_numeralText (hlo : 2 ≤ radix) (hhi : radix ≤ 36) (sign : Bool)
    (hlt : n < 9223372036854775808)
    (hrest : Stops rest) : atoiLoop radix (numeralText radix n ++ rest) sign 0 =
      some (sign, (n : Int)) := by
  have hvalue := Numeral.foldl_numeral radix n
  have hdigits : ∀ d ∈ numeral radix n, d < radix := fun d hd => Numeral.lt_of_mem_numeral hlo hd
  have hloop :=
    atoiLoop_digits hlo hhi sign hdigits
    (show (numeral radix n).foldl (fun n d => n * radix + d) 0 < _ by
    rw [hvalue]
    exact hlt) rest
  rw [hvalue, atoiLoop_stop hrest] at hloop
  exact hloop

/-- A number is read back, whatever separator is behind it. -/
theorem atoi_numberText (hlo : 2 ≤ radix) (hhi : radix ≤ 36) (hge : -9223372036854775808 < target)
    (hlt : target < 9223372036854775808) (hrest : Stops rest) :
    atoi (numberText radix target ++ rest) radix = some target := by
  have hdigits : ∀ sign, atoiLoop radix (numeralText radix target.natAbs ++ rest) sign 0 =
      some (sign, (target.natAbs : Int)) :=
        fun sign => atoiLoop_numeralText hlo hhi sign (by omega) hrest
  rw [atoi, if_neg (by omega), numberText]
  -- a minus sign is read first
  by_cases hneg : target < 0
  · rw [if_pos hneg, List.append_assoc]
    have hsign : atoiLoop radix (ascii "-" ++ (numeralText radix target.natAbs ++ rest)) false 0 =
        atoiLoop radix (numeralText radix target.natAbs ++ rest) true 0 := if_pos rfl
    rw [hsign, hdigits, Option.bind_some]
    dsimp only
    rw [if_pos rfl, CInt.checked64_of_le (by omega) (by omega)]
    congr 1
    omega
  · rw [if_neg hneg, List.nil_append, hdigits, Option.bind_some]
    dsimp only
    rw [if_neg Bool.false_ne_true]
    congr 1
    omega

/-! ## Addresses -/

/-- A byte of an address. -/
def octetText (byte : Byte) : List Byte := numberText 10 byte.toNat

/-- The bytes of an address, with points between them. -/
def addrText (addr : Ipv4Addr) : List Byte :=
  octetText (addr.bits.extractLsb' 0 8) ++ chr '.' ::
    (octetText (addr.bits.extractLsb' 8 8) ++ chr '.' ::
    (octetText (addr.bits.extractLsb' 16 8) ++ chr '.' :: octetText (addr.bits.extractLsb' 24 8)))

/-- An address and a port. -/
def addrPortText (addr : Ipv4Addr) (port : BitVec 16) : List Byte :=
  addrText addr ++ chr ':' :: numberText 10 port.toNat

/-- One byte of the address, and the others behind it. -/
theorem ip4toaLoop_cons (mem : Nat → Byte) (str : Nat) (byte : Byte) (address : List Byte) :
    ip4toaLoop mem str (byte :: address) =
      ip4toaLoop (blit mem str (octetText byte ++ [chr '.']))
        (str + (octetText byte ++ [chr '.']).length) address := by
  have hbyte := byte.isLt
  have htext : itoaAt mem byte.toNat str 10 =
      some (blit mem str (octetText byte ++ [0]), some (str + (octetText byte).length)) :=
    itoaAt_eq mem str (by omega) (by omega) (by omega) (by omega)
  rw [ip4toaLoop, htext]
  dsimp only
  -- the point takes the place of the null byte
  rw [update_last, List.length_append, List.length_singleton, Nat.add_assoc]

/-- The text of the address and a null byte are written. -/
theorem ip4toaAt_eq (mem : Nat → Byte) (addr : Ipv4Addr) (str : Nat) :
    ip4toaAt mem addr str = some (blit mem str (addrText addr ++ [0]),
      str + (addrText addr).length) := by
  have hloop : ip4toaLoop mem str addr.toBytes =
      some (blit mem str (addrText addr ++ [chr '.']),
        str + (addrText addr ++ [chr '.']).length) := by
    unfold Ipv4Addr.toBytes
    rw [ip4toaLoop_cons, ip4toaLoop_cons, ip4toaLoop_cons, ip4toaLoop_cons, ip4toaLoop]
    simp only [blit_append, Nat.add_assoc, ← List.length_append]
    simp [addrText]
  have hlast : str + (addrText addr ++ [chr '.']).length - 1 = str + (addrText addr).length := by
    rw [List.length_append, List.length_singleton]
    omega
  rw [ip4toaAt, hloop, Option.map_some]
  dsimp only
  rw [hlast, update_last]

/-- `ip4ptoa` leaves the text and a null byte, and returns a pointer to the null byte. -/
theorem ip4ptoaAt_eq (mem : Nat → Byte) (addr : Ipv4Addr) (port : BitVec 16) (str : Nat) :
    ip4ptoaAt mem addr port str =
      some (blit mem str (addrPortText addr port ++ [0]),
        some (str + (addrPortText addr port).length)) := by
  have hport := port.isLt
  have hplace : str + (addrText addr).length + 1 = str + (addrText addr ++ [chr ':']).length := by
    rw [List.length_append, List.length_singleton, Nat.add_assoc]
  rw [ip4ptoaAt, ip4toaAt_eq]
  dsimp only
  rw [update_last, hplace, itoaAt_eq _ _ (by omega) (by omega) (by omega) (by omega), blit_append]
  simp [addrPortText]
  omega

/-! ## Addresses are read back -/

/-- A byte has at most three digits. -/
theorem length_octetText_le (byte : Byte) : (octetText byte).length ≤ 3 := by
  have hbyte := byte.isLt
  have hdigits : (numeral 10 byte.toNat).length ≤ 3 :=
    (Numeral.length_numeral_le (by omega) (by omega)).mpr (by omega)
  rw [octetText, numberText, if_neg (by omega), List.nil_append, numeralText, List.length_map]
  exact hdigits

/-- No separator, and no null byte, is a digit. -/
theorem not_mem_numberText (c : Byte) (hc : c = 0 ∨ c = chr '.' ∨ c = chr ':') (n : Nat) :
    c ∉ numberText 10 n := by
  intro h
  rw [numberText, if_neg (by omega), List.nil_append] at h
  obtain ⟨d, hd, rfl⟩ := exists_of_mem_numeralText (by omega) h
  obtain ⟨-, -, -, hzero, hpoint, hcolon⟩ := alphabet_spec d (by omega)
  rcases hc with hc | hc | hc
  · exact hzero hc
  · exact hpoint hc
  · exact hcolon hc

/-- The first occurrence within the limit. -/
theorem strchrLimit_append {c : Byte} (hc : c ∉ t) {limit : Nat} (hlt : t.length < limit)
    (rest : List Byte) :
    strchrLimit c limit (t ++ c :: rest) = some t.length := by
  induction t generalizing limit with
  | nil =>
    obtain ⟨limit, rfl⟩ := Nat.exists_eq_succ_of_ne_zero (by omega : limit ≠ 0)
    rw [List.nil_append, strchrLimit, if_pos rfl]
    rfl
  | cons d t ih =>
    obtain ⟨limit, rfl⟩ := Nat.exists_eq_succ_of_ne_zero (by omega : limit ≠ 0)
    rw [List.length_cons] at hlt
    rw [List.cons_append, strchrLimit, if_neg (fun hd : d = c => hc (hd ▸ List.mem_cons_self)),
      ih (fun ht => hc (List.mem_cons_of_mem d ht)) (by omega)]
    rfl

/-- A byte of the address is read back. -/
theorem atoi_octetText (byte : Byte) (hrest : Stops rest) : atoi (octetText byte ++ rest) 10 = some
    (byte.toNat : Int) := by
  have hbyte := byte.isLt
  exact atoi_numberText (by omega) (by omega) (by omega) (by omega) hrest

/-- A byte with another one behind it: the point is among the first four characters. -/
theorem atoip4Loop_succ (n : Nat) (byte : Byte) (rest ip : List Byte) :
    atoip4Loop (n + 1) (octetText byte ++ chr '.' :: rest) ip =
      atoip4Loop n rest (ip.set (3 - (n + 1)) byte) := by
  have hlen := length_octetText_le byte
  have hpoint := strchrLimit_append (not_mem_numberText (chr '.') (.inr (.inl rfl)) byte.toNat)
    (show (octetText byte).length < 4 by omega) rest
  have hdrop : (octetText byte ++ chr '.' :: rest).drop ((octetText byte).length + 1) = rest := by
    rw [← List.drop_drop, List.drop_left]
    rfl
  rw [← octetText] at hpoint
  rw [atoip4Loop, atoi_octetText byte (stops_point rest), Option.bind_some]
  dsimp only
  rw [hpoint]
  dsimp only
  rw [hdrop, BitVec.ofInt_natCast, BitVec.ofNat_toNat, BitVec.setWidth_eq]

/-- The last byte. -/
theorem atoip4Loop_zero (byte : Byte) (ip : List Byte) (hrest : Stops rest) :
    atoip4Loop 0 (octetText byte ++ rest) ip = some (1, ip.set 3 byte) := by
  rw [atoip4Loop, atoi_octetText byte hrest, Option.bind_some]
  dsimp only
  rw [BitVec.ofInt_natCast, BitVec.ofNat_toNat, BitVec.setWidth_eq]

/-- All four bytes are read, up to what the text is followed by. -/
theorem atoip4_addrText (addr ip : Ipv4Addr) (hrest : Stops rest) :
    atoip4 (addrText addr ++ rest) ip = some (1, addr) := by
  have hloop : atoip4Loop 3 (addrText addr ++ rest) ip.toBytes = some (1, addr.toBytes) := by
    unfold addrText
    simp only [List.append_assoc, List.cons_append]
    rw [atoip4Loop_succ, atoip4Loop_succ, atoip4Loop_succ, atoip4Loop_zero _ _ hrest]
    rfl
  have hread := Ipv4Addr.read_toBytes addr []
  rw [List.append_nil] at hread
  rw [atoip4, hloop, Option.map_some]
  dsimp only
  rw [hread]

/-- The text has at most 15 characters. -/
theorem length_addrText_le (addr : Ipv4Addr) : (addrText addr).length ≤ 15 := by
  have h0 := length_octetText_le (addr.bits.extractLsb' 0 8)
  have h1 := length_octetText_le (addr.bits.extractLsb' 8 8)
  have h2 := length_octetText_le (addr.bits.extractLsb' 16 8)
  have h3 := length_octetText_le (addr.bits.extractLsb' 24 8)
  simp only [addrText, List.length_append, List.length_cons]
  omega

/-- Neither the colon nor a null byte is in the text of an address. -/
theorem not_mem_addrText {c : Byte} (hc : c = 0 ∨ c = chr ':') (addr : Ipv4Addr) :
    c ∉ addrText addr := by
  have hpoint : c ≠ chr '.' := by
    rcases hc with rfl | rfl <;> decide
  have hoctet : ∀ byte : Byte, c ∉ octetText byte := fun byte =>
    not_mem_numberText c (hc.imp id .inr) byte.toNat
  simp only [addrText, List.mem_append, List.mem_cons, hpoint, hoctet, or_self, not_false_eq_true]

/-- The text with a port has no null byte. -/
theorem zero_not_mem_addrPortText (addr : Ipv4Addr) (port : BitVec 16) :
    0 ∉ addrPortText addr port := by
  have hcolon : (0 : Byte) ≠ chr ':' := by decide
  have haddr := not_mem_addrText (c := 0) (.inl rfl) addr
  have hport := not_mem_numberText 0 (.inl rfl) port.toNat
  simp only [addrPortText, List.mem_append, List.mem_cons, hcolon, haddr, hport, or_self,
    not_false_eq_true]

/-- The address and the port are read back: the colon is among the first sixteen characters. -/
theorem atoip4p_addrText (addr ip : Ipv4Addr) (port oldPort : BitVec 16) :
    atoip4p (addrPortText addr port) ip oldPort = some (1, addr, port) := by
  have hlen := length_addrText_le addr
  have hcolon := strchrLimit_append (not_mem_addrText (.inr rfl) addr) (show _ < 16 by omega)
    (numberText 10 port.toNat)
  have hdrop : (addrText addr ++ chr ':' :: numberText 10 port.toNat).drop
    ((addrText addr).length + 1) =
      numberText 10 port.toNat ++ [] := by
    rw [← List.drop_drop, List.drop_left, List.append_nil]
    rfl
  have hport := port.isLt
  rw [atoip4p, addrPortText, atoip4_addrText addr ip (stops_colon _), Option.bind_some]
  dsimp only
  rw [if_neg (by decide), hcolon]
  dsimp only
  rw [hdrop, atoi_numberText (by omega) (by omega) (by omega) (by omega) stops_nil, Option.map_some,
    BitVec.ofInt_natCast, BitVec.ofNat_toNat, BitVec.setWidth_eq]

/-- `itoa` writes a text that `atoi` reads as the number, and returns a pointer to its null
    byte; `ip4ptoa` writes a text that `atoip4p` reads as the address and the port. -/
theorem atoi_itoa_atoip4p_ip4ptoa :
    (∀ (mem : Nat → Byte) (buf radix : Nat) (x : Int), 2 ≤ radix → radix ≤ 36 →
      -9223372036854775808 < x → x < 9223372036854775808 →
      ∃ text : List Byte, 0 ∉ text ∧
        itoaAt mem x buf radix = some (blit mem buf (text ++ [0]), some (buf + text.length)) ∧
        atoi text radix = some x) ∧
    (∀ (mem : Nat → Byte) (addr : Ipv4Addr) (port : BitVec 16) (str : Nat),
      ∃ text : List Byte, 0 ∉ text ∧
        ip4ptoaAt mem addr port str = some (blit mem str (text ++ [0]), some (str + text.length)) ∧
        ∀ (ip : Ipv4Addr) (oldPort : BitVec 16), atoip4p text ip oldPort =
          some (1, addr, port)) := by
  constructor
  · intro mem buf radix x hlo hhi hge hlt
    -- the text ends with a null byte, where `atoi` stops
    have hback := atoi_numberText hlo hhi hge hlt stops_nil
    rw [List.append_nil] at hback
    exact ⟨numberText radix x, zero_not_mem_numberText hlo hhi x,
      itoaAt_eq mem buf hlo hhi hge hlt, hback⟩
  · intro mem addr port str
    exact ⟨addrPortText addr port, zero_not_mem_addrPortText addr port,
      ip4ptoaAt_eq mem addr port str,
      fun ip oldPort => atoip4p_addrText addr ip port oldPort⟩

/-- `-255` in hexadecimal, and the address and the port of a connection. -/
theorem atoi_itoa_atoip4p_ip4ptoa_applied :
    (∃ text : List Byte, 0 ∉ text ∧
      itoaAt (fun _ => 0x55) (-255) 4096 16 =
        some (blit (fun _ => 0x55) 4096 (text ++ [0]), some (4096 + text.length)) ∧
      atoi text 16 = some (-255)) ∧
    (∃ text : List Byte, 0 ∉ text ∧
      ip4ptoaAt (fun _ => 0x55) (.ofBytes 192 168 0 1) 8080 4096 =
        some (blit (fun _ => 0x55) 4096 (text ++ [0]), some (4096 + text.length)) ∧
      ∀ (ip : Ipv4Addr) (oldPort : BitVec 16),
        atoip4p text ip oldPort = some (1, .ofBytes 192 168 0 1, 8080)) :=
  ⟨atoi_itoa_atoip4p_ip4ptoa.1 (fun _ => 0x55) 4096 16 (-255) (by decide) (by decide)
    (by decide) (by decide),
    atoi_itoa_atoip4p_ip4ptoa.2 (fun _ => 0x55) (.ofBytes 192 168 0 1) 8080 4096⟩

end MishaOS
