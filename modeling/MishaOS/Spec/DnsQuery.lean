import MishaOS.ForStd.Bytes
import MishaOS.Spec.DnsMessage

/-!
# The question of a DNS query

`dns_query_host` writes the name in one pass and puts the length of each label
where the dot in front of it stood.  The bytes in the buffer are the encoding of
the name's labels, which the parser skips and a decoder takes apart again.

## Key results

- `dnsWriteHost_spec`: the pass over the name, with the label that is not finished yet.
- `dnsLabels_eq`: what is written are the labels between the dots.
- `dns_query_host_round_trip`: the packet, decoded.
-/

namespace MishaOS

open Bytes Checked

variable {mem : Nat → Byte} {host label : List Byte} {h : Nat}

/-! ## Writing the name -/

theorem at_update_of_le {a : Nat} {l : List Byte} (hl : At mem h l)
    (ha : h + l.length ≤ a) (x : Byte) :
    At (Function.update mem a x) h l := by
  apply hl.congr
  intro b _ hb
  exact Function.update_of_ne (by omega) _ _

theorem at_update_of_lt {a : Nat} {l : List Byte} (hl : At mem h l) (ha : a < h) (x : Byte) :
    At (Function.update mem a x) h l := by
  apply hl.congr
  intro b hb _
  exact Function.update_of_ne (by omega) _ _

/-- The label that has been read stands behind the byte for its length. -/
theorem at_finish {q : Nat} (hl : At mem (h + 1) label) (hq : q = h + 1 + label.length) (c : Byte) :
    At (Function.update (Function.update mem h (BitVec.ofNat 8 (q - h - 1))) q c) h
      (encodeLabel label ++ [c]) := by
  have hlen : q - h - 1 = label.length := by omega
  have hend : h + (encodeLabel label).length = q := by
    simp only [encodeLabel, List.length_cons]
    omega
  rw [hlen, at_append, hend]
  constructor
  · apply at_update_of_le _ (Nat.le_of_eq hend)
    rw [encodeLabel, at_cons]
    exact ⟨Function.update_self _ _ _, at_update_of_lt hl (Nat.lt_succ_self h) _⟩
  · rw [at_cons]
    exact ⟨Function.update_self _ _ _, at_nil⟩

/-- The pass over the rest of a name, with `label` read of the current label. -/
theorem dnsWriteHost_spec (mem : Nat → Byte) (host label : List Byte) (h : Nat) (hhost : 0 ∉ host)
    (hl : At mem (h + 1) label) :
    ∃ mem', dnsWriteHost (host ++ [0]) mem (h + 1 + label.length) h =
        (mem', h + (dnsLabels host label).length) ∧
      At mem' h (dnsLabels host label) ∧ ∀ a < h, mem' a = mem a := by
  induction host generalizing mem label h with
  -- The zero byte of the string ends the last label.
  | nil =>
    have hfin := at_finish hl rfl 0
    refine ⟨_, ?_, hfin, fun a ha => ?_⟩
    · simp only [dnsLabels, List.nil_append, dnsWriteHost, or_true, if_true, List.length_cons,
        List.length_append, List.length_nil]
      congr 1
      omega
    · rw [Function.update_of_ne (by omega), Function.update_of_ne (by omega)]
  | cons c host ih =>
    have hc0 : c ≠ 0 := fun hc => hhost (hc ▸ List.mem_cons_self)
    have hrest : 0 ∉ host := fun hmem => hhost (List.mem_cons_of_mem _ hmem)
    by_cases hdot : c = 46
    · -- the label ends here, and the next one starts in the place of the dot
      have hfin := at_finish hl rfl c
      obtain ⟨hlab, -⟩ := at_append.mp hfin
      obtain ⟨mem', hrun, hat, hkeep⟩ := ih
        (Function.update (Function.update mem h (BitVec.ofNat 8 (h + 1 + label.length - h - 1)))
          (h + 1 + label.length) c) [] (h + 1 + label.length) hrest at_nil
      have hlabels : dnsLabels (c :: host) label = encodeLabel label ++ dnsLabels host [] := by
        simp [dnsLabels, hdot, encodeLabel]
      have hlen : h + (encodeLabel label).length = h + 1 + label.length := by
        simp only [encodeLabel, List.length_cons]
        omega
      refine ⟨mem', ?_, ?_, fun a ha => ?_⟩
      · rw [hlabels, List.cons_append, dnsWriteHost]
        simp only [hdot, true_or, if_true, if_neg (show ¬ (46 : Byte) = 0 by decide)]
        rw [hdot] at hrun
        rw [List.length_nil, Nat.add_zero] at hrun
        rw [hrun, List.length_append, ← Nat.add_assoc, hlen]
      · rw [hlabels, at_append, hlen]
        refine ⟨hlab.congr fun a _ ha => ?_, hat⟩
        exact hkeep a (by omega)
      · rw [hkeep a (by omega), Function.update_of_ne (by omega), Function.update_of_ne (by omega)]
    -- Any other character is written behind the label read so far.
    · have hnext : At (Function.update mem (h + 1 + label.length) c) (h + 1) (label ++ [c]) := by
        rw [at_append, at_cons]
        exact ⟨at_update_of_le hl (Nat.le_refl _) _, Function.update_self _ _ _, at_nil⟩
      obtain ⟨mem', hrun, hat, hkeep⟩ := ih _ _ h hrest hnext
      have hlabels : dnsLabels (c :: host) label = dnsLabels host (label ++ [c]) := by
        rw [dnsLabels, if_neg hdot]
      rw [List.length_append, List.length_singleton, ← Nat.add_assoc] at hrun
      refine ⟨mem', ?_, ?_, fun a ha => ?_⟩
      · rw [hlabels, List.cons_append, dnsWriteHost]
        simp only [hdot, hc0, or_self, if_false]
        exact hrun
      · rw [hlabels]
        exact hat
      · rw [hkeep a ha, Function.update_of_ne (by omega)]

/-! ## The packet -/

theorem blit_keeps {pos a : Nat} {l : List Byte} (ha : a < pos) : Ring.blit mem pos l a = mem a :=
  Ring.blit_outside (.inl ha)

/-- The buffer holds the query that is sent. -/
theorem dnsQueryPacket_eq (mem : Nat → Byte) (id : BitVec 32) (host : CString)
    (hlen : host.bytes.length < 256) :
    dnsQueryPacket mem id host = some (dnsQuery id host) := by
  have hsplit : dnsQuery id host = (be16 (id.setWidth 16) ++ be16 0x0100 ++ be16 1 ++ be16 0 ++
    be16 0 ++ be16 0) ++
      (dnsLabels host.bytes [] ++ (be16 1 ++ be16 1)) := by
    simp [dnsQuery, be16]
  have h12 : (be16 (id.setWidth 16) ++ be16 0x0100 ++ be16 1 ++ be16 0 ++ be16 0 ++ be16 0).length =
      12 := rfl
  simp only [dnsQueryPacket, if_neg (show ¬ host.bytes.length ≥ 256 by omega)]
  generalize be16 (id.setWidth 16) ++ be16 0x0100 ++ be16 1 ++ be16 0 ++ be16 0 ++ be16 0 =
    header at hsplit h12 ⊢
  -- The header first, then the labels from offset 12, then type and class behind the last label.
  obtain ⟨mem', hrun, hat, hkeep⟩ := dnsWriteHost_spec (Ring.blit mem 0 header) host.bytes [] 12
    host.noNull at_nil
  rw [show (13 : Nat) = 12 + 1 + ([] : List Byte).length from rfl, hrun]
  dsimp only
  have hq : 12 + (dnsLabels host.bytes []).length + 2 + 2 = (dnsQuery id host).length := by
    rw [hsplit]
    simp only [be16, List.length_append, List.length_cons, List.length_nil]
    omega
  rw [hq, At.slice_eq]
  rw [hsplit, at_append, at_append, at_append, h12, Nat.zero_add]
  have hheader : At (Ring.blit mem 0 header) 0 header := blit_at
  have htype : At (Ring.blit mem' (12 + (dnsLabels host.bytes []).length) (be16 1))
      (12 + (dnsLabels host.bytes []).length) (be16 1) := blit_at
  -- nothing that is written later touches a part
  refine ⟨hheader.congr fun a _ ha => ?_, hat.congr fun a _ ha => ?_,
    htype.congr fun a _ ha => blit_keeps ha,
    blit_at⟩
  · rw [h12] at ha
    rw [blit_keeps (by omega), blit_keeps (by omega), hkeep a (by omega)]
  · rw [blit_keeps (by omega), blit_keeps (by omega)]

/-! ## Labels -/

theorem dnsLabels_split (host label : List Byte) :
    dnsLabels host label = ((host.splitOn 46).modifyHead (label ++ ·)).flatMap encodeLabel ++
      [0] := by
  induction host generalizing label with
  | nil => simp [dnsLabels, List.splitOn_nil, encodeLabel]
  | cons c host ih =>
    rw [dnsLabels, List.splitOn_cons_eq_if_modifyHead]
    by_cases hdot : c = 46
    · rw [if_pos hdot, if_pos (beq_iff_eq.mpr hdot), ih]
      have hhead : (host.splitOn 46).modifyHead (([] : List Byte) ++ ·) = host.splitOn 46 := by
        cases host.splitOn (46 : Byte) with
        | nil => rfl
        | cons x xs => rfl
      rw [hhead]
      simp [encodeLabel]
    -- The character belongs to the first label of the rest.
    · rw [if_neg hdot, if_neg (by simpa using hdot), ih]
      cases host.splitOn (46 : Byte) with
      | nil => rfl
      | cons x xs => simp

theorem dnsLabels_eq (host : List Byte) :
    dnsLabels host [] = (host.splitOn 46).flatMap encodeLabel ++ [0] := by
  rw [dnsLabels_split]
  cases host.splitOn (46 : Byte) with
  | nil => rfl
  | cons x xs => rfl

/-- The labels in front of the first zero byte, each behind its length. -/
def decodeLabels : Nat → List Byte → Option (List (List Byte))
  | 0, _ => none
  | _ + 1, [] => none
  | n + 1, c :: l =>
    if c = 0 then some []
    else if 64 ≤ c.toNat ∨ l.length < c.toNat then none
    else (decodeLabels n (l.drop c.toNat)).map (l.take c.toNat :: ·)

theorem decodeLabels_encode {ls : List (List Byte)} (hls : ∀ l ∈ ls, 1 ≤ l.length ∧ l.length ≤ 63)
    (back : List Byte) {n : Nat} (hn : ls.length < n) :
    decodeLabels n (ls.flatMap encodeLabel ++ 0 :: back) = some ls := by
  induction ls generalizing n with
  | nil =>
    obtain ⟨n, rfl⟩ := Nat.exists_eq_succ_of_ne_zero (Nat.pos_iff_ne_zero.mp hn)
    simp [decodeLabels]
  | cons l ls ih =>
    obtain ⟨n, rfl⟩ :=
      Nat.exists_eq_succ_of_ne_zero (Nat.pos_iff_ne_zero.mp (Nat.lt_of_le_of_lt (Nat.zero_le _) hn))
    have hl := hls l List.mem_cons_self
    have hlen : (BitVec.ofNat 8 l.length).toNat = l.length := by
      rw [BitVec.toNat_ofNat]
      omega
    have hne : BitVec.ofNat 8 l.length ≠ 0 := fun h => by
      have : l.length = 0 := by rw [← hlen, h]; rfl
      omega
    have hrest := ih (fun x hx => hls x (List.mem_cons_of_mem _ hx)) (n := n)
      (by simp only [List.length_cons] at hn; omega)
    have hcons : (l :: ls).flatMap encodeLabel ++ 0 :: back =
        BitVec.ofNat 8 l.length :: (l ++ (ls.flatMap encodeLabel ++ 0 :: back)) := by
      simp [encodeLabel]
    -- The length byte gives back the label, which is at most 63 bytes long.
    rw [hcons, decodeLabels, if_neg hne, hlen, if_neg, List.drop_left, List.take_left, hrest]
    · rfl
    · simp only [List.length_append]
      omega

theorem length_le_flatMap_encodeLabel (ls : List (List Byte)) :
    ls.length ≤ (ls.flatMap encodeLabel).length := by
  induction ls with
  | nil => exact Nat.zero_le _
  | cons l ls ih =>
    simp only [List.flatMap_cons, List.length_append, encodeLabel, List.length_cons] at ih ⊢
    omega

/-- The question of a name with labels of 1 to 63 bytes: a decoder gets the name back,
    and `skip_host` stops at the type, behind which the packet ends. -/
theorem dns_query_host_round_trip (mem : Nat → Byte) (id : BitVec 32) (host : CString)
    (hlen : host.bytes.length < 256)
    (hlabels : ∀ l ∈ host.bytes.splitOn 46, 1 ≤ l.length ∧ l.length ≤ 63) :
    ∃ packet labels q, dnsQueryPacket mem id host = some packet ∧ packet = dnsQuery id host ∧
      decodeLabels packet.length (packet.drop 12) = some labels ∧
      [46].intercalate labels = host.bytes ∧
      skipHost packet 12 = .ok q ∧ be16At packet q = .ok 1 ∧ be16At packet (q + 2) = .ok 1 ∧
      packet.length = q + 4 := by
  have hpacket :
    dnsQuery id host = (be16 (id.setWidth 16) ++ be16 0x0100 ++ be16 1 ++ [0, 0, 0, 0, 0, 0]) ++
      ((host.bytes.splitOn 46).flatMap encodeLabel ++ 0 :: (be16 1 ++ be16 1)) := by
    simp [dnsQuery, dnsLabels_eq]
  generalize hfront : be16 (id.setWidth 16) ++ be16 0x0100 ++ be16 1 ++ [0, 0, 0, 0, 0, 0] =
    front at hpacket
  have h12 : front.length = 12 := by rw [← hfront]; rfl
  -- the name, from the place of the first length byte up to the type
  generalize hname : (host.bytes.splitOn 46).flatMap encodeLabel = name at hpacket
  have hlong : (dnsQuery id host).length = 12 + name.length + 1 + 4 := by
    rw [hpacket]
    simp only [List.length_append, List.length_cons, be16, List.length_nil]
    omega
  -- Type and class are the four bytes behind the zero byte of the name.
  have htype : dnsQuery id host = (front ++ name ++ [0]) ++ (be16 1 ++ be16 1) := by
    rw [hpacket]
    simp
  have hcls : dnsQuery id host = (front ++ name ++ [0] ++ be16 1) ++ (be16 1 ++ []) := by
    rw [hpacket]
    simp
  have hpos : (front ++ name ++ [0]).length = 12 + name.length + 1 := by
    simp only [List.length_append, List.length_singleton, h12]
  refine ⟨_, host.bytes.splitOn 46, 12 + name.length + 1,
    dnsQueryPacket_eq mem id host hlen, rfl, ?_,
    List.intercalate_splitOn _, ?_, ?_, ?_, hlong⟩
  -- A label takes at least one byte, so the packet's length is enough fuel for the decoder.
  · have hcount := length_le_flatMap_encodeLabel (host.bytes.splitOn 46)
    rw [hname] at hcount
    have hdrop : (dnsQuery id host).drop 12 = name ++ 0 :: (be16 1 ++ be16 1) := by
      rw [hpacket, ← h12, List.drop_left]
    rw [hdrop, ← hname]
    exact decodeLabels_encode hlabels _ (by omega)
  · rw [hpacket, ← hname, skipHost_eq_ok]
    have hwalk := nameAt_labels front (0 :: (be16 1 ++ be16 1)) (q := 12 + name.length + 1) hlabels
    rw [h12, hname] at hwalk
    rw [hname]
    apply hwalk
    refine .root ?_
    rw [← List.append_assoc, List.getElem?_append_right (by simp [h12])]
    simp [h12]
  · rw [htype, ← hpos]
    exact be16At_be16 _ 1 _
  · have := be16At_be16 (front ++ name ++ [0] ++ be16 1) 1 []
    rwa [← hcls, List.length_append, hpos] at this

/-- The name `mc.ex.o`, asked for in a buffer of zeros. -/
theorem dns_query_host_round_trip_three_labels : ∃ packet, dnsQueryPacket (fun _ => 0) 1
      ⟨[0x6D, 0x63, 46, 0x65, 0x78, 46, 0x6F], by decide⟩ = some packet ∧
      packet.length = 12 + 9 + 4 ∧
    skipHost packet 12 = .ok 21 := by
  obtain ⟨packet, labels, q, hpacket, -, -, -, hskip, -, -, hlong⟩ :=
    dns_query_host_round_trip (fun _ => 0) 1
    ⟨[0x6D, 0x63, 46, 0x65, 0x78, 46, 0x6F], by decide⟩ (by decide) (by decide)
  have hpk : packet.length = 25 := by
    rw [Option.some.inj (hpacket.symm.trans (dnsQueryPacket_eq _ 1 _ (by decide)))]
    rfl
  obtain rfl : q = 21 := by omega
  exact ⟨packet, hpacket, hpk, hskip⟩

end MishaOS
