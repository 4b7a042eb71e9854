import MishaOS.Spec.McVarint
import Mathlib.Data.List.Basic

/-!
# Packets in chunks

The receive path collects a packet from chunks, but takes all it has collected
for one packet, and reads the length of a packet from its first chunk alone.
So the chunks must end where the packets end, and the first chunk of a packet
must have its length.

## Key results

- `mc_read_packet_chunks`: for chunks like this every packet is handled once
  and in order, whatever is in memory behind the chunks; and for no others.
- `mc_read_packet_merges`: two packets in one chunk.
-/

namespace MishaOS

variable {α : Type*} {tables : McTables α} {s s' : McRx α} {c : McChunk} {acc : List Byte}
    {ptr : Mem} {L : Nat}

/-! ## Packets -/

/-- A packet on the wire. -/
structure McFrame where
  id : BitVec 32
  payload : List Byte
deriving DecidableEq

namespace McFrame

def body (f : McFrame) : List Byte := mcVarencode f.id ++ f.payload

/-- The length in front. -/
def head (f : McFrame) : List Byte := mcVarencode (BitVec.ofNat 32 f.body.length)

def bytes (f : McFrame) : List Byte := f.head ++ f.body

/-- One call of the decoder and one of the handler, with the fields of the packet. -/
def calls (tables : McTables α) (f : McFrame) : List (McCall α) :=
  match tables.decoder f.id.toNat with
  | some decoder =>
    .decode f.id.toNat f.payload :: .handle f.id.toNat (decoder f.payload) ::
      if tables.deallocator f.id.toNat then [.dealloc f.id.toNat (decoder f.payload)] else []
  | none => []

/-- The packet fits the buffer, and there are a decoder and a handler. -/
structure WellFormed (tables : McTables α) (f : McFrame) : Prop where
  length_le : f.bytes.length ≤ 16384
  id_lt : f.id.toNat < 255
  decoder : (tables.decoder f.id.toNat).isSome
  handler : tables.handler f.id.toNat = true

variable {f : McFrame}

/-- A frame is its head and its body. -/
theorem length_bytes (f : McFrame) : f.bytes.length = f.head.length + f.body.length :=
  List.length_append

/-- The body is the id and the payload. -/
theorem length_body (f : McFrame) : f.body.length = (mcVarencode f.id).length + f.payload.length :=
  List.length_append

/-- The head is not empty. -/
theorem head_pos (f : McFrame) : 0 < f.head.length := length_varencode_pos _

/-- The length of a packet in memory. -/
theorem packetLen (h : ReadsAt ptr 0 f.head) :
    mcPacketLen ptr = BitVec.ofNat 32 f.bytes.length ∧ (mcVardecode ptr).2 = f.head.length := by
  have hdecode := mcVardecode_encode h
  refine ⟨?_, congrArg Prod.snd hdecode⟩
  unfold mcPacketLen
  rw [hdecode]
  dsimp only
  rw [mcVarlen_eq, length_bytes, Nat.add_comm, BitVec.ofNat_add]
  rfl

/-- What is done with a packet in memory: its fields go up to `stop`. -/
theorem packet (hf : f.WellFormed tables) (h : ReadsAt ptr 0 f.bytes) (stop : Nat) :
    mcPacket tables ptr stop (BitVec.ofNat 32 f.bytes.length) = mcDispatch tables f.id.toNat
      (bytesBetween ptr (f.head.length + (mcVarencode f.id).length) stop) := by
  obtain ⟨hhead, hbody⟩ := readsAt_append.mp h
  obtain ⟨hid, -⟩ := readsAt_append.mp hbody
  obtain ⟨hlen, hread⟩ := packetLen hhead
  have hid' : ReadsAt (fun i => ptr (f.head.length + i)) 0 (mcVarencode f.id) := by
    intro k b hk
    have hb := hid k b hk
    rw [Nat.zero_add] at hb ⊢
    exact hb
  unfold mcPacket
  rw [if_neg (not_not.mpr hlen), hread]
  dsimp only
  rw [mcVardecode_encode hid', Nat.mod_eq_of_lt hf.id_lt]

/-- A frame with its id is dispatched. -/
theorem dispatch (hf : f.WellFormed tables) (payload : List Byte) :
    mcDispatch tables f.id.toNat payload = calls tables { f with payload := payload } := by
  obtain ⟨decoder, hdecoder⟩ := Option.isSome_iff_exists.mp hf.decoder
  unfold mcDispatch calls
  dsimp only
  rw [hdecoder, hf.handler]
  rfl

end McFrame

/-- The bytes of a payload. -/
theorem bytesBetween_eq {start : Nat} {l : List Byte} (h : ReadsAt ptr start l) :
    bytesBetween ptr start (start + l.length) = l := by
  unfold bytesBetween
  rw [Nat.add_sub_cancel_left]
  apply List.ext_getElem
  · rw [List.length_map, List.length_range]
  · intro i hi hi'
    rw [List.getElem_map, List.getElem_range]
    exact h i _ (List.getElem?_eq_getElem hi')

/-- Their number. -/
theorem length_bytesBetween (ptr : Mem) (start stop : Nat) :
    (bytesBetween ptr start stop).length = stop - start := by
  unfold bytesBetween
  rw [List.length_map, List.length_range]

/-! ## One chunk -/

/-- The buffer has the bytes `acc` of a packet of `L` bytes. -/
structure Collecting (s : McRx α) (acc : List Byte) (L : Nat) : Prop where
  holds : ReadsAt s.rxPtr 0 acc
  cnt : s.rxCnt = BitVec.ofNat 32 acc.length
  pos : s.rxPos = BitVec.ofNat 32 acc.length
  len : acc ≠ [] → s.rxLen = BitVec.ofNat 32 L

/-- Nothing is collected. -/
def Idle (s : McRx α) : Prop := s.rxCnt = 0 ∧ s.rxPos = 0

/-- An idle receiver has collected nothing. -/
theorem Idle.collecting (h : Idle s) (L : Nat) : Collecting s [] L :=
  ⟨(fun _ _ hk => nomatch hk), h.1, h.2, fun hne => absurd rfl hne⟩

/-- A chunk begins with its data. -/
theorem readsAt_buf (c : McChunk) : ReadsAt c.buf 0 c.data := by
  intro k b hk
  rw [Nat.zero_add, McChunk.buf, hk]
  rfl

/-- The buffer takes what it has room for. -/
theorem toNat_rxBytes {cnt len : Nat} (hcnt : cnt ≤ 16384) (hlen : len < 2147483648) :
    (mcRxBytes (BitVec.ofNat 32 cnt) (BitVec.ofNat 32 len)).toNat = min len (16384 - cnt) := by
  -- the 32-bit difference is what is left of the buffer, or how much is too much
  have hoverflow : (RX_BUF_SIZE - (BitVec.ofNat 32 cnt + BitVec.ofNat 32 len)).toInt =
      16384 - ((cnt : Int) + len) := by
    rw [BitVec.toInt_eq_toNat_cond, BitVec.toNat_sub, BitVec.toNat_add, BitVec.toNat_ofNat,
      BitVec.toNat_ofNat,
      show RX_BUF_SIZE.toNat = 16384 from rfl]
    omega
  unfold mcRxBytes
  dsimp only
  rw [hoverflow]
  split
  -- the buffer would overflow: the length is cut by what is too much
  · rename_i hneg
    have hback : (BitVec.ofInt 32 (-(16384 - ((cnt : Int) + len)))).toNat = cnt + len - 16384 := by
      rw [BitVec.toNat_ofInt]
      omega
    split <;> rename_i hge
    · have hge' : (BitVec.ofNat 32 len).toNat ≤
          (BitVec.ofInt 32 (-(16384 - ((cnt : Int) + len)))).toNat := hge
      rw [hback, BitVec.toNat_ofNat] at hge'
      show 0 = _
      omega
    · rw [BitVec.toNat_add, BitVec.toNat_ofNat, BitVec.toNat_ofInt]
      have hlt : ¬ (BitVec.ofNat 32 len).toNat ≤
          (BitVec.ofInt 32 (-(16384 - ((cnt : Int) + len)))).toNat := hge
      rw [hback, BitVec.toNat_ofNat] at hlt
      omega
  -- the whole chunk fits
  · rw [BitVec.toNat_ofNat]
    omega

/-- What is copied is behind what was there. -/
theorem readsAt_memcpy {src : Mem} {l : List Byte} (h : ReadsAt ptr 0 acc)
    (hsrc : ReadsAt src 0 l) (n : Nat) :
    ReadsAt (memcpy ptr acc.length src n) 0 (acc ++ l.take n) := by
  refine readsAt_append.mpr ⟨fun k b hk => ?_, fun k b hk => ?_⟩
  · have hlt := (List.getElem?_eq_some_iff.mp hk).1
    rw [memcpy, if_neg (by omega)]
    exact h k b hk
  · have hlt := (List.getElem?_eq_some_iff.mp hk).1
    rw [List.length_take] at hlt
    rw [List.getElem?_take_of_lt (by omega)] at hk
    rw [memcpy, if_pos (by omega), show 0 + acc.length + k - acc.length = 0 + k by omega]
    exact hsrc k b hk

/-- A chunk more.  When all bytes of the packet are there, all bytes in the buffer are taken for it.
    -/
theorem mcReadPacket_spec (tables : McTables α) (h : Collecting s acc L) (hlen : acc.length ≤ 16384)
    (hshort : acc.length + c.data.length < 2147483648) (hL : L < 4294967296)
    (hfirst : acc = [] → mcPacketLen c.buf = BitVec.ofNat 32 L) :
    ∃ ptr, ReadsAt ptr 0 ((acc ++ c.data).take 16384) ∧ mcReadPacket tables s c =
      if L ≤ (acc ++ c.data).length then
        ⟨ptr, 0, 0, 0, s.calls ++
          mcPacket tables ptr (min (acc ++ c.data).length 16384) (BitVec.ofNat 32 L)⟩
      else ⟨ptr, BitVec.ofNat 32 (min (acc ++ c.data).length 16384), BitVec.ofNat 32 L,
        BitVec.ofNat 32 (acc ++ c.data).length, s.calls⟩ := by
  -- the four assignments of the source, one by one
  have hrx : (mcRxBytes s.rxCnt c.len).toNat = min c.data.length (16384 - acc.length) := by
    rw [h.cnt]
    exact toNat_rxBytes hlen (by omega)
  have hcnt : s.rxCnt + mcRxBytes s.rxCnt c.len =
      BitVec.ofNat 32 (min (acc ++ c.data).length 16384) := by
    apply BitVec.eq_of_toNat_eq
    rw [BitVec.toNat_add, hrx, h.cnt, BitVec.toNat_ofNat, BitVec.toNat_ofNat, List.length_append]
    omega
  have hpos : s.rxPos + c.len = BitVec.ofNat 32 (acc ++ c.data).length := by
    rw [h.pos, List.length_append, BitVec.ofNat_add]
    rfl
  have hrxLen : (if s.rxPos = 0 then mcPacketLen c.buf else s.rxLen) = BitVec.ofNat 32 L := by
    by_cases hacc : acc = []
    · rw [if_pos (by rw [h.pos, hacc]; rfl), hfirst hacc]
    · have hpos : 0 < acc.length := List.length_pos_iff.mpr hacc
      have hne : s.rxPos ≠ 0 := by
        rw [h.pos]
        intro hzero
        have hnat := congrArg BitVec.toNat hzero
        rw [BitVec.toNat_ofNat] at hnat
        change _ = 0 at hnat
        omega
      rw [if_neg hne, h.len hacc]
  have hcntNat : s.rxCnt.toNat = acc.length := by
    rw [h.cnt, BitVec.toNat_ofNat]
    omega
  have hreads := readsAt_memcpy h.holds (readsAt_buf c) (min c.data.length (16384 - acc.length))
  have htake : acc ++ c.data.take (min c.data.length (16384 - acc.length)) =
      (acc ++ c.data).take 16384 := by
    rw [List.take_append, List.take_of_length_le hlen, Nat.min_comm, ← List.take_take,
      List.take_length]
  rw [htake] at hreads
  refine ⟨_, hreads, ?_⟩
  -- the comparison of the source is between numbers below 2^32
  have hcmp : (BitVec.ofNat 32 (acc ++ c.data).length ≥ BitVec.ofNat 32 L) ↔
      L ≤ (acc ++ c.data).length := by
    show (BitVec.ofNat 32 L).toNat ≤ (BitVec.ofNat 32 (acc ++ c.data).length).toNat ↔ _
    rw [BitVec.toNat_ofNat, BitVec.toNat_ofNat, List.length_append]
    omega
  have hstop : (BitVec.ofNat 32 (min (acc ++ c.data).length 16384)).toNat =
      min (acc ++ c.data).length 16384 := by
    rw [BitVec.toNat_ofNat]
    omega
  unfold mcReadPacket
  dsimp only
  rw [hrxLen, hcnt, hpos, hrx, hcntNat, hstop]
  -- the packet is complete, or it goes on to be collected
  by_cases hall : L ≤ (acc ++ c.data).length
  · rw [if_pos (hcmp.mpr hall), if_pos hall]
  · rw [if_neg (hcmp.not.mpr hall), if_neg hall]

/-- All bytes in the buffer are taken for the packet `f`. -/
theorem mcReadPacket_all {f : McFrame} (hf : f.WellFormed tables)
    (h : Collecting s acc f.bytes.length)
    (hlt : acc.length < f.bytes.length) (hshort : acc.length + c.data.length < 2147483648)
    (hfirst : acc = [] → ReadsAt c.buf 0 f.head) (hall : f.bytes <+: acc ++ c.data) :
    Idle (mcReadPacket tables s c) ∧ ∃ payload, (mcReadPacket tables s c).calls = s.calls ++
        McFrame.calls tables { f with payload := payload } ∧
      payload.length = f.payload.length + (min (acc ++ c.data).length 16384 - f.bytes.length) ∧
      ((acc ++ c.data).length = f.bytes.length → payload = f.payload) := by
  have hle := hf.length_le
  obtain ⟨ptr, hreads, heq⟩ := mcReadPacket_spec tables h (by omega) hshort (by omega)
    fun hacc => (McFrame.packetLen (hfirst hacc)).1
  obtain ⟨tail, htail⟩ := hall
  have hlength : f.bytes.length ≤ (acc ++ c.data).length := by
    rw [← htail, List.length_append]
    exact Nat.le_add_right _ _
  rw [if_pos hlength] at heq
  -- the first bytes of the buffer are the packet
  have hbytes : ReadsAt ptr 0 f.bytes := by
    rw [← htail, List.take_append, List.take_of_length_le hle] at hreads
    exact (readsAt_append.mp hreads).1
  have hbytesLen := f.length_bytes
  have hbodyLen := f.length_body
  rw [heq]
  refine ⟨⟨rfl, rfl⟩, bytesBetween ptr (f.head.length + (mcVarencode f.id).length)
    (min (acc ++ c.data).length 16384),
    ?_, ?_, fun hexact => ?_⟩
  · rw [McFrame.packet hf hbytes, McFrame.dispatch hf]
  · rw [length_bytesBetween]
    omega
  -- the payload is what lies behind the head and the id
  · obtain ⟨-, hbody⟩ := readsAt_append.mp hbytes
    obtain ⟨-, hpayload⟩ := readsAt_append.mp hbody
    rw [Nat.zero_add] at hpayload
    rw [show min (acc ++ c.data).length 16384 =
      f.head.length + (mcVarencode f.id).length + f.payload.length by omega]
    exact bytesBetween_eq hpayload

/-- Not all bytes of the packet are there yet. -/
theorem mcReadPacket_more (tables : McTables α) (h : Collecting s acc L)
    (hlt : (acc ++ c.data).length < L)
    (hL : L ≤ 16384) (hfirst : acc = [] → mcPacketLen c.buf = BitVec.ofNat 32 L) :
    Collecting (mcReadPacket tables s c) (acc ++ c.data) L ∧
    (mcReadPacket tables s c).calls = s.calls := by
  rw [List.length_append] at hlt
  obtain ⟨ptr, hreads, heq⟩ := mcReadPacket_spec (L := L) tables h (by omega) (by omega)
    (by omega) hfirst
  rw [if_neg (by rw [List.length_append]; omega),
    Nat.min_eq_left (by rw [List.length_append]; omega)] at heq
  rw [List.take_of_length_le (by rw [List.length_append]; omega)] at hreads
  rw [heq]
  exact ⟨⟨hreads, rfl, rfl, fun _ => rfl⟩, rfl⟩

/-! ## Chunks of packets -/

def mcRun (tables : McTables α) (s : McRx α) (chunks : List McChunk) : McRx α :=
  chunks.foldl (mcReadPacket tables) s

/-- The chunks end where the packets end, and the first chunk of each packet has its length. -/
inductive Framed : List McFrame → List (List Byte) → Prop
  | nil : Framed [] []
  | cons (f : McFrame) (first : List Byte) (rest : List (List Byte)) {frames : List McFrame}
      {cuts : List (List Byte)} : (first :: rest).flatten = f.bytes → f.head.length ≤ first.length →
      Framed frames cuts → Framed (f :: frames) (first :: rest ++ cuts)

/-- The first bytes of a packet. -/
theorem readsAt_head {f : McFrame} (rest : List Byte) (hle : f.head.length ≤ c.data.length)
    (hbegin : c.data <+: f.bytes ++ rest) : ReadsAt c.buf 0 f.head := by
  have hhead : f.head <+: f.bytes ++ rest := ⟨f.body ++ rest, (List.append_assoc ..).symm⟩
  obtain ⟨tail, htail⟩ := List.prefix_of_prefix_length_le hhead hbegin hle
  have hreads := readsAt_buf c
  rw [← htail] at hreads
  exact (readsAt_append.mp hreads).1

/-- A frame in chunks is collected and dispatched. -/
theorem mcRun_frame {f : McFrame} (hf : f.WellFormed tables) {chunks : List McChunk}
    (h : Collecting s acc f.bytes.length) (hlt : acc.length < f.bytes.length)
    (hcut : acc ++ (chunks.map McChunk.data).flatten = f.bytes) (hne : ∀ c ∈ chunks, c.data ≠ [])
    (hfirst : acc = [] → ∀ c ∈ chunks.head?, f.head.length ≤ c.data.length) :
    Idle (mcRun tables s chunks) ∧ (mcRun tables s chunks).calls = s.calls ++ f.calls tables := by
  induction chunks generalizing s acc with
  | nil =>
    rw [List.map_nil, List.flatten_nil, List.append_nil] at hcut
    exact absurd (congrArg List.length hcut) (Nat.ne_of_lt hlt)
  | cons c chunks ih =>
    rw [List.map_cons, List.flatten_cons, ← List.append_assoc] at hcut
    have hcne := hne c List.mem_cons_self
    have hlen := congrArg List.length hcut
    have hle := hf.length_le
    rw [List.length_append] at hlen
    -- the first chunk holds the length
    have hhead : acc = [] → ReadsAt c.buf 0 f.head := by
      intro hacc
      refine readsAt_head [] (hfirst hacc c rfl) ⟨(chunks.map McChunk.data).flatten, ?_⟩
      rw [List.append_nil, ← hcut, hacc, List.nil_append]
    -- the packet goes on behind this chunk
    by_cases hmore : (acc ++ c.data).length < f.bytes.length
    · obtain ⟨hcollect, hcalls⟩ := mcReadPacket_more tables h hmore hle fun hacc =>
        (McFrame.packetLen (hhead hacc)).1
      have hrest :=
        ih hcollect hmore hcut (fun c' hc' => hne c' (List.mem_cons_of_mem c hc')) fun hacc =>
        absurd (List.append_eq_nil_iff.mp hacc).2 hcne
      rw [hcalls] at hrest
      exact hrest
    · -- this was the last chunk
      have hflat : (chunks.map McChunk.data).flatten = [] := List.length_eq_zero_iff.mp (by omega)
      obtain rfl : chunks = [] := by
        cases chunks with
        | nil => rfl
        | cons c' chunks =>
          have hc' := hne c' (List.mem_cons_of_mem c List.mem_cons_self)
          exact absurd (List.append_eq_nil_iff.mp hflat).1 hc'
      rw [hflat, List.append_nil] at hcut
      have hacc : acc.length + c.data.length = f.bytes.length := by rw [← List.length_append, hcut]
      obtain ⟨hidle, payload, hcalls, -, hpayload⟩ :=
        mcReadPacket_all hf h hlt (by omega) hhead ⟨[], by
        rw [List.append_nil, hcut]⟩
      rw [hpayload (congrArg List.length hcut)] at hcalls
      exact ⟨hidle, hcalls⟩

/-- Chunks that end where the packets end: every packet is handled once and in order. -/
theorem Framed.run {frames : List McFrame} {cuts : List (List Byte)} (h : Framed frames cuts)
    (hframes : ∀ f ∈ frames, f.WellFormed tables) (hne : ∀ cut ∈ cuts, cut ≠ [])
    {chunks : List McChunk}
    (hchunks : chunks.map McChunk.data = cuts) (hidle : Idle s) :
    (mcRun tables s chunks).calls = s.calls ++ frames.flatMap (McFrame.calls tables) := by
  -- packet by packet, with the chunks that belong to it
  induction h generalizing s chunks with
  | nil =>
    obtain rfl := List.map_eq_nil_iff.mp hchunks
    exact (List.append_nil _).symm
  | @cons f first rest frames cuts hbytes hhead _ ih =>
    obtain ⟨group, others, rfl, hgroup, hothers⟩ := List.map_eq_append_iff.mp hchunks
    obtain ⟨c, chunks, rfl, hc, -⟩ := List.map_eq_cons_iff.mp hgroup
    have hf := hframes f List.mem_cons_self
    have hgroupNe : ∀ c' ∈ c :: chunks, c'.data ≠ [] := fun c' hc' =>
      hne _ (List.mem_append_left _ (hgroup ▸ List.mem_map_of_mem hc'))
    have hpos : 0 < f.bytes.length := by
      have := f.head_pos
      rw [f.length_bytes]
      omega
    obtain ⟨hidle', hcalls⟩ :=
      mcRun_frame hf (hidle.collecting _) hpos (by rw [List.nil_append, hgroup, hbytes])
      hgroupNe fun _ c' hc' => by
        obtain rfl := Option.some.inj hc'
        rw [hc]
        exact hhead
    have hrest := ih (fun f' hf' => hframes f' (List.mem_cons_of_mem f hf'))
      (fun cut hcut => hne cut (List.mem_append_right _ hcut)) hothers hidle'
    unfold mcRun at hcalls hrest ⊢
    rw [List.foldl_append, hrest, hcalls, List.flatMap_cons, List.append_assoc]

/-! ## No other chunks -/

/-- Chunks only add calls. -/
theorem mcRun_extends (tables : McTables α) (s : McRx α) (chunks : List McChunk) :
    ∃ l, (mcRun tables s chunks).calls = s.calls ++ l := by
  induction chunks generalizing s with
  | nil => exact ⟨[], (List.append_nil _).symm⟩
  | cons c chunks ih =>
    obtain ⟨l, hl⟩ := ih (mcReadPacket tables s c)
    have hstep : ∃ l', (mcReadPacket tables s c).calls = s.calls ++ l' := by
      unfold mcReadPacket
      dsimp only
      generalize (if s.rxPos = 0 then mcPacketLen c.buf else s.rxLen) = rxLen
      split
      · exact ⟨_, rfl⟩
      · exact ⟨[], (List.append_nil _).symm⟩
    obtain ⟨l', hl'⟩ := hstep
    refine ⟨l' ++ l, ?_⟩
    rw [hl', List.append_assoc] at hl
    exact hl

/-- Every frame is decoded. -/
theorem McFrame.calls_eq_cons {f : McFrame} (hf : f.WellFormed tables) (payload : List Byte) :
    ∃ l, McFrame.calls tables { f with payload := payload } = .decode f.id.toNat payload :: l := by
  obtain ⟨decoder, hdecoder⟩ := Option.isSome_iff_exists.mp hf.decoder
  unfold McFrame.calls
  dsimp only
  rw [hdecoder]
  exact ⟨_, rfl⟩

/-- When a packet is handled with its own fields, its last chunk ends with it. -/
theorem exists_group {f : McFrame} (rest : List Byte) (hf : f.WellFormed tables)
    (hfit : f.bytes.length < 16384)
    {chunks : List McChunk} (h : Collecting s acc f.bytes.length)
    (hlt : acc.length < f.bytes.length)
    (hcut : acc ++ (chunks.map McChunk.data).flatten = f.bytes ++ rest)
    (hne : ∀ c ∈ chunks, c.data ≠ [])
    (hshort : ∀ c ∈ chunks, c.data.length < 268435456)
    (hfirst : acc = [] → ∀ c ∈ chunks.head?, f.head.length ≤ c.data.length)
    (hcalls : ∃ more, (mcRun tables s chunks).calls = s.calls ++ (f.calls tables ++ more)) :
    ∃ group others, chunks = group ++ others ∧
      acc ++ (group.map McChunk.data).flatten = f.bytes := by
  induction chunks generalizing s acc with
  | nil =>
    have hlen := congrArg List.length hcut
    rw [List.map_nil, List.flatten_nil, List.append_nil, List.length_append] at hlen
    omega
  | cons c chunks ih =>
    rw [List.map_cons, List.flatten_cons, ← List.append_assoc] at hcut
    have hcne := hne c List.mem_cons_self
    have hcshort := hshort c List.mem_cons_self
    have hhead : acc = [] → ReadsAt c.buf 0 f.head := by
      intro hacc
      refine readsAt_head rest (hfirst hacc c rfl) ⟨(chunks.map McChunk.data).flatten, ?_⟩
      rw [← hcut, hacc, List.nil_append]
    by_cases hmore : (acc ++ c.data).length < f.bytes.length
    · obtain ⟨hcollect, hsame⟩ := mcReadPacket_more tables h hmore (Nat.le_of_lt hfit) fun hacc =>
        (McFrame.packetLen (hhead hacc)).1
      obtain ⟨group, others, rfl, hgroup⟩ := ih hcollect hmore hcut
        (fun c' hc' => hne c' (List.mem_cons_of_mem c hc'))
          (fun c' hc' => hshort c' (List.mem_cons_of_mem c hc'))
        (fun hacc => absurd (List.append_eq_nil_iff.mp hacc).2 hcne) (by rw [hsame]; exact hcalls)
      refine ⟨c :: group, others, rfl, ?_⟩
      rw [List.map_cons, List.flatten_cons, ← List.append_assoc]
      exact hgroup
    · have hbegin : f.bytes <+: acc ++ c.data :=
        List.prefix_of_prefix_length_le ⟨rest, rfl⟩ ⟨_, hcut⟩ (Nat.le_of_not_lt hmore)
      obtain ⟨-, payload, hall, hlength, -⟩ := mcReadPacket_all hf h hlt (by omega) hhead hbegin
      obtain ⟨more, hcalls⟩ := hcalls
      obtain ⟨l, hl⟩ := mcRun_extends tables (mcReadPacket tables s c) chunks
      -- the first call is the same only with the same fields
      have hpayload : payload = f.payload := by
        have hsame : McFrame.calls tables { f with payload := payload } ++ l =
            f.calls tables ++ more := by
          refine (List.append_right_inj s.calls).mp ?_
          rw [← List.append_assoc, ← hall, ← hl]
          exact hcalls
        obtain ⟨l', hl'⟩ := McFrame.calls_eq_cons hf payload
        obtain ⟨l'', hl''⟩ := McFrame.calls_eq_cons hf f.payload
        rw [hl', show f.calls tables = _ from hl'', List.cons_append, List.cons_append] at hsame
        exact (McCall.decode.inj (List.cons.inj hsame).1).2
      rw [hpayload] at hlength
      have hle := hbegin.length_le
      refine ⟨[c], chunks, rfl, ?_⟩
      rw [List.map_singleton, List.flatten_singleton]
      exact (hbegin.eq_of_length (by omega)).symm

/-! ## A length that is cut -/

/-- Memory in which a length that is cut goes on with a large number. -/
def farBehind : Mem := fun i => if i < 3 then 0xFF else 0x01

/-- A length whose bytes are not there yet is taken from behind the chunk. -/
theorem packetLen_far {b : Byte} (hb : b &&& 0x80 ≠ 0) (hdata : c.data = [b])
    (hbehind : c.behind = farBehind) :
    268435456 ≤ (mcPacketLen c.buf).toNat := by
  have hbuf : c.buf = fun i => if i = 0 then b else if i < 4 then 0xFF else 0x01 := by
    funext i
    rw [McChunk.buf, hdata, hbehind]
    cases i with
    | zero => rfl
    | succ i =>
      show farBehind (i + 1 - 1) = _
      rw [Nat.add_sub_cancel, farBehind, if_neg (Nat.succ_ne_zero i)]
      simp only [show i < 3 ↔ i + 1 < 4 by omega]
  have hfar : ∀ b : Byte, b &&& 0x80 ≠ 0 →
      268435456 ≤ (mcPacketLen fun i => if i = 0 then b
        else if i < 4 then 0xFF else 0x01).toNat := by decide
  rw [hbuf]
  exact hfar b hb

/-- A chunk that is shorter than the length is one byte that goes on. -/
theorem head_cut {f : McFrame} (hfit : f.bytes.length < 16384) {first rest : List Byte}
    (hne : first ≠ [])
    (hbegin : first <+: f.bytes ++ rest) (hlt : first.length < f.head.length) :
    ∃ b, first = [b] ∧ b &&& 0x80 ≠ 0 := by
  have hbody := f.length_bytes
  have hpos : 0 < first.length := List.length_pos_iff.mpr hne
  have hsmall : (BitVec.ofNat 32 f.body.length).toNat = f.body.length := by
    rw [BitVec.toNat_ofNat]
    omega
  have hhead : first <+: f.head := by
    refine List.prefix_of_prefix_length_le hbegin ⟨f.body ++ rest, ?_⟩ (Nat.le_of_lt hlt)
    exact (List.append_assoc ..).symm
  obtain ⟨tail, htail⟩ := hhead
  have hlen := congrArg List.length htail
  rw [List.length_append] at hlen
  -- two bytes at most
  have hcases : f.head.length = 1 ∨ ∃ b b', f.head = [b, b'] ∧ b &&& 0x80 ≠ 0 := by
    unfold McFrame.head mcVarencode varencodeLoop
    split
    · have hlast : (BitVec.ofNat 32 f.body.length >>> 7) &&& ~~~0x7F = 0 := by
        rw [and_compl_eq_zero, toNat_rest]
        omega
      refine .inr ⟨_, (BitVec.ofNat 32 f.body.length >>> 7).setWidth 8, ?_,
        (byte_more (BitVec.ofNat 32 f.body.length)).2⟩
      rw [varencodeLoop, if_neg (not_not.mpr hlast)]
    · exact .inl rfl
  rcases hcases with hone | ⟨b, b', htwo, hmore⟩
  · omega
  · rw [htwo] at htail
    cases first with
    | nil => exact absurd rfl hne
    | cons b₀ first =>
      obtain ⟨rfl, htail⟩ := List.cons.inj htail
      cases first with
      | nil => exact ⟨b₀, rfl, hmore⟩
      | cons b₁ first =>
        rw [htwo, List.length_cons, List.length_cons] at hlt
        simp only [List.length_cons, List.length_nil] at hlt
        omega

/-- A chunk that does not reach the length it is waited for. -/
theorem mcReadPacket_waits (tables : McTables α) {rxLen : BitVec 32}
    (hrxLen : (if s.rxPos = 0 then mcPacketLen c.buf else s.rxLen) = rxLen)
    (hlt : s.rxPos.toNat + c.data.length < rxLen.toNat) :
    (mcReadPacket tables s c).calls = s.calls ∧ (mcReadPacket tables s c).rxLen = rxLen ∧
      (mcReadPacket tables s c).rxPos.toNat = s.rxPos.toNat + c.data.length := by
  have hmax := rxLen.isLt
  have hpos : (s.rxPos + c.len).toNat = s.rxPos.toNat + c.data.length := by
    rw [BitVec.toNat_add, McChunk.len, BitVec.toNat_ofNat]
    omega
  have hwait : ¬ s.rxPos + c.len ≥ rxLen := by
    show ¬ rxLen.toNat ≤ (s.rxPos + c.len).toNat
    omega
  unfold mcReadPacket
  dsimp only
  rw [hrxLen, if_neg hwait]
  exact ⟨rfl, rfl, hpos⟩

/-- While a frame is incomplete nothing is called. -/
theorem mcRun_waits (tables : McTables α) (chunks : List McChunk) (hne : 0 < s.rxPos.toNat)
    (hlt : s.rxPos.toNat + ((chunks.map McChunk.data).flatten).length < s.rxLen.toNat) :
    (mcRun tables s chunks).calls = s.calls := by
  induction chunks generalizing s with
  | nil => rfl
  | cons c chunks ih =>
    rw [List.map_cons, List.flatten_cons, List.length_append] at hlt
    have hpos : s.rxPos ≠ 0 := by
      intro hzero
      rw [hzero] at hne
      exact absurd hne (by decide)
    obtain ⟨hcalls, hrxLen, hrxPos⟩ := mcReadPacket_waits (c := c) tables (if_neg hpos) (by omega)
    have hrest := ih (s := mcReadPacket tables s c) (by omega) (by rw [hrxLen, hrxPos]; omega)
    exact hrest.trans hcalls

/-- Any cutting can be a sequence of chunks. -/
theorem exists_chunks (behind : Mem) {cuts : List (List Byte)}
    (hshort : ∀ cut ∈ cuts, cut.length < 268435456) :
    ∃ chunks : List McChunk, chunks.map McChunk.data = cuts ∧ ∀ c ∈ chunks, c.behind = behind := by
  induction cuts with
  | nil => exact ⟨[], rfl, fun _ hc => nomatch hc⟩
  | cons cut cuts ih =>
    obtain ⟨chunks, hdata, hbehind⟩ := ih fun cut' hcut' =>
      hshort cut' (List.mem_cons_of_mem cut hcut')
    have hlt := hshort cut List.mem_cons_self
    refine ⟨⟨cut, behind, by omega⟩ :: chunks, by rw [List.map_cons, hdata], fun c hc => ?_⟩
    rcases List.mem_cons.mp hc with rfl | hc
    · rfl
    · exact hbehind c hc

/-- A length that is cut makes everything wait, with the right bytes behind the chunk. -/
theorem mcRun_cut (tables : McTables α) {first : List Byte} {cuts : List (List Byte)} {b : Byte}
    (hfirst : first = [b]) (hb : b &&& 0x80 ≠ 0)
    (htotal : (first :: cuts).flatten.length < 268435456)
    (hidle : Idle s) : ∃ chunks : List McChunk, chunks.map McChunk.data = first :: cuts ∧
      (mcRun tables s chunks).calls = s.calls := by
  have hshort : ∀ cut ∈ first :: cuts, cut.length < 268435456 := fun cut hcut =>
    Nat.lt_of_le_of_lt (List.sublist_flatten_of_mem hcut).length_le htotal
  obtain ⟨chunks, hdata, hbehind⟩ := exists_chunks farBehind hshort
  refine ⟨chunks, hdata, ?_⟩
  obtain ⟨c, chunks, rfl, hc, hrest⟩ := List.map_eq_cons_iff.mp hdata
  rw [List.flatten_cons, List.length_append, hfirst, List.length_singleton] at htotal
  -- the length that is read goes on behind the chunk, and is too large
  have hfar := packetLen_far hb (hc.trans hfirst) (hbehind c List.mem_cons_self)
  have hlen : c.data.length = 1 := by rw [hc, hfirst, List.length_singleton]
  have hpos : s.rxPos.toNat = 0 := by rw [hidle.2]; rfl
  -- so nothing is complete, and the rest is collected
  obtain ⟨hcalls, hrxLen, hrxPos⟩ := mcReadPacket_waits (c := c) tables (if_pos hidle.2) (by omega)
  have hwaits := mcRun_waits (s := mcReadPacket tables s c) tables chunks (by omega)
    (by rw [hrest, hrxLen, hrxPos]; omega)
  exact hwaits.trans hcalls

/-- When every packet is handled whatever is behind the chunks, they end where the packets end. -/
theorem framed_of_run {frames : List McFrame} {cuts : List (List Byte)}
    (hframes : ∀ f ∈ frames, f.WellFormed tables)
    (hfit : ∀ f ∈ frames, f.bytes.length < 16384) (hne : ∀ cut ∈ cuts, cut ≠ [])
    (hcut : cuts.flatten = frames.flatMap McFrame.bytes) (htotal : cuts.flatten.length < 268435456)
    (hidle : Idle s)
    (hrun : ∀ chunks : List McChunk, chunks.map McChunk.data = cuts →
      (mcRun tables s chunks).calls = s.calls ++ frames.flatMap (McFrame.calls tables)) :
      Framed frames cuts := by
  -- packet by packet; the chunks of the first one are taken off
  induction frames generalizing s cuts with
  | nil =>
    cases cuts with
    | nil => exact .nil
    | cons cut cuts => exact absurd (List.append_eq_nil_iff.mp hcut).1 (hne cut List.mem_cons_self)
  | cons f frames ih =>
    have hf := hframes f List.mem_cons_self
    have hpos : 0 < f.bytes.length := by
      have := f.head_pos
      rw [f.length_bytes]
      omega
    rw [List.flatMap_cons] at hcut
    cases cuts with
    | nil =>
      have hnil := (List.append_eq_nil_iff.mp hcut.symm).1
      rw [hnil] at hpos
      exact absurd hpos (Nat.lt_irrefl 0)
    | cons first cuts =>
      -- a first chunk that cuts the length would make it wait
      have hhead : f.head.length ≤ first.length := by
        by_contra hlt
        obtain ⟨b, hfirst, hb⟩ :=
          head_cut (hfit f List.mem_cons_self) (hne first List.mem_cons_self)
          ⟨cuts.flatten, hcut⟩ (Nat.lt_of_not_le hlt)
        obtain ⟨chunks, hdata, hsame⟩ := mcRun_cut tables hfirst hb htotal hidle
        have hcalls := hrun chunks hdata
        obtain ⟨l, hl⟩ := McFrame.calls_eq_cons hf f.payload
        rw [hsame, List.flatMap_cons, show f.calls tables = _ from hl, List.self_eq_append_right]
          at hcalls
        exact nomatch hcalls
      have hshort : ∀ cut ∈ first :: cuts, cut.length < 268435456 := fun cut hmem =>
        Nat.lt_of_le_of_lt (List.sublist_flatten_of_mem hmem).length_le htotal
      obtain ⟨chunks, hdata, -⟩ := exists_chunks (fun _ => 0) hshort
      have hdataMem : ∀ c ∈ chunks, c.data ∈ first :: cuts :=
        fun c hc => hdata ▸ List.mem_map_of_mem hc
      have hheadChunk : ∀ c ∈ chunks.head?, f.head.length ≤ c.data.length := by
        intro c hc
        obtain ⟨c', chunks, rfl, hc', -⟩ := List.map_eq_cons_iff.mp hdata
        obtain rfl := Option.some.inj hc
        rw [hc']
        exact hhead
      obtain ⟨group, others, rfl, hgroup⟩ := exists_group (frames.flatMap McFrame.bytes) hf
        (hfit f List.mem_cons_self) (hidle.collecting _) hpos (by rw [hdata, List.nil_append, hcut])
        (fun c hc => hne _ (hdataMem c hc)) (fun c hc => hshort _ (hdataMem c hc))
          (fun _ => hheadChunk)
        ⟨frames.flatMap (McFrame.calls tables), by rw [hrun chunks hdata, List.flatMap_cons]⟩
      -- no chunk ends inside a packet, so a group belongs to each
      cases group with
      | nil =>
        have hnil := congrArg List.length hgroup
        exact absurd hnil (Nat.ne_of_lt hpos)
      | cons c group =>
        rw [List.cons_append, List.map_cons, List.map_append] at hdata
        obtain ⟨rfl, rfl⟩ := List.cons.inj hdata
        rw [List.nil_append] at hgroup
        have hgroupNe : ∀ c' ∈ c :: group, c'.data ≠ [] := fun c' hc' =>
          hne _ (hdataMem c' (List.mem_append_left _ hc'))
        obtain ⟨hidle', hcalls⟩ :=
          mcRun_frame hf (hidle.collecting _) hpos (by rw [List.nil_append, hgroup])
          hgroupNe fun _ c' hc' => by
            obtain rfl := Option.some.inj hc'
            exact hhead
        have hbytes : c.data ++ (group.map McChunk.data).flatten = f.bytes := hgroup
        rw [List.flatten_cons, List.flatten_append, ← List.append_assoc, hbytes] at hcut
        refine .cons f c.data (group.map McChunk.data) hgroup hhead (ih (fun f' hf' => hframes f'
          (List.mem_cons_of_mem f hf')) (fun f' hf' => hfit f' (List.mem_cons_of_mem f hf'))
          (fun cut hmem => hne cut (List.mem_cons_of_mem _ (List.mem_append_right _ hmem)))
          (List.append_cancel_left hcut) ?_ hidle' fun chunks' hchunks' => ?_)
        · rw [List.flatten_cons, List.flatten_append, List.length_append, List.length_append]
            at htotal
          omega
        · have hall :=
            hrun (c :: group ++ chunks')
            (by rw [List.map_append, List.map_cons, hchunks', List.cons_append])
          unfold mcRun at hall hcalls ⊢
          rw [List.foldl_append, List.flatMap_cons, ← List.append_assoc, ← hcalls] at hall
          exact hall

/-! ## Every way of cutting the bytes -/

/-- `mc_read_packet` before the first chunk. -/
def McRx.start (rxPtr : Mem) : McRx α := ⟨rxPtr, 0, 0, 0, []⟩

/-- Whatever is in memory, every packet is decoded and handled once, in order, with its fields. -/
def McDelivered (tables : McTables α) (frames : List McFrame) (cuts : List (List Byte)) : Prop :=
  ∀ (rxPtr : Mem) (chunks : List McChunk), chunks.map McChunk.data = cuts →
    (mcRun tables (.start rxPtr) chunks).calls = frames.flatMap (McFrame.calls tables)

/-- Packets that are cut where they end, after their length at the earliest, are handled.  And for
    packets that leave room in the buffer and less than 256 MiB of them, no others are. -/
theorem mc_read_packet_chunks (tables : McTables α) (frames : List McFrame)
    (cuts : List (List Byte))
    (hframes : ∀ f ∈ frames, f.WellFormed tables) (hne : ∀ cut ∈ cuts, cut ≠ [])
    (hcut : cuts.flatten = frames.flatMap McFrame.bytes) :
    (Framed frames cuts → McDelivered tables frames cuts) ∧
      ((∀ f ∈ frames, f.bytes.length < 16384) → cuts.flatten.length < 268435456 →
        McDelivered tables frames cuts → Framed frames cuts) := by
  refine ⟨fun h rxPtr chunks hchunks => ?_, fun hfit htotal h => ?_⟩
  · exact h.run hframes hne hchunks ⟨rfl, rfl⟩
  · exact framed_of_run (s := .start fun _ => 0) hframes hfit hne hcut htotal
      ⟨rfl, rfl⟩ (h fun _ => 0)

/-- Decoders that return the bytes. -/
def rawTables : McTables (List Byte) := ⟨fun _ => some id, fun _ => false, fun _ => true⟩

/-- A frame for the tables that take every id. -/
theorem rawTables_wellFormed {f : McFrame} (hlen : f.bytes.length ≤ 16384)
    (hid : f.id.toNat < 255) :
    f.WellFormed rawTables := ⟨hlen, hid, rfl, rfl⟩

/-- A packet that comes in two chunks. -/
theorem mc_read_packet_chunks_two : McDelivered rawTables [⟨1, [7, 8]⟩] [[3, 1], [7, 8]] := by
  refine (mc_read_packet_chunks rawTables [⟨1, [7, 8]⟩] [[3, 1], [7, 8]] ?_
    (by decide) (by decide)).1 ?_
  · exact List.forall_mem_singleton.mpr (rawTables_wellFormed (by decide) (by decide))
  · exact .cons ⟨1, [7, 8]⟩ [3, 1] [[7, 8]] (by decide) (by decide) .nil

/-- Two packets that come in one chunk are taken for one. -/
theorem mc_read_packet_merges : (∀ f ∈ [(⟨0, [7]⟩ : McFrame), ⟨1, [8]⟩], f.WellFormed rawTables) ∧
    ([[2, 0, 7, 2, 1, 8]] : List (List Byte)).flatten =
      [(⟨0, [7]⟩ : McFrame), ⟨1, [8]⟩].flatMap McFrame.bytes ∧
    ¬ McDelivered rawTables [⟨0, [7]⟩, ⟨1, [8]⟩] [[2, 0, 7, 2, 1, 8]] := by
  refine ⟨?_, by decide, fun h => ?_⟩
  · exact List.forall_mem_cons.mpr ⟨rawTables_wellFormed (by decide) (by decide),
      List.forall_mem_singleton.mpr (rawTables_wellFormed (by decide) (by decide))⟩
  · have hcalls := h (fun _ => 0) [⟨[2, 0, 7, 2, 1, 8], fun _ => 0, by decide⟩] rfl
    exact absurd hcalls (by decide)

end MishaOS
