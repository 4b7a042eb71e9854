import MishaOS.ForStd.Bytes
import MishaOS.Native.McWrite
import MishaOS.Spec.McChunks

/-!
# The number and the length in front of a packet

`mc_wrap_send_packet` moves back from the first field by the length that the
number will have, then by the length that the length will have, and writes
both forward.  What it sends is the packet on the wire.

## Key results

- `mcWrapSendPacket_decode`: what is sent is read as the number and the fields.
-/

namespace MishaOS

open Bytes Ring

variable {tx : McTx} {payload : List Byte}

/-- A number has five groups at most. -/
theorem length_varencode_le (v : BitVec 32) : (mcVarencode v).length ≤ 5 := by
  have hloop (n : Nat) (v : BitVec 32) : (varencodeLoop n v).length ≤ n + 1 := by
    -- one group a round
    induction n generalizing v with
    | zero => exact Nat.le_refl 1
    | succ n ih =>
      rw [varencodeLoop]
      split
      · exact Nat.succ_le_succ (ih (v >>> 7))
      · exact Nat.succ_le_succ (Nat.zero_le _)
  exact hloop 4 v

/-- The head of a packet is written in front of its body, and the body in front of the fields. -/
theorem at_wrapped {mem : Mem} {start : Nat} {head number : List Byte}
    (h : At mem (start + head.length + number.length) payload) :
    At (blit (blit mem start head) (start + head.length) number) start
      (head ++ (number ++ payload)) := by
  apply at_append.mpr
  constructor
  · apply blit_at.congr
    -- the number is stored behind the head
    intro a hle hlt
    exact blit_outside (.inl hlt)
  · apply at_append.mpr
    constructor
    · exact blit_at
    -- both stores end in front of the fields
    · apply h.congr
      intro a hle hlt
      rw [blit_outside (.inr hle), blit_outside (.inr (by omega))]

/-- The bytes that are handed to `tcp_send`. -/
theorem mcWrapSendPacket_bytes (id : BitVec 32) (next : Nat)
    (hpayload : ReadsAt tx.mem tx.start payload)
    (hstop : tx.stop = tx.start + payload.length) (hroom : 10 ≤ tx.start)
    (hend : tx.stop < 4294967296) :
    (mcWrapSendPacket tx id next).1 = McFrame.bytes ⟨id, payload⟩ := by
  let f : McFrame := ⟨id, payload⟩
  have hid : (mcVarencode id).length ≤ 5 := length_varencode_le id
  have hhead : f.head.length ≤ 5 := length_varencode_le _
  have hbody : f.body.length = (mcVarencode id).length + payload.length := f.length_body
  -- the place of the number, and the place of the length
  have hback : sub32 tx.start (mcVarlen id) = tx.start - (mcVarencode id).length := by
    rw [mcVarlen_eq, sub32_of_le (by omega) (by omega)]
  have hlen : sub32 tx.stop (tx.start - (mcVarencode id).length) = f.body.length := by
    rw [sub32_of_le (by omega) hend]
    omega
  have hfront : sub32 (tx.start - (mcVarencode id).length)
    (mcVarlen (BitVec.ofNat 32 f.body.length)) =
      tx.start - (mcVarencode id).length - f.head.length := by
    rw [mcVarlen_eq]
    show sub32 _ f.head.length = _
    exact sub32_of_le (by omega) (by omega)
  let start := tx.start - (mcVarencode id).length - f.head.length
  have hplace : u32 (start + f.head.length) = start + f.head.length := u32_of_lt (by omega)
  have hfields : At tx.mem (start + f.head.length + (mcVarencode id).length) payload := by
    rw [show start + f.head.length + (mcVarencode id).length = tx.start by omega]
    exact hpayload
  have hcount : sub32 tx.stop start = f.bytes.length := by
    rw [sub32_of_le (by omega) hend, f.length_bytes]
    omega
  unfold mcWrapSendPacket mcSendPacket
  dsimp only
  rw [hback, hlen, hfront]
  show slice (blit (blit tx.mem start f.head) (u32 (start + f.head.length)) (mcVarencode id)) start
    (sub32 tx.stop start) = f.bytes
  rw [hplace, hcount]
  exact (at_wrapped hfields).slice_eq

/-- What `mc_read_packet` reads of a packet that ends at `stop`: its number and its fields. -/
def mcPacketParts (ptr : Mem) (stop : Nat) : BitVec 32 × List Byte :=
  let start := (mcVardecode ptr).2
  let (id, read) := mcVardecode fun i => ptr (start + i)
  (id, bytesBetween ptr (start + read) stop)

/-- A packet with the length that was expected is handled with these. -/
theorem mcPacket_eq {α : Type*} (tables : McTables α) {ptr : Mem} {rxLen : BitVec 32}
    (h : mcPacketLen ptr = rxLen)
    (stop : Nat) : mcPacket tables ptr stop rxLen =
      mcDispatch tables ((mcPacketParts ptr stop).1.toNat % 0xFF) (mcPacketParts ptr stop).2 := by
  unfold mcPacket
  rw [if_neg (not_not.mpr h)]
  rfl

/-- A packet on the wire is read as it was meant. -/
theorem McFrame.parts {f : McFrame} {ptr : Mem} (h : ReadsAt ptr 0 f.bytes) :
    mcPacketParts ptr f.bytes.length = (f.id, f.payload) := by
  obtain ⟨hhead, hbody⟩ := readsAt_append.mp h
  obtain ⟨hid, hpayload⟩ := readsAt_append.mp hbody
  have hid' : ReadsAt (fun i => ptr (f.head.length + i)) 0 (mcVarencode f.id) := by
    intro k b hk
    have hb := hid k b hk
    rw [Nat.zero_add] at hb ⊢
    exact hb
  rw [Nat.zero_add] at hpayload
  unfold mcPacketParts
  rw [(packetLen hhead).2]
  dsimp only
  rw [mcVardecode_encode hid', f.length_bytes, f.length_body, ← Nat.add_assoc,
    bytesBetween_eq hpayload]

/-- What is sent is a length that is the number of bytes behind it, then the number, then the
    fields. -/
theorem mcWrapSendPacket_decode (id : BitVec 32) (next : Nat)
    (hpayload : ReadsAt tx.mem tx.start payload)
    (hstop : tx.stop = tx.start + payload.length) (hroom : 10 ≤ tx.start)
    (hend : tx.stop < 4294967296) (ptr : Mem)
    (hptr : ReadsAt ptr 0 (mcWrapSendPacket tx id next).1) :
    (mcVardecode ptr).1.toNat = (mcWrapSendPacket tx id next).1.length - (mcVardecode ptr).2 ∧
      mcPacketParts ptr (mcWrapSendPacket tx id next).1.length = (id, payload) := by
  let f : McFrame := ⟨id, payload⟩
  have hsent : (mcWrapSendPacket tx id next).1 = f.bytes :=
    mcWrapSendPacket_bytes id next hpayload hstop hroom hend
  rw [hsent] at hptr ⊢
  -- the length is read first
  obtain ⟨hhead, -⟩ := readsAt_append.mp hptr
  have hdecode : mcVardecode ptr = (BitVec.ofNat 32 f.body.length, f.head.length) :=
    mcVardecode_encode hhead
  have hbody : f.body.length = (mcVarencode id).length + payload.length := f.length_body
  have hid : (mcVarencode id).length ≤ 5 := length_varencode_le id
  constructor
  · rw [hdecode, f.length_bytes, Nat.add_sub_cancel_left]
    exact Nat.mod_eq_of_lt (by omega)
  · exact McFrame.parts hptr

/-- The number 300 and one field. -/
theorem mcWrapSendPacket_decode_small :
    (mcVardecode fun i => [3, 172, 2, 7].getD i 0).1.toNat =
      4 - (mcVardecode fun i => [3, 172, 2, 7].getD i 0).2 ∧
      mcPacketParts (fun i => [3, 172, 2, 7].getD i 0) 4 = (300, [7]) := by
  let tx : McTx := ⟨fun a => if a = 256 then 7 else 0, 256, 257⟩
  have hfield : ReadsAt tx.mem tx.start [7] := readsAt_cons.mpr ⟨rfl, at_nil⟩
  have hsent : (mcWrapSendPacket tx 300 512).1 = [3, 172, 2, 7] :=
    mcWrapSendPacket_bytes 300 512 hfield rfl (by decide) (by decide)
  have hptr : ReadsAt (fun i => [3, 172, 2, 7].getD i 0) 0 (mcWrapSendPacket tx 300 512).1 := by
    rw [hsent]
    show At (fun i => [3, 172, 2, 7].getD i (0 : Byte)) 0 [3, 172, 2, 7]
    exact at_cons.mpr ⟨rfl, at_cons.mpr ⟨rfl, at_cons.mpr ⟨rfl, at_cons.mpr ⟨rfl, at_nil⟩⟩⟩⟩
  have h := mcWrapSendPacket_decode 300 512 hfield rfl (by decide) (by decide) _ hptr
  rw [hsent] at h
  exact h

end MishaOS
