import MishaOS.Native.Ipv4
import MishaOS.Spec.Checksum
import MishaOS.Spec.SendPlaces

/-!
# TCP packets on the wire

What `tcp_send_packet` and `ipv4_intf_send` write is what `ipv4_recv` and
`tcp_recv` read.  Byte order and field layout are undone field by field, and the
checksum is one that the receiver's test accepts.

## Key results

- `TcpHeader.read_toBytes`: the header that is read is the one written.
- `tcpRecv_segment`: `tcp_recv` of a segment that was sent.
- `tcp_packet_decoded`: the same through `ipv4_recv`.
-/

namespace MishaOS

/-! ## Byte order -/

theorem readBe32_be32 (x : BitVec 32) (l : List Byte) : readBe32 (be32 x ++ l) = x := by
  show x.extractLsb' 24 8 ++ x.extractLsb' 16 8 ++ x.extractLsb' 8 8 ++ x.extractLsb' 0 8 = x
  ext i hi
  simp
  grind

@[simp] theorem length_be32 (x : BitVec 32) : (be32 x).length = 4 := rfl

/-! ## Headers -/

theorem TcpHeader.read_toBytes (h : TcpHeader) (l : List Byte) :
    TcpHeader.read (h.toBytes ++ l) = h := by
  obtain ⟨srcPort, dstPort, seq, ack, off, flags, windowSize, checksum, urgent⟩ := h
  show (⟨readBe16 (be16 srcPort ++ _), readBe16 (be16 dstPort ++ _), readBe32 (be32 seq ++ _),
    readBe32 (be32 ack ++ _), off, flags, readBe16 (be16 windowSize ++ _),
    readBe16 (be16 checksum ++ _),
    readBe16 (be16 urgent ++ l)⟩ : TcpHeader) = _
  simp only [readBe16_be16, readBe32_be32]

theorem TcpHeader.length_toBytes (h : TcpHeader) : h.toBytes.length = 20 := rfl

variable {c : TcpConn} {seq : BitVec 32} {flags : BitVec 8} {data : List Byte}

theorem length_tcpOptions (flags : BitVec 8) :
    (tcpOptions flags).length = if hasFlag flags TCP_SYN then 4 else 0 := by
  unfold tcpOptions
  split <;> rfl

/-- The data offset counts the header and the options. -/
theorem tcpSegment_headerLen (c : TcpConn) (seq : BitVec 32) (flags : BitVec 8) (data : List Byte) :
    (tcpSegment c seq flags data).header.headerLen =
      20 + (tcpSegment c seq flags data).options.length := by
  have hlen := length_tcpOptions flags
  show (BitVec.ofNat 8 ((20 + (tcpOptions flags).length) * 4)).toNat / 4 =
    20 + (tcpOptions flags).length
  rw [hlen]
  split <;> rfl

theorem tcpSegment_length (c : TcpConn) (seq : BitVec 32) (flags : BitVec 8) (data : List Byte) :
    (tcpSegment c seq flags data).toBytes.length =
      20 + (tcpSegment c seq flags data).options.length + data.length := by
  unfold TcpSegment.toBytes
  rw [List.length_append, List.length_append, TcpHeader.length_toBytes]
  rfl

theorem tcpSegment_length_le (c : TcpConn) (seq : BitVec 32) (flags : BitVec 8) (data : List Byte) :
    (tcpSegment c seq flags data).toBytes.length ≤ 24 + data.length := by
  have hlen : (tcpSegment c seq flags data).options.length = _ := length_tcpOptions flags
  rw [tcpSegment_length, hlen]
  split <;> omega

/-- The bytes of a segment in front of the checksum. -/
def segmentFront (c : TcpConn) (seq : BitVec 32) (flags : BitVec 8) : List Byte :=
  be16 c.localPort ++ be16 c.remotePort ++ be32 seq ++
    be32 (if hasFlag flags TCP_ACK then c.rcv.nxt else 0) ++
    [BitVec.ofNat 8 ((20 + (tcpOptions flags).length) * 4), flags] ++ be16 8192

/-- The bytes behind it: the urgent pointer, the options and the payload. -/
def segmentBack (flags : BitVec 8) (data : List Byte) : List Byte :=
  be16 0 ++ tcpOptions flags ++ data

theorem length_segmentFront (c : TcpConn) (seq : BitVec 32) (flags : BitVec 8) :
    (segmentFront c seq flags).length = 16 := rfl

theorem length_segmentBack (flags : BitVec 8) (data : List Byte) :
    (segmentBack flags data).length = 2 + (tcpOptions flags).length + data.length := by
  unfold segmentBack
  rw [List.length_append, List.length_append, length_be16]

theorem tcpSegment_toBytes (c : TcpConn) (seq : BitVec 32) (flags : BitVec 8) (data : List Byte) :
    (tcpSegment c seq flags data).toBytes =
      segmentFront c seq flags ++ be16 (tcpSegment c seq flags data).header.checksum ++
        segmentBack flags data := by
  show segmentFront c seq flags ++ be16 (tcpSegment c seq flags data).header.checksum ++ be16 0 ++
    tcpOptions flags ++ data = _
  unfold segmentBack
  simp only [List.append_assoc]

theorem tcpSegment_checksum_eq (c : TcpConn) (seq : BitVec 32) (flags : BitVec 8)
    (data : List Byte) :
    (tcpSegment c seq flags data).header.checksum =
      netChecksum (checksumHeader c.localAddr c.remoteAddr IP_PROTOCOL_TCP
        (tcpSegment c seq flags data).toBytes.length ++ segmentFront c seq flags ++ [0, 0] ++
          segmentBack flags data) := by
  -- the bytes under the checksum, with zeros in its place
  have hbytes : segmentFront c seq flags ++ be16 0 ++ be16 0 ++ tcpOptions flags ++ data =
      segmentFront c seq flags ++ [0, 0] ++ segmentBack flags data := by
    unfold segmentBack
    simp only [List.append_assoc]
    rfl
  have hlen : (tcpSegment c seq flags data).toBytes.length =
      (segmentFront c seq flags ++ be16 0 ++ be16 0 ++ tcpOptions flags ++ data).length := by
    rw [tcpSegment_toBytes, hbytes]
    simp only [List.length_append, length_be16, List.length_cons, List.length_nil]
  show netChecksum (checksumHeader c.localAddr c.remoteAddr IP_PROTOCOL_TCP
    (segmentFront c seq flags ++ be16 0 ++ be16 0 ++ tcpOptions flags ++ data).length ++
      (segmentFront c seq flags ++ be16 0 ++ be16 0 ++ tcpOptions flags ++ data)) = _
  rw [← hlen, hbytes]
  simp only [List.append_assoc]

/-- The checksum of a segment, with its pseudo header, is zero. -/
theorem tcpSegment_checksum (hdata : data.length ≤ 1460) :
    netChecksum (checksumHeader c.localAddr c.remoteAddr IP_PROTOCOL_TCP
      (tcpSegment c seq flags data).toBytes.length ++ (tcpSegment c seq flags data).toBytes) =
        0 := by
  have hopt : (tcpOptions flags).length ≤ 4 := by
    rw [length_tcpOptions]
    split <;> omega
  have hbytes := tcpSegment_toBytes c seq flags data
  rw [tcpSegment_checksum_eq] at hbytes
  generalize (tcpSegment c seq flags data).toBytes.length = n at hbytes ⊢
  -- pseudo header and front have an even length, so the words do not shift
  have hpseudo :
    (checksumHeader c.localAddr c.remoteAddr IP_PROTOCOL_TCP n ++ segmentFront c seq flags).length =
      28 := by
    rw [List.length_append, length_segmentFront]
    rfl
  have hfill := netChecksum_fill
    (checksumHeader c.localAddr c.remoteAddr IP_PROTOCOL_TCP n ++ segmentFront c seq flags)
    (segmentBack flags data) (by rw [hpseudo]) (by rw [hpseudo, length_segmentBack]; omega)
  rw [hbytes]
  simp only [List.append_assoc] at hfill ⊢
  exact hfill

/-! ## Receiving -/

/-- `tcp_swap` writes to the header only. -/
theorem tcpSwap_drop {p : List Byte} {n : Nat} (hn : 20 ≤ n) : (tcpSwap p).drop n = p.drop n := by
  unfold tcpSwap
  have hlen : ([1, 0, 3, 2, 7, 6, 5, 4, 11, 10, 9, 8, 12, 13, 15, 14, 17, 16, 19, 18].map
      fun i => p.getD i 0).length = 20 := rfl
  rw [List.drop_append, hlen, List.drop_drop, List.drop_eq_nil_of_le (by omega), List.nil_append,
    Nat.add_sub_cancel' hn]

/-- What is left behind the header is the payload. -/
theorem tcpSegment_payload (c : TcpConn) (seq : BitVec 32) (flags : BitVec 8) (data : List Byte) :
    (tcpSwap (tcpSegment c seq flags data).toBytes).drop
      (tcpSegment c seq flags data).header.headerLen =
      data := by
  rw [tcpSegment_headerLen, tcpSwap_drop (by omega)]
  unfold TcpSegment.toBytes
  rw [List.drop_left']
  · rfl
  · rw [List.length_append, TcpHeader.length_toBytes]

/-- `tcp_recv` behind its tests: `bytes` is the packet after `tcp_swap`, and `header` what is
    read from it. -/
def tcpRecvChecked (frames : Nat → Nat) (w : TcpWorld) (src dst : Ipv4Addr) (header : TcpHeader)
    (bytes : List Byte) (packet : Nat) : Option TcpWorld :=
  let w := w.setBuf packet { w.bufs.buf packet with data := bytes }
  (tcpFind w src header.srcPort dst header.dstPort).bind fun conn =>
    if conn = 0 ∨ (w.conn conn).state = .closed then
      tcpRecvClosed frames w src dst header (BitVec.ofNat 16 bytes.length)
    else tcpRecvConn frames w conn header packet

/-- What the buffer showed before does not matter. -/
theorem tcpRecvChecked_setData (frames : Nat → Nat) (w : TcpWorld) (src dst : Ipv4Addr)
    (header : TcpHeader)
    (bytes : List Byte) (packet : Nat) (before : List Byte) :
    tcpRecvChecked frames (w.setBuf packet { w.bufs.buf packet with data := before }) src dst
      header bytes packet =
      tcpRecvChecked frames w src dst header bytes packet := by
  have hbuf : (w.setBuf packet { w.bufs.buf packet with data := before }).setBuf packet
      { (w.setBuf packet { w.bufs.buf packet with data := before }).bufs.buf packet
        with data := bytes } =
        w.setBuf packet { w.bufs.buf packet with data := bytes } := by
    simp [TcpWorld.setBuf]
  unfold tcpRecvChecked
  rw [hbuf]

/-- A segment that was sent passes the tests of `tcp_recv`. -/
theorem tcpRecv_segment (frames : Nat → Nat) {w : TcpWorld} {packet : Nat}
    (hdata : data.length ≤ 1460)
    (hbuf : (w.bufs.buf packet).data = (tcpSegment c seq flags data).toBytes) :
    tcpRecv frames w c.localAddr c.remoteAddr IP_PROTOCOL_TCP packet =
      tcpRecvChecked frames w c.localAddr c.remoteAddr (tcpSegment c seq flags data).header
        (tcpSwap (tcpSegment c seq flags data).toBytes) packet := by
  have hlen := tcpSegment_length c seq flags data
  have hread : TcpHeader.read (tcpSegment c seq flags data).toBytes =
      (tcpSegment c seq flags data).header := by
    unfold TcpSegment.toBytes
    rw [List.append_assoc, TcpHeader.read_toBytes]
  unfold tcpRecv tcpRecvChecked
  rw [hbuf, length_tcpSwap (by omega)]
  dsimp only
  rw [if_neg (by omega), tcpSegment_checksum hdata, if_neg (by simp), hread]

/-- A packet that `ipv4_intf_send` made passes the tests of `ipv4_recv`; its header is removed. -/
theorem ipv4Recv_packet (frames : Nat → Nat) (other : Byte → TcpWorld → Nat → Option TcpWorld)
    {w : TcpWorld} {packet : Nat} {intf : NetIntf} {dst : Ipv4Addr} {data : List Byte}
    (hlen : data.length < 65516)
    (hbuf : (w.bufs.buf packet).data = ipv4Packet intf dst IP_PROTOCOL_TCP data) :
    ipv4Recv frames other w packet =
      tcpRecv frames (w.setBuf packet { w.bufs.buf packet with data := data }) intf.ipAddr dst
        IP_PROTOCOL_TCP packet := by
  -- the fields of the header, one by one, as `ipv4_recv` reads them
  have hheader : (ipv4Header intf.ipAddr dst IP_PROTOCOL_TCP (20 + data.length)).length = 20 := rfl
  have hpacket : (ipv4Packet intf dst IP_PROTOCOL_TCP data).length = 20 + data.length := by
    rw [ipv4Packet, List.length_append, hheader]
  have htotal : (readBe16 ((ipv4Packet intf dst IP_PROTOCOL_TCP data).drop 2)).toNat =
      20 + data.length := by
    show (readBe16 (be16 (BitVec.ofNat 16 (20 + data.length)) ++ _)).toNat = _
    rw [readBe16_be16, BitVec.toNat_ofNat]
    omega
  have hsrc : Ipv4Addr.read ((ipv4Packet intf dst IP_PROTOCOL_TCP data).drop 12) = intf.ipAddr :=
    Ipv4Addr.read_toBytes intf.ipAddr (dst.toBytes ++ data)
  have hdst : Ipv4Addr.read ((ipv4Packet intf dst IP_PROTOCOL_TCP data).drop 16) = dst :=
    Ipv4Addr.read_toBytes dst data
  have hversion : ((ipv4Packet intf dst IP_PROTOCOL_TCP data).getD 0 0 >>> 4) &&&
      (0x0F : BitVec 8) = 4 := by
    show ((0x45 : BitVec 8) >>> 4) &&& (0x0F : BitVec 8) = 4
    decide
  have hfragment : readBe16 ((ipv4Packet intf dst IP_PROTOCOL_TCP data).drop 6) &&&
      (0x1FFF : BitVec 16) = 0 := by
    show readBe16 [0, 0] &&& (0x1FFF : BitVec 16) = 0
    decide
  have hihl : ((ipv4Packet intf dst IP_PROTOCOL_TCP data).getD 0 0 &&& (0x0F : BitVec 8)).toNat *
      4 = 20 := by
    show ((0x45 : BitVec 8) &&& (0x0F : BitVec 8)).toNat * 4 = 20
    decide
  have hprotocol : (ipv4Packet intf dst IP_PROTOCOL_TCP data).getD 9 0 = IP_PROTOCOL_TCP := rfl
  have hdrop : (ipv4Packet intf dst IP_PROTOCOL_TCP data).drop 20 = data := rfl
  unfold ipv4Recv
  rw [hbuf]
  dsimp only
  -- none of the tests drops the packet
  rw [if_neg (by omega), if_neg (by rw [hversion]; simp), if_neg (by rw [hfragment]; simp), htotal,
    if_neg (by omega), hihl, hprotocol, if_pos rfl, hsrc, hdst, List.take_of_length_le (by omega)]
  congr 2
  unfold NetBuf.advance
  dsimp only
  rw [hdrop, hpacket]
  congr 1
  omega

/-- What `tcp_send_packet` and `ipv4_intf_send` hand to the interface, for a connection with
    the address of its interface, is read back by `ipv4_recv` and `tcp_recv`: addresses,
    ports, numbers, flags and window, and behind the header what was sent. -/
theorem tcp_packet_decoded (frames frames' : Nat → Nat)
    (other : Byte → TcpWorld → Nat → Option TcpWorld)
    (w : SendWorld) (c : TcpConn) (seq : BitVec 32) (flags : BitVec 8)
    (data : List Byte) (kept : Bool)
    (hlocal : c.localAddr = (w.net.intf c.intf).ipAddr) (hdata : data.length ≤ 1460) :
    ∃ (net : NetWorld) (bytes : List Byte),
      (tcpSendSegment frames w c seq flags data kept).2 =
        intfSend frames (w.setNet net) c.intf c.nextAddr
          (tcpSendSegment frames w c seq flags data kept).1 kept ∧
      (net.bufs.buf (tcpSendSegment frames w c seq flags data kept).1).data = bytes ∧
      ∀ (v : TcpWorld) (packet : Nat), (v.bufs.buf packet).data = bytes →
        ∃ (header : TcpHeader) (swapped : List Byte),
          ipv4Recv frames' other v packet =
            tcpRecvChecked frames' v c.localAddr c.remoteAddr header swapped packet ∧
          header.srcPort = c.localPort ∧ header.dstPort = c.remotePort ∧ header.seq = seq ∧
          header.ack = (if hasFlag flags TCP_ACK then c.rcv.nxt else 0) ∧ header.flags = flags ∧
          header.windowSize.zeroExtend 32 = TCP_WINDOW_SIZE ∧
          header.headerLen = (if hasFlag flags TCP_SYN then 24 else 20) ∧
          swapped.drop header.headerLen = data := by
  have hsegment := tcpSegment_length_le c seq flags data
  refine ⟨(allocPacket frames w.net (tcpSegment c seq flags data).toBytes).2.setData
      (allocPacket frames w.net (tcpSegment c seq flags data).toBytes).1
      (ipv4Packet (w.net.intf c.intf) c.remoteAddr IP_PROTOCOL_TCP
        (tcpSegment c seq flags data).toBytes),
    ipv4Packet (w.net.intf c.intf) c.remoteAddr IP_PROTOCOL_TCP
      (tcpSegment c seq flags data).toBytes, ?_, ?_, ?_⟩
  · -- `ipv4_intf_send` puts its header in front of what was written
    have hwritten : (((allocPacket frames w.net (tcpSegment c seq flags data).toBytes).2).bufs.buf
        (allocPacket frames w.net (tcpSegment c seq flags data).toBytes).1).data =
          (tcpSegment c seq flags data).toBytes := by
      simp [allocPacket, NetWorld.setData]
    unfold tcpSendSegment ipv4IntfSend
    dsimp only
    rw [show (w.setNet (allocPacket frames w.net (tcpSegment c seq flags data).toBytes).2).net =
      (allocPacket frames w.net (tcpSegment c seq flags data).toBytes).2 from rfl, hwritten]
    rfl
  · simp [NetWorld.setData, tcpSendSegment]
  -- the other end, with the packet in some buffer
  · intro v packet hv
    refine ⟨(tcpSegment c seq flags data).header,
      tcpSwap (tcpSegment c seq flags data).toBytes, ?_, rfl, rfl,
      rfl, rfl, rfl, rfl, ?_, tcpSegment_payload c seq flags data⟩
    · have hbuf : ((v.setBuf packet { v.bufs.buf packet with
          data := (tcpSegment c seq flags data).toBytes }).bufs.buf packet).data =
            (tcpSegment c seq flags data).toBytes := by
        simp [TcpWorld.setBuf]
      rw [ipv4Recv_packet frames' other (by omega) hv, ← hlocal, tcpRecv_segment frames' hdata hbuf,
        tcpRecvChecked_setData]
    · rw [tcpSegment_headerLen]
      have hoptions : (tcpSegment c seq flags data).options.length = _ := length_tcpOptions flags
      rw [hoptions]
      split <;> rfl

/-- A connection over the gateway. -/
def TcpConn.outward : TcpConn :=
  { TcpConn.zero with
    intf := 1
    localAddr := .ofBytes 10 0 2 15
    nextAddr := .ofBytes 10 0 2 2
    remoteAddr := .ofBytes 93 184 216 34
    localPort := 49152
    remotePort := 80
    rcv := ⟨5, TCP_WINDOW_SIZE, 0, 4⟩ }

theorem tcp_packet_decoded_outward :
    ∃ (net : NetWorld) (bytes : List Byte),
      (tcpSendSegment nextFrame SendWorld.boot TcpConn.outward 7 TCP_ACK [1, 2, 3] false).2 =
        intfSend nextFrame (SendWorld.boot.setNet net) 1 (.ofBytes 10 0 2 2)
          (tcpSendSegment nextFrame SendWorld.boot TcpConn.outward 7 TCP_ACK [1, 2, 3] false).1
            false ∧
      (net.bufs.buf (tcpSendSegment nextFrame SendWorld.boot TcpConn.outward 7 TCP_ACK
        [1, 2, 3] false).1).data =
        bytes ∧
      ∀ (v : TcpWorld) (packet : Nat), (v.bufs.buf packet).data = bytes →
        ∃ (header : TcpHeader) (swapped : List Byte),
          ipv4Recv nextFrame (fun _ v _ => some v) v packet =
            tcpRecvChecked nextFrame v (.ofBytes 10 0 2 15) (.ofBytes 93 184 216 34) header
              swapped packet ∧
          header.srcPort = 49152 ∧ header.dstPort = 80 ∧ header.seq = 7 ∧ header.ack = 5 ∧
          header.flags = TCP_ACK ∧ header.windowSize.zeroExtend 32 = TCP_WINDOW_SIZE ∧
          header.headerLen = 20 ∧ swapped.drop header.headerLen = [1, 2, 3] :=
  tcp_packet_decoded nextFrame nextFrame (fun _ v _ => some v) SendWorld.boot TcpConn.outward 7
    TCP_ACK [1, 2, 3]
    false rfl (by decide)

end MishaOS
