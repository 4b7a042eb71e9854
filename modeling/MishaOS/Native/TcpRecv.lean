import MishaOS.Native.Tcp

/-!
# TCP: received segments and user calls

The second half of `tcp.c`: what a segment does to the connection it is for,
the resequence list of out-of-order segments, and `tcp_connect`, `tcp_close`
and `tcp_poll`.
-/

namespace MishaOS

/-! ## The resequence list -/

/-- The first loop of `tcp_recv_insert`: the last segment in front of `seq` and
    the first one not in front of it. -/
def tcpInsertPos (b : BufPool) (seq : BitVec 32) : (fuel prev cur : Nat) → Option (Nat × Nat)
  | 0, _, _ => none
  | fuel + 1, prev, cur =>
    if cur = 0 then some (prev, 0)
    else if seqDiff seq (b.buf cur).seq ≤ 0 then some (prev, cur)
    else tcpInsertPos b seq fuel cur (b.buf cur).link

/-- The loop of `tcp_recv_insert` behind a FIN: all that follows is dropped. -/
def tcpInsertDrop : (fuel : Nat) → BufPool → (cur : Nat) → Option BufPool
  | 0, _, _ => none
  | fuel + 1, b, cur =>
    if cur = 0 then some b
    else
      let next := (b.buf cur).link
      tcpInsertDrop fuel (netFreeBuf (b.setBuf cur { b.buf cur with link := 0 }) cur) next

/-- The last loop of `tcp_recv_insert`: segments that `packet` covers are
    dropped, and `packet` ends where the first remaining one starts. -/
def tcpInsertMerge (packet : Nat) (dataLen : BitVec 32) :
    (fuel : Nat) → BufPool → (cur : Nat) → Option (BufPool × Nat)
  | 0, _, _ => none
  | fuel + 1, b, cur =>
    if cur = 0 then some (b, 0)
    else
      let packetEnd := (b.buf packet).seq + dataLen
      let curEnd := (b.buf cur).seq + (b.buf cur).len32
      if seqDiff packetEnd (b.buf cur).seq < 0 then some (b, cur)
      else if seqDiff packetEnd curEnd < 0 then
        some (b.setBuf packet ((b.buf packet).trim (packetEnd - (b.buf cur).seq).toNat), cur)
      else
        let next := (b.buf cur).link
        tcpInsertMerge packet dataLen fuel
          (netFreeBuf (b.setBuf cur { b.buf cur with link := 0 }) cur) next

/-- The end of `tcp_recv_insert`: what is in front of `packet`, and what is
    behind `cur`, is no longer linked. -/
def tcpInsertLink (b : BufPool) (packet cur : Nat) : BufPool :=
  if cur ≠ 0 then
    let b := b.setBuf cur { b.buf cur with link := (b.buf packet).link }
    b.setBuf packet { b.buf packet with link := cur }
  else b

/-- `tcp_recv_insert` from the FIN test on, for the segments from `cur` on. -/
def tcpInsertRest (b : BufPool) (packet : Nat) (dataLen : BitVec 32) (cur : Nat) :
    Option (BufPool × Nat) :=
  let dropped := if hasFlag ((b.buf packet).flags.setWidth 8) TCP_FIN then
    (tcpInsertDrop walkFuel b cur).map (·, 0) else some (b, cur)
  dropped.bind fun r =>
    (tcpInsertMerge packet dataLen walkFuel r.1 r.2).map fun r =>
      (tcpInsertLink r.1 packet r.2, packet)

/-- The end of the segment `prev` is cut off where `seq` starts. -/
def tcpInsertTrim (b : BufPool) (prev : Nat) (seq : BitVec 32) : BufPool :=
  let prevEnd := (b.buf prev).seq + (b.buf prev).len32
  if prev ≠ 0 ∧ 0 < seqDiff prevEnd seq then
    b.setBuf prev ((b.buf prev).trim (prevEnd - seq).toNat)
  else b

/-- `tcp_recv_insert`: the buffers and `conn->resequence` afterwards. -/
def tcpRecvInsert (b : BufPool) (resequence packet : Nat) : Option (BufPool × Nat) :=
  let seq := (b.buf packet).seq
  let dataLen := (b.buf packet).len32
  (tcpInsertPos b seq walkFuel 0 resequence).bind fun pos =>
    let prevEnd := (b.buf pos.1).seq + (b.buf pos.1).len32
    if pos.1 ≠ 0 ∧ 0 ≤ seqDiff prevEnd (seq + dataLen) then some (netFreeBuf b packet, resequence)
    else tcpInsertRest (tcpInsertTrim b pos.1 seq) packet dataLen pos.2

/-- `tcp_recv_process`, from the segment `packet` on. -/
def tcpRecvProcessFrom (conn : Nat) : (fuel : Nat) → TcpWorld → (packet : Nat) → Option TcpWorld
  | 0, _, _ => none
  | fuel + 1, w, packet =>
    if packet = 0 then some w
    else
      let next := (w.bufs.buf packet).link
      if (w.conn conn).rcv.nxt ≠ (w.bufs.buf packet).seq then some w
      else
        let dataLen := (w.bufs.buf packet).len32
        let w := w.setRcv conn { (w.conn conn).rcv with nxt := (w.conn conn).rcv.nxt + dataLen }
        let w :=
          if (w.conn conn).onData then w.emit (.onData conn (w.bufs.buf packet).data dataLen) else w
        let w := (w.setBufs (netFreeBuf w.bufs packet)).setResequence conn next
        tcpRecvProcessFrom conn fuel w next

/-- `tcp_recv_process` -/
def tcpRecvProcess (w : TcpWorld) (conn : Nat) : Option TcpWorld :=
  tcpRecvProcessFrom conn walkFuel w (w.conn conn).resequence

section Frames

variable (frames : Nat → Nat)

/-- `tcp_recv_data` -/
def tcpRecvData (w : TcpWorld) (conn packet : Nat) : Option TcpWorld :=
  match (w.conn conn).state with
  | .established | .finWait1 | .finWait2 =>
    let refCount := u32 ((w.bufs.buf packet).refCount + 1)
    let w := w.setBuf packet { w.bufs.buf packet with refCount := refCount }
    (tcpRecvInsert w.bufs (w.conn conn).resequence packet).bind fun r =>
      let w := (w.setBufs r.1).setResequence conn r.2
      (tcpRecvProcess w conn).map fun w => tcpSendAck frames w conn
  | _ => some w

/-! ## Segments -/

/-- `tcp_recv_closed`; `len` is the length of the TCP packet. -/
def tcpRecvClosed (w : TcpWorld) (src dst : Ipv4Addr) (header : TcpHeader) (len : BitVec 16) :
    Option TcpWorld :=
  if hasFlag header.flags TCP_RST then some w
  else
    (netFindRoute w.routes src).map fun route =>
      if route = 0 then w
      else
        let rstConn := { TcpConn.zero with
          intf := (w.routes.route route).intf
          localAddr := dst
          localPort := header.dstPort
          remoteAddr := src
          remotePort := header.srcPort
          nextAddr := netNextAddr w.routes route src }
        if hasFlag header.flags TCP_ACK then tcpTransmit frames w 0 rstConn header.ack TCP_RST []
        else
          let dataLen := len.zeroExtend 32 - BitVec.ofNat 32 header.headerLen
          let rstConn := { rstConn with rcv := { rstConn.rcv with nxt := header.seq + dataLen } }
          tcpTransmit frames w 0 rstConn 0 (TCP_RST ||| TCP_ACK) []

/-- `tcp_recv_syn_sent`, for a SYN without RST. -/
def tcpRecvSynSentOpen (w : TcpWorld) (conn : Nat) (header : TcpHeader) : TcpWorld :=
  let w := w.setRcv conn { (w.conn conn).rcv with irs := header.seq, nxt := header.seq + 1 }
  if hasFlag header.flags TCP_ACK then
    let w := w.setSnd conn { (w.conn conn).snd with
      una := header.ack, wnd := header.windowSize.zeroExtend 32, wl1 :=
        header.seq, wl2 := header.ack }
    let w := tcpSetState w conn .established
    let w := tcpSendAck frames w conn
    if (w.conn conn).onConnect then w.emit (.onConnect conn) else w
  else
    let w := tcpSetState w conn .synReceived
    let w := w.setSnd conn { (w.conn conn).snd with nxt := (w.conn conn).snd.nxt - 1 }
    tcpSendPacket frames w conn (w.conn conn).snd.nxt (TCP_SYN ||| TCP_ACK) []

/-- The acknowledgement test of `tcp_recv_syn_sent`. -/
def synSentAckBad (c : TcpConn) (header : TcpHeader) : Bool :=
  seqDiff header.ack c.snd.iss ≤ 0 ∨ 0 < seqDiff header.ack c.snd.nxt

/-- `tcp_recv_syn_sent` -/
def tcpRecvSynSent (w : TcpWorld) (conn : Nat) (header : TcpHeader) : Option TcpWorld :=
  if hasFlag header.flags TCP_ACK ∧ synSentAckBad (w.conn conn) header then
    if hasFlag header.flags TCP_RST then some w
    else some (tcpSendPacket frames w conn header.ack TCP_RST [])
  else if hasFlag header.flags TCP_RST then
    if hasFlag header.flags TCP_ACK then tcpError w conn TCP_CONN_RESET else some w
  else if hasFlag header.flags TCP_SYN then some (tcpRecvSynSentOpen frames w conn header)
  else some w

/-- `tcp_recv_rst` -/
def tcpRecvRst (w : TcpWorld) (conn : Nat) : Option TcpWorld :=
  match (w.conn conn).state with
  | .synReceived => tcpError w conn TCP_CONN_REFUSED
  | .established | .finWait1 | .finWait2 | .closeWait => tcpError w conn TCP_CONN_RESET
  | .closing | .lastAck | .timeWait => tcpFree w conn
  | _ => some w

/-- `tcp_recv_syn` -/
def tcpRecvSyn (w : TcpWorld) (conn : Nat) : Option TcpWorld :=
  tcpError (tcpSendPacket frames w conn 0 (TCP_RST ||| TCP_ACK) []) conn TCP_CONN_RESET

/-- `conn->msl_wait = pit_get_ticks() + 2 * TCP_MSL` after `TCP_TIME_WAIT` is entered. -/
def tcpTimeWait (w : TcpWorld) (conn : Nat) : TcpWorld :=
  w.setMslWait conn (w.ticks + 2 * TCP_MSL)

/-- `snd.una` and the window, for an acknowledgement in the window. -/
def tcpAckUpdate (snd : TcpSndState) (header : TcpHeader) : TcpSndState :=
  if seqDiff snd.una header.ack ≤ 0 ∧ seqDiff header.ack snd.nxt ≤ 0 then
    let snd := { snd with una := header.ack }
    if seqDiff snd.wl1 header.seq < 0 ∨ (snd.wl1 = header.seq ∧ seqDiff snd.wl2 header.ack ≤ 0) then
      { snd with wnd := header.windowSize.zeroExtend 32, wl1 := header.seq, wl2 := header.ack }
    else snd
  else snd

/-- `tcp_recv_ack` in `TCP_ESTABLISHED` to `TCP_CLOSING`. -/
def tcpRecvAckOpen (w : TcpWorld) (conn : Nat) (header : TcpHeader) : TcpWorld :=
  let w := w.setSnd conn (tcpAckUpdate (w.conn conn).snd header)
  if 0 < seqDiff header.ack (w.conn conn).snd.nxt then tcpSendAck frames w conn
  else if 0 ≤ seqDiff header.ack (w.conn conn).snd.nxt then
    match (w.conn conn).state with
    | .finWait1 => tcpSetState w conn .finWait2
    | .closing => tcpTimeWait (tcpSetState w conn .timeWait) conn
    | _ => w
  else w

/-- The acknowledgement test of `tcp_recv_ack` in `TCP_SYN_RECEIVED`, which does not wrap around. -/
def synAckOk (snd : TcpSndState) (header : TcpHeader) : Bool :=
  snd.una ≤ header.ack ∧ header.ack ≤ snd.nxt

/-- `tcp_recv_ack` -/
def tcpRecvAck (w : TcpWorld) (conn : Nat) (header : TcpHeader) : Option TcpWorld :=
  match (w.conn conn).state with
  | .synReceived =>
    if synAckOk (w.conn conn).snd header then
      let w := w.setSnd conn { (w.conn conn).snd with
        wnd := header.windowSize.zeroExtend 32, wl1 := header.seq, wl2 := header.ack }
      some (tcpSetState w conn .established)
    else some (tcpSendPacket frames w conn header.ack TCP_RST [])
  | .established | .finWait1 | .finWait2 | .closeWait | .closing =>
    some (tcpRecvAckOpen frames w conn header)
  | .lastAck =>
    if 0 ≤ seqDiff header.ack (w.conn conn).snd.nxt then tcpFree w conn else some w
  | _ => some w

/-- `tcp_recv_fin` -/
def tcpRecvFin (w : TcpWorld) (conn : Nat) (header : TcpHeader) : TcpWorld :=
  let w := w.setRcv conn { (w.conn conn).rcv with nxt := header.seq + 1 }
  let w := tcpSendAck frames w conn
  match (w.conn conn).state with
  | .synReceived | .established => tcpSetState w conn .closeWait
  | .finWait1 =>
    if 0 ≤ seqDiff header.ack (w.conn conn).snd.nxt then
      tcpTimeWait (tcpSetState w conn .timeWait) conn
    else tcpSetState w conn .closing
  | .finWait2 => tcpTimeWait (tcpSetState w conn .timeWait) conn
  | .timeWait => tcpTimeWait w conn
  | _ => w

/-- The window test of `tcp_recv_general`. -/
def inWindow (c : TcpConn) (seq dataLen : BitVec 32) : Bool :=
  seqDiff c.rcv.nxt seq ≤ 0 ∧ seqDiff (seq + dataLen) (c.rcv.nxt + c.rcv.wnd) ≤ 0

/-- `tcp_recv_general` -/
def tcpRecvGeneral (w : TcpWorld) (conn : Nat) (header : TcpHeader) (packet : Nat) :
    Option TcpWorld :=
  let flags := header.flags
  let dataLen := (w.bufs.buf packet).len32
  if !inWindow (w.conn conn) header.seq dataLen then
    if hasFlag flags TCP_RST then some w else some (tcpSendAck frames w conn)
  else if hasFlag flags TCP_RST then tcpRecvRst w conn
  else do
    let w ← if hasFlag flags TCP_SYN then tcpRecvSyn frames w conn else some w
    if !hasFlag flags TCP_ACK then some w
    else
      let w ← tcpRecvAck frames w conn header
      let w ← if dataLen ≠ 0 then tcpRecvData frames w conn packet else some w
      some (if hasFlag flags TCP_FIN then tcpRecvFin frames w conn header else w)

/-- `tcp_recv` for the connection `tcp_find` returned. -/
def tcpRecvConn (w : TcpWorld) (conn : Nat) (header : TcpHeader) (packet : Nat) : Option TcpWorld :=
  match (w.conn conn).state with
  | .synSent => tcpRecvSynSent frames w conn header
  | .listen => some w
  | _ =>
    let buf := { (w.bufs.buf packet).advance header.headerLen with
      seq := header.seq, flags := header.flags.zeroExtend 32 }
    tcpRecvGeneral frames (w.setBuf packet buf) conn header packet

/-- `tcp_recv`: `src`, `dst` and `protocol` are those of the IP header. -/
def tcpRecv (w : TcpWorld) (src dst : Ipv4Addr) (protocol : Byte) (packet : Nat) :
    Option TcpWorld :=
  let data := (w.bufs.buf packet).data
  if data.length < 20 then some w
  else if netChecksum (checksumHeader src dst protocol data.length ++ data) ≠ 0 then some w
  else
    let header := TcpHeader.read data
    let w := w.setBuf packet { w.bufs.buf packet with data := tcpSwap data }
    (tcpFind w src header.srcPort dst header.dstPort).bind fun conn =>
      if conn = 0 ∨ (w.conn conn).state = .closed then
        tcpRecvClosed frames w src dst header (BitVec.ofNat 16 data.length)
      else tcpRecvConn frames w conn header packet

/-- What a driver does with a received packet: the bytes go into a new buffer,
    and its own reference is dropped after the call. -/
def tcpDeliver (w : TcpWorld) (src dst : Ipv4Addr) (protocol : Byte) (data : List Byte) :
    Option TcpWorld :=
  let (packet, b) := netAllocBuf frames w.bufs
  let w := w.setBufs (b.setBuf packet { b.buf packet with data := data })
  (tcpRecv frames w src dst protocol packet).map fun w => w.setBufs (netFreeBuf w.bufs packet)

/-! ## The clock and the user -/

/-- `tcp_poll`, from the connection `conn` on. -/
def tcpPollFrom : (fuel : Nat) → TcpWorld → (conn : Nat) → Option TcpWorld
  | 0, _, _ => none
  | fuel + 1, w, conn =>
    if conn = 0 then some w
    else do
      let next := (w.conn conn).next
      let w ← if (w.conn conn).state = .timeWait ∧ 0 ≤ seqDiff w.ticks (w.conn conn).mslWait then
        tcpFree w conn else some w
      tcpPollFrom fuel w next

/-- `tcp_poll` -/
def tcpPoll (w : TcpWorld) : Option TcpWorld := tcpPollFrom walkFuel w w.tcpConnList

/-- `net_ephemeral_port`: the port and the next value of `next_port`. -/
def netEphemeralPort (nextPort : BitVec 16) : BitVec 16 × BitVec 16 :=
  let port := if nextPort = 0 then nextPort + 1 else nextPort
  (port, port + 1)

/-- What `tcp_connect` writes into the structure, for a route that was found. -/
def tcpConnectConn (w : TcpWorld) (conn route : Nat) (addr : Ipv4Addr)
    (port : BitVec 16) : TcpConn :=
  let intf := (w.routes.route route).intf
  let isn := w.baseIsn + w.ticks * 250
  { w.conn conn with
    intf := intf
    localAddr := (w.intf intf).ipAddr
    nextAddr := netNextAddr w.routes route addr
    remoteAddr := addr
    localPort := (netEphemeralPort w.nextPort).1
    remotePort := port
    snd := ⟨isn, isn, TCP_WINDOW_SIZE, 0, 0, 0, isn⟩
    rcv := ⟨0, TCP_WINDOW_SIZE, 0, 0⟩ }

/-- `tcp_connect` puts the connection in front of `tcp_conn_list`. -/
def tcpConnectLink (w : TcpWorld) (conn : Nat) : TcpWorld :=
  let w :=
    if w.tcpConnList ≠ 0 then w.setConn w.tcpConnList { w.conn w.tcpConnList with prev := conn }
      else w
  let w := w.setConn conn { w.conn conn with next := w.tcpConnList }
  { w with tcpConnList := conn }.emit (.connect conn)

/-- `tcp_connect`; without a route nothing happens. -/
def tcpConnect (w : TcpWorld) (conn : Nat) (addr : Ipv4Addr) (port : BitVec 16) :
    Option (Bool × TcpWorld) :=
  (netFindRoute w.routes addr).map fun route =>
    if route = 0 then (false, w)
    else
      let c := tcpConnectConn w conn route addr port
      let w := { w with nextPort := (netEphemeralPort w.nextPort).2 }.setConn conn c
      let w := tcpConnectLink w conn
      let w := tcpSendPacket frames w conn (w.conn conn).snd.nxt TCP_SYN []
      (true, tcpSetState w conn .synSent)

/-- `tcp_close` -/
def tcpClose (w : TcpWorld) (conn : Nat) : Option TcpWorld :=
  match (w.conn conn).state with
  | .closed | .listen | .synSent => tcpFree w conn
  | .synReceived | .established =>
    some (tcpSetState (tcpSendPacket frames w conn (w.conn conn).snd.nxt (TCP_FIN ||| TCP_ACK) [])
      conn .finWait1)
  | .finWait1 | .finWait2 | .closing | .lastAck | .timeWait =>
    some (if (w.conn conn).onError then w.emit (.onError conn TCP_CONN_CLOSING) else w)
  | .closeWait =>
    some (tcpSetState (tcpSendPacket frames w conn (w.conn conn).snd.nxt (TCP_FIN ||| TCP_ACK) [])
      conn .lastAck)

end Frames

end MishaOS
