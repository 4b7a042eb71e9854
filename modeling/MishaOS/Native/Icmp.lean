import MishaOS.Native.Send

/-!
# ICMP

`icmp_recv` of `icmp.c`, which answers echo requests.  The packets it sends are
those of `icmp_echo_reply`.
-/

namespace MishaOS

/-- `icmp_recv` of a packet with the bytes `data` from `src`: the packet of the reply, if
    there is one. -/
def icmpRecv (frames : Nat → Nat) (w : SendWorld) (src : Ipv4Addr) (data : List Byte) :
    Option (Option Nat × SendWorld) :=
  if data.length < 8 then some (none, w)
  else
    let type := data.getD 0 0
    let id := data.getD 4 0 ++ data.getD 5 0
    let sequence := data.getD 6 0 ++ data.getD 7 0
    if type = ICMP_TYPE_ECHO_REQUEST then
      (icmpEchoReply frames w src id sequence (data.drop 8)).map fun r => (some r.1, r.2)
    -- an echo reply is only reported
    else some (none, w)

end MishaOS
