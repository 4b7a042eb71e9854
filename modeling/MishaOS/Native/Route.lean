import MishaOS.Native.Addr
import MishaOS.Native.Word
import Mathlib.Logic.Function.Basic

/-!
# The routing table

`route.c` keeps a doubly linked list of routes, each in a page of its own.
Pointers are numbers with 0 for null; `none` stands for a loop that does not
end or a read through the null pointer.
-/

namespace MishaOS

/-- `net_route_t`. -/
structure NetRoute where
  next : Nat
  prev : Nat
  dst : Ipv4Addr
  mask : Ipv4Addr
  gateway : Ipv4Addr
  intf : Nat

/-- `route_list` and the memory its nodes live in. -/
structure RouteTable where
  routeList : Nat
  route : Nat → NetRoute

def RouteTable.setRoute (t : RouteTable) (p : Nat) (r : NetRoute) : RouteTable :=
  { t with route := Function.update t.route p r }

@[simp] theorem RouteTable.setRoute_route (t : RouteTable) (p q : Nat) (r : NetRoute) :
    (t.setRoute p r).route q = if q = p then r else t.route q :=
  Function.update_apply _ _ _ _

@[simp] theorem RouteTable.setRoute_routeList (t : RouteTable) (p : Nat) (r : NetRoute) :
    (t.setRoute p r).routeList = t.routeList := rfl

/-- The loop of `net_find_route`, which stops in front of the last route. -/
def netFindRouteFrom (t : RouteTable) (dst : Ipv4Addr) : (fuel route : Nat) → Option Nat
  | 0, _ => none
  | fuel + 1, route =>
    -- `route->next` with `route == 0`
    if route = 0 then none
    else if (t.route route).next = 0 then some 0
    else if dst.bits &&& (t.route route).mask.bits = (t.route route).dst.bits then some route
    else netFindRouteFrom t dst fuel (t.route route).next

/-- `net_find_route`: the route found, or null. -/
def netFindRoute (t : RouteTable) (dst : Ipv4Addr) : Option Nat :=
  netFindRouteFrom t dst walkFuel t.routeList

/-- The loop of `net_add_route` that chooses the node to insert behind. -/
def netAddRoutePrev (t : RouteTable) (mask : Ipv4Addr) : (fuel prev : Nat) → Option Nat
  | 0, _ => none
  | fuel + 1, prev =>
    if (t.route prev).next = 0 then some prev
    else if mask.bits < (t.route prev).mask.bits then some prev
    else netAddRoutePrev t mask fuel (t.route prev).next

/-- The end of `net_add_route`: link the node `route` behind `prev`. -/
def netLinkRoute (t : RouteTable) (route prev : Nat) : RouteTable :=
  let next := (t.route prev).next
  let t := if next ≠ 0 then t.setRoute next { t.route next with prev := route } else t
  let t := t.setRoute route { t.route route with next := (t.route prev).next, prev := prev }
  t.setRoute prev { t.route prev with next := route }

/-- `net_add_route`; `page` is what `pfa_request_page` returned. -/
def netAddRoute (t : RouteTable) (page : Nat) (dst mask : Ipv4Addr) (gateway : Option Ipv4Addr)
    (intf : Nat) : Option RouteTable :=
  let t := t.setRoute page ⟨0, 0, dst, mask, gateway.getD ipv4NullAddr, intf⟩
  if t.routeList = 0 then
    some { t.setRoute page { t.route page with next := 0 } with routeList := page }
  else
    (netAddRoutePrev t mask walkFuel t.routeList).map (netLinkRoute t page)

/-- `net_next_addr`: the gateway of a route, or the destination itself. -/
def netNextAddr (t : RouteTable) (route : Nat) (dst : Ipv4Addr) : Ipv4Addr :=
  if (t.route route).gateway.bits ≠ 0 then (t.route route).gateway else dst

end MishaOS
