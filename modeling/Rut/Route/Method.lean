import Rut.Common.Types

/-!
# Route methods and route indices

Port of `include/rut/runtime/route_method.h`. A route is registered for one method slot; slot 0 stands
for any method, slots 1 to 9 for the HTTP methods.
-/

namespace Rut.Route

/-- Number of method slots (`kRouteMethodSlots`). -/
def kMethodSlots : Nat := 10

abbrev Slot := Fin kMethodSlots

def anySlot : Slot := ⟨0, by decide⟩

def kRouteMethodAny : UInt8 := 0
def kRouteMethodGet : UInt8 := 1
def kRouteMethodPost : UInt8 := 2
def kRouteMethodDelete : UInt8 := 4
def kRouteMethodHead : UInt8 := 6
def kRouteMethodOptions : UInt8 := 7
def kRouteMethodConnect : UInt8 := 8
def kRouteMethodTrace : UInt8 := 9

/-- Method key of a first character, other bytes being keys already
(`route_method_key_from_legacy_char`). -/
def routeMethodKeyFromLegacyChar (method : UInt8) : UInt8 :=
  if method = 0 then kRouteMethodAny
  else if method = ch 'G' then kRouteMethodGet
  else if method = ch 'P' then kRouteMethodPost
  else if method = ch 'D' then kRouteMethodDelete
  else if method = ch 'H' then kRouteMethodHead
  else if method = ch 'O' then kRouteMethodOptions
  else if method = ch 'C' then kRouteMethodConnect
  else if method = ch 'T' then kRouteMethodTrace
  else method

/-- Slot of a method key, absent for `kMethodSlotInvalid` (`method_key_slot`). -/
def methodKeySlot (methodKey : UInt8) : Option Slot :=
  if h : methodKey.toNat < kMethodSlots then some ⟨methodKey.toNat, h⟩ else none

/-- Slot of a method key or legacy first character (`method_slot`). -/
def methodSlot (method : UInt8) : Option Slot := methodKeySlot (routeMethodKeyFromLegacyChar method)

/-- Index of a route in the route table, `u16`. -/
abbrev RouteIdx := UInt16

/-- No route (`TrieNode::kInvalidRoute`). -/
def kInvalidRoute : RouteIdx := 0xffff

/-- Arguments of a call of `insert`. -/
structure Insertion where
  path : Str
  method : UInt8
  routeIdx : RouteIdx
deriving DecidableEq

end Rut.Route
