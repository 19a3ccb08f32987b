import Rut.Common.Types
import Rut.Lib.SlotTable

/-!
# The firewall

Port of the firewall of `RouteConfig` in `include/rut/runtime/route_table.h`. Rules for allowed and for denied clients
stand in four tables each: exact addresses, networks, ranges of addresses and source ports. Addresses are packed in host
order; the overloads in network order swap the bytes first, and those with a literal parse it.
-/

set_option linter.all false
namespace Rut.Route

def kMaxFirewallRules : Nat := 64

abbrev Ipv4 := BitVec 32

structure FirewallCidrRule where
  netAddr : Ipv4
  mask : Ipv4
deriving DecidableEq

structure FirewallRangeRule where
  startIp : Ipv4
  endIp : Ipv4
deriving DecidableEq

inductive FirewallDecision where
  | allowedDefault
  | allowedByIp
  | allowedByCidr
  | allowedByPort
  | allowedByRange
  | deniedByIp
  | deniedByCidr
  | deniedByPort
  | deniedByRange
  | deniedByMissingAllowMatch
deriving DecidableEq

/-- `firewall_decision_is_allow`. -/
def FirewallDecision.isAllow : FirewallDecision → Bool
  | .allowedDefault | .allowedByIp | .allowedByCidr | .allowedByPort | .allowedByRange => true
  | .deniedByIp | .deniedByCidr | .deniedByPort | .deniedByRange | .deniedByMissingAllowMatch => false

/-! ## Tables -/

structure FirewallTables where
  ips : SlotTable Ipv4 kMaxFirewallRules := .empty 0
  cidrs : SlotTable FirewallCidrRule kMaxFirewallRules := .empty ⟨0, 0⟩
  ranges : SlotTable FirewallRangeRule kMaxFirewallRules := .empty ⟨0, 0⟩
  ports : SlotTable (BitVec 16) kMaxFirewallRules := .empty 0

namespace FirewallTables

def prefixMask (prefixLen : Nat) : Ipv4 := if prefixLen = 0 then 0 else 0xffffffff#32 <<< (32 - prefixLen)

def cidrEntry (ip : Ipv4) (prefixLen : Nat) : FirewallCidrRule := ⟨ip &&& prefixMask prefixLen, prefixMask prefixLen⟩

def addIp (ip : Ipv4) (t : FirewallTables) : Bool × FirewallTables :=
  let (ok, ips) := t.ips.add ip
  (ok, { t with ips })

def removeIp (ip : Ipv4) (t : FirewallTables) : Bool × FirewallTables :=
  let (ok, ips) := t.ips.remove 0 ip
  (ok, { t with ips })

def addPort (port : BitVec 16) (t : FirewallTables) : Bool × FirewallTables :=
  if port = 0 then (false, t)
  else
    let (ok, ports) := t.ports.add port
    (ok, { t with ports })

def removePort (port : BitVec 16) (t : FirewallTables) : Bool × FirewallTables :=
  let (ok, ports) := t.ports.remove 0 port
  (ok, { t with ports })

def addCidr (ip : Ipv4) (prefixLen : Nat) (t : FirewallTables) : Bool × FirewallTables :=
  if prefixLen > 32 then (false, t)
  else
    let (ok, cidrs) := t.cidrs.add (cidrEntry ip prefixLen)
    (ok, { t with cidrs })

def removeCidr (ip : Ipv4) (prefixLen : Nat) (t : FirewallTables) : Bool × FirewallTables :=
  if prefixLen > 32 then (false, t)
  else
    let (ok, cidrs) := t.cidrs.remove ⟨0, 0⟩ (cidrEntry ip prefixLen)
    (ok, { t with cidrs })

def addRange (startIp endIp : Ipv4) (t : FirewallTables) : Bool × FirewallTables :=
  if startIp > endIp then (false, t)
  else
    let (ok, ranges) := t.ranges.add ⟨startIp, endIp⟩
    (ok, { t with ranges })

def removeRange (startIp endIp : Ipv4) (t : FirewallTables) : Bool × FirewallTables :=
  if startIp > endIp then (false, t)
  else
    let (ok, ranges) := t.ranges.remove ⟨0, 0⟩ ⟨startIp, endIp⟩
    (ok, { t with ranges })

def clear (t : FirewallTables) : FirewallTables where
  ips := t.ips.clear 0
  cidrs := t.cidrs.clear ⟨0, 0⟩
  ranges := t.ranges.clear ⟨0, 0⟩
  ports := t.ports.clear 0

end FirewallTables

/-- The firewall of a `RouteConfig`. -/
structure Firewall where
  allow : FirewallTables := {}
  deny : FirewallTables := {}
  defaultAllow : Bool := true

namespace Firewall

variable (f : Firewall)

def onAllow (op : FirewallTables → Bool × FirewallTables) : Bool × Firewall :=
  let (ok, allow) := op f.allow
  (ok, { f with allow })

def onDeny (op : FirewallTables → Bool × FirewallTables) : Bool × Firewall :=
  let (ok, deny) := op f.deny
  (ok, { f with deny })

def addFirewallAllowIp (ip : Ipv4) := f.onAllow (·.addIp ip)
def removeFirewallAllowIp (ip : Ipv4) := f.onAllow (·.removeIp ip)
def addFirewallDenyIp (ip : Ipv4) := f.onDeny (·.addIp ip)
def removeFirewallDenyIp (ip : Ipv4) := f.onDeny (·.removeIp ip)
def addFirewallAllowPort (port : BitVec 16) := f.onAllow (·.addPort port)
def removeFirewallAllowPort (port : BitVec 16) := f.onAllow (·.removePort port)
def addFirewallDenyPort (port : BitVec 16) := f.onDeny (·.addPort port)
def removeFirewallDenyPort (port : BitVec 16) := f.onDeny (·.removePort port)
def addFirewallAllowCidr (ip : Ipv4) (prefixLen : Nat) := f.onAllow (·.addCidr ip prefixLen)
def removeFirewallAllowCidr (ip : Ipv4) (prefixLen : Nat) := f.onAllow (·.removeCidr ip prefixLen)
def addFirewallDenyCidr (ip : Ipv4) (prefixLen : Nat) := f.onDeny (·.addCidr ip prefixLen)
def removeFirewallDenyCidr (ip : Ipv4) (prefixLen : Nat) := f.onDeny (·.removeCidr ip prefixLen)
def addFirewallAllowRange (startIp endIp : Ipv4) := f.onAllow (·.addRange startIp endIp)
def removeFirewallAllowRange (startIp endIp : Ipv4) := f.onAllow (·.removeRange startIp endIp)
def addFirewallDenyRange (startIp endIp : Ipv4) := f.onDeny (·.addRange startIp endIp)
def removeFirewallDenyRange (startIp endIp : Ipv4) := f.onDeny (·.removeRange startIp endIp)

def clearFirewallAllowRules : Firewall := { f with allow := f.allow.clear }
def clearFirewallDenyRules : Firewall := { f with deny := f.deny.clear }
def clearFirewallRules : Firewall := f.clearFirewallAllowRules.clearFirewallDenyRules
def setFirewallDefaultAllow (allow : Bool) : Firewall := { f with defaultAllow := allow }
def setFirewallDefaultDeny : Firewall := { f with defaultAllow := false }

end Firewall

/-! ## Literals -/

/-- The loop of `parse_ipv4_dotted`; `octets` are those in front of the last dot. -/
def parseIpv4DottedLoop : Str → List Nat → Nat → Nat → Option Ipv4
  | [], octets, digitCount, cur =>
    if digitCount = 0 then none
    else
      match octets with
      | [a, b, c] =>
        some (BitVec.ofNat 32 a <<< 24 ||| BitVec.ofNat 32 b <<< 16 ||| BitVec.ofNat 32 c <<< 8 ||| BitVec.ofNat 32 cur)
      | _ => none
  | c :: s, octets, digitCount, cur =>
    if c = ch '.' then
      if digitCount = 0 ∨ octets.length ≥ 3 then none else parseIpv4DottedLoop s (octets ++ [cur]) 0 0
    else if c < ch '0' ∨ ch '9' < c then none
    else
      let cur := cur * 10 + (c.toNat - (ch '0').toNat)
      if cur > 255 ∨ digitCount + 1 > 3 then none else parseIpv4DottedLoop s octets (digitCount + 1) cur

def parseIpv4Dotted (s : Str) : Option Ipv4 := parseIpv4DottedLoop s [] 0 0

/-- The text around the only occurrence of a separator, both parts of which are not empty. -/
def cutOnce (sep : UInt8) (s : Str) : Option (Str × Str) :=
  let front := s.takeWhile (· != sep)
  let back := (s.dropWhile (· != sep)).tail
  if sep ∉ s ∨ sep ∈ back ∨ front = [] ∨ back = [] then none else some (front, back)

def parsePrefixLen : Str → Nat → Option Nat
  | [], prefixLen => some prefixLen
  | c :: s, prefixLen =>
    if c < ch '0' ∨ ch '9' < c then none
    else
      let prefixLen := prefixLen * 10 + (c.toNat - (ch '0').toNat)
      if prefixLen > 32 then none else parsePrefixLen s prefixLen

def parseIpv4Cidr (s : Str) : Option (Ipv4 × Nat) := do
  let (front, back) ← cutOnce (ch '/') s
  let ip ← parseIpv4Dotted front
  let prefixLen ← parsePrefixLen back 0
  pure (ip, prefixLen)

def parseIpv4Range (s : Str) : Option (Ipv4 × Ipv4) := do
  let (front, back) ← cutOnce (ch '-') s
  let startIp ← parseIpv4Dotted front
  let endIp ← parseIpv4Dotted back
  if startIp ≤ endIp then pure (startIp, endIp) else none

/-- `ntohl` on a little-endian machine. -/
def ntohl (x : BitVec 32) : Ipv4 :=
  (x.setWidth 8).setWidth 32 <<< 24 ||| ((x >>> 8).setWidth 8).setWidth 32 <<< 16 |||
    ((x >>> 16).setWidth 8).setWidth 32 <<< 8 ||| (x >>> 24).setWidth 32

/-! ## Operations -/

inductive FirewallArg where
  | ip (ip : Ipv4)
  | port (port : BitVec 16)
  | cidr (ip : Ipv4) (prefixLen : Nat)
  | range (startIp endIp : Ipv4)
deriving DecidableEq

inductive FirewallOverload where
  | host (arg : FirewallArg)
  | ipLit (s : Str)
  | cidrLit (s : Str)
  | rangeLit (s : Str)
  | ipNetworkOrder (ip : BitVec 32)
  | cidrNetworkOrder (ip : BitVec 32) (prefixLen : Nat)
  | rangeNetworkOrder (startIp endIp : BitVec 32)
deriving DecidableEq

/-- The call in host order that an overload makes, unless its literal does not parse. -/
def FirewallOverload.arg : FirewallOverload → Option FirewallArg
  | .host arg => some arg
  | .ipLit s => (parseIpv4Dotted s).map .ip
  | .cidrLit s => (parseIpv4Cidr s).map fun (ip, prefixLen) => .cidr ip prefixLen
  | .rangeLit s => (parseIpv4Range s).map fun (startIp, endIp) => .range startIp endIp
  | .ipNetworkOrder ip => some (.ip (ntohl ip))
  | .cidrNetworkOrder ip prefixLen => some (.cidr (ntohl ip) prefixLen)
  | .rangeNetworkOrder startIp endIp => some (.range (ntohl startIp) (ntohl endIp))

inductive FirewallSide where
  | allow
  | deny
deriving DecidableEq

inductive FirewallOp where
  | add (side : FirewallSide) (rule : FirewallOverload)
  | remove (side : FirewallSide) (rule : FirewallOverload)
  | clearAllow
  | clearDeny
  | clear
  | setDefault (allow : Bool)
deriving DecidableEq

namespace Firewall

def addArg (f : Firewall) : FirewallSide → FirewallArg → Bool × Firewall
  | .allow, .ip ip => f.addFirewallAllowIp ip
  | .allow, .port port => f.addFirewallAllowPort port
  | .allow, .cidr ip prefixLen => f.addFirewallAllowCidr ip prefixLen
  | .allow, .range startIp endIp => f.addFirewallAllowRange startIp endIp
  | .deny, .ip ip => f.addFirewallDenyIp ip
  | .deny, .port port => f.addFirewallDenyPort port
  | .deny, .cidr ip prefixLen => f.addFirewallDenyCidr ip prefixLen
  | .deny, .range startIp endIp => f.addFirewallDenyRange startIp endIp

def removeArg (f : Firewall) : FirewallSide → FirewallArg → Bool × Firewall
  | .allow, .ip ip => f.removeFirewallAllowIp ip
  | .allow, .port port => f.removeFirewallAllowPort port
  | .allow, .cidr ip prefixLen => f.removeFirewallAllowCidr ip prefixLen
  | .allow, .range startIp endIp => f.removeFirewallAllowRange startIp endIp
  | .deny, .ip ip => f.removeFirewallDenyIp ip
  | .deny, .port port => f.removeFirewallDenyPort port
  | .deny, .cidr ip prefixLen => f.removeFirewallDenyCidr ip prefixLen
  | .deny, .range startIp endIp => f.removeFirewallDenyRange startIp endIp

def apply (f : Firewall) : FirewallOp → Bool × Firewall
  | .add side rule => rule.arg.elim (false, f) (f.addArg side)
  | .remove side rule => rule.arg.elim (false, f) (f.removeArg side)
  | .clearAllow => (true, f.clearFirewallAllowRules)
  | .clearDeny => (true, f.clearFirewallDenyRules)
  | .clear => (true, f.clearFirewallRules)
  | .setDefault allow => (true, f.setFirewallDefaultAllow allow)

/-! ## Decisions -/

/-- `firewall_decision_impl`; without a port the port rules are not used. -/
def firewallDecisionImpl (f : Firewall) (peerHost : Ipv4) (peerPort : Option (BitVec 16)) : FirewallDecision :=
  if f.deny.ips.entries.any (· == peerHost) then .deniedByIp
  else if f.deny.cidrs.entries.any fun r => peerHost &&& r.mask == r.netAddr then .deniedByCidr
  else if f.deny.ranges.entries.any fun r => decide (r.startIp ≤ peerHost ∧ peerHost ≤ r.endIp) then .deniedByRange
  else if peerPort.any fun port => f.deny.ports.entries.any (· == port) then .deniedByPort
  else if !(f.allow.ips.count > 0 || f.allow.cidrs.count > 0 || f.allow.ranges.count > 0 ||
      peerPort.isSome && f.allow.ports.count > 0) then
    if f.defaultAllow then .allowedDefault else .deniedByMissingAllowMatch
  else if f.allow.ips.entries.any (· == peerHost) then .allowedByIp
  else if f.allow.cidrs.entries.any fun r => peerHost &&& r.mask == r.netAddr then .allowedByCidr
  else if f.allow.ranges.entries.any fun r => decide (r.startIp ≤ peerHost ∧ peerHost ≤ r.endIp) then .allowedByRange
  else if peerPort.any fun port => f.allow.ports.entries.any (· == port) then .allowedByPort
  else .deniedByMissingAllowMatch

/-- `firewall_decision`, of a peer address in network order. -/
def firewallDecision (f : Firewall) (peerAddr : BitVec 32) (peerPort : Option (BitVec 16)) : FirewallDecision :=
  f.firewallDecisionImpl (ntohl peerAddr) peerPort

def firewallAllowsPeer (f : Firewall) (peerAddr : BitVec 32) (peerPort : Option (BitVec 16)) : Bool :=
  (f.firewallDecision peerAddr peerPort).isAllow

end Firewall

end Rut.Route
