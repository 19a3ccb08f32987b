import Rut.Route.Firewall

/-!
# The firewall as two sets of rules

The meaning of the operations of `Rut.Route.Firewall`: an addition that succeeds puts a rule into a set, a removal takes
it out, and a decision depends on the sets only. Any match of a denied rule decides first, then any match of an allowed
one. The default does not allow a client that none of some allowed rules matches.
-/

set_option linter.all false
namespace Rut.Route

inductive FirewallKind where
  | ip
  | cidr
  | range
  | port
deriving DecidableEq

inductive FirewallRule where
  | ip (ip : Ipv4)
  | cidr (prefixLen network : Nat)
  | range (startIp endIp : Ipv4)
  | port (port : BitVec 16)
deriving DecidableEq

namespace FirewallRule

def kind : FirewallRule → FirewallKind
  | .ip _ => .ip
  | .cidr _ _ => .cidr
  | .range _ _ => .range
  | .port _ => .port

/-- The rule matches a client; its port is absent where port rules are not used. -/
def Matches (r : FirewallRule) (addr : Ipv4) (port : Option (BitVec 16)) : Prop :=
  match r with
  | .ip a => addr = a
  | .cidr prefixLen network => addr.toNat / 2 ^ (32 - prefixLen) = network
  | .range startIp endIp => startIp ≤ addr ∧ addr ≤ endIp
  | .port p => port = some p

def Applies (r : FirewallRule) (port : Option (BitVec 16)) : Prop := r.kind = .port → port.isSome = true

end FirewallRule

def networkOf (ip : Ipv4) (prefixLen : Nat) : Nat := ip.toNat / 2 ^ (32 - prefixLen)

def FirewallArg.rule : FirewallArg → Option FirewallRule
  | .ip a => some (.ip a)
  | .port p => if p = 0 then none else some (.port p)
  | .cidr a prefixLen => if prefixLen > 32 then none else some (.cidr prefixLen (networkOf a prefixLen))
  | .range startIp endIp => if startIp > endIp then none else some (.range startIp endIp)

def FirewallOverload.rule (o : FirewallOverload) : Option FirewallRule := o.arg.bind FirewallArg.rule

def insertRule (R : Set FirewallRule) (r : Option FirewallRule) (ok : Bool) : Set FirewallRule :=
  {x | x ∈ R ∨ (ok = true ∧ r = some x)}

def deleteRule (R : Set FirewallRule) (r : Option FirewallRule) : Set FirewallRule := {x | x ∈ R ∧ r ≠ some x}

structure RuleSets where
  allow : Set FirewallRule := ∅
  deny : Set FirewallRule := ∅
  defaultAllow : Bool := true

namespace RuleSets

def side (S : RuleSets) : FirewallSide → Set FirewallRule
  | .allow => S.allow
  | .deny => S.deny

def next (S : RuleSets) (op : FirewallOp) (ok : Bool) : RuleSets :=
  match op with
  | .add .allow o => { S with allow := insertRule S.allow o.rule ok }
  | .add .deny o => { S with deny := insertRule S.deny o.rule ok }
  | .remove .allow o => { S with allow := deleteRule S.allow o.rule }
  | .remove .deny o => { S with deny := deleteRule S.deny o.rule }
  | .clearAllow => { S with allow := ∅ }
  | .clearDeny => { S with deny := ∅ }
  | .clear => { S with allow := ∅, deny := ∅ }
  | .setDefault allow => { S with defaultAllow := allow }

end RuleSets

def Hit (R : Set FirewallRule) (k : FirewallKind) (addr : Ipv4) (port : Option (BitVec 16)) : Prop :=
  ∃ r ∈ R, r.kind = k ∧ r.Matches addr port

open Classical in
noncomputable def RuleSets.decision (S : RuleSets) (addr : Ipv4) (port : Option (BitVec 16)) : FirewallDecision :=
  if Hit S.deny .ip addr port then .deniedByIp
  else if Hit S.deny .cidr addr port then .deniedByCidr
  else if Hit S.deny .range addr port then .deniedByRange
  else if Hit S.deny .port addr port then .deniedByPort
  else if ∀ r ∈ S.allow, ¬r.Applies port then
    if S.defaultAllow then .allowedDefault else .deniedByMissingAllowMatch
  else if Hit S.allow .ip addr port then .allowedByIp
  else if Hit S.allow .cidr addr port then .allowedByCidr
  else if Hit S.allow .range addr port then .allowedByRange
  else if Hit S.allow .port addr port then .allowedByPort
  else .deniedByMissingAllowMatch

/-- The firewall and the rules after a sequence of operations on a fresh configuration. -/
def firewallRun (ops : List FirewallOp) : Firewall × RuleSets :=
  ops.foldl (fun s op => ((s.1.apply op).2, s.2.next op (s.1.apply op).1)) ({}, {})

/-! ## Networks -/

section networks

variable {a b : Ipv4} {n m : Nat}

lemma prefixMask_bit {i} (hn : n ≤ 32) (hi : i < 32) :
    (FirewallTables.prefixMask n).getLsbD i = decide (32 - n ≤ i) := by
  rw [FirewallTables.prefixMask]
  by_cases h : n = 0
  · subst h
    simpa using hi
  · have hones : (0xffffffff#32) = BitVec.allOnes 32 := by decide
    rw [if_neg h, hones, BitVec.getLsbD_shiftLeft, BitVec.getLsbD_allOnes]
    by_cases hle : 32 - n ≤ i
    · simp [hi, hle, show i - (32 - n) < 32 by omega]
    · simp [hi, hle]

lemma shiftRight_bit {i k} : (a >>> k).getLsbD i = a.getLsbD (k + i) := by
  rw [BitVec.getLsbD_ushiftRight]

lemma mask_eq_iff (hn : n ≤ 32) :
    a &&& FirewallTables.prefixMask n = b &&& FirewallTables.prefixMask n ↔ networkOf a n = networkOf b n := by
  have hnet : ∀ x : Ipv4, networkOf x n = (x >>> (32 - n)).toNat := by
    intro x
    rw [networkOf, BitVec.toNat_ushiftRight, Nat.shiftRight_eq_div_pow]
  rw [hnet, hnet, BitVec.toNat_inj]
  constructor
  · intro h
    apply BitVec.eq_of_getLsbD_eq
    intro i hi
    rw [shiftRight_bit, shiftRight_bit]
    by_cases hlt : 32 - n + i < 32
    · have hbit := congrArg (BitVec.getLsbD · (32 - n + i)) h
      simpa [BitVec.getLsbD_and, prefixMask_bit hn hlt] using hbit
    · rw [BitVec.getLsbD_of_ge _ _ (by omega), BitVec.getLsbD_of_ge _ _ (by omega)]
  · intro h
    apply BitVec.eq_of_getLsbD_eq
    intro i hi
    rw [BitVec.getLsbD_and, BitVec.getLsbD_and, prefixMask_bit hn hi]
    by_cases hle : 32 - n ≤ i
    · have hbit := congrArg (BitVec.getLsbD · (i - (32 - n))) h
      simp only [shiftRight_bit, Nat.add_sub_cancel' hle] at hbit
      rw [hbit]
    · simp [hle]

lemma prefixMask_inj (hn : n ≤ 32) (hm : m ≤ 32) (h : FirewallTables.prefixMask n = FirewallTables.prefixMask m) : n = m := by
  by_contra hne
  -- The masks differ at the first bit that only the longer prefix covers.
  rcases Nat.lt_or_gt_of_ne hne with hlt | hlt
  · have hbit := congrArg (BitVec.getLsbD · (32 - m)) h
    rw [prefixMask_bit hn (by omega), prefixMask_bit hm (by omega)] at hbit
    simp at hbit
    omega
  · have hbit := congrArg (BitVec.getLsbD · (32 - n)) h
    rw [prefixMask_bit hn (by omega), prefixMask_bit hm (by omega)] at hbit
    simp at hbit
    omega

lemma cidrEntry_inj (hn : n ≤ 32) (hm : m ≤ 32) :
    FirewallTables.cidrEntry a n = FirewallTables.cidrEntry b m ↔ n = m ∧ networkOf a n = networkOf b m := by
  constructor
  · intro h
    obtain ⟨haddr, hmask⟩ := FirewallCidrRule.mk.inj h
    obtain rfl := prefixMask_inj hn hm hmask
    exact ⟨rfl, (mask_eq_iff hn).mp haddr⟩
  · rintro ⟨rfl, hnet⟩
    rw [FirewallTables.cidrEntry, FirewallTables.cidrEntry, (mask_eq_iff hn).mpr hnet]

end networks

/-! ## Representation -/

namespace FirewallTables

def addArg (t : FirewallTables) : FirewallArg → Bool × FirewallTables
  | .ip a => t.addIp a
  | .port p => t.addPort p
  | .cidr a prefixLen => t.addCidr a prefixLen
  | .range a b => t.addRange a b

def removeArg (t : FirewallTables) : FirewallArg → Bool × FirewallTables
  | .ip a => t.removeIp a
  | .port p => t.removePort p
  | .cidr a prefixLen => t.removeCidr a prefixLen
  | .range a b => t.removeRange a b

def Full (t : FirewallTables) : FirewallArg → Prop
  | .ip _ => t.ips.count = kMaxFirewallRules
  | .port _ => t.ports.count = kMaxFirewallRules
  | .cidr _ _ => t.cidrs.count = kMaxFirewallRules
  | .range _ _ => t.ranges.count = kMaxFirewallRules

def Stores (t : FirewallTables) : FirewallRule → Prop
  | .ip a => a ∈ t.ips.entries
  | .cidr n net => n ≤ 32 ∧ ∃ a, networkOf a n = net ∧ cidrEntry a n ∈ t.cidrs.entries
  | .range a b => ⟨a, b⟩ ∈ t.ranges.entries
  | .port p => p ∈ t.ports.entries

/-- No table holds a rule twice, port 0 is no rule, and the entries of networks come from prefixes. -/
structure WellFormed (t : FirewallTables) : Prop where
  ips : t.ips.entries.Nodup
  cidrs : t.cidrs.entries.Nodup
  ranges : t.ranges.entries.Nodup
  ports : t.ports.entries.Nodup
  port_ne : 0 ∉ t.ports.entries
  cidr_entry : ∀ c ∈ t.cidrs.entries, ∃ a n, n ≤ 32 ∧ c = cidrEntry a n

variable {t : FirewallTables} {arg : FirewallArg} {r : FirewallRule}

lemma WellFormed.empty : ({} : FirewallTables).WellFormed :=
  ⟨List.nodup_nil, List.nodup_nil, List.nodup_nil, List.nodup_nil, List.not_mem_nil, fun _ h => absurd h List.not_mem_nil⟩

lemma WellFormed.clear (t : FirewallTables) : t.clear.WellFormed :=
  ⟨List.nodup_nil, List.nodup_nil, List.nodup_nil, List.nodup_nil, List.not_mem_nil, fun _ h => absurd h List.not_mem_nil⟩

lemma stores_clear (t : FirewallTables) (r : FirewallRule) : ¬t.clear.Stores r := by
  cases r with
  | cidr n net =>
    rintro ⟨-, a, -, h⟩
    exact absurd h List.not_mem_nil
  | _ => exact List.not_mem_nil

lemma WellFormed.add (h : t.WellFormed) (arg : FirewallArg) : (t.addArg arg).2.WellFormed := by
  cases arg with
  | ip a => exact ⟨SlotTable.nodup_add h.ips, h.cidrs, h.ranges, h.ports, h.port_ne, h.cidr_entry⟩
  | port p =>
    rw [addArg, addPort]
    split_ifs with hp
    · exact h
    · refine ⟨h.ips, h.cidrs, h.ranges, SlotTable.nodup_add h.ports, fun hz => ?_, h.cidr_entry⟩
      rcases SlotTable.mem_add.mp hz with hz | ⟨-, hz⟩
      · exact h.port_ne hz
      · exact hp hz.symm
  | cidr a n =>
    rw [addArg, addCidr]
    split_ifs with hn
    · exact h
    · refine ⟨h.ips, SlotTable.nodup_add h.cidrs, h.ranges, h.ports, h.port_ne, fun c hc => ?_⟩
      rcases SlotTable.mem_add.mp hc with hc | ⟨-, hc⟩
      · exact h.cidr_entry c hc
      · exact ⟨a, n, Nat.not_lt.mp hn, hc⟩
  | range a b =>
    rw [addArg, addRange]
    split_ifs with hab
    · exact h
    · exact ⟨h.ips, h.cidrs, SlotTable.nodup_add h.ranges, h.ports, h.port_ne, h.cidr_entry⟩

lemma WellFormed.remove (h : t.WellFormed) (arg : FirewallArg) : (t.removeArg arg).2.WellFormed := by
  cases arg with
  | ip a => exact ⟨SlotTable.nodup_remove h.ips, h.cidrs, h.ranges, h.ports, h.port_ne, h.cidr_entry⟩
  | port p =>
    refine ⟨h.ips, h.cidrs, h.ranges, SlotTable.nodup_remove h.ports, fun hz => ?_, h.cidr_entry⟩
    exact h.port_ne ((SlotTable.mem_remove h.ports).mp hz).1
  | cidr a n =>
    rw [removeArg, removeCidr]
    split_ifs with hn
    · exact h
    · refine ⟨h.ips, SlotTable.nodup_remove h.cidrs, h.ranges, h.ports, h.port_ne, fun c hc => ?_⟩
      exact h.cidr_entry c ((SlotTable.mem_remove h.cidrs).mp hc).1
  | range a b =>
    rw [removeArg, removeRange]
    split_ifs with hab
    · exact h
    · exact ⟨h.ips, h.cidrs, SlotTable.nodup_remove h.ranges, h.ports, h.port_ne, h.cidr_entry⟩

lemma stores_add (t : FirewallTables) (arg : FirewallArg) (r : FirewallRule) :
    (t.addArg arg).2.Stores r ↔ t.Stores r ∨ ((t.addArg arg).1 = true ∧ arg.rule = some r) := by
  cases arg with
  | ip a =>
    cases r with
    | ip b => exact SlotTable.mem_add.trans (or_congr_right (and_congr_right fun _ => ⟨by rintro rfl; rfl, by rintro ⟨⟩; rfl⟩))
    | _ => simp [Stores, addArg, addIp, FirewallArg.rule]
  | port p =>
    rw [addArg, addPort, FirewallArg.rule]
    split_ifs with hp
    · simp
    · cases r with
      | port q =>
        exact SlotTable.mem_add.trans (or_congr_right (and_congr_right fun _ => ⟨by rintro rfl; rfl, by rintro ⟨⟩; rfl⟩))
      | _ => simp [Stores]
  | cidr a n =>
    rw [addArg, addCidr, FirewallArg.rule]
    split_ifs with hn
    · simp
    · cases r with
      | cidr m net =>
        have hn := Nat.not_lt.mp hn
        simp only [Stores, SlotTable.mem_add, Option.some.injEq, FirewallRule.cidr.injEq]
        constructor
        · rintro ⟨hm, b, hnet, hold | ⟨hok, hentry⟩⟩
          · exact .inl ⟨hm, b, hnet, hold⟩
          · obtain ⟨rfl, hab⟩ := (cidrEntry_inj hm hn).mp hentry
            exact .inr ⟨hok, rfl, hab.symm.trans hnet⟩
        · rintro (⟨hm, b, hnet, hold⟩ | ⟨hok, rfl, hnet⟩)
          · exact ⟨hm, b, hnet, .inl hold⟩
          · exact ⟨hn, a, hnet, .inr ⟨hok, rfl⟩⟩
      | _ => simp [Stores]
  | range a b =>
    rw [addArg, addRange, FirewallArg.rule]
    split_ifs with hab
    · simp
    · cases r with
      | range c d =>
        exact SlotTable.mem_add.trans (or_congr_right (and_congr_right fun _ => ⟨by rintro ⟨⟩; rfl, by rintro ⟨⟩; rfl⟩))
      | _ => simp [Stores]

lemma stores_remove (h : t.WellFormed) (arg : FirewallArg) (r : FirewallRule) :
    (t.removeArg arg).2.Stores r ↔ t.Stores r ∧ arg.rule ≠ some r := by
  cases arg with
  | ip a =>
    cases r with
    | ip b =>
      refine (SlotTable.mem_remove h.ips).trans (and_congr_right fun _ => not_congr ?_)
      exact ⟨by rintro rfl; rfl, by rintro ⟨⟩; rfl⟩
    | _ => simp [Stores, removeArg, removeIp, FirewallArg.rule]
  | port p =>
    cases r with
    | port q =>
      refine (SlotTable.mem_remove h.ports).trans (and_congr_right fun hq => not_congr ?_)
      rw [FirewallArg.rule]
      split_ifs with hp
      · exact ⟨fun hqp => absurd (hp ▸ hqp ▸ hq) h.port_ne, by rintro ⟨⟩⟩
      · exact ⟨by rintro rfl; rfl, by rintro ⟨⟩; rfl⟩
    | _ =>
      rw [FirewallArg.rule]
      split_ifs <;> simp [Stores, removeArg, removePort]
  | cidr a n =>
    rw [removeArg, removeCidr, FirewallArg.rule]
    split_ifs with hn
    · simp
    · cases r with
      | cidr m net =>
        have hn := Nat.not_lt.mp hn
        simp only [Stores, SlotTable.mem_remove h.cidrs, ne_eq, Option.some.injEq, FirewallRule.cidr.injEq]
        constructor
        · rintro ⟨hm, b, hnet, hold, hentry⟩
          refine ⟨⟨hm, b, hnet, hold⟩, ?_⟩
          rintro ⟨rfl, hab⟩
          exact hentry ((cidrEntry_inj hn hn).mpr ⟨rfl, hnet.trans hab.symm⟩)
        · rintro ⟨⟨hm, b, hnet, hold⟩, hother⟩
          refine ⟨hm, b, hnet, hold, fun hentry => hother ?_⟩
          obtain ⟨rfl, hab⟩ := (cidrEntry_inj hm hn).mp hentry
          exact ⟨rfl, hab.symm.trans hnet⟩
      | _ => simp [Stores]
  | range a b =>
    rw [removeArg, removeRange, FirewallArg.rule]
    split_ifs with hab
    · simp
    · cases r with
      | range c d =>
        refine (SlotTable.mem_remove h.ranges).trans (and_congr_right fun _ => not_congr ?_)
        exact ⟨by rintro ⟨⟩; rfl, by rintro ⟨⟩; rfl⟩
      | _ => simp [Stores]

lemma add_false_iff (t : FirewallTables) (arg : FirewallArg) :
    (t.addArg arg).1 = false ↔ arg.rule = none ∨ ∃ r, arg.rule = some r ∧ ¬t.Stores r ∧ t.Full arg := by
  cases arg with
  | ip a => simpa [addArg, addIp, FirewallArg.rule, Stores, Full] using SlotTable.add_false_iff (t := t.ips) (a := a)
  | port p =>
    rw [addArg, addPort, FirewallArg.rule]
    split_ifs with hp
    · simp
    · simpa [Stores, Full] using SlotTable.add_false_iff (t := t.ports) (a := p)
  | cidr a n =>
    rw [addArg, addCidr, FirewallArg.rule]
    split_ifs with hn
    · simp
    · have hn := Nat.not_lt.mp hn
      have hstores : t.Stores (.cidr n (networkOf a n)) ↔ cidrEntry a n ∈ t.cidrs.entries := by
        constructor
        · rintro ⟨-, b, hnet, hmem⟩
          rwa [(cidrEntry_inj hn hn).mpr ⟨rfl, hnet.symm⟩]
        · exact fun hmem => ⟨hn, a, rfl, hmem⟩
      simpa [hstores, Full] using SlotTable.add_false_iff (t := t.cidrs) (a := cidrEntry a n)
  | range a b =>
    rw [addArg, addRange, FirewallArg.rule]
    split_ifs with hab
    · simp
    · simpa [Stores, Full] using SlotTable.add_false_iff (t := t.ranges) (a := ⟨a, b⟩)

/-! ## Matches -/

section hits

variable {addr : Ipv4} {port : Option (BitVec 16)}

lemma any_ip : (t.ips.entries.any (· == addr)) = true ↔ Hit {r | t.Stores r} .ip addr port := by
  rw [List.any_eq_true]
  constructor
  · rintro ⟨a, ha, heq⟩
    exact ⟨.ip a, ha, rfl, (beq_iff_eq.mp heq).symm⟩
  · rintro ⟨r, hr, hk, hm⟩
    cases r with
    | ip a => exact ⟨a, hr, beq_iff_eq.mpr hm.symm⟩
    | _ => cases hk

lemma any_cidr (h : t.WellFormed) :
    (t.cidrs.entries.any fun r => addr &&& r.mask == r.netAddr) = true ↔ Hit {r | t.Stores r} .cidr addr port := by
  rw [List.any_eq_true]
  constructor
  · rintro ⟨c, hc, heq⟩
    obtain ⟨a, n, hn, rfl⟩ := h.cidr_entry c hc
    exact ⟨.cidr n (networkOf a n), ⟨hn, a, rfl, hc⟩, rfl, (mask_eq_iff hn).mp (beq_iff_eq.mp heq)⟩
  · rintro ⟨r, hr, hk, hm⟩
    cases r with
    | cidr n net =>
      obtain ⟨hn, a, hnet, hmem⟩ := hr
      exact ⟨cidrEntry a n, hmem, beq_iff_eq.mpr ((mask_eq_iff hn).mpr (hm.trans hnet.symm))⟩
    | _ => cases hk

lemma any_range : (t.ranges.entries.any fun r => decide (r.startIp ≤ addr ∧ addr ≤ r.endIp)) = true ↔
    Hit {r | t.Stores r} .range addr port := by
  rw [List.any_eq_true]
  constructor
  · rintro ⟨c, hc, heq⟩
    have hin := of_decide_eq_true heq
    exact ⟨.range c.startIp c.endIp, hc, rfl, hin⟩
  · rintro ⟨r, hr, hk, hm⟩
    cases r with
    | range a b => exact ⟨⟨a, b⟩, hr, decide_eq_true hm⟩
    | _ => cases hk

lemma any_port : (port.any fun p => t.ports.entries.any (· == p)) = true ↔ Hit {r | t.Stores r} .port addr port := by
  rw [Option.any_eq_true]
  constructor
  · rintro ⟨p, hp, hany⟩
    obtain ⟨q, hq, heq⟩ := List.any_eq_true.mp hany
    exact ⟨.port q, hq, rfl, hp.trans (congrArg some (beq_iff_eq.mp heq).symm)⟩
  · rintro ⟨r, hr, hk, hm⟩
    cases r with
    | port q => exact ⟨q, hm, List.any_eq_true.mpr ⟨q, hr, beq_self_eq_true q⟩⟩
    | _ => cases hk

lemma count_pos {α cap} {t : SlotTable α cap} : 0 < t.count ↔ ∃ a, a ∈ t.entries := by
  rw [← t.entries_length, List.length_pos_iff_exists_mem]

lemma no_rules_iff (h : t.WellFormed) :
    (!(t.ips.count > 0 || t.cidrs.count > 0 || t.ranges.count > 0 || port.isSome && t.ports.count > 0)) = true ↔
      ∀ r ∈ {r | t.Stores r}, ¬r.Applies port := by
  simp only [Bool.not_eq_true', Bool.or_eq_false_iff, Bool.and_eq_false_iff, decide_eq_false_iff_not, gt_iff_lt, count_pos,
    not_exists]
  constructor
  · rintro ⟨⟨⟨hip, hcidr⟩, hrange⟩, hport⟩ r hr happ
    cases r with
    | ip a => exact hip a hr
    | cidr n net =>
      obtain ⟨-, a, -, hmem⟩ := hr
      exact hcidr _ hmem
    | range a b => exact hrange _ hr
    | port p =>
      rcases hport with hnone | hport
      · rw [happ rfl] at hnone
        cases hnone
      · exact hport p hr
  · intro hall
    refine ⟨⟨⟨fun a ha => ?_, fun c hc => ?_⟩, fun c hc => ?_⟩, ?_⟩
    · exact hall (.ip a) ha nofun
    · obtain ⟨a, n, hn, rfl⟩ := h.cidr_entry c hc
      exact hall (.cidr n (networkOf a n)) ⟨hn, a, rfl, hc⟩ nofun
    · exact hall (.range c.startIp c.endIp) hc nofun
    · cases port with
      | none => exact .inl rfl
      | some q => exact .inr fun p hp => hall (.port p) hp fun _ => rfl

end hits

end FirewallTables

structure Firewall.Holds (f : Firewall) (S : RuleSets) : Prop where
  allow_wf : f.allow.WellFormed
  deny_wf : f.deny.WellFormed
  allow : S.allow = {r | f.allow.Stores r}
  deny : S.deny = {r | f.deny.Stores r}
  defaultAllow : S.defaultAllow = f.defaultAllow

section run

variable {f : Firewall} {S : RuleSets}

lemma Firewall.Holds.decision (h : f.Holds S) (addr : Ipv4) (port : Option (BitVec 16)) :
    f.firewallDecisionImpl addr port = S.decision addr port := by
  classical
  rw [firewallDecisionImpl, RuleSets.decision, h.allow, h.deny, h.defaultAllow]
  refine if_congr FirewallTables.any_ip rfl ?_
  refine if_congr (FirewallTables.any_cidr h.deny_wf) rfl ?_
  refine if_congr FirewallTables.any_range rfl ?_
  refine if_congr FirewallTables.any_port rfl ?_
  refine if_congr (FirewallTables.no_rules_iff h.allow_wf) rfl ?_
  refine if_congr FirewallTables.any_ip rfl ?_
  refine if_congr (FirewallTables.any_cidr h.allow_wf) rfl ?_
  refine if_congr FirewallTables.any_range rfl ?_
  exact if_congr FirewallTables.any_port rfl rfl

lemma addArg_side (f : Firewall) (arg : FirewallArg) :
    f.addArg .allow arg = f.onAllow (·.addArg arg) ∧ f.addArg .deny arg = f.onDeny (·.addArg arg) := by
  cases arg <;> exact ⟨rfl, rfl⟩

lemma removeArg_side (f : Firewall) (arg : FirewallArg) :
    f.removeArg .allow arg = f.onAllow (·.removeArg arg) ∧ f.removeArg .deny arg = f.onDeny (·.removeArg arg) := by
  cases arg <;> exact ⟨rfl, rfl⟩

lemma insertRule_eq {t : FirewallTables} {R} (hR : R = {r | t.Stores r}) (arg : FirewallArg) :
    insertRule R arg.rule (t.addArg arg).1 = {r | (t.addArg arg).2.Stores r} := by
  ext r
  rw [hR]
  exact (t.stores_add arg r).symm

lemma deleteRule_eq {t : FirewallTables} {R} (ht : t.WellFormed) (hR : R = {r | t.Stores r})
    (arg : FirewallArg) : deleteRule R arg.rule = {r | (t.removeArg arg).2.Stores r} := by
  ext r
  rw [hR]
  exact (FirewallTables.stores_remove ht arg r).symm

lemma insertRule_none (R : Set FirewallRule) (ok : Bool) : insertRule R none ok = R := by
  ext r
  simp [insertRule]

lemma deleteRule_none (R : Set FirewallRule) : deleteRule R none = R := by
  ext r
  simp [deleteRule]

lemma clear_eq (t : FirewallTables) : (∅ : Set FirewallRule) = {r | t.clear.Stores r} := by
  ext r
  simpa using t.stores_clear r

lemma Firewall.Holds.next (h : f.Holds S) (op : FirewallOp) : (f.apply op).2.Holds (S.next op (f.apply op).1) := by
  cases op with
  | add side o =>
    cases side with
    | allow =>
      rw [Firewall.apply, RuleSets.next, FirewallOverload.rule]
      cases o.arg with
      | none => simpa [insertRule_none] using h
      | some arg =>
        rw [Option.elim_some, (addArg_side f arg).1]
        exact ⟨h.allow_wf.add arg, h.deny_wf, insertRule_eq h.allow arg, h.deny, h.defaultAllow⟩
    | deny =>
      rw [Firewall.apply, RuleSets.next, FirewallOverload.rule]
      cases o.arg with
      | none => simpa [insertRule_none] using h
      | some arg =>
        rw [Option.elim_some, (addArg_side f arg).2]
        exact ⟨h.allow_wf, h.deny_wf.add arg, h.allow, insertRule_eq h.deny arg, h.defaultAllow⟩
  | remove side o =>
    cases side with
    | allow =>
      rw [Firewall.apply, RuleSets.next, FirewallOverload.rule]
      cases o.arg with
      | none => simpa [deleteRule_none] using h
      | some arg =>
        rw [Option.elim_some, (removeArg_side f arg).1]
        exact ⟨h.allow_wf.remove arg, h.deny_wf, deleteRule_eq h.allow_wf h.allow arg, h.deny, h.defaultAllow⟩
    | deny =>
      rw [Firewall.apply, RuleSets.next, FirewallOverload.rule]
      cases o.arg with
      | none => simpa [deleteRule_none] using h
      | some arg =>
        rw [Option.elim_some, (removeArg_side f arg).2]
        exact ⟨h.allow_wf, h.deny_wf.remove arg, h.allow, deleteRule_eq h.deny_wf h.deny arg, h.defaultAllow⟩
  | clearAllow => exact ⟨.clear _, h.deny_wf, clear_eq _, h.deny, h.defaultAllow⟩
  | clearDeny => exact ⟨h.allow_wf, .clear _, h.allow, clear_eq _, h.defaultAllow⟩
  | clear => exact ⟨.clear _, .clear _, clear_eq _, clear_eq _, h.defaultAllow⟩
  | setDefault allow => exact ⟨h.allow_wf, h.deny_wf, h.allow, h.deny, rfl⟩

lemma Firewall.Holds.fresh : ({} : Firewall).Holds {} := by
  refine ⟨.empty, .empty, ?_, ?_, rfl⟩
  · exact clear_eq {}
  · exact clear_eq {}

lemma firewallRun_holds (ops : List FirewallOp) : (firewallRun ops).1.Holds (firewallRun ops).2 := by
  induction ops using List.reverseRecOn with
  | nil => exact Firewall.Holds.fresh
  | append_singleton ops op ih =>
    rw [firewallRun, List.foldl_append]
    exact ih.next op

lemma exists_matches_iff (R : Set FirewallRule) (addr : Ipv4) (port : Option (BitVec 16)) :
    (∃ r ∈ R, r.Matches addr port) ↔
      Hit R .ip addr port ∨ Hit R .cidr addr port ∨ Hit R .range addr port ∨ Hit R .port addr port := by
  constructor
  · rintro ⟨r, hr, hm⟩
    cases r with
    | ip a => exact .inl ⟨_, hr, rfl, hm⟩
    | cidr n net => exact .inr (.inl ⟨_, hr, rfl, hm⟩)
    | range a b => exact .inr (.inr (.inl ⟨_, hr, rfl, hm⟩))
    | port p => exact .inr (.inr (.inr ⟨_, hr, rfl, hm⟩))
  · rintro (⟨r, hr, -, hm⟩ | ⟨r, hr, -, hm⟩ | ⟨r, hr, -, hm⟩ | ⟨r, hr, -, hm⟩) <;> exact ⟨r, hr, hm⟩

lemma FirewallRule.Matches.applies {r : FirewallRule} {addr port} (h : r.Matches addr port) : r.Applies port := by
  cases r with
  | port p =>
    intro _
    rw [show port = some p from h]
    rfl
  | _ => exact nofun

lemma isAllow_denied {p : Prop} {_ : Decidable p} {d e : FirewallDecision} (hd : d.isAllow = false) :
    (if p then d else e).isAllow = true ↔ ¬p ∧ e.isAllow = true := by
  by_cases hp : p <;> simp [hp, hd]

lemma isAllow_allowed {p : Prop} {_ : Decidable p} {d e : FirewallDecision} (hd : d.isAllow = true) :
    (if p then d else e).isAllow = true ↔ p ∨ e.isAllow = true := by
  by_cases hp : p <;> simp [hp, hd]

lemma RuleSets.decision_isAllow (S : RuleSets) (addr : Ipv4) (port : Option (BitVec 16)) :
    (S.decision addr port).isAllow = true ↔ (¬∃ r ∈ S.deny, r.Matches addr port) ∧
      ((∃ r ∈ S.allow, r.Matches addr port) ∨ ((∀ r ∈ S.allow, ¬r.Applies port) ∧ S.defaultAllow = true)) := by
  have hunused : (∀ r ∈ S.allow, ¬r.Applies port) → ¬∃ r ∈ S.allow, r.Matches addr port := by
    rintro hall ⟨r, hr, hm⟩
    exact hall r hr hm.applies
  rw [exists_matches_iff] at hunused ⊢
  rw [exists_matches_iff, decision, isAllow_denied rfl, isAllow_denied rfl, isAllow_denied rfl, isAllow_denied rfl]
  simp only [not_or, and_assoc]
  refine and_congr_right' (and_congr_right' (and_congr_right' (and_congr_right' ?_)))
  by_cases hun : ∀ r ∈ S.allow, ¬r.Applies port
  · rw [if_pos hun, isAllow_allowed rfl, or_iff_right (hunused hun), and_iff_right hun]
    exact or_iff_left Bool.false_ne_true
  · rw [if_neg hun, isAllow_allowed rfl, isAllow_allowed rfl, isAllow_allowed rfl, isAllow_allowed rfl]
    simp only [hun, false_and, or_false, FirewallDecision.isAllow, Bool.false_eq_true]

end run

def Firewall.tables (f : Firewall) : FirewallSide → FirewallTables
  | .allow => f.allow
  | .deny => f.deny

lemma Firewall.Holds.side {f : Firewall} {S} (h : f.Holds S) (side : FirewallSide) :
    S.side side = {r | (f.tables side).Stores r} := by
  cases side with
  | allow => exact h.allow
  | deny => exact h.deny

lemma apply_add_result (f : Firewall) (side : FirewallSide) (o : FirewallOverload) :
    (f.apply (.add side o)).1 = o.arg.elim false fun arg => ((f.tables side).addArg arg).1 := by
  rw [Firewall.apply]
  cases o.arg with
  | none => rfl
  | some arg =>
    cases side with
    | allow => rw [Option.elim_some, (addArg_side f arg).1]; rfl
    | deny => rw [Option.elim_some, (addArg_side f arg).2]; rfl

/-- The firewall is two sets of rules: after every sequence of operations the decision on a client is that of the sets,
no rule is stored twice, and an addition is refused only if the rule is not valid, or is new and its table is full. -/
theorem firewall_set_semantics (ops : List FirewallOp) :
    (∀ addr port, (firewallRun ops).1.firewallDecision addr port = (firewallRun ops).2.decision (ntohl addr) port) ∧
    (∀ addr port, (firewallRun ops).1.firewallAllowsPeer addr port = true ↔
      (¬∃ r ∈ (firewallRun ops).2.deny, r.Matches (ntohl addr) port) ∧
      ((∃ r ∈ (firewallRun ops).2.allow, r.Matches (ntohl addr) port) ∨
        ((∀ r ∈ (firewallRun ops).2.allow, ¬r.Applies port) ∧ (firewallRun ops).2.defaultAllow = true))) ∧
    (firewallRun ops).1.allow.WellFormed ∧ (firewallRun ops).1.deny.WellFormed ∧
    ∀ side o, ((firewallRun ops).1.apply (.add side o)).1 = false ↔
      o.rule = none ∨ ∃ arg r, o.arg = some arg ∧ arg.rule = some r ∧ r ∉ (firewallRun ops).2.side side ∧
        ((firewallRun ops).1.tables side).Full arg := by
  have h := firewallRun_holds ops
  refine ⟨fun addr port => h.decision (ntohl addr) port, ?_, h.allow_wf, h.deny_wf, ?_⟩
  · intro addr port
    rw [Firewall.firewallAllowsPeer, Firewall.firewallDecision, h.decision]
    exact RuleSets.decision_isAllow _ _ _
  · intro side o
    rw [apply_add_result, FirewallOverload.rule, h.side side]
    cases o.arg with
    | none => simp
    | some arg => simpa using FirewallTables.add_false_iff _ arg

/-- Only 10.0.0.1 is allowed, and the default is to allow: 10.0.0.2 is matched by no rule, and denied. -/
theorem default_behind_allow :
    let s := firewallRun [.add .allow (.host (.ip 0x0A000001#32))]
    (∀ r ∈ s.2.deny, ¬r.Matches (ntohl 0x0200000A#32) (some 1)) ∧
      (∀ r ∈ s.2.allow, ¬r.Matches (ntohl 0x0200000A#32) (some 1)) ∧ s.2.defaultAllow = true ∧
      s.1.firewallAllowsPeer 0x0200000A#32 (some 1) = false := by
  refine ⟨fun r hr => absurd hr (Set.notMem_empty r), ?_, rfl, by decide⟩
  rintro r (hr | ⟨-, hr⟩)
  · exact absurd hr (Set.notMem_empty r)
  · cases hr
    show ¬ntohl 0x0200000A#32 = 0x0A000001#32
    decide

/-! ## Edits of a policy -/

lemma firewallRun_append (ops : List FirewallOp) (op : FirewallOp) :
    firewallRun (ops ++ [op]) = (((firewallRun ops).1.apply op).2, (firewallRun ops).2.next op ((firewallRun ops).1.apply op).1) := by
  rw [firewallRun, List.foldl_append]
  rfl

lemma firewallRun_decision (ops : List FirewallOp) (addr : Ipv4) (port : Option (BitVec 16)) :
    (firewallRun ops).1.firewallDecision addr port = (firewallRun ops).2.decision (ntohl addr) port :=
  (firewallRun_holds ops).decision (ntohl addr) port

lemma insertRule_comm (R : Set FirewallRule) (r r' : Option FirewallRule) (ok ok' : Bool) :
    insertRule (insertRule R r ok) r' ok' = insertRule (insertRule R r' ok') r ok := by
  ext x
  simp only [insertRule, Set.mem_ofPred_eq]
  tauto

lemma deleteRule_insertRule {R : Set FirewallRule} {r ok} (h : ∀ x ∈ R, r ≠ some x) :
    deleteRule (insertRule R r ok) r = R := by
  ext x
  simp only [deleteRule, insertRule, Set.mem_ofPred_eq]
  constructor
  · rintro ⟨hx | ⟨-, hr⟩, hne⟩
    · exact hx
    · exact absurd hr hne
  · exact fun hx => ⟨.inl hx, h x hx⟩

lemma RuleSets.next_add_comm (S : RuleSets) (side side' : FirewallSide) (o o' : FirewallOverload) :
    (S.next (.add side o) true).next (.add side' o') true = (S.next (.add side' o') true).next (.add side o) true := by
  cases side with
  | allow =>
    cases side' with
    | allow => simp only [RuleSets.next, insertRule_comm]
    | deny => rfl
  | deny =>
    cases side' with
    | allow => rfl
    | deny => simp only [RuleSets.next, insertRule_comm]

lemma RuleSets.next_remove_add {S : RuleSets} {side o} (hnew : ∀ r ∈ S.side side, o.rule ≠ some r) (ok ok' : Bool) :
    (S.next (.add side o) ok).next (.remove side o) ok' = S := by
  cases side with
  | allow => exact congrArg (fun R => { S with allow := R }) (deleteRule_insertRule hnew)
  | deny => exact congrArg (fun R => { S with deny := R }) (deleteRule_insertRule hnew)

lemma RuleSets.isAllow_of_deny_subset {S T : RuleSets} {addr port} (hsub : S.deny ⊆ T.deny) (hallow : T.allow = S.allow)
    (hdefault : T.defaultAllow = S.defaultAllow) (h : (T.decision addr port).isAllow = true) :
    (S.decision addr port).isAllow = true := by
  rw [decision_isAllow] at h ⊢
  rw [hallow, hdefault] at h
  refine ⟨?_, h.2⟩
  rintro ⟨r, hr, hm⟩
  exact h.1 ⟨r, hsub hr, hm⟩

/-- Policies can be edited in any order: additions that succeed commute, a new rule that is removed again leaves every
decision as it was, a denied rule that is added lets no client in, and one that is removed keeps none out. -/
theorem firewall_edits (ops : List FirewallOp) :
    (∀ side o side' o' addr port,
      ((firewallRun ops).1.apply (.add side o)).1 = true → ((firewallRun ops).1.apply (.add side' o')).1 = true →
      ((firewallRun (ops ++ [FirewallOp.add side o])).1.apply (.add side' o')).1 = true →
      ((firewallRun (ops ++ [FirewallOp.add side' o'])).1.apply (.add side o)).1 = true →
      (firewallRun (ops ++ [FirewallOp.add side o] ++ [FirewallOp.add side' o'])).1.firewallDecision addr port =
        (firewallRun (ops ++ [FirewallOp.add side' o'] ++ [FirewallOp.add side o])).1.firewallDecision addr port) ∧
    (∀ side o addr port, (∀ r ∈ (firewallRun ops).2.side side, o.rule ≠ some r) →
      (firewallRun (ops ++ [FirewallOp.add side o] ++ [FirewallOp.remove side o])).1.firewallDecision addr port =
        (firewallRun ops).1.firewallDecision addr port) ∧
    ∀ o addr port,
      ((firewallRun (ops ++ [FirewallOp.add .deny o])).1.firewallAllowsPeer addr port = true →
        (firewallRun ops).1.firewallAllowsPeer addr port = true) ∧
      ((firewallRun ops).1.firewallAllowsPeer addr port = true →
        (firewallRun (ops ++ [FirewallOp.remove .deny o])).1.firewallAllowsPeer addr port = true) := by
  have hallows : ∀ ops addr port, (firewallRun ops).1.firewallAllowsPeer addr port =
      ((firewallRun ops).2.decision (ntohl addr) port).isAllow := fun ops addr port => by
    rw [← firewallRun_decision]
    rfl
  refine ⟨?_, ?_, fun o addr port => ⟨?_, ?_⟩⟩
  · intro side o side' o' addr port h₁ h₁' h₂ h₂'
    rw [firewallRun_decision, firewallRun_decision, firewallRun_append, h₂, firewallRun_append ops, h₁,
      firewallRun_append (ops ++ _), h₂', firewallRun_append ops, h₁', RuleSets.next_add_comm]
  · intro side o addr port hnew
    rw [firewallRun_decision, firewallRun_decision, firewallRun_append, firewallRun_append, RuleSets.next_remove_add hnew]
  · rw [hallows, hallows, firewallRun_append]
    exact RuleSets.isAllow_of_deny_subset (fun r hr => .inl hr) rfl rfl
  · rw [hallows, hallows, firewallRun_append]
    exact RuleSets.isAllow_of_deny_subset (fun r hr => hr.1) rfl rfl

end Rut.Route
