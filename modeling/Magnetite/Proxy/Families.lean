import Magnetite.Proxy.Service
import Magnetite.Proxy.Forward

/-!
# Address families

A network contains the addresses of its own family that agree with it on the leading bits, and no
others. So a client is judged by the rules of the family in which it is presented: an IPv4 client
that comes as an IPv4-mapped IPv6 address meets the IPv6 rules only.
-/
namespace Magnetite.Lib.Net

/-- A bit of an address, counted from the front. -/
def IpAddr.leadingBit (i : Nat) : IpAddr → Bool
  | .v4 a => a.getMsbD i
  | .v6 a => a.getMsbD i

/-- The IPv4-mapped IPv6 address. -/
def IpAddr.mapped (a : BitVec 32) : IpAddr := .v6 ((0xffff#96 ++ a).setWidth 128)

theorem msbD_eq_of_div_eq {w len : Nat} (h : len ≤ w) {a b : BitVec w} :
    a.toNat / 2 ^ (w - len) = b.toNat / 2 ^ (w - len) ↔ ∀ i < len, a.getMsbD i = b.getMsbD i := by
  rw [← Nat.shiftRight_eq_div_pow, ← Nat.shiftRight_eq_div_pow]
  constructor
  · intro hab i hi
    have hbit := congrArg (Nat.testBit · (len - 1 - i)) hab
    have hpos : w - len + (len - 1 - i) = w - 1 - i := by omega
    have hw : i < w := by omega
    simpa [Nat.testBit_shiftRight, hpos, BitVec.getMsbD, BitVec.getLsbD, hw] using hbit
  · intro hbits
    apply Nat.eq_of_testBit_eq
    intro j
    rw [Nat.testBit_shiftRight, Nat.testBit_shiftRight]
    by_cases hj : j < len
    · have hbit := hbits (len - 1 - j) (by omega)
      have hpos : w - 1 - (len - 1 - j) = w - len + j := by omega
      have hw : len - 1 - j < w := by omega
      simpa [BitVec.getMsbD, BitVec.getLsbD, hpos, hw] using hbit
    · -- beyond the width of the address
      have hlt (x : BitVec w) : x.toNat < 2 ^ (w - len + j) :=
        x.isLt.trans_le (Nat.pow_le_pow_right (by decide) (by omega))
      rw [Nat.testBit_lt_two_pow (hlt a), Nat.testBit_lt_two_pow (hlt b)]

theorem Network.contains_iff {n : Network} {ip : IpAddr} :
    n.Contains ip ↔ n.addr.width = ip.width ∧
      ∀ i < n.len, n.addr.leadingBit i = ip.leadingBit i := by
  obtain ⟨addr, len, hle⟩ := n
  cases addr <;> cases ip <;> simp only [IpAddr.width] at hle <;>
    simp [Network.Contains, IpAddr.width, IpAddr.leadingBit, msbD_eq_of_div_eq hle]

end Magnetite.Lib.Net

namespace Magnetite.Proxy
open Lib Text Net

/-- Agreement under the prefix mask. -/
theorem prefixMask_eq_iff {w len : Nat} (h : len ≤ w) (a b : BitVec w) :
    (a &&& prefixMask w len) = (b &&& prefixMask w len) ↔
      a.toNat / 2 ^ (w - len) = b.toNat / 2 ^ (w - len) := by
  have hmask : prefixMask w len = BitVec.allOnes w <<< (w - len) := by
    unfold prefixMask
    split_ifs with h0
    · subst h0
      apply BitVec.eq_of_getLsbD_eq
      intro i hi
      simp [hi]
    · rfl
  rw [hmask, mask_eq_iff]

/-- The mask comparison decides membership in the network of that prefix length. -/
theorem agreeOnPrefix_iff {a : IpAddr} {len : String} {n : Nat} (hn : n ≤ a.width)
    (hlen : prefixLen a.width len = n) (ip : IpAddr) :
    agreeOnPrefix a ip len ↔ Network.Contains ⟨a, n, hn⟩ ip := by
  cases a <;> cases ip <;> simp only [IpAddr.width] at hn hlen <;>
    simp [agreeOnPrefix, Network.Contains, hlen, prefixMask_eq_iff hn]

/-- The address of a network text, before the slash. -/
def cidrAddress (cidr : String) : Option IpAddr :=
  parseIpAddr (trim ((splitOnce '/' cidr).getD (cidr, "")).1)

/-- The prefix length of a network text for addresses of a width. -/
def cidrLength (w : Nat) (cidr : String) : Nat :=
  prefixLen w ((splitOnce '/' cidr).getD (cidr, "")).2

theorem cidrContains_iff_bits (cidr : String) (ip : IpAddr) :
    cidrContains cidr ip = true ↔ ∃ net, cidrAddress cidr = some net ∧ net.width = ip.width ∧
      ∀ i < cidrLength ip.width cidr, net.leadingBit i = ip.leadingBit i := by
  unfold cidrContains cidrAddress
  dsimp only
  cases parseIpAddr (trim ((splitOnce '/' cidr).getD (cidr, "")).1) with
  | none => simp
  | some net =>
    have hle : cidrLength net.width cidr ≤ net.width := Nat.min_le_right _ _
    have hagree := @agreeOnPrefix_iff net ((splitOnce '/' cidr).getD (cidr, "")).2 _ hle rfl ip
    dsimp only
    rw [hagree, Network.contains_iff]
    constructor
    · rintro ⟨hw, hbits⟩
      refine ⟨net, rfl, hw, ?_⟩
      rwa [← hw]
    · rintro ⟨_, heq, hw, hbits⟩
      obtain rfl := Option.some.inj heq
      rw [← hw] at hbits
      exact ⟨hw, hbits⟩

/-- The network is of the family of an address. -/
def ofFamily (ip : IpAddr) (cidr : String) : Bool := (cidrAddress cidr).any (·.width == ip.width)

theorem ofFamily_of_contains {cidr : String} {ip : IpAddr} (h : cidrContains cidr ip = true) :
    ofFamily ip cidr = true := by
  obtain ⟨net, hnet, hw, -⟩ := (cidrContains_iff_bits cidr ip).mp h
  simp [ofFamily, hnet, hw]

/-- Rules that cannot match may as well be left out. -/
theorem find?_sortByKey_filter {α κ : Type} [LinearOrder κ] (key : α → κ) {p q : α → Bool}
    (hpq : ∀ a, p a = true → q a = true) (l : List α) :
    (sortByKey key (l.filter q)).find? p = (sortByKey key l).find? p := by
  refine Option.ext fun a => ?_
  rw [find?_sortByKey, find?_sortByKey, firstMatch_filter]
  exact firstMatch_congr (fun b _ => and_iff_right_of_imp (hpq b)) a

section Gates

variable (ip : IpAddr)

theorem isBlocked_ofFamily (blocks : List IpBlock) (now : Instant) :
    isBlocked (blocks.filter (ofFamily ip ·.cidr)) ip now = isBlocked blocks ip now := by
  rw [Bool.eq_iff_iff]
  simp only [isBlocked, List.any_eq_true, List.mem_filter, Bool.and_eq_true]
  constructor
  · rintro ⟨b, ⟨hb, -⟩, h⟩
    exact ⟨b, hb, h⟩
  · rintro ⟨b, hb, h⟩
    exact ⟨b, ⟨hb, ofFamily_of_contains h.2⟩, h⟩

theorem aclDecision_ofFamily (rules : List AclRule) (vhostId : String) :
    aclDecision (rules.filter (ofFamily ip ·.cidr)) ip vhostId = aclDecision rules ip vhostId := by
  unfold aclDecision
  have hcomm : ((rules.filter (ofFamily ip ·.cidr)).filter (·.enabled)).filter (·.inScope vhostId) =
      ((rules.filter (·.enabled)).filter (·.inScope vhostId)).filter (ofFamily ip ·.cidr) := by
    simp only [List.filter_filter]
    exact List.filter_congr fun r _ => by grind
  dsimp only
  rw [hcomm, find?_sortByKey_filter _ fun r => ofFamily_of_contains]

theorem forwardSourceDecision_ofFamily (rules : List ForwardRule) :
    forwardSourceDecision (rules.filter fun r => r.kind != .source || ofFamily ip r.matcher) ip =
      forwardSourceDecision rules ip := by
  unfold forwardSourceDecision forwardDecision
  have hcomm : (rules.filter fun r => r.kind != .source || ofFamily ip r.matcher).filter
      (fun r => r.enabled && r.kind == .source) =
      (rules.filter fun r => r.enabled && r.kind == .source).filter (ofFamily ip ·.matcher) := by
    simp only [List.filter_filter]
    refine List.filter_congr fun r _ => ?_
    rcases r.kind with _ | _ <;> grind
  dsimp only
  rw [hcomm, find?_sortByKey_filter _ fun r => ofFamily_of_contains]

end Gates

/-- The context without the rules of the other family. -/
def Ctx.ofFamily (ctx : Ctx) (peer : IpAddr) : Ctx :=
  { ctx with config := { ctx.config with
      blocks := ctx.config.blocks.filter (Proxy.ofFamily peer ·.cidr)
      acls := ctx.config.acls.filter (Proxy.ofFamily peer ·.cidr) } }

theorem handle_ofFamily (ctx : Ctx) (peer : IpAddr) (secure : Bool) (req : Request) :
    handle (ctx.ofFamily peer) peer secure req = handle ctx peer secure req := by
  simp only [handle, Ctx.ofFamily, isBlocked_ofFamily, aclDecision_ofFamily]

theorem handleTcp_ofFamily (ctx : Ctx) (peer : IpAddr) (port : Nat) (preread : List UInt8) :
    handleTcp (ctx.ofFamily peer) peer port preread = handleTcp ctx peer port preread := by
  simp only [handleTcp, Ctx.ofFamily, isBlocked_ofFamily, aclDecision_ofFamily]

/-- A network contains an address of its family exactly if the leading bits agree, and the gates
of both listeners decide about a client by the rules of the family it is presented in. -/
theorem gates_by_family :
    (∀ cidr ip, cidrContains cidr ip = true ↔ ∃ net, cidrAddress cidr = some net ∧
      net.width = ip.width ∧
      ∀ i < cidrLength ip.width cidr, net.leadingBit i = ip.leadingBit i) ∧
    ∀ peer : IpAddr,
      (∀ blocks now, isBlocked blocks peer now =
        isBlocked (blocks.filter (ofFamily peer ·.cidr)) peer now) ∧
      (∀ rules vhostId, aclDecision rules peer vhostId =
        aclDecision (rules.filter (ofFamily peer ·.cidr)) peer vhostId) ∧
      (∀ rules, forwardSourceDecision rules peer = forwardSourceDecision
        (rules.filter fun r => r.kind != .source || ofFamily peer r.matcher) peer) ∧
      (∀ ctx secure req, handle ctx peer secure req = handle (ctx.ofFamily peer) peer secure req) ∧
      ∀ ctx port preread, handleTcp ctx peer port preread =
        handleTcp (ctx.ofFamily peer) peer port preread :=
  ⟨cidrContains_iff_bits, fun peer => ⟨fun _ _ => (isBlocked_ofFamily peer _ _).symm,
    fun _ _ => (aclDecision_ofFamily peer _ _).symm,
    fun _ => (forwardSourceDecision_ofFamily peer _).symm,
    fun _ _ _ => (handle_ofFamily _ _ _ _).symm, fun _ _ _ => (handleTcp_ofFamily _ _ _ _).symm⟩⟩

/-- One client in both presentations, before a rule for its IPv4 network in each of the lists. -/
theorem mapped_client_differs :
    let block : IpBlock := ⟨"10.0.0.0/8", none, true⟩
    let acl : AclRule := ⟨"10.0.0.0/8", .deny, .global, none, 0, true⟩
    let source : ForwardRule := ⟨.source, "10.0.0.0/8", .deny, 0, true⟩
    (isBlocked [block] (.v4 0x0a000001#32) 0 = true ∧
      isBlocked [block] (.mapped 0x0a000001#32) 0 = false) ∧
    (aclDecision [acl] (.v4 0x0a000001#32) "h" = .deny ∧
      aclDecision [acl] (.mapped 0x0a000001#32) "h" = .allow) ∧
    forwardSourceDecision [source] (.v4 0x0a000001#32) = .deny ∧
      forwardSourceDecision [source] (.mapped 0x0a000001#32) = .allow := by
  decide +kernel

end Magnetite.Proxy
