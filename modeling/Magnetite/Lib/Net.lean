import Magnetite.Lib.Text
import Mathlib.Data.List.TakeWhile
import Mathlib.Data.Nat.Bitwise
import Mathlib.Tactic

/-!
# Internet addresses and networks

`IpAddr` with the textual parsers of Rust's `std::net`, and networks given by an address and a
prefix length. A network contains the addresses of its own family that agree with it on the
leading bits; `mask_eq_iff` relates this to the mask arithmetic programs use.
-/
namespace Magnetite.Lib.Net
open Text

inductive IpAddr where
  | v4 (bits : BitVec 32)
  | v6 (bits : BitVec 128)
  deriving DecidableEq, Repr

/-! ## Parsing -/

/-- A parser reads a prefix of its input or fails without consuming anything. -/
abbrev Parser (α : Type) := List Char → Option (α × List Char)

def readGivenChar (c : Char) : Parser Unit
  | [] => none
  | x :: xs => if x = c then some ((), xs) else none

/-- At most `maxDigits` digits, at least one, below `bound`. Without `allowZeroPrefix` a leading
zero stands alone, so octal-looking numbers are refused. -/
def readNumber (radix maxDigits : Nat) (allowZeroPrefix : Bool) (bound : Nat) : Parser Nat :=
  fun cs =>
    let digits := cs.takeWhile fun c => (toDigit radix c).isSome
    if digits = [] ∨ maxDigits < digits.length then none
    else if !allowZeroPrefix && digits.head? == some '0' && 1 < digits.length then none
    else ((digitsValue radix digits).filter (· < bound)).map
      fun n => (n, cs.dropWhile fun c => (toDigit radix c).isSome)

/-- Every item but the first is preceded by the separator. -/
def readSeparator {α : Type} (sep : Char) (first : Bool) (inner : Parser α) : Parser α :=
  fun cs => if first then inner cs else (readGivenChar sep cs).bind fun (_, rest) => inner rest

def readOctet (first : Bool) : Parser Nat := readSeparator '.' first (readNumber 10 3 false 256)

def readIpv4Addr : Parser (BitVec 32) := fun cs => do
  let (a, cs) ← readOctet true cs
  let (b, cs) ← readOctet false cs
  let (c, cs) ← readOctet false cs
  let (d, cs) ← readOctet false cs
  return (BitVec.ofNat 32 (((a * 256 + b) * 256 + c) * 256 + d), cs)

/-- The groups of one side of `::`, and whether they end in an embedded IPv4 address, which
needs room for two groups. -/
def readGroups : Nat → Bool → List Char → List Nat × Bool × List Char
  | 0, _, cs => ([], false, cs)
  | left + 1, first, cs =>
    match (if 0 < left then readSeparator ':' first readIpv4Addr cs else none) with
    | some (v4, rest) => ([v4.toNat / 65536, v4.toNat % 65536], true, rest)
    | none => match readSeparator ':' first (readNumber 16 4 true 65536) cs with
      | some (g, rest) =>
        let (gs, embedded, rest') := readGroups left false rest
        (g :: gs, embedded, rest')
      | none => ([], false, cs)

def groupsValue (gs : List Nat) : BitVec 128 := BitVec.ofNat 128 (gs.foldl (· * 65536 + ·) 0)

def readIpv6Addr : Parser (BitVec 128) := fun cs =>
  let (head, embedded, rest) := readGroups 8 true cs
  if head.length = 8 then some (groupsValue head, rest)
  else if embedded then none
  else do
    let (_, rest) ← readGivenChar ':' rest
    let (_, rest) ← readGivenChar ':' rest
    let (tail, _, rest) := readGroups (8 - (head.length + 1)) true rest
    return (groupsValue (head ++ List.replicate (8 - head.length - tail.length) 0 ++ tail), rest)

/-- A parse succeeds only when it uses up the text. -/
def parseWith {α : Type} (p : Parser α) (cs : List Char) : Option α :=
  (p cs).bind fun (a, rest) => if rest = [] then some a else none

/-- `Ipv4Addr::from_str`. -/
def parseIpv4 (s : String) : Option (BitVec 32) := parseWith readIpv4Addr s.toList

/-- `Ipv6Addr::from_str`. -/
def parseIpv6 (s : String) : Option (BitVec 128) := parseWith readIpv6Addr s.toList

/-- `IpAddr::from_str`. -/
def parseIpAddr (s : String) : Option IpAddr :=
  parseWith (fun cs => (readIpv4Addr cs).map (fun (a, rest) => (.v4 a, rest)) <|>
    (readIpv6Addr cs).map (fun (a, rest) => (.v6 a, rest))) s.toList

example : parseIpAddr "192.0.2.5" = some (.v4 0xc0000205#32) := by decide
example : parseIpAddr "2001:db8::1" =
    some (.v6 0x20010db8000000000000000000000001#128) := by decide

/-! ## The text a parser reads -/

theorem parseWith_eq_some {α : Type} {p : Parser α} {cs : List Char} {a : α} :
    parseWith p cs = some a ↔ p cs = some (a, []) := by
  simp only [parseWith, Option.bind_eq_some_iff, Option.ite_none_right_eq_some,
    Option.some.injEq, Prod.exists]
  constructor
  · rintro ⟨_, _, h, rfl, rfl⟩
    exact h
  · intro h
    exact ⟨a, [], h, rfl, rfl⟩

/-- A text that starts with a dotted quad is no IPv6 address. -/
theorem readIpv6Addr_of_ipv4 {cs rest : List Char} {a : BitVec 32}
    (h : readIpv4Addr cs = some (a, rest)) : readIpv6Addr cs = none := by
  have groups : readGroups 8 true cs = ([a.toNat / 65536, a.toNat % 65536], true, rest) := by
    rw [readGroups]
    simp [readSeparator, h]
  simp [readIpv6Addr, groups]

theorem parseIpAddr_v4 {s : String} {a : BitVec 32} :
    parseIpAddr s = some (.v4 a) ↔ parseIpv4 s = some a := by
  simp only [parseIpAddr, parseIpv4, parseWith_eq_some]
  cases readIpv4Addr s.toList with
  | none => simp
  | some r => simp [Prod.ext_iff]

theorem parseIpAddr_v6 {s : String} {a : BitVec 128} :
    parseIpAddr s = some (.v6 a) ↔ parseIpv6 s = some a := by
  simp only [parseIpAddr, parseIpv6, parseWith_eq_some]
  cases h : readIpv4Addr s.toList with
  | none => simp [Prod.ext_iff]
  | some r => simp [readIpv6Addr_of_ipv4 h]

/-! ## Display -/

/-- The decimal digits of an octet. -/
def octetChars (n : Nat) : List Char := Nat.toDigits 10 n

/-- `Ipv4Addr`'s display form: the dotted quad. -/
def formatIpv4 (a : BitVec 32) : String :=
  .ofList (octetChars (a.toNat / 2 ^ 24) ++ '.' :: octetChars (a.toNat / 2 ^ 16 % 256) ++
    '.' :: octetChars (a.toNat / 2 ^ 8 % 256) ++ '.' :: octetChars (a.toNat % 256))

theorem mem_digits {c : Char} (h : (toDigit 10 c).isSome) : c ∈ "0123456789".toList := by
  simp only [toDigit, Option.isSome_filter, Option.any_eq_true, decide_eq_true_eq] at h
  obtain ⟨d, hd, hlt⟩ := h
  split_ifs at hd with h0 h1 h2
  · have hc : c = Char.ofNat c.toNat := (Char.ofNat_toNat c).symm
    have : c.toNat ∈ List.range' 48 10 := by
      rw [List.mem_range'_1]
      exact ⟨h0.1, Nat.lt_succ_of_le h0.2⟩
    rw [hc]
    generalize c.toNat = n at this
    revert n
    decide
  · have := Option.some.inj hd
    omega
  · have := Option.some.inj hd
    omega

/-- The only way to write an octet that is read. -/
theorem octetChars_of_digits {ds : List Char} {n : Nat} (hd : ∀ c ∈ ds, (toDigit 10 c).isSome)
    (hne : ds ≠ []) (hlen : ds.length ≤ 3) (hzero : ds.head? = some '0' → ds.length ≤ 1)
    (hv : digitsValue 10 ds = some n) : ds = octetChars n := by
  have one : ∀ a ∈ "0123456789".toList, ∀ n ∈ digitsValue 10 [a], [a] = octetChars n := by
    decide +kernel
  have two : ∀ a ∈ "0123456789".toList, ∀ b ∈ "0123456789".toList, a ≠ '0' →
      ∀ n ∈ digitsValue 10 [a, b], [a, b] = octetChars n := by
    decide +kernel
  have three : ∀ a ∈ "0123456789".toList, ∀ b ∈ "0123456789".toList,
      ∀ c ∈ "0123456789".toList, a ≠ '0' →
      ∀ n ∈ digitsValue 10 [a, b, c], [a, b, c] = octetChars n := by
    decide +kernel
  match ds, hne with
  | [a], _ => exact one a (mem_digits (hd a (by simp))) n hv
  | [a, b], _ =>
    refine two a (mem_digits (hd a (by simp))) b (mem_digits (hd b (by simp))) ?_ n hv
    rintro rfl
    simp at hzero
  | [a, b, c], _ =>
    refine three a (mem_digits (hd a (by simp))) b (mem_digits (hd b (by simp))) c
      (mem_digits (hd c (by simp))) ?_ n hv
    rintro rfl
    simp at hzero
  | _ :: _ :: _ :: _ :: _, _ =>
    simp only [List.length_cons] at hlen
    omega

theorem octetChars_digits : ∀ n < 256, (∀ c ∈ octetChars n, (toDigit 10 c).isSome) ∧
    octetChars n ≠ [] ∧ (octetChars n).length ≤ 3 ∧
    ((octetChars n).head? = some '0' → (octetChars n).length ≤ 1) ∧
    digitsValue 10 (octetChars n) = some n := by
  decide +kernel

/-- An octet is read exactly from its digits. -/
theorem readNumber_iff {cs rest : List Char} {n : Nat} :
    readNumber 10 3 false 256 cs = some (n, rest) ↔
      n < 256 ∧ cs = octetChars n ++ rest ∧ ∀ c ∈ rest.head?, ¬ (toDigit 10 c).isSome := by
  constructor
  · intro h
    simp only [readNumber] at h
    split_ifs at h with hd hz
    simp only [not_or, not_lt] at hd
    simp only [Option.map_eq_some_iff, Option.filter_eq_some_iff, decide_eq_true_eq] at h
    obtain ⟨m, ⟨hv, hlt⟩, he⟩ := h
    obtain ⟨rfl, rfl⟩ := Prod.mk.inj he
    have hdigits := octetChars_of_digits
      (fun c hc => List.mem_takeWhile_imp (p := fun c => (toDigit 10 c).isSome) hc) hd.1 hd.2
      (fun hh => by
        by_contra hlen
        simp [hh, not_le.mp hlen] at hz) hv
    refine ⟨hlt, ?_, fun c hc => ?_⟩
    · rw [← hdigits, List.takeWhile_append_dropWhile]
    · exact not_of_mem_head?_dropWhile hc
  · rintro ⟨hn, rfl, hrest⟩
    obtain ⟨hd, hne, hlen, hzero, hv⟩ := octetChars_digits n hn
    have htake : (octetChars n ++ rest).takeWhile (fun c => (toDigit 10 c).isSome) =
        octetChars n := by
      rw [List.takeWhile_append_of_pos hd]
      cases rest with
      | nil => simp
      | cons c rest => simp [hrest c (by simp)]
    have hdrop : (octetChars n ++ rest).dropWhile (fun c => (toDigit 10 c).isSome) = rest := by
      rw [List.dropWhile_append_of_pos hd]
      cases rest with
      | nil => simp
      | cons c rest => simp [hrest c (by simp)]
    simp only [readNumber, htake, hdrop, hv]
    rw [if_neg (by simp [hne, hlen]), if_neg ?_]
    · simp [hn]
    · simp only [Bool.not_false, Bool.true_and, Bool.and_eq_true, beq_iff_eq, decide_eq_true_eq]
      rintro ⟨hh, hl⟩
      exact absurd (hzero hh) (not_le.mpr hl)

theorem readOctet_false_iff {cs rest : List Char} {n : Nat} :
    readOctet false cs = some (n, rest) ↔
      n < 256 ∧ cs = '.' :: octetChars n ++ rest ∧ ∀ c ∈ rest.head?, ¬ (toDigit 10 c).isSome := by
  cases cs with
  | nil => simp [readOctet, readSeparator, readGivenChar]
  | cons x cs =>
    simp only [readOctet, readSeparator, readGivenChar, Bool.false_eq_true, if_false]
    split_ifs with hx
    · simp [readNumber_iff, hx]
    · simp [hx]

/-- A text is read as an address exactly if it is the address's display form. -/
theorem parseIpv4_iff {s : String} {a : BitVec 32} : parseIpv4 s = some a ↔ s = formatIpv4 a := by
  have hone : ∀ {cs rest n}, readOctet true cs = some (n, rest) ↔ n < 256 ∧
      cs = octetChars n ++ rest ∧ ∀ c ∈ rest.head?, ¬ (toDigit 10 c).isSome := readNumber_iff
  have ha := a.isLt
  rw [parseIpv4, parseWith_eq_some]
  simp only [readIpv4Addr, Option.bind_eq_bind, Option.bind_eq_some_iff, Option.pure_def,
    Option.some.injEq, Prod.exists, Prod.mk.injEq, hone, readOctet_false_iff]
  constructor
  · rintro ⟨w, _, ⟨hw, hs, -⟩, x, _, ⟨hx, rfl, -⟩, y, _, ⟨hy, rfl, -⟩, z, _, ⟨hz, rfl, -⟩, rfl, rfl⟩
    have hn : (BitVec.ofNat 32 (((w * 256 + x) * 256 + y) * 256 + z)).toNat =
        ((w * 256 + x) * 256 + y) * 256 + z := by
      rw [BitVec.toNat_ofNat]
      exact Nat.mod_eq_of_lt (by omega)
    have h1 : (((w * 256 + x) * 256 + y) * 256 + z) / 2 ^ 24 = w := by omega
    have h2 : (((w * 256 + x) * 256 + y) * 256 + z) / 2 ^ 16 % 256 = x := by omega
    have h3 : (((w * 256 + x) * 256 + y) * 256 + z) / 2 ^ 8 % 256 = y := by omega
    have h4 : (((w * 256 + x) * 256 + y) * 256 + z) % 256 = z := by omega
    rw [formatIpv4, hn, h1, h2, h3, h4, ← String.toList_inj, hs, String.toList_ofList]
    simp
  · rintro rfl
    have hdot : ¬ (toDigit 10 '.').isSome := by decide
    refine ⟨a.toNat / 2 ^ 24, _, ⟨by omega, ?_, ?_⟩, a.toNat / 2 ^ 16 % 256, _, ⟨by omega, rfl, ?_⟩,
      a.toNat / 2 ^ 8 % 256, _, ⟨by omega, rfl, ?_⟩, a.toNat % 256, _, ⟨by omega, rfl, ?_⟩, ?_, rfl⟩
    · rw [formatIpv4, String.toList_ofList]
      simp
    · simpa using hdot
    · simpa using hdot
    · simpa using hdot
    · simp
    · apply BitVec.eq_of_toNat_eq
      rw [BitVec.toNat_ofNat]
      omega

example : formatIpv4 0xc0000205#32 = "192.0.2.5" := by decide

/-! ## Networks -/

def IpAddr.width : IpAddr → Nat
  | .v4 _ => 32
  | .v6 _ => 128

/-- An address together with the number of leading bits that identify the network. -/
structure Network where
  addr : IpAddr
  len : Nat
  len_le : len ≤ addr.width

/-- The addresses of the network's family that share its leading bits. -/
def Network.Contains (n : Network) : IpAddr → Prop
  | .v4 a => ∃ b, n.addr = .v4 b ∧ b.toNat / 2 ^ (32 - n.len) = a.toNat / 2 ^ (32 - n.len)
  | .v6 a => ∃ b, n.addr = .v6 b ∧ b.toNat / 2 ^ (128 - n.len) = a.toNat / 2 ^ (128 - n.len)

/-- Agreement under the mask of the leading `len` bits is agreement of the leading bits. -/
theorem mask_eq_iff {w : Nat} (a b : BitVec w) (k : Nat) :
    a &&& (BitVec.allOnes w <<< k) = b &&& (BitVec.allOnes w <<< k) ↔
      a.toNat / 2 ^ k = b.toNat / 2 ^ k := by
  rw [← Nat.shiftRight_eq_div_pow, ← Nat.shiftRight_eq_div_pow]
  constructor
  · intro h
    apply Nat.eq_of_testBit_eq
    intro i
    have hi := congrArg (fun x => x.getLsbD (k + i)) h
    simp only [BitVec.getLsbD_and, BitVec.getLsbD_shiftLeft, BitVec.getLsbD_allOnes] at hi
    by_cases hw : k + i < w
    · have hwi : i < w := by omega
      simpa [Nat.testBit_shiftRight, BitVec.getLsbD, hw, hwi] using hi
    · rw [Nat.testBit_shiftRight, Nat.testBit_shiftRight, Nat.testBit_lt_two_pow,
        Nat.testBit_lt_two_pow]
      · exact b.isLt.trans_le (Nat.pow_le_pow_right (by decide) (by omega))
      · exact a.isLt.trans_le (Nat.pow_le_pow_right (by decide) (by omega))
  · intro h
    apply BitVec.eq_of_getLsbD_eq
    intro i hi
    simp only [BitVec.getLsbD_and, BitVec.getLsbD_shiftLeft, BitVec.getLsbD_allOnes]
    by_cases hk : k ≤ i
    · have hb := congrArg (fun x => x.testBit (i - k)) h
      simp only [Nat.testBit_shiftRight, Nat.add_sub_cancel' hk] at hb
      simp only [BitVec.getLsbD, hb]
    · simp [show i < k by omega]

end Magnetite.Lib.Net
