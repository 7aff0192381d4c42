import Magnetite.Lib.Ber
import Mathlib.Tactic.Linarith

/-!
# The nesting guard of the LDAP codec

`ber_depth_within` walks over the bytes before the recursive parser sees them. It gives up, and lets
the bytes through, at a length of more than four octets, which the parser accepts.
-/
namespace Magnetite.Ldap
open Lib Ber

/-! ## The guard -/

section Guard

variable (bytes : List UInt8)

/-- A sum that has to be within `usize`. -/
def checkedAdd (a b : Nat) : Option Nat := if a + b < 2 ^ 64 then some (a + b) else none

def saturatingAddUsize (a b : Nat) : Nat := min (a + b) (2 ^ 64 - 1)

/-- Levels whose content has been consumed are closed; the innermost level comes first. -/
def closeLevels : List Nat → List Nat
  | 0 :: stack => closeLevels stack
  | stack => stack

/-- The octets of a high tag number, `some none` if they are cut off. -/
def skipTag : Nat → Nat → Option (Option Nat)
  | 0, _ => none
  | fuel + 1, i => match bytes[i]? with
    | none => some none
    | some b => do
      let i ← checkedAdd i 1
      if b &&& 0x80 = 0 then some (some i) else skipTag fuel i

/-- The end of the identifier octets, `some none` if they are cut off. -/
def tagEnd (id : UInt8) (i : Nat) : Option (Option Nat) :=
  if id &&& 0x1f = 0x1f then skipTag bytes (bytes.length + 1) i else some (some i)

/-- The octets of a long length. -/
def readLength : Nat → Nat → Nat → Option (Nat × Nat)
  | 0, i, v => some (v, i)
  | n + 1, i, v => do
    let b ← bytes[i]?
    let i ← checkedAdd i 1
    readLength n i ((v <<< 8 % 2 ^ 64) ||| b.toNat)

/-- The length and the position behind it, `some none` where the guard gives up. -/
def contentLength (i : Nat) : Option (Option (Nat × Nat)) :=
  match bytes[i]? with
  | none => some none
  | some l0 => do
    let i ← checkedAdd i 1
    if l0 &&& 0x80 = 0 then some (some (l0.toNat, i))
    else
      let n := (l0 &&& 0x7f).toNat
      if n = 0 ∨ n > 4 then some none
      else do
        if (← checkedAdd i n) > bytes.length then some none
        else (readLength bytes n i 0).map some

/-- The element is charged to the level that it is in. -/
def charge (elementLen : Nat) : List Nat → List Nat
  | [] => []
  | rem :: stack => (rem - elementLen) :: stack

/-- The loop over the elements, absent for an overflow, an access out of bounds, or when it goes on
for more rounds than it is given. -/
def depthLoop (max : Nat) : Nat → Nat → List Nat → Option Bool
  | 0, i, _ => if i < bytes.length then none else some true
  | fuel + 1, i, stack =>
    if i < bytes.length then do
      let stack := closeLevels stack
      let start := i
      let id ← bytes[i]?
      let i ← checkedAdd i 1
      match ← tagEnd bytes id i with
      | none => some true
      | some i =>
        match ← contentLength bytes i with
        | none => some true
        | some (contentLen, i) =>
          let elementLen := saturatingAddUsize (i - start) contentLen
          let stack := charge elementLen stack
          if id &&& 0x20 ≠ 0 then do
            if (← checkedAdd stack.length 1) > max then some false
            else depthLoop max fuel i (contentLen :: stack)
          else depthLoop max fuel (saturatingAddUsize i contentLen) stack
    else some true

def berDepthWithin (max : Nat) : Option Bool := depthLoop bytes max bytes.length 0 []

end Guard

/-! ## Headers -/

section Headers

variable {bytes : List UInt8}

theorem checkedAdd_eq {a b : Nat} (h : a + b < 2 ^ 64) : checkedAdd a b = some (a + b) := if_pos h

theorem getElem?_of_drop {i : Nat} {b : UInt8} {rest : List UInt8} (h : bytes.drop i = b :: rest) :
    bytes[i]? = some b := by
  rw [← List.head?_drop, h, List.head?_cons]

theorem drop_succ {i : Nat} {b : UInt8} {rest : List UInt8} (h : bytes.drop i = b :: rest) :
    bytes.drop (i + 1) = rest := by
  rw [← List.drop_drop, h, List.drop_one, List.tail_cons]

theorem drop_add {i : Nat} {front rest : List UInt8} (h : bytes.drop i = front ++ rest) :
    bytes.drop (i + front.length) = rest := by
  rw [← List.drop_drop, h, List.drop_left]

theorem length_of_drop {i : Nat} {front rest : List UInt8} (h : bytes.drop i = front ++ rest)
    (hfront : front ≠ []) : i + front.length ≤ bytes.length := by
  have hlen := congrArg List.length h
  have := List.length_pos_iff.2 hfront
  rw [List.length_drop, List.length_append] at hlen
  omega

/-- The octets of a tag number are skipped. -/
theorem skipTag_number {more rest : List UInt8} (hmore : TagNumber more) {fuel i : Nat}
    (hdrop : bytes.drop i = more ++ rest) (hfuel : more.length ≤ fuel)
    (hi : i + more.length < 2 ^ 64) :
    skipTag bytes fuel i = some (some (i + more.length)) := by
  induction more generalizing fuel i with
  | nil => exact hmore.elim
  | cons b more ih =>
    rw [List.length_cons] at hfuel hi
    obtain ⟨fuel, rfl⟩ : ∃ n, fuel = n + 1 := ⟨fuel - 1, by omega⟩
    rw [skipTag, getElem?_of_drop hdrop]
    dsimp only
    rw [checkedAdd_eq (by omega), Option.bind_eq_bind, Option.bind_some]
    unfold TagNumber at hmore
    split_ifs at hmore with hb
    · rw [if_pos hb, hmore]
      rfl
    · rw [if_neg hb, ih hmore (drop_succ hdrop) (by omega) (by omega), List.length_cons,
        Nat.add_assoc, Nat.add_comm 1]

theorem shift_or (v : Nat) (b : UInt8) (h : v * 256 < 2 ^ 64) :
    (v <<< 8 % 2 ^ 64) ||| b.toNat = v * 256 + b.toNat := by
  have hshift : v <<< 8 = v * 256 := Nat.shiftLeft_eq v 8
  rw [hshift, Nat.mod_eq_of_lt h, ← hshift, ← Nat.shiftLeft_add_eq_or_of_lt b.toNat_lt]

/-- The octets of a number give the number. -/
theorem readLength_digits {n v : Nat} {rest : List UInt8} (hv : v < 256 ^ n) {i acc : Nat}
    (hdrop : bytes.drop i = digits n v ++ rest) (hi : i + n < 2 ^ 64)
    (hacc : (acc + 1) * 256 ^ n ≤ 2 ^ 64) :
    readLength bytes n i acc = some (acc * 256 ^ n + v, i + n) := by
  induction n generalizing v i acc with
  | zero =>
    have : v = 0 := by omega
    rw [readLength, this]
    simp
  | succ n ih =>
    rw [Nat.pow_succ', ← Nat.mul_assoc] at hacc
    have hpos : 0 < 256 ^ n := by positivity
    have hdigit : v / 256 ^ n < 256 := by
      rw [Nat.div_lt_iff_lt_mul hpos]
      rwa [Nat.pow_succ'] at hv
    have hb : (UInt8.ofNat (v / 256 ^ n)).toNat = v / 256 ^ n := by
      rw [UInt8.toNat_ofNat', Nat.mod_eq_of_lt hdigit]
    have hsmall : acc * 256 < 2 ^ 64 :=
      calc acc * 256 < (acc + 1) * 256 := by omega
        _ ≤ (acc + 1) * 256 * 256 ^ n := Nat.le_mul_of_pos_right _ hpos
        _ ≤ 2 ^ 64 := hacc
    have hacc' : (acc * 256 + v / 256 ^ n + 1) * 256 ^ n ≤ 2 ^ 64 :=
      (Nat.mul_le_mul_right _ (by omega)).trans hacc
    rw [readLength, getElem?_of_drop hdrop, checkedAdd_eq (by omega)]
    simp only [Option.bind_eq_bind, Option.bind_some]
    rw [shift_or _ _ hsmall, hb, ih (Nat.mod_lt _ hpos) (drop_succ hdrop) (by omega) hacc',
      Nat.add_mul, Nat.add_assoc (acc * 256 * _), Nat.div_add_mod' v, Nat.mul_assoc acc,
      ← Nat.pow_succ', Nat.add_assoc i, Nat.add_comm 1]

/-- A length is read unless it has more than four octets. -/
theorem contentLength_octets {octets len : Nat} (hfits : LengthFits octets len) {i : Nat}
    {rest : List UInt8} (hdrop : bytes.drop i = lengthOctets octets len ++ rest)
    (hbytes : bytes.length < 2 ^ 63) :
    contentLength bytes i =
      some (if 4 < octets then none else some (len, i + (1 + octets))) := by
  have hlen := length_of_drop hdrop (by rw [← List.length_pos_iff, length_lengthOctets]; omega)
  rw [length_lengthOctets] at hlen
  unfold LengthFits at hfits
  unfold lengthOctets at hdrop
  unfold contentLength
  split_ifs at hfits hdrop with hshort
  · -- the short form
    have hbit : ∀ n, n < 128 → UInt8.ofNat n &&& 0x80 = 0 := by decide
    have hvalue : (UInt8.ofNat len).toNat = len := by
      rw [UInt8.toNat_ofNat']
      omega
    rw [getElem?_of_drop hdrop]
    dsimp only
    rw [checkedAdd_eq (by omega), Option.bind_eq_bind, Option.bind_some, if_pos (hbit len hfits),
      hvalue, if_neg (by omega), hshort]
  · have hbit : ∀ n, n < 128 → UInt8.ofNat (128 + n) &&& 0x80 ≠ 0 := by decide
    have hcount : ∀ n, n < 128 → (UInt8.ofNat (128 + n) &&& 0x7f).toNat = n := by decide
    rw [getElem?_of_drop hdrop]
    dsimp only
    rw [checkedAdd_eq (by omega), Option.bind_eq_bind, Option.bind_some,
      if_neg (hbit octets (by omega)), hcount octets (by omega)]
    by_cases hlong : 4 < octets
    · rw [if_pos (.inr hlong), if_pos hlong]
    · have hread : ¬ (octets = 0 ∨ octets > 4) := by omega
      have hpow : (0 + 1) * 256 ^ octets ≤ 2 ^ 64 := by
        rw [Nat.zero_add, Nat.one_mul]
        exact (Nat.pow_le_pow_right (by omega) (by omega : octets ≤ 4)).trans (by decide)
      have hin : ¬ i + 1 + octets > bytes.length := by omega
      rw [if_neg hread, if_neg hlong, checkedAdd_eq (by omega), Option.bind_some, if_neg hin,
        readLength_digits hfits.2 (drop_succ hdrop) (by omega) hpow]
      simp [Nat.add_assoc]

theorem length_closeLevels_le (stack : List Nat) : (closeLevels stack).length ≤ stack.length := by
  induction stack with
  | nil => rfl
  | cons rem stack ih =>
    cases rem with
    | zero => exact ih.trans (Nat.le_succ _)
    | succ rem => rfl

theorem length_charge (n : Nat) (stack : List Nat) : (charge n stack).length = stack.length := by
  cases stack <;> rfl

/-- One round of the loop at an element whose content is there. -/
theorem depthLoop_element (max : Nat) {id : Identifier} {octets len : Nat}
    (hfits : LengthFits octets len) {i : Nat} {tail : List UInt8}
    (hdrop : bytes.drop i = id.encode ++ (lengthOctets octets len ++ tail))
    (hlen : len ≤ tail.length) (hbytes : bytes.length < 2 ^ 63) (fuel : Nat) {stack : List Nat}
    (hstack : stack.length < 2 ^ 63) :
    depthLoop bytes max (fuel + 1) i stack =
      if 4 < octets then some true
      else if id.isConstructed then
        if max < (closeLevels stack).length + 1 then some false
        else depthLoop bytes max fuel (i + id.encode.length + (1 + octets))
          (len :: charge (id.encode.length + (1 + octets) + len) (closeLevels stack))
      else depthLoop bytes max fuel (i + id.encode.length + (1 + octets) + len)
        (charge (id.encode.length + (1 + octets) + len) (closeLevels stack)) := by
  have hall := @length_of_drop bytes i _ [] (by rw [List.append_nil, hdrop])
    (by simp [Identifier.encode])
  simp only [List.length_append, length_lengthOctets] at hall
  have hpos : id.encode.length = 1 + id.more.length := Nat.add_comm _ _
  have hid : bytes[i]? = some id.first := getElem?_of_drop hdrop
  have htag : tagEnd bytes id.first (i + 1) = some (some (i + id.encode.length)) := by
    have hlegal := id.legal
    unfold tagEnd
    split_ifs at hlegal ⊢ with hhigh
    · rw [skipTag_number hlegal (drop_succ hdrop) (by omega) (by omega), hpos, Nat.add_assoc]
    · rw [hpos, hlegal, List.length_nil]
  have hnext : i + id.encode.length + (1 + octets) - i = id.encode.length + (1 + octets) := by omega
  have hcharged (n m : Nat) (h : n + m < 2 ^ 64) : saturatingAddUsize n m = n + m := by
    unfold saturatingAddUsize
    omega
  have hclosed := length_closeLevels_le stack
  rw [depthLoop, if_pos (by omega), hid]
  simp only [Option.bind_eq_bind, Option.bind_some]
  rw [checkedAdd_eq (by omega), Option.bind_some, htag, Option.bind_some]
  dsimp only
  rw [contentLength_octets hfits (drop_add hdrop) hbytes]
  by_cases hlong : 4 < octets
  · rw [if_pos hlong, if_pos hlong]
    rfl
  · rw [if_neg hlong, if_neg hlong, Option.bind_some]
    dsimp only
    rw [hnext, hcharged _ _ (by omega), hcharged _ _ (by omega), length_charge,
      checkedAdd_eq (by omega), Option.bind_some]
    simp only [Identifier.isConstructed, decide_eq_true_eq, gt_iff_lt]

end Headers

/-! ## The loop over values in a row -/

section Loop

variable {bytes : List UInt8}

/-- A level whose content has been consumed makes no difference. -/
theorem depthLoop_close (max fuel i : Nat) (stack : List Nat) :
    depthLoop bytes max fuel i (0 :: stack) = depthLoop bytes max fuel i stack := by
  cases fuel with
  | zero => rfl
  | succ fuel =>
    unfold depthLoop
    rfl

/-- Where the guard stops at a header, with its answer. -/
def stopsAt (max : Nat) (h : Header) : Option Bool :=
  if 4 < h.octets then some true
  else if h.constructed ∧ max < h.level then some false
  else none

/-- The level that the elements are in, if there is one, has room for them. -/
def HasRoom (n : Nat) : List Nat → Prop
  | [] => True
  | rem :: _ => n ≤ rem

theorem closeLevels_room {n : Nat} {stack : List Nat} (h : HasRoom n stack) (hn : 0 < n) :
    closeLevels stack = stack := by
  cases stack with
  | nil => rfl
  | cons rem stack =>
    obtain ⟨k, rfl⟩ : ∃ k, rem = k + 1 := ⟨rem - 1, by unfold HasRoom at h; omega⟩
    rfl

theorem hasRoom_charge (n : Nat) {m : Nat} {stack : List Nat} (h : HasRoom (n + m) stack) :
    HasRoom m (charge n stack) := by
  cases stack with
  | nil => trivial
  | cons rem stack =>
    unfold HasRoom at h
    exact Nat.le_sub_of_add_le' h

theorem charge_charge (n m : Nat) (stack : List Nat) :
    charge m (charge n stack) = charge (n + m) stack := by
  cases stack with
  | nil => rfl
  | cons rem stack => rw [charge, charge, charge, Nat.sub_sub]

/-- The loop stops at the first header that makes it, or goes on behind the values. -/
theorem depthLoop_contents (max : Nat) (hbytes : bytes.length < 2 ^ 63) {cs : Contents}
    (hcs : cs.WellFormed) {i : Nat} {rest : List UInt8} (hdrop : bytes.drop i = cs.encode ++ rest)
    (fuel : Nat) {stack : List Nat} (hroom : HasRoom cs.encode.length stack)
    (hstack : stack.length + cs.encode.length < 2 ^ 63) :
    depthLoop bytes max (fuel + (cs.headers (stack.length + 1)).length) i stack =
      match (cs.headers (stack.length + 1)).findSome? (stopsAt max) with
      | some answer => some answer
      | none =>
        depthLoop bytes max fuel (i + cs.encode.length) (charge cs.encode.length stack) := by
  induction cs generalizing i rest fuel stack with
  | nil =>
    have hcharge : charge 0 stack = stack := by
      cases stack <;> rfl
    simp only [Contents.encode, Contents.headers, List.length_nil, List.findSome?_nil, hcharge,
      Nat.add_zero]
  | primitive id hid octets content more ih =>
    obtain ⟨hfits, hmore⟩ := hcs
    rw [Contents.encode, List.append_assoc, List.append_assoc, List.append_assoc] at hdrop
    set e := id.encode.length + (1 + octets) + content.length with he
    have hlen : (Contents.primitive id hid octets content more).encode.length =
        e + more.encode.length := by
      simp only [Contents.encode, List.length_append, length_lengthOctets]
      omega
    rw [hlen] at hroom hstack ⊢
    have hclosed : closeLevels stack = stack := closeLevels_room hroom (by omega)
    have hpos : i + id.encode.length + (1 + octets) + content.length = i + e := by omega
    have hnext : bytes.drop (i + e) = more.encode ++ rest := by
      have := drop_add (drop_add (drop_add hdrop))
      rwa [length_lengthOctets, hpos] at this
    rw [Contents.headers, List.length_cons, ← Nat.add_assoc, List.findSome?_cons,
      depthLoop_element max hfits hdrop (by simp) hbytes _ (by omega), hclosed, hid, ← he, hpos]
    by_cases hlong : 4 < octets
    · simp only [stopsAt, if_pos hlong]
    · have hrest := ih hmore hnext fuel (hasRoom_charge e hroom) (by rw [length_charge]; omega)
      rw [length_charge, charge_charge, Nat.add_assoc i] at hrest
      simp only [stopsAt, if_neg hlong, Bool.false_eq_true, false_and, if_false]
      exact hrest
  | constructed id hid octets inner more ihInner ihMore =>
    obtain ⟨hfits, hinner, hmore⟩ := hcs
    rw [Contents.encode, List.append_assoc, List.append_assoc, List.append_assoc] at hdrop
    set e := id.encode.length + (1 + octets) + inner.encode.length with he
    have hlen : (Contents.constructed id hid octets inner more).encode.length =
        e + more.encode.length := by
      simp only [Contents.encode, List.length_append, length_lengthOctets]
      omega
    rw [hlen] at hroom hstack ⊢
    have hclosed : closeLevels stack = stack := closeLevels_room hroom (by omega)
    have hpos : i + id.encode.length + (1 + octets) + inner.encode.length = i + e := by omega
    have hfirst : bytes.drop (i + id.encode.length + (1 + octets)) =
        inner.encode ++ (more.encode ++ rest) := by
      have := drop_add (drop_add hdrop)
      rwa [length_lengthOctets] at this
    have hnext : bytes.drop (i + e) = more.encode ++ rest := by
      have := drop_add hfirst
      rwa [hpos] at this
    rw [Contents.headers, List.length_cons, List.length_append, ← Nat.add_assoc,
      List.findSome?_cons, depthLoop_element max hfits hdrop (by simp) hbytes _ (by omega), hclosed,
      hid, ← he]
    by_cases hlong : 4 < octets
    · simp only [stopsAt, if_pos hlong]
    by_cases hdeep : max < stack.length + 1
    · simp only [stopsAt, if_neg hlong, hdeep, if_true, and_self]
    -- the contents are charged to the new level, which is then closed
    have hlevel : (inner.encode.length :: charge e stack).length = stack.length + 1 := by
      rw [List.length_cons, length_charge]
    have hown : HasRoom inner.encode.length (inner.encode.length :: charge e stack) :=
      Nat.le_refl _
    have hin := ihInner hinner hfirst (fuel + (more.headers (stack.length + 1)).length) hown
      (by omega)
    have hrest := ihMore hmore hnext fuel (hasRoom_charge e hroom) (by rw [length_charge]; omega)
    rw [hlevel, hpos, charge, Nat.sub_self, depthLoop_close] at hin
    rw [length_charge, charge_charge, Nat.add_assoc i] at hrest
    simp only [stopsAt, if_neg hlong, hdeep, and_false, if_false, if_true, List.findSome?_append]
    rw [Nat.add_assoc, Nat.add_comm (inner.headers _).length, ← Nat.add_assoc, hin, hrest]
    cases (inner.headers (stack.length + 1 + 1)).findSome? (stopsAt max) with
    | some answer => rfl
    | none => rfl

end Loop

/-! ## Any bytes -/

section Total

variable {bytes : List UInt8}

theorem skipTag_total (hbytes : bytes.length < 2 ^ 63) {fuel i : Nat} (hi : i ≤ bytes.length)
    (hfuel : bytes.length < fuel + i) :
    ∃ r, skipTag bytes fuel i = some r ∧ ∀ j ∈ r, i < j ∧ j ≤ bytes.length := by
  induction fuel generalizing i with
  | zero => omega
  | succ fuel ih =>
    rw [skipTag]
    cases hb : bytes[i]? with
    | none => exact ⟨none, rfl, by simp⟩
    | some b =>
      have hlt : i < bytes.length := (List.getElem?_eq_some_iff.1 hb).1
      dsimp only
      rw [checkedAdd_eq (by omega), Option.bind_eq_bind, Option.bind_some]
      split_ifs
      · exact ⟨some (i + 1), rfl, by simp; omega⟩
      · obtain ⟨r, hr, hbound⟩ := ih hlt (by omega)
        refine ⟨r, hr, fun j hj => ?_⟩
        have := hbound j hj
        omega

theorem tagEnd_total (hbytes : bytes.length < 2 ^ 63) (id : UInt8) {i : Nat}
    (hi : i ≤ bytes.length) :
    ∃ r, tagEnd bytes id i = some r ∧ ∀ j ∈ r, i ≤ j ∧ j ≤ bytes.length := by
  unfold tagEnd
  split_ifs
  · have hfuel : bytes.length < bytes.length + 1 + i := by omega
    obtain ⟨r, hr, hbound⟩ := skipTag_total hbytes hi hfuel
    exact ⟨r, hr, fun j hj => ⟨(hbound j hj).1.le, (hbound j hj).2⟩⟩
  · exact ⟨some i, rfl, by simpa using hi⟩

theorem readLength_total (hbytes : bytes.length < 2 ^ 63) {n i : Nat} (acc : Nat)
    (hi : i + n ≤ bytes.length) : ∃ v, readLength bytes n i acc = some (v, i + n) := by
  induction n generalizing i acc with
  | zero => exact ⟨acc, rfl⟩
  | succ n ih =>
    rw [readLength, List.getElem?_eq_getElem (by omega : i < bytes.length),
      checkedAdd_eq (by omega)]
    simp only [Option.bind_eq_bind, Option.bind_some]
    have hnext : i + 1 + n ≤ bytes.length := by omega
    obtain ⟨v, hv⟩ := ih _ hnext
    exact ⟨v, by rw [hv, Nat.add_assoc, Nat.add_comm 1]⟩

theorem contentLength_total (hbytes : bytes.length < 2 ^ 63) (i : Nat) :
    ∃ r, contentLength bytes i = some r ∧ ∀ p ∈ r, i < p.2 ∧ p.2 ≤ bytes.length := by
  unfold contentLength
  cases hb : bytes[i]? with
  | none => exact ⟨none, rfl, by simp⟩
  | some l0 =>
    have hlt : i < bytes.length := (List.getElem?_eq_some_iff.1 hb).1
    dsimp only
    rw [checkedAdd_eq (by omega), Option.bind_eq_bind, Option.bind_some]
    split_ifs with hshort hgive
    · exact ⟨_, rfl, by simp; omega⟩
    · exact ⟨none, rfl, by simp⟩
    · rw [checkedAdd_eq (by omega), Option.bind_some]
      split_ifs with hcut
      · exact ⟨none, rfl, by simp⟩
      · obtain ⟨v, hv⟩ := readLength_total hbytes 0 (Nat.le_of_not_lt hcut)
        rw [hv]
        refine ⟨_, rfl, fun p hp => ?_⟩
        rw [← Option.some.inj hp]
        dsimp only
        omega

/-- Every round moves on, nests one level at most, and neither overflows nor reads beyond the
bytes. -/
theorem depthLoop_total (hbytes : bytes.length < 2 ^ 63) (max : Nat) {fuel i : Nat}
    (hfuel : bytes.length ≤ fuel + i) {stack : List Nat}
    (hstack : i < bytes.length → stack.length ≤ i) : (depthLoop bytes max fuel i stack).isSome := by
  induction fuel generalizing i stack with
  | zero =>
    rw [depthLoop, if_neg (by omega)]
    rfl
  | succ fuel ih =>
    rw [depthLoop]
    by_cases hi : i < bytes.length
    swap
    · rw [if_neg hi]
      rfl
    have hclosed := length_closeLevels_le stack
    have hlevels := hstack hi
    rw [if_pos hi, List.getElem?_eq_getElem hi]
    simp only [Option.bind_eq_bind, Option.bind_some]
    generalize bytes[i] = id
    rw [checkedAdd_eq (by omega), Option.bind_some]
    obtain ⟨tag, htag, htagEnd⟩ := tagEnd_total hbytes id (Nat.succ_le_of_lt hi)
    rw [htag, Option.bind_some]
    cases tag with
    | none => rfl
    | some j =>
      have hj := htagEnd j rfl
      obtain ⟨content, hcontent, hend⟩ := contentLength_total hbytes j
      dsimp only
      rw [hcontent, Option.bind_some]
      cases content with
      | none => rfl
      | some p =>
        obtain ⟨len, k⟩ := p
        have hk := hend (len, k) rfl
        dsimp only at hk ⊢
        rw [length_charge, checkedAdd_eq (by omega), Option.bind_some]
        split_ifs
        · rfl
        · refine ih (by omega) fun _ => ?_
          rw [List.length_cons, length_charge]
          omega
        · have hmoved : k ≤ saturatingAddUsize k len ∨ bytes.length ≤ saturatingAddUsize k len := by
            unfold saturatingAddUsize
            omega
          refine ih (by omega) fun hin => ?_
          rw [length_charge]
          omega

theorem berDepthWithin_total (hbytes : bytes.length < 2 ^ 63) (max : Nat) :
    (berDepthWithin bytes max).isSome :=
  depthLoop_total hbytes max (Nat.le_refl _) fun _ => Nat.le_refl _

end Total

/-! ## Exactness -/

section Exact

/-- Before any length of more than four octets there is an element that is nested too deep. -/
def DeepBeforeLong (max : Nat) (hs : List Header) : Prop :=
  ∃ h ∈ hs.takeWhile (·.octets ≤ 4), h.constructed ∧ max < h.level

theorem findSome?_stopsAt (max : Nat) (hs : List Header) :
    hs.findSome? (stopsAt max) = some false ↔ DeepBeforeLong max hs := by
  unfold DeepBeforeLong
  induction hs with
  | nil => simp
  | cons h hs ih =>
    rw [List.findSome?_cons, stopsAt]
    by_cases hlong : 4 < h.octets
    · have : ¬ h.octets ≤ 4 := by omega
      simp [if_pos hlong, this]
    · have hshort : h.octets ≤ 4 := by omega
      rw [if_neg hlong]
      by_cases hdeep : h.constructed ∧ max < h.level
      · simp [hshort, hdeep]
      · simp only [if_neg hdeep, ih]
        simp [hshort, hdeep]

theorem berDepthWithin_value (v : Value) (hsize : v.encode.length < 2 ^ 63) (max : Nat) :
    berDepthWithin v.encode max = some false ↔ DeepBeforeLong max v.headers := by
  have hcount : (v.contents.headers 1).length ≤ v.encode.length := by
    have := v.contents.length_headers_le 1
    unfold Value.encode
    omega
  obtain ⟨fuel, hfuel⟩ := Nat.exists_eq_add_of_le' hcount
  have hall : v.encode.drop 0 = v.contents.encode ++ [] := by
    rw [List.drop_zero, List.append_nil, Value.encode]
  have hlength : ([] : List Nat).length + v.contents.encode.length < 2 ^ 63 := by
    rwa [List.length_nil, Nat.zero_add]
  have hroom : HasRoom v.contents.encode.length [] := trivial
  have hloop := depthLoop_contents max hsize v.wellFormed hall fuel hroom hlength
  have hend : depthLoop v.encode max fuel (0 + v.contents.encode.length) [] = some true := by
    have hout : ¬ 0 + v.contents.encode.length < v.encode.length := by
      rw [Nat.zero_add, Value.encode]
      exact Nat.lt_irrefl _
    cases fuel <;> rw [depthLoop, if_neg hout]
  rw [← findSome?_stopsAt, Value.headers, berDepthWithin, hfuel]
  rw [List.length_nil, Nat.zero_add] at hloop
  rw [hloop]
  cases (v.contents.headers 1).findSome? (stopsAt max) with
  | none => simp only [charge, hend, Option.some.injEq, Bool.true_eq_false, reduceCtorEq]
  | some answer => simp

/-- The guard is exact if no value is nested too deep, or one is before any length of more than four
octets; and it ends on all bytes, without overflow. -/
theorem depth_within_exact_iff (v : Value) (hsize : v.encode.length < 2 ^ 63) (max : Nat) :
    (∀ bytes : List UInt8, bytes.length < 2 ^ 63 → (berDepthWithin bytes max).isSome) ∧
    ((berDepthWithin v.encode max = some false ↔ max < v.depth) ↔
      v.depth ≤ max ∨ DeepBeforeLong max v.headers) := by
  refine ⟨fun bytes hbytes => berDepthWithin_total hbytes max, ?_⟩
  have hdeep : DeepBeforeLong max v.headers → max < v.depth := by
    rintro ⟨h, hmem, hh⟩
    exact (v.lt_depth_iff max).2 ⟨h, List.takeWhile_sublist _ |>.subset hmem, hh⟩
  rw [berDepthWithin_value v hsize]
  constructor
  · intro hexact
    rcases Nat.lt_or_ge max v.depth with h | h
    · exact .inr (hexact.2 h)
    · exact .inl h
  · rintro (h | h)
    · exact ⟨hdeep, fun hlt => absurd hlt (by omega)⟩
    · exact ⟨hdeep, fun _ => h⟩

end Exact

/-! ## A length of five octets -/

section Sample

def sequenceId : Identifier where
  first := 0x30
  more := []
  legal := by decide

/-- Sequences in one another, each with that many length octets. -/
def nested (octets : Nat) : Nat → Contents
  | 0 => .nil
  | n + 1 => .constructed sequenceId (by decide) octets (nested octets n) .nil

/-- Two sequences, the lengths in the short form. -/
def twoDeep : Value where
  contents := nested 0 2
  single := rfl
  wellFormed := by
    simp [nested, Contents.WellFormed, LengthFits, Contents.encode, Identifier.encode]
    decide

theorem depth_within_exact_iff_twoDeep :
    DeepBeforeLong 1 twoDeep.headers ∧
      (berDepthWithin twoDeep.encode 1 = some false ↔ 1 < twoDeep.depth) :=
  have hdeep : DeepBeforeLong 1 twoDeep.headers :=
    ⟨⟨2, true, 0⟩, by decide, rfl, by decide⟩
  ⟨hdeep, ((depth_within_exact_iff twoDeep (by decide) 1).2).2 (.inr hdeep)⟩

/-- Two sequences whose lengths have five octets. -/
def paddedTwoDeep : Value where
  contents := nested 5 2
  single := rfl
  wellFormed := by
    simp [nested, Contents.WellFormed, LengthFits, Contents.encode, Identifier.encode]
    decide

/-- The guard lets through a value that is nested deeper than its limit. -/
theorem padded_nesting_passes :
    1 < paddedTwoDeep.depth ∧ berDepthWithin paddedTwoDeep.encode 1 = some true := by
  decide

end Sample

end Magnetite.Ldap
