import Mathlib.Data.List.DropRight
import Mathlib.Data.List.TakeWhile
import Mathlib.Tactic

/-!
# Text operations

The operations on strings that Rust's `str` and integer parsers provide, as functions on
`String` computed over its characters. ASCII case folding leaves every other character alone;
trimming removes Unicode white space at both ends.
-/
namespace Magnetite.Lib.Text

/-- `str::to_ascii_lowercase`. -/
def toAsciiLowercase (s : String) : String := String.ofList (s.toList.map Char.toLower)

/-- `str::to_ascii_uppercase`. -/
def toAsciiUppercase (s : String) : String := String.ofList (s.toList.map Char.toUpper)

/-- `str::eq_ignore_ascii_case`. -/
def eqIgnoreAsciiCase (a b : String) : Bool := toAsciiLowercase a == toAsciiLowercase b

theorem eqIgnoreAsciiCase_trans {a b c : String} (h : eqIgnoreAsciiCase a b)
    (h' : eqIgnoreAsciiCase b c) : eqIgnoreAsciiCase a c := by
  simp only [eqIgnoreAsciiCase, beq_iff_eq] at *
  exact h.trans h'

/-- What holds of the characters of a list is decided on the list, not on all characters. -/
instance decidableForallMemChar {p : Char → Prop} [DecidablePred p] (cs : List Char) :
    Decidable (∀ c ∈ cs, p c) :=
  List.decidableBAll p cs

/-- `char::is_whitespace`: the Unicode `White_Space` property. -/
def isWhitespace (c : Char) : Bool :=
  let n := c.toNat
  (9 ≤ n && n ≤ 13) || n == 0x20 || n == 0x85 || n == 0xa0 || n == 0x1680 ||
    (0x2000 ≤ n && n ≤ 0x200a) || n == 0x2028 || n == 0x2029 || n == 0x202f || n == 0x205f ||
    n == 0x3000

def trimStartChars (cs : List Char) : List Char := cs.dropWhile isWhitespace

def trimEndChars (cs : List Char) : List Char := (cs.reverse.dropWhile isWhitespace).reverse

/-- `str::trim` on characters. -/
def trimChars (cs : List Char) : List Char := trimEndChars (trimStartChars cs)

/-- `str::trim`. -/
def trim (s : String) : String := String.ofList (trimChars s.toList)

/-- `str::split_once` on a character: the text before and after its first occurrence. -/
def splitOnceChars (c : Char) : List Char → Option (List Char × List Char)
  | [] => none
  | x :: xs => if x = c then some ([], xs) else
      (splitOnceChars c xs).map fun (before, after) => (x :: before, after)

/-- `str::split_once`. -/
def splitOnce (c : Char) (s : String) : Option (String × String) :=
  (splitOnceChars c s.toList).map fun (before, after) => (.ofList before, .ofList after)

/-- `s.split(c).next()`, which is never absent: the text before the first `c`. -/
def beforeFirst (c : Char) (s : String) : String := .ofList (s.toList.takeWhile (· ≠ c))

/-- `s.rsplit(c).next()`, which is never absent: the text after the last `c`. -/
def afterLast (c : Char) (s : String) : String :=
  .ofList (s.toList.reverse.takeWhile (· ≠ c)).reverse

/-- `str::starts_with`. -/
def startsWith (s p : String) : Bool := p.toList.isPrefixOf s.toList

/-- `str::ends_with` on a character. -/
def endsWithChar (c : Char) (s : String) : Bool := s.toList.getLast? == some c

/-- `str::ends_with`. -/
def endsWith (s p : String) : Bool := p.toList.isSuffixOf s.toList

/-- `str::trim_end_matches` on a character. -/
def trimEndMatches (c : Char) (s : String) : String :=
  .ofList (s.toList.reverse.dropWhile (· == c)).reverse

/-- `str::strip_prefix`. -/
def stripPrefix (s p : String) : Option String :=
  if startsWith s p then some (.ofList (s.toList.drop p.toList.length)) else none

/-- `str::contains`. -/
def contains (s p : String) : Bool := s.toList.tails.any p.toList.isPrefixOf

/-- The bytes of an ASCII text. -/
def asciiBytes (s : String) : List UInt8 := s.toList.map fun c => UInt8.ofNat c.toNat

/-- `char::to_digit`. -/
def toDigit (radix : Nat) (c : Char) : Option Nat :=
  let n := c.toNat
  let d := if '0'.toNat ≤ n ∧ n ≤ '9'.toNat then some (n - '0'.toNat)
    else if 'a'.toNat ≤ n ∧ n ≤ 'z'.toNat then some (n - 'a'.toNat + 10)
    else if 'A'.toNat ≤ n ∧ n ≤ 'Z'.toNat then some (n - 'A'.toNat + 10)
    else none
  d.filter (· < radix)

/-- Big-endian value of a digit string, absent when a character is not a digit. -/
def digitsValue (radix : Nat) (cs : List Char) : Option Nat :=
  cs.foldlM (fun acc c => (toDigit radix c).map (acc * radix + ·)) 0

def stripPlus : List Char → List Char
  | '+' :: cs => cs
  | cs => cs

/-- `str::parse` at an unsigned type of `bits` bits: an optional plus sign, then at least one
decimal digit, within the range of the type. -/
def parseUnsigned (bits : Nat) (s : String) : Option Nat :=
  let digits := stripPlus s.toList
  if digits = [] then none else (digitsValue 10 digits).filter (· < 2 ^ bits)

theorem splitOnceChars_append {c : Char} {before : List Char} (h : c ∉ before)
    (after : List Char) : splitOnceChars c (before ++ c :: after) = some (before, after) := by
  induction before with
  | nil => simp [splitOnceChars]
  | cons x xs ih =>
    simp only [List.mem_cons, not_or] at h
    simp [splitOnceChars, ih h.2, Ne.symm h.1]

theorem splitOnceChars_eq_some {c : Char} {cs before after : List Char}
    (h : splitOnceChars c cs = some (before, after)) :
    cs = before ++ c :: after ∧ c ∉ before := by
  induction cs generalizing before with
  | nil => simp [splitOnceChars] at h
  | cons x xs ih =>
    by_cases hx : x = c
    · simp only [splitOnceChars, if_pos hx, Option.some.injEq, Prod.mk.injEq] at h
      obtain ⟨rfl, rfl⟩ := h
      simp [hx]
    · simp only [splitOnceChars, if_neg hx, Option.map_eq_some_iff] at h
      obtain ⟨⟨b, a⟩, hb, he⟩ := h
      obtain ⟨rfl, rfl⟩ := Prod.mk.inj he
      obtain ⟨hs, hn⟩ := ih hb
      exact ⟨by simp [hs], by simp [hn, Ne.symm hx]⟩

/-- A text without white space at its ends is what trimming leaves of any padding of it. -/
theorem trimChars_padded {left core right : List Char} (hl : ∀ c ∈ left, isWhitespace c)
    (hr : ∀ c ∈ right, isWhitespace c) (hs : ∀ c ∈ core.head?, ¬ isWhitespace c)
    (he : ∀ c ∈ core.getLast?, ¬ isWhitespace c) (hne : core ≠ []) :
    trimChars (left ++ core ++ right) = core := by
  have hstart : trimStartChars (left ++ core ++ right) = core ++ right := by
    obtain ⟨x, xs, rfl⟩ := List.exists_cons_of_ne_nil hne
    have hx : ¬ isWhitespace x := hs x (by simp)
    simp [trimStartChars, List.append_assoc, List.dropWhile_append_of_pos hl,
      List.dropWhile_cons_of_neg hx]
  rw [trimChars, hstart, trimEndChars, List.reverse_append,
    List.dropWhile_append_of_pos (by simpa using hr)]
  obtain ⟨xs, x, rfl⟩ : ∃ xs x, core = xs ++ [x] :=
    ⟨core.dropLast, core.getLast hne, (List.dropLast_concat_getLast hne).symm⟩
  have hx : ¬ isWhitespace x := he x (by simp)
  simp [List.dropWhile_cons_of_neg hx]

theorem toNat_toLower (c : Char) :
    c.toLower.toNat = if 65 ≤ c.toNat ∧ c.toNat ≤ 90 then c.toNat + 32 else c.toNat := by
  unfold Char.toLower
  simp only [ge_iff_le, UInt32.le_iff_toNat_le]
  by_cases h : 65 ≤ c.toNat ∧ c.toNat ≤ 90
  · have h' : 'A'.val.toNat ≤ c.val.toNat ∧ c.val.toNat ≤ 'Z'.val.toNat := h
    rw [dif_pos h', if_pos h]
    change (c.val + ('a'.val - 'A'.val)).toNat = c.val.toNat + 32
    rw [UInt32.toNat_add]
    have : ('a'.val - 'A'.val).toNat = 32 := by decide
    have hle : c.val.toNat ≤ 90 := h.2
    rw [this]
    omega
  · have h' : ¬ ('A'.val.toNat ≤ c.val.toNat ∧ c.val.toNat ≤ 'Z'.val.toNat) := h
    rw [dif_neg h', if_neg h]

theorem toLower_toLower (c : Char) : c.toLower.toLower = c.toLower := by
  apply Char.toNat_inj.mp
  rw [toNat_toLower c.toLower, toNat_toLower c]
  split_ifs <;> omega

theorem toAsciiLowercase_idem (s : String) :
    toAsciiLowercase (toAsciiLowercase s) = toAsciiLowercase s := by
  simp only [toAsciiLowercase, String.toList_ofList, List.map_map]
  congr 1
  exact List.map_congr_left fun c _ => toLower_toLower c

/-- Only letters come from letters. -/
theorem toLower_beq {d : Char} (h : d.toNat < 65 ∨ 122 < d.toNat) (c : Char) :
    (c.toLower == d) = (c == d) := by
  have hc := toNat_toLower c
  rw [Bool.eq_iff_iff, beq_iff_eq, beq_iff_eq, ← Char.toNat_inj, ← Char.toNat_inj, hc]
  split_ifs <;> omega

theorem toLower_beq_dot (c : Char) : (c.toLower == '.') = (c == '.') :=
  toLower_beq (.inl (by decide)) c

theorem toAsciiLowercase_trimEndMatches {d : Char} (h : d.toNat < 65 ∨ 122 < d.toNat) (s : String) :
    toAsciiLowercase (trimEndMatches d s) = trimEndMatches d (toAsciiLowercase s) := by
  have hd : ((· == d) ∘ Char.toLower) = (· == d) := funext (toLower_beq h)
  simp only [toAsciiLowercase, trimEndMatches, String.toList_ofList, ← List.map_reverse,
    List.dropWhile_map, hd]

theorem endsWithChar_toAsciiLowercase {d : Char} (h : d.toNat < 65 ∨ 122 < d.toNat) (s : String) :
    endsWithChar d (toAsciiLowercase s) = endsWithChar d s := by
  simp only [endsWithChar, toAsciiLowercase, String.toList_ofList, List.getLast?_map]
  cases s.toList.getLast? with
  | none => rfl
  | some c => simpa using toLower_beq h c

theorem lower_trimEnd_idem (s : String) :
    toAsciiLowercase (trimEndMatches '.' (toAsciiLowercase (trimEndMatches '.' s))) =
      toAsciiLowercase (trimEndMatches '.' s) := by
  have hdot : ((· == '.') ∘ Char.toLower) = (· == '.') := funext toLower_beq_dot
  have hlower : Char.toLower ∘ Char.toLower = Char.toLower := funext toLower_toLower
  simp only [toAsciiLowercase, trimEndMatches, String.toList_ofList, ← List.map_reverse,
    List.dropWhile_map, hdot, List.reverse_reverse, List.map_map, hlower, List.dropWhile_idempotent]

theorem isWhitespace_toLower (c : Char) : isWhitespace c.toLower = isWhitespace c := by
  simp only [isWhitespace, toNat_toLower]
  split_ifs with h
  · grind
  · rfl

theorem trimChars_map_toLower (cs : List Char) :
    trimChars (cs.map Char.toLower) = (trimChars cs).map Char.toLower := by
  have h : (isWhitespace ∘ Char.toLower) = isWhitespace := funext isWhitespace_toLower
  simp only [trimChars, trimEndChars, trimStartChars, List.dropWhile_map, ← List.map_reverse, h]

theorem not_of_mem_head?_dropWhile {p : Char → Bool} {cs : List Char} {c : Char}
    (h : c ∈ (cs.dropWhile p).head?) : ¬ p c := by
  have hnot := List.head?_dropWhile_not p cs
  rw [Option.mem_def.mp h] at hnot
  simpa using hnot

theorem trimChars_getLast {cs : List Char} {c : Char} (h : c ∈ (trimChars cs).getLast?) :
    ¬ isWhitespace c := by
  rw [trimChars, trimEndChars, List.getLast?_reverse] at h
  exact not_of_mem_head?_dropWhile h

theorem trimChars_head {cs : List Char} {c : Char} (h : c ∈ (trimChars cs).head?) :
    ¬ isWhitespace c := by
  have hne : trimChars cs ≠ [] := by
    rintro he
    simp [he] at h
  -- the head of the trimmed text is the head of the text without leading white space
  obtain ⟨q, hq⟩ := List.dropWhile_suffix isWhitespace (l := (trimStartChars cs).reverse)
  have hsplit : trimStartChars cs = trimChars cs ++ q.reverse := by
    rw [trimChars, trimEndChars, ← List.reverse_append, hq, List.reverse_reverse]
  have hstart : c ∈ (cs.dropWhile isWhitespace).head? := by
    rwa [← trimStartChars, hsplit, List.head?_append_of_ne_nil _ hne]
  exact not_of_mem_head?_dropWhile hstart

theorem trimChars_eq_self_iff {cs : List Char} :
    trimChars cs = cs ↔
      (∀ c ∈ cs.head?, ¬ isWhitespace c) ∧ ∀ c ∈ cs.getLast?, ¬ isWhitespace c := by
  constructor
  · intro h
    rw [← h]
    exact ⟨fun c => trimChars_head, fun c => trimChars_getLast⟩
  · rintro ⟨hs, he⟩
    by_cases hne : cs = []
    · rw [hne]
      rfl
    · have hpad : trimChars ([] ++ cs ++ []) = cs :=
        trimChars_padded (by simp) (by simp) hs he hne
      simpa using hpad

theorem trimChars_trimChars (cs : List Char) : trimChars (trimChars cs) = trimChars cs :=
  trimChars_eq_self_iff.mpr ⟨fun _ => trimChars_head, fun _ => trimChars_getLast⟩

end Magnetite.Lib.Text
