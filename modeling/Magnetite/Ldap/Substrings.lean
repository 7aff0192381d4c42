import Magnetite.Ldap.Search

/-!
# Substring filters

The matcher keeps a cursor into the bytes of the value and slices the value there; a slice inside a
character or behind the end would be a panic. It takes the first occurrence of each middle part. A
value is matched if and only if it can be cut into the parts with some texts between them.
-/
namespace Magnetite.Ldap

open Magnetite.Lib

/-! ## The matcher with its cursor -/

def byteLength (cs : List Char) : ℕ := (cs.map Char.utf8Size).sum

/-- `&hay[cursor..]`, absent where this panics. -/
def sliceFrom : List Char → ℕ → Option (List Char)
  | cs, 0 => some cs
  | [], _ + 1 => none
  | c :: cs, n + 1 => if c.utf8Size ≤ n + 1 then sliceFrom cs (n + 1 - c.utf8Size) else none

/-- `str::find`: where the first occurrence starts, in bytes. -/
def findBytes (needle : List Char) : List Char → Option ℕ
  | [] => if needle = [] then some 0 else none
  | c :: hay =>
    if needle.isPrefixOf (c :: hay) then some 0 else (findBytes needle hay).map (c.utf8Size + ·)

/-- The cursor behind the middle parts, or none if one does not occur. -/
def anyLoop (hay : List Char) : List (List Char) → ℕ → Option (Option ℕ)
  | [], cursor => some (some cursor)
  | needle :: needles, cursor => do
    let slice ← sliceFrom hay cursor
    match findBytes needle slice with
    | some pos => anyLoop hay needles (cursor + (pos + byteLength needle))
    | none => return none

def lowerChars (s : String) : List Char := (Text.toAsciiLowercase s).toList

/-- The cursor behind the first part, or none if the text does not start with it. -/
def startCursor (hay : List Char) : Option (List Char) → Option (Option ℕ)
  | none => some (some 0)
  | some needle => do
    let slice ← sliceFrom hay 0
    return if needle.isPrefixOf slice then some (byteLength needle) else none

/-- `substring_matches` on bytes, absent where it panics. -/
def substringMatchesBytes (value : String) (sub : LdapSubstringFilter) : Option Bool := do
  let hay := lowerChars value
  match ← startCursor hay (sub.initial.map lowerChars) with
  | none => return false
  | some cursor =>
    match ← anyLoop hay (sub.any.map lowerChars) cursor with
    | none => return false
    | some cursor =>
      match sub.final with
      | none => return true
      | some final => return (lowerChars final).isSuffixOf (← sliceFrom hay cursor)

/-! ## What is to be matched -/

/-- Some text, then each part followed by some text, and the last part, if there is one, at the
end. -/
def Fits (final : Option (List Char)) : List (List Char) → List Char → Prop
  | [], text => ∃ gap, ∀ last ∈ final, text = gap ++ last
  | part :: parts, text => ∃ gap rest, text = gap ++ part ++ rest ∧ Fits final parts rest

/-- The value in lower case is the first part, if there is one, and a text that fits the others. -/
def Splits (value : String) (sub : LdapSubstringFilter) : Prop :=
  ∃ rest, lowerChars value = (sub.initial.map lowerChars).getD [] ++ rest ∧
    Fits (sub.final.map lowerChars) (sub.any.map lowerChars) rest

/-! ## The cursor -/

@[simp] theorem byteLength_append (a b : List Char) :
    byteLength (a ++ b) = byteLength a + byteLength b := by
  simp [byteLength]

@[simp] theorem byteLength_cons (c : Char) (cs : List Char) :
    byteLength (c :: cs) = c.utf8Size + byteLength cs := by
  simp [byteLength]

/-- A cursor behind a beginning of the text is a place between two characters. -/
theorem sliceFrom_append (front rest : List Char) :
    sliceFrom (front ++ rest) (byteLength front) = some rest := by
  induction front with
  | nil => cases rest <;> rfl
  | cons c front ih =>
    have hpos := c.utf8Size_pos
    have hlen : byteLength (c :: front) = byteLength front + (c.utf8Size - 1) + 1 := by
      rw [byteLength_cons]
      omega
    rw [List.cons_append, hlen, sliceFrom, if_pos (by omega)]
    have hrest : byteLength front + (c.utf8Size - 1) + 1 - c.utf8Size = byteLength front := by omega
    rw [hrest, ih]

/-- An occurrence is found, and no occurrence starts before it. -/
theorem findBytes_some {needle hay : List Char} {pos : ℕ} (h : findBytes needle hay = some pos) :
    ∃ gap rest, hay = gap ++ needle ++ rest ∧ pos = byteLength gap ∧
      ∀ gap' rest', hay = gap' ++ needle ++ rest' → rest' <:+ rest := by
  induction hay generalizing pos with
  | nil =>
    rw [findBytes] at h
    split_ifs at h with hnil
    cases h
    refine ⟨[], [], by simp [hnil], rfl, fun gap' rest' heq => ?_⟩
    obtain ⟨-, rfl⟩ := List.append_eq_nil_iff.mp heq.symm
    exact List.suffix_refl _
  | cons c hay ih =>
    rw [findBytes] at h
    split_ifs at h with hprefix
    · cases h
      obtain ⟨rest, hrest⟩ := List.isPrefixOf_iff_prefix.mp hprefix
      refine ⟨[], rest, by simpa using hrest.symm, rfl, fun gap' rest' heq => ?_⟩
      -- Both rests end the text, and the one behind the first occurrence is the longer one.
      refine List.suffix_of_suffix_length_le ⟨gap' ++ needle, heq.symm⟩ ⟨needle, hrest⟩ ?_
      have hlen := congrArg List.length (hrest.trans heq)
      simp only [List.length_append] at hlen
      omega
    · obtain ⟨pos', hpos', rfl⟩ := Option.map_eq_some_iff.mp h
      obtain ⟨gap, rest, rfl, rfl, hfirst⟩ := ih hpos'
      refine ⟨c :: gap, rest, rfl, by simp, fun gap' rest' heq => ?_⟩
      cases gap' with
      | nil =>
        refine absurd (List.isPrefixOf_iff_prefix.mpr ⟨rest', ?_⟩) hprefix
        simpa using heq.symm
      | cons d gap' => exact hfirst gap' rest' (List.cons.inj heq).2

theorem findBytes_none {needle hay : List Char} (h : findBytes needle hay = none)
    (gap rest : List Char) : hay ≠ gap ++ needle ++ rest := by
  induction hay generalizing gap with
  | nil =>
    rw [findBytes] at h
    split_ifs at h with hnil
    rintro heq
    simp_all
  | cons c hay ih =>
    rw [findBytes] at h
    split_ifs at h with hprefix
    rintro heq
    cases gap with
    | nil =>
      refine hprefix (List.isPrefixOf_iff_prefix.mpr ⟨rest, ?_⟩)
      simpa using heq.symm
    | cons d gap => exact ih (Option.map_eq_none_iff.mp h) gap (List.cons.inj heq).2

/-! ## The leftmost choice -/

theorem Fits.prepend {final : Option (List Char)} {parts : List (List Char)} {text : List Char}
    (h : Fits final parts text) (front : List Char) : Fits final parts (front ++ text) := by
  cases parts with
  | nil =>
    obtain ⟨gap, hgap⟩ := h
    refine ⟨front ++ gap, fun last hlast => ?_⟩
    rw [hgap last hlast, List.append_assoc]
  | cons part parts =>
    obtain ⟨gap, rest, rfl, hrest⟩ := h
    exact ⟨front ++ gap, rest, by simp, hrest⟩

/-- If a part can be anywhere, it can be where it occurs first. -/
theorem fits_cons_iff {final : Option (List Char)} {part : List Char} {parts : List (List Char)}
    {gap rest : List Char}
    (hfirst : ∀ gap' rest', gap ++ part ++ rest = gap' ++ part ++ rest' → rest' <:+ rest) :
    Fits final (part :: parts) (gap ++ part ++ rest) ↔ Fits final parts rest := by
  constructor
  · rintro ⟨gap', rest', heq, hrest'⟩
    obtain ⟨front, rfl⟩ := hfirst gap' rest' heq
    exact hrest'.prepend front
  · exact fun h => ⟨gap, rest, rfl, h⟩

/-- The text behind the first occurrence, found without a cursor. -/
theorem afterFragment_eq {needle hay : List Char} :
    afterFragment needle hay =
      (findBytes needle hay).bind fun pos => sliceFrom hay (pos + byteLength needle) := by
  induction hay with
  | nil =>
    rw [afterFragment, findBytes]
    split_ifs with hnil
    · subst hnil
      rfl
    · rfl
  | cons c hay ih =>
    rw [afterFragment, findBytes]
    split_ifs with hprefix
    · obtain ⟨rest, hrest⟩ := List.isPrefixOf_iff_prefix.mp hprefix
      rw [Option.bind_some, Nat.zero_add, ← hrest, sliceFrom_append, List.drop_left]
    · cases hfind : findBytes needle hay with
      | none => simp [ih, hfind]
      | some pos =>
        obtain ⟨gap, rest, rfl, rfl, -⟩ := findBytes_some hfind
        have hslice := sliceFrom_append (gap ++ needle) rest
        have hslice' := sliceFrom_append (c :: gap ++ needle) rest
        rw [ih, hfind]
        simp only [byteLength_append, byteLength_cons, List.cons_append, Option.map_some,
          Option.bind_some] at hslice hslice' ⊢
        rw [hslice, Nat.add_assoc, hslice']

/-- The loop ends at a place from which the last part decides, or there is no way to fit. The loop
without a cursor is then at the same place. -/
theorem anyLoop_spec (final : Option (List Char)) (front rest : List Char)
    (needles : List (List Char)) :
    (anyLoop (front ++ rest) needles (byteLength front) = some none ∧
      needles.foldl (fun hay needle => hay.bind (afterFragment needle)) (some rest) = none ∧
      ¬ Fits final needles rest) ∨
    ∃ front' rest', front ++ rest = front' ++ rest' ∧
      anyLoop (front ++ rest) needles (byteLength front) = some (some (byteLength front')) ∧
      needles.foldl (fun hay needle => hay.bind (afterFragment needle)) (some rest) = some rest' ∧
      (Fits final needles rest ↔ Fits final [] rest') := by
  induction needles generalizing front rest with
  | nil => exact .inr ⟨front, rest, rfl, rfl, rfl, Iff.rfl⟩
  | cons needle needles ih =>
    rw [anyLoop, sliceFrom_append, List.foldl_cons, Option.bind_some, afterFragment_eq]
    cases hfind : findBytes needle rest with
    | none =>
      refine .inl ⟨by simp [hfind], ?_, ?_⟩
      · rw [Option.bind_none]
        exact List.foldl_fixed' (fun _ => rfl) _
      · rintro ⟨gap, rest', heq, -⟩
        exact findBytes_none hfind gap rest' heq
    | some pos =>
      obtain ⟨gap, rest', rfl, rfl, hfirst⟩ := findBytes_some hfind
      have hslice := sliceFrom_append (gap ++ needle) rest'
      have hnext := ih (front ++ gap ++ needle) rest'
      rw [byteLength_append] at hslice
      simp only [Option.bind_eq_bind, Option.bind_some, hfind, hslice, fits_cons_iff hfirst]
      simpa [Nat.add_assoc] using hnext

theorem fits_nil_iff {final : Option (List Char)} {text : List Char} :
    Fits final [] text ↔ ∀ last ∈ final, last <:+ text := by
  cases final with
  | none => simp [Fits]
  | some last => simp [Fits, List.IsSuffix, eq_comm]

/-- The text behind the first part, if it begins with it. -/
def afterInitial (hay : List Char) : Option (List Char) → Option (List Char)
  | none => some hay
  | some needle => if needle.isPrefixOf hay then some (hay.drop needle.length) else none

theorem startCursor_spec (hay : List Char) (initial : Option (List Char)) :
    (startCursor hay initial = some none ∧ afterInitial hay initial = none ∧
      ∀ rest, hay ≠ initial.getD [] ++ rest) ∨
    ∃ rest, hay = initial.getD [] ++ rest ∧ afterInitial hay initial = some rest ∧
      startCursor hay initial = some (some (byteLength (initial.getD []))) := by
  cases initial with
  | none => exact .inr ⟨hay, rfl, rfl, rfl⟩
  | some needle =>
    have hslice : sliceFrom hay 0 = some hay := by cases hay <;> rfl
    by_cases hprefix : needle <+: hay
    · obtain ⟨rest, rfl⟩ := hprefix
      exact .inr ⟨rest, rfl, by simp [afterInitial], by simp [startCursor, hslice]⟩
    · refine .inl ⟨by simp [startCursor, hslice, hprefix], by simp [afterInitial, hprefix], ?_⟩
      rintro rest rfl
      exact hprefix (List.prefix_append _ _)

/-- The matcher without a cursor, on the parts in lower case. -/
theorem substringMatches_eq (value : String) (sub : LdapSubstringFilter) :
    substringMatches value sub =
      ((sub.any.map lowerChars).foldl (fun hay needle => Option.bind hay (afterFragment needle))
        (afterInitial (lowerChars value) (sub.initial.map lowerChars))).any
        fun hay => (sub.final.map lowerChars).all fun last => last.isSuffixOf hay := by
  obtain ⟨initial, any, final⟩ := sub
  rw [List.foldl_map]
  cases initial <;> cases final <;> rfl

/-- The matcher always answers, and says whether the value can be cut into the parts. -/
theorem substring_filter_exact (value : String) (sub : LdapSubstringFilter) :
    substringMatchesBytes value sub = some (substringMatches value sub) ∧
      (substringMatches value sub = true ↔ Splits value sub) := by
  rw [substringMatches_eq, substringMatchesBytes, Splits]
  obtain ⟨hstart, hafter, hno⟩ | ⟨rest, hvalue, hafter, hstart⟩ :=
    startCursor_spec (lowerChars value) (sub.initial.map lowerChars)
  · have hnone : (sub.any.map lowerChars).foldl
        (fun hay needle => Option.bind hay (afterFragment needle)) none = none :=
      List.foldl_fixed' (fun _ => rfl) _
    rw [hstart, hafter, hnone]
    refine ⟨rfl, iff_of_false (by simp) ?_⟩
    rintro ⟨rest, heq, -⟩
    exact hno rest heq
  · have hsplits : (∃ rest', lowerChars value = (sub.initial.map lowerChars).getD [] ++ rest' ∧
        Fits (sub.final.map lowerChars) (sub.any.map lowerChars) rest') ↔
          Fits (sub.final.map lowerChars) (sub.any.map lowerChars) rest := by
      rw [hvalue]
      constructor
      · rintro ⟨rest', heq, hfits⟩
        rwa [List.append_cancel_left heq]
      · exact fun hfits => ⟨rest, rfl, hfits⟩
    rw [hstart, hafter, hsplits, hvalue]
    obtain ⟨hloop, hfold, hno⟩ | ⟨front, rest', heq, hloop, hfold, hfits⟩ :=
      anyLoop_spec (sub.final.map lowerChars) ((sub.initial.map lowerChars).getD []) rest
        (sub.any.map lowerChars)
    · rw [hfold]
      refine ⟨by simp [hloop], iff_of_false (by simp) hno⟩
    · rw [hfold, hfits, fits_nil_iff]
      constructor
      · simp only [Option.bind_eq_bind, Option.bind_some, hloop]
        rw [heq, sliceFrom_append]
        cases sub.final <;> simp
      · cases sub.final <;> simp

end Magnetite.Ldap
