import Magnetite.Lib.Attempt
import Magnetite.Lib.Ndr
import Magnetite.Lib.Text

/-!
# Keytabs

The reader of key table files. A file is a sequence of records with a signed length each; one that
is not positive marks a hole. A record may have a version number of 32 bits behind the key, or be
longer than its entry because the slot was used before.
-/
namespace Magnetite.Krb5.Keytab

open Magnetite.Lib Ndr Text

@[ext]
structure KeytabEntry where
  realm : String
  components : List String
  nameType : ℕ
  kvno : ℕ
  etype : ℤ
  key : List UInt8
deriving DecidableEq

/-! ## Reading -/

/-- Takes a value from the front of the bytes; an error is the text of `KdcError::Malformed`. -/
abbrev Reader (α : Type) := List UInt8 → Attempt String (α × List UInt8)

def Reader.bind {α β : Type} (p : Reader α) (f : α → Reader β) : Reader β :=
  fun bytes => (p bytes).bind fun (a, rest) => f a rest

def take (n : ℕ) : Reader (List UInt8) := fun bytes =>
  if n ≤ bytes.length then .ok (bytes.take n, bytes.drop n) else .error "keytab: truncated"

/-- `u8`, `u16` and `u32`: so many bytes are expected, the highest first. -/
def number (n : ℕ) : Reader ℕ :=
  (take n).bind fun b rest => if b.length = n then .ok (ofBeBytes b, rest) else .panic

/-- The number as a signed one of 32 bits. -/
def i32 : Reader ℤ :=
  (number 4).bind fun v rest => .ok (if v < 2 ^ 31 then v else v - 2 ^ 32, rest)

def counted : Reader (List UInt8) := (number 2).bind take

def countedStr : Reader String :=
  counted.bind fun b rest =>
    match String.fromUTF8? ⟨b.toArray⟩ with
    | some s => .ok (s, rest)
    | none => .error "keytab: non-UTF-8 name component"

def countedStrs : ℕ → Reader (List String)
  | 0 => fun bytes => .ok ([], bytes)
  | n + 1 => countedStr.bind fun s => (countedStrs n).bind fun ss rest => .ok (s :: ss, rest)

/-- The fields up to the key, with the version number of 8 bits. -/
def entryFields : Reader KeytabEntry :=
  (number 2).bind fun numComponents =>
  countedStr.bind fun realm =>
  (countedStrs numComponents).bind fun components =>
  (number 4).bind fun nameType =>
  (number 4).bind fun _ =>
  (number 1).bind fun kvno8 =>
  (number 2).bind fun etype =>
  counted.bind fun key rest => .ok (⟨realm, components, nameType, kvno8, etype, key⟩, rest)

def parseEntry (record : List UInt8) : Attempt String KeytabEntry :=
  (entryFields record).bind fun (e, rest) =>
    if 4 ≤ rest.length then (number 4 rest).map fun (vno32, _) => { e with kvno := vno32 }
    else .ok e

/-- The loop over the records; not to end within so many rounds counts as a panic. -/
def records : ℕ → List UInt8 → Attempt String (List KeytabEntry)
  | rounds, bytes =>
    if bytes.length < 4 then .ok []
    else
      match rounds with
      | 0 => .panic
      | rounds + 1 =>
        (i32 bytes).bind fun (size, rest) =>
          if size ≤ 0 then (take size.natAbs rest).bind fun (_, rest) => records rounds rest
          else
            (take size.toNat rest).bind fun (record, rest) =>
              (parseEntry record).bind fun e => (records rounds rest).map (e :: ·)

/-- Four hexadecimal digits. -/
def hex4 (n : ℕ) : String :=
  let digits := Nat.toDigits 16 n
  .ofList (List.replicate (4 - digits.length) '0' ++ digits)

def parseKeytab (bytes : List UInt8) : Attempt String (List KeytabEntry) :=
  (number 2 bytes).bind fun (magic, rest) =>
    if magic ≠ 0x0502 then
      .error ("keytab: unsupported format 0x" ++ hex4 magic ++ " (only 0x0502 / MIT v2 is read)")
    else records rest.length rest

/-! ## Looking up -/

/-- The entry is of the principal, in any case, and of the type. -/
def KeytabEntry.isFor (realm : String) (components : List String) (etype : ℤ) (e : KeytabEntry) :
    Bool :=
  e.etype == etype && eqIgnoreAsciiCase e.realm realm &&
    e.components.length == components.length &&
    (e.components.zip components).all fun (a, b) => eqIgnoreAsciiCase a b

/-- `Iterator::max_by_key`: a later one of the same version replaces an earlier one. -/
def newest : List KeytabEntry → Option KeytabEntry
  | [] => none
  | e :: es => match newest es with
    | none => some e
    | some best => if e.kvno ≤ best.kvno then some best else some e

def findKey (entries : List KeytabEntry) (realm : String) (components : List String) (etype : ℤ) :
    Option (List UInt8) :=
  (newest (entries.filter (·.isFor realm components etype))).map (·.key)

theorem newest_isSome {entries : List KeytabEntry} (h : entries ≠ []) : (newest entries).isSome := by
  cases entries with
  | nil => exact absurd rfl h
  | cons e es =>
    rw [newest]
    split
    · rfl
    · split_ifs <;> rfl

theorem newest_eq_some {entries : List KeytabEntry} {e : KeytabEntry}
    (h : newest entries = some e) : e ∈ entries ∧ ∀ e' ∈ entries, e'.kvno ≤ e.kvno := by
  induction entries generalizing e with
  | nil => cases h
  | cons x es ih =>
    rw [newest] at h
    cases hrest : newest es with
    | none =>
      have hnil : es = [] := by
        by_contra hne
        simpa [hrest] using newest_isSome hne
      rw [hrest] at h
      cases h
      simp [hnil]
    | some best =>
      obtain ⟨hmem, hmax⟩ := ih hrest
      rw [hrest] at h
      dsimp only at h
      split_ifs at h with hle
      · cases h
        exact ⟨List.mem_cons_of_mem _ hmem, List.forall_mem_cons.mpr ⟨hle, hmax⟩⟩
      · cases h
        refine ⟨List.mem_cons_self, List.forall_mem_cons.mpr ⟨le_rfl, fun e' he' => ?_⟩⟩
        have := hmax e' he'
        omega

/-- The key that is found is that of a matching entry with the highest version; none is found only
if no entry matches. -/
theorem findKey_newest (entries : List KeytabEntry) (realm : String) (components : List String)
    (etype : ℤ) :
    (∀ key, findKey entries realm components etype = some key →
      ∃ e ∈ entries, e.isFor realm components etype ∧ e.key = key ∧
        ∀ e' ∈ entries, e'.isFor realm components etype → e'.kvno ≤ e.kvno) ∧
    (findKey entries realm components etype = none ↔
      ∀ e ∈ entries, ¬ e.isFor realm components etype) := by
  constructor
  · intro key h
    obtain ⟨e, he, rfl⟩ := Option.map_eq_some_iff.mp h
    obtain ⟨hmem, hmax⟩ := newest_eq_some he
    obtain ⟨hmem, hfor⟩ := List.mem_filter.mp hmem
    exact ⟨e, hmem, hfor, rfl, fun e' he' hfor' => hmax e' (List.mem_filter.mpr ⟨he', hfor'⟩)⟩
  · rw [findKey, Option.map_eq_none_iff, ← List.filter_eq_nil_iff]
    constructor
    · intro h
      by_contra hne
      simpa [h] using newest_isSome hne
    · intro h
      rw [h]
      rfl

/-! ## No panic -/

section Calm

variable {α β : Type} {p : Reader α} {f : α → Reader β} {bytes rest : List UInt8} {n : ℕ}

/-- The reader does not panic. -/
def Calm (p : Reader α) : Prop := ∀ bytes, p bytes ≠ .panic

theorem Calm.bind (hp : Calm p) (hf : ∀ a, Calm (f a)) : Calm (p.bind f) :=
  fun bytes => Attempt.bind_ne_panic (hp bytes) fun (a, rest) _ => hf a rest

theorem Calm.ok {a : α} : Calm (fun rest => .ok (a, rest)) := fun _ => nofun

theorem take_eq_ok {b : List UInt8} (h : take n bytes = .ok (b, rest)) :
    b.length = n ∧ rest.length + n = bytes.length := by
  unfold take at h
  split_ifs at h with hle
  cases h
  simp only [List.length_take, List.length_drop]
  omega

theorem calm_take : Calm (take n) := fun bytes => by
  unfold take
  split_ifs <;> nofun

theorem calm_number : Calm (number n) := fun bytes =>
  Attempt.bind_ne_panic (calm_take bytes) fun (b, rest) h => by
    dsimp only
    rw [if_pos (take_eq_ok h).1]
    nofun

theorem calm_counted : Calm counted := calm_number.bind fun _ => calm_take

theorem calm_countedStr : Calm countedStr := calm_counted.bind fun b rest => by
  split <;> nofun

theorem calm_countedStrs (n : ℕ) : Calm (countedStrs n) := by
  induction n with
  | zero => exact Calm.ok
  | succ n ih => exact calm_countedStr.bind fun _ => ih.bind fun _ => Calm.ok

theorem calm_entryFields : Calm entryFields :=
  calm_number.bind fun _ => calm_countedStr.bind fun _ => (calm_countedStrs _).bind fun _ =>
    calm_number.bind fun _ => calm_number.bind fun _ => calm_number.bind fun _ =>
      calm_number.bind fun _ => calm_counted.bind fun _ => Calm.ok

theorem parseEntry_ne_panic (record : List UInt8) : parseEntry record ≠ .panic :=
  Attempt.bind_ne_panic (calm_entryFields record) fun (e, rest) _ => by
    dsimp only
    split_ifs
    · exact Attempt.map_ne_panic (calm_number rest)
    · nofun

theorem i32_eq_ok {size : ℤ} (h : i32 bytes = .ok (size, rest)) : rest.length + 4 = bytes.length := by
  obtain ⟨⟨v, rest₁⟩, hnumber, h⟩ := Attempt.bind_eq_ok h
  obtain ⟨⟨b, rest₂⟩, htake, hnumber⟩ := Attempt.bind_eq_ok hnumber
  dsimp only at h hnumber
  rw [if_pos (take_eq_ok htake).1] at hnumber
  cases hnumber
  cases h
  exact (take_eq_ok htake).2

theorem records_ne_panic {rounds : ℕ} (h : bytes.length ≤ rounds) :
    records rounds bytes ≠ .panic := by
  induction rounds generalizing bytes with
  | zero =>
    rw [records, if_pos (by omega)]
    nofun
  | succ rounds ih =>
    rw [records]
    split_ifs with hend
    · nofun
    have hsize : Calm i32 := calm_number.bind fun _ => Calm.ok
    refine Attempt.bind_ne_panic (hsize bytes) fun (size, rest) hi => ?_
    have hless := i32_eq_ok hi
    dsimp only
    split_ifs
    · refine Attempt.bind_ne_panic (calm_take rest) fun (_, rest') htake => ?_
      have := take_eq_ok htake
      exact ih (by dsimp only; omega)
    · refine Attempt.bind_ne_panic (calm_take rest) fun (record, rest') htake => ?_
      have := take_eq_ok htake
      exact Attempt.bind_ne_panic (parseEntry_ne_panic record) fun e _ =>
        Attempt.map_ne_panic (ih (by dsimp only; omega))

theorem parseKeytab_ne_panic (bytes : List UInt8) : parseKeytab bytes ≠ .panic :=
  Attempt.bind_ne_panic (calm_number bytes) fun (magic, rest) _ => by
    dsimp only
    split_ifs
    · nofun
    · exact records_ne_panic le_rfl

end Calm

/-! ## Files -/

/-- A slot of a file: a live entry with a time, and with the version number in 32 bits or not,
before the rest of a longer slot; or a hole. -/
inductive Slot where
  | live (e : KeytabEntry) (timestamp : ℕ) (vno32 : Bool) (padding : ℕ)
  | hole (bytes : List UInt8)

def putCounted (b : List UInt8) : List UInt8 := beBytes 2 b.length ++ b

def putStr (s : String) : List UInt8 := putCounted s.toUTF8.data.toList

/-- The fields of an entry up to its key. -/
def putFields (e : KeytabEntry) (timestamp : ℕ) : List UInt8 :=
  beBytes 2 e.components.length ++ (putStr e.realm ++ (e.components.flatMap putStr ++
    (beBytes 4 e.nameType ++ (beBytes 4 timestamp ++ (beBytes 1 (e.kvno % 256) ++
      (beBytes 2 e.etype.toNat ++ putCounted e.key))))))

def putRecord (e : KeytabEntry) (timestamp : ℕ) (vno32 : Bool) (padding : ℕ) : List UInt8 :=
  putFields e timestamp ++ ((if vno32 then beBytes 4 e.kvno else []) ++ List.replicate padding 0)

namespace Slot

def put : Slot → List UInt8
  | live e timestamp vno32 padding =>
    let record := putRecord e timestamp vno32 padding
    beBytes 4 record.length ++ record
  | hole bytes => beBytes 4 (2 ^ 32 - bytes.length) ++ bytes

def entry : Slot → Option KeytabEntry
  | live e _ _ _ => some e
  | hole _ => none

/-- Everything has the size that the format gives it. -/
def Fits : Slot → Prop
  | live e timestamp vno32 padding =>
    e.components.length < 2 ^ 16 ∧ (∀ s ∈ e.realm :: e.components, s.utf8ByteSize < 2 ^ 16) ∧
      e.nameType < 2 ^ 32 ∧ timestamp < 2 ^ 32 ∧ 0 ≤ e.etype ∧ e.etype < 2 ^ 16 ∧
      e.key.length < 2 ^ 16 ∧ e.kvno < 2 ^ 32 ∧ (vno32 = false → e.kvno < 256) ∧
      (putRecord e timestamp vno32 padding).length < 2 ^ 31
  | hole bytes => 0 < bytes.length ∧ bytes.length ≤ 2 ^ 31

instance : DecidablePred Fits
  | live .. => inferInstanceAs (Decidable (_ ∧ _))
  | hole _ => inferInstanceAs (Decidable (_ ∧ _))

/-- What follows the key is not mistaken for a version number. -/
def Clear : Slot → Prop
  | live e _ vno32 padding => vno32 = true ∨ padding < 4 ∨ e.kvno = 0
  | hole _ => True

end Slot

/-- What is read of a slot: bytes behind the key are a version number if there are four. -/
def Slot.read : Slot → Option KeytabEntry
  | live e _ vno32 padding => some { e with kvno := if vno32 = true ∨ padding < 4 then e.kvno else 0 }
  | hole _ => none

def putFile (slots : List Slot) : List UInt8 := [0x05, 0x02] ++ slots.flatMap Slot.put

section Reads

variable {α β : Type} {p : Reader α} {f : α → Reader β} {bytes bytes' : List UInt8} {a : α} {b : β}
  {n v : ℕ}

/-- The reader takes the value from the bytes, whatever follows them. -/
def Reads (p : Reader α) (bytes : List UInt8) (a : α) : Prop :=
  ∀ rest, p (bytes ++ rest) = .ok (a, rest)

theorem Reads.bind (hp : Reads p bytes a) (hf : Reads (f a) bytes' b) :
    Reads (p.bind f) (bytes ++ bytes') b := by
  intro rest
  rw [Reader.bind, List.append_assoc, hp]
  exact hf rest

theorem Reads.bind_nil (hp : Reads p bytes a) (hf : ∀ rest, f a rest = .ok (b, rest)) :
    Reads (p.bind f) bytes b := by
  intro rest
  rw [Reader.bind, hp]
  exact hf rest

theorem reads_take (h : bytes.length = n) : Reads (take n) bytes bytes := by
  intro rest
  subst h
  simp [take]

theorem reads_number (h : v < 256 ^ n) : Reads (number n) (beBytes n v) v := by
  intro rest
  rw [number, Reader.bind, reads_take (length_beBytes n v)]
  simp [Attempt.bind, ofBeBytes_beBytes h]

theorem reads_counted (h : bytes.length < 2 ^ 16) : Reads counted (putCounted bytes) bytes :=
  (reads_number h).bind (reads_take rfl)

theorem fromUTF8?_data (s : String) : String.fromUTF8? ⟨s.toUTF8.data.toList.toArray⟩ = some s := by
  rw [Array.toArray_toList]
  exact dif_pos s.isValidUTF8

theorem reads_countedStr {s : String} (h : s.utf8ByteSize < 2 ^ 16) :
    Reads countedStr (putStr s) s := by
  have hlen : s.toUTF8.data.toList.length < 2 ^ 16 := h
  refine (reads_counted hlen).bind_nil fun rest => ?_
  rw [fromUTF8?_data]

theorem reads_countedStrs {ss : List String} (h : ∀ s ∈ ss, s.utf8ByteSize < 2 ^ 16) :
    Reads (countedStrs ss.length) (ss.flatMap putStr) ss := by
  induction ss with
  | nil => exact fun _ => rfl
  | cons s ss ih =>
    rw [List.forall_mem_cons] at h
    exact (reads_countedStr h.1).bind ((ih h.2).bind_nil fun _ => rfl)

end Reads

section Files

variable {e : KeytabEntry} {timestamp padding : ℕ} {vno32 : Bool}

theorem reads_entryFields (h : (Slot.live e timestamp vno32 padding).Fits) :
    Reads entryFields (putFields e timestamp) { e with kvno := e.kvno % 256 } := by
  obtain ⟨hcount, hnames, htype, htime, hnonneg, hetype, hkey, -⟩ := h
  rw [List.forall_mem_cons] at hnames
  have hcast : ((e.etype.toNat : ℕ) : ℤ) = e.etype := Int.toNat_of_nonneg hnonneg
  refine (reads_number hcount).bind <| (reads_countedStr hnames.1).bind <|
    (reads_countedStrs hnames.2).bind <| (reads_number htype).bind <| (reads_number htime).bind <|
    (reads_number (show e.kvno % 256 < 256 ^ 1 from Nat.mod_lt _ (by decide))).bind <|
      (reads_number (by omega)).bind <|
    (reads_counted hkey).bind_nil fun rest => ?_
  rw [hcast]

theorem parseEntry_putRecord (h : (Slot.live e timestamp vno32 padding).Fits) :
    parseEntry (putRecord e timestamp vno32 padding) =
      .ok { e with kvno := if vno32 = true ∨ padding < 4 then e.kvno else 0 } := by
  have hfields := reads_entryFields h
  obtain ⟨-, -, -, -, -, -, -, hkvno, hsmall, -⟩ := h
  rw [parseEntry, putRecord, hfields]
  dsimp only [Attempt.bind]
  cases vno32 with
  | true =>
    have hnumber := reads_number (show e.kvno < 256 ^ 4 from hkvno) (List.replicate padding 0)
    rw [if_pos (by simp), if_pos rfl, hnumber]
    rfl
  | false =>
    simp only [Bool.false_eq_true, if_false, List.nil_append, List.length_replicate]
    by_cases hshort : padding < 4
    · rw [if_neg (by omega), Nat.mod_eq_of_lt (hsmall rfl)]
      simp [hshort]
    · obtain ⟨k, rfl⟩ := Nat.exists_eq_add_of_le (Nat.not_lt.mp hshort)
      have hzeros : List.replicate (4 + k) 0 = beBytes 4 0 ++ List.replicate k 0 := by
        rw [List.replicate_add]
        rfl
      rw [if_pos (by omega), hzeros, reads_number (by decide)]
      simp [Attempt.map, Attempt.bind]

theorem reads_i32_pos {n : ℕ} (h : n < 2 ^ 31) : Reads i32 (beBytes 4 n) n := by
  refine (reads_number (show n < 256 ^ 4 by omega)).bind_nil fun rest => ?_
  rw [if_pos h]

theorem reads_i32_neg {n : ℕ} (hpos : 0 < n) (h : n ≤ 2 ^ 31) :
    Reads i32 (beBytes 4 (2 ^ 32 - n)) (-n) := by
  refine (reads_number (show 2 ^ 32 - n < 256 ^ 4 by omega)).bind_nil fun rest => ?_
  rw [if_neg (by omega), Nat.cast_sub (by omega)]
  congr 2
  push_cast
  ring

theorem length_putFields_pos : 0 < (putFields e timestamp).length := by
  simp [putFields]

theorem records_flatMap_put {slots : List Slot} (h : ∀ s ∈ slots, s.Fits) {rounds : ℕ}
    (hrounds : slots.length ≤ rounds) :
    records rounds (slots.flatMap Slot.put) = .ok (slots.filterMap Slot.read) := by
  induction slots generalizing rounds with
  | nil => cases rounds <;> rfl
  | cons slot slots ih =>
    rw [List.forall_mem_cons] at h
    obtain ⟨rounds, rfl⟩ := Nat.exists_eq_add_of_le' (Nat.one_le_of_lt hrounds)
    have ih := ih h.2 (Nat.le_of_succ_le_succ hrounds)
    cases slot with
    | live e timestamp vno32 padding =>
      have hlen := h.1.2.2.2.2.2.2.2.2.2
      have hpos : 0 < (putRecord e timestamp vno32 padding).length := by
        have := @length_putFields_pos e timestamp
        simp only [putRecord, List.length_append]
        omega
      rw [List.flatMap_cons, Slot.put, List.append_assoc, records, if_neg (by simp)]
      dsimp only
      rw [reads_i32_pos hlen]
      dsimp only [Attempt.bind]
      rw [if_neg (by omega), Int.toNat_natCast, reads_take rfl]
      dsimp only
      rw [parseEntry_putRecord h.1]
      dsimp only
      rw [ih]
      rfl
    | hole bytes =>
      rw [List.flatMap_cons, Slot.put, List.append_assoc, records, if_neg (by simp)]
      dsimp only
      rw [reads_i32_neg h.1.1 h.1.2]
      dsimp only [Attempt.bind]
      rw [if_pos (by omega), Int.natAbs_neg, Int.natAbs_natCast, reads_take rfl]
      exact ih

theorem parseKeytab_putFile {slots : List Slot} (h : ∀ s ∈ slots, s.Fits) :
    parseKeytab (putFile slots) = .ok (slots.filterMap Slot.read) := by
  have hslots : slots.length ≤ (slots.flatMap Slot.put).length := by
    have hone : ∀ k ∈ slots.map fun s => s.put.length, 1 ≤ k := by
      refine List.forall_mem_map.mpr fun s _ => ?_
      cases s <;> simp [Slot.put] <;> omega
    simpa [List.length_flatMap] using List.length_le_sum_of_one_le _ hone
  have hmagic := reads_number (show 0x0502 < 256 ^ 2 by decide) (slots.flatMap Slot.put)
  rw [parseKeytab, putFile]
  exact (congrArg (Attempt.bind · _) hmagic).trans (records_flatMap_put h hslots)

theorem filterMap_read_eq_iff {slots : List Slot} :
    slots.filterMap Slot.read = slots.filterMap Slot.entry ↔ ∀ s ∈ slots, s.Clear := by
  induction slots with
  | nil => simp
  | cons slot slots ih =>
    rw [List.forall_mem_cons, ← ih]
    cases slot with
    | live e timestamp vno32 padding =>
      have hsame : { e with kvno := if vno32 = true ∨ padding < 4 then e.kvno else 0 } = e ↔
          (Slot.live e timestamp vno32 padding).Clear := by
        rw [KeytabEntry.ext_iff, Slot.Clear, ← or_assoc]
        by_cases hclear : vno32 = true ∨ padding < 4
        · simp [hclear]
        · simp [hclear, eq_comm]
      rw [List.filterMap_cons, List.filterMap_cons]
      dsimp only [Slot.read, Slot.entry]
      rw [List.cons.injEq, hsame]
    | hole bytes => exact (iff_of_eq (true_and _)).symm

end Files

/-- The live entries of a file are read in order just when no entry without a version number of 32
bits has four or more bytes of its slot behind it, unless its version is 0 anyway. The key that is
found is the one with the highest version, and no bytes make the reader panic. -/
theorem keytab_reading {slots : List Slot} (hslots : ∀ s ∈ slots, s.Fits)
    (entries : List KeytabEntry) (realm : String) (components : List String) (etype : ℤ)
    (bytes : List UInt8) :
    (parseKeytab (putFile slots) = .ok (slots.filterMap Slot.entry) ↔ ∀ s ∈ slots, s.Clear) ∧
    (∀ key, findKey entries realm components etype = some key →
      ∃ e ∈ entries, e.isFor realm components etype ∧ e.key = key ∧
        ∀ e' ∈ entries, e'.isFor realm components etype → e'.kvno ≤ e.kvno) ∧
    (findKey entries realm components etype = none ↔
      ∀ e ∈ entries, ¬ e.isFor realm components etype) ∧
    parseKeytab bytes ≠ .panic := by
  obtain ⟨hnewest, hnone⟩ := findKey_newest entries realm components etype
  refine ⟨?_, hnewest, hnone, parseKeytab_ne_panic bytes⟩
  rw [parseKeytab_putFile hslots, Attempt.ok.injEq, filterMap_read_eq_iff]

namespace Sample

def alice (kvno : ℕ) : KeytabEntry := ⟨"EX.COM", ["alice"], 1, kvno, 18, [UInt8.ofNat kvno]⟩

/-- The third key, and the fifth in a slot that was longer by four bytes. -/
def slots : List Slot := [.live (alice 3) 0 false 0, .live (alice 5) 0 false 4]

theorem slots_fit : ∀ s ∈ slots, s.Fits := by
  simp only [slots, List.forall_mem_cons, List.not_mem_nil, false_imp_iff, implies_true, and_true]
  exact ⟨by decide +kernel, by decide +kernel⟩

/-- The fifth key is read as version 0, so the third is taken for the current one. -/
theorem padded_version_lost :
    parseKeytab (putFile slots) = .ok [alice 3, { alice 5 with kvno := 0 }] ∧
      findKey [alice 3, { alice 5 with kvno := 0 }] "EX.COM" ["alice"] 18 = some [3] ∧
      findKey (slots.filterMap Slot.entry) "EX.COM" ["alice"] 18 = some [5] :=
  ⟨parseKeytab_putFile slots_fit, by decide +kernel, by decide +kernel⟩

theorem keytab_reading_padded :
    parseKeytab (putFile (slots.take 1)) = .ok [alice 3] ∧
      parseKeytab (putFile slots) ≠ .ok (slots.filterMap Slot.entry) := by
  have hfirst : ∀ s ∈ slots.take 1, s.Fits := fun s hs => slots_fit s (List.mem_of_mem_take hs)
  refine ⟨(keytab_reading hfirst [] "" [] 0 []).1.mpr ?_, fun h => ?_⟩
  · simp [slots, Slot.Clear]
  · have hclear := (keytab_reading slots_fit [] "" [] 0 []).1.mp h
    simp [slots, Slot.Clear, alice] at hclear

end Sample

end Magnetite.Krb5.Keytab
