import Magnetite.Smb.Compression
import Magnetite.Lib.Attempt

/-!
# Compression is undone by decompression

What the compressor writes is a list of tokens in groups of 32, and the decoder takes the tokens
one by one. A second decoder has positions in the input in place of what is left of it, as the code
has them, and stops at the first access outside a buffer; there is none.
-/
namespace Magnetite.Smb.Comp

open Magnetite.Lib Magnetite.Lib.Ndr

/-! ## Matches -/

section Matches

variable {input : List UInt8} {pos maxLen : ℕ}

theorem getElem?_of_lt_agreement {n k : ℕ} {as bs : List UInt8} (h : k < agreement n as bs) :
    k < bs.length ∧ as[k]? = bs[k]? := by
  induction n, as, bs using agreement.induct generalizing k with
  | case1 n a as bs ih =>
    rw [agreement, if_pos rfl] at h
    cases k with
    | zero => simp
    | succ k => simpa using ih (by omega)
  | case2 n a as b bs hne =>
    rw [agreement, if_neg hne] at h
    omega
  | case3 n as bs hne =>
    rw [agreement] at h
    · omega
    · exact hne

/-- A match of some length at a distance behind a position. -/
structure IsMatch (input : List UInt8) (pos length offset : ℕ) : Prop where
  offset_pos : 0 < offset
  offset_le : offset ≤ pos
  offset_le_max : offset ≤ maxOffset
  length_le : length ≤ maxMatch
  agrees : ∀ k < length, pos + k < input.length ∧ input[pos - offset + k]? = input[pos + k]?

theorem longestMatch_isMatch (hmax : maxLen ≤ maxMatch) {offs : List ℕ}
    (hoffs : ∀ off ∈ offs, 0 < off ∧ off ≤ pos ∧ off ≤ maxOffset) {best : ℕ × ℕ}
    (hbest : 0 < best.1 → IsMatch input pos best.1 best.2)
    (h : 0 < (longestMatch input pos maxLen offs best).1) :
    IsMatch input pos (longestMatch input pos maxLen offs best).1
      (longestMatch input pos maxLen offs best).2 := by
  induction offs generalizing best with
  | nil => exact hbest h
  | cons off offs ih =>
    have hoff := hoffs off List.mem_cons_self
    have hnew : IsMatch input pos
        (agreement maxLen (input.drop (pos - off)) (input.drop pos)) off := by
      refine ⟨hoff.1, hoff.2.1, hoff.2.2, (agreement_le ..).trans hmax, fun k hk => ?_⟩
      have hsame := getElem?_of_lt_agreement hk
      rw [List.length_drop, List.getElem?_drop, List.getElem?_drop] at hsame
      exact ⟨by omega, hsame.2⟩
    have hrest : ∀ off ∈ offs, 0 < off ∧ off ≤ pos ∧ off ≤ maxOffset :=
      fun off hmem => hoffs off (List.mem_cons_of_mem _ hmem)
    rw [longestMatch] at h ⊢
    split_ifs at h ⊢ with hlonger hfull
    · exact hnew
    · exact ih hrest (fun _ => hnew) h
    · exact ih hrest hbest h

theorem findMatch_isMatch (h : 3 ≤ (findMatch input pos).1) :
    IsMatch input pos (findMatch input pos).1 (findMatch input pos).2 := by
  unfold findMatch at h ⊢
  dsimp only at h ⊢
  split_ifs at h ⊢ with hshort hlong
  · exact absurd h (by decide)
  · refine longestMatch_isMatch (min_le_right ..) (fun off hmem => ?_) (fun h => absurd h (by decide))
      (by omega)
    rw [List.mem_range'_1] at hmem
    omega
  · exact absurd h (by decide)

/-- A copy of what agrees with the input is the input, also where it overlaps itself. -/
theorem copyBack_take {offset length : ℕ} (hpos : 0 < offset) (hle : offset ≤ pos)
    (h : ∀ k < length, pos + k < input.length ∧ input[pos - offset + k]? = input[pos + k]?) :
    copyBack offset length (input.take pos) = input.take (pos + length) := by
  induction length generalizing pos with
  | zero => rfl
  | succ length ih =>
    obtain ⟨hin, hsame⟩ := h 0 (by omega)
    simp only [Nat.add_zero] at hin hsame
    have hbyte : (input.take pos).getD ((input.take pos).length - offset) 0 = input[pos] := by
      rw [List.length_take, min_eq_left hin.le, List.getD_eq_getElem?_getD,
        List.getElem?_take_of_lt (by omega), hsame,
        List.getElem?_eq_getElem hin, Option.getD_some]
    have hnext : input.take pos ++ [input[pos]] = input.take (pos + 1) :=
      (List.take_succ_eq_append_getElem hin).symm
    rw [copyBack, hbyte, hnext, ih (by omega) fun k hk => ?_, Nat.add_right_comm, Nat.add_assoc]
    have := h (k + 1) (by omega)
    rwa [show pos + 1 - offset + k = pos - offset + (k + 1) by omega, Nat.add_right_comm,
      Nat.add_assoc]

end Matches

/-! ## Tokens and groups -/

/-- A flag and the bytes behind it. -/
abbrev Token := Bool × List UInt8

/-- The tokens of the input from a position on. -/
def tokensFrom (input : List UInt8) : ℕ → ℕ → List Token
  | 0, _ => []
  | n + 1, i =>
    if h : i < input.length then
      let (length, offset) := findMatch input i
      if 3 ≤ length then
        (true, leBytes 2 ((offset - 1) * 8 + (length - 3))) :: tokensFrom input n (i + length)
      else (false, [input[i]]) :: tokensFrom input n (i + 1)
    else []

theorem compressFrom_eq_foldl (input : List UInt8) (n i : ℕ) (e : Encoder) :
    compressFrom input n i e = (tokensFrom input n i).foldl (fun e t => e.put t.1 t.2) e := by
  induction n generalizing i e with
  | zero => rfl
  | succ n ih =>
    simp only [compressFrom, tokensFrom]
    split_ifs
    · exact ih ..
    · exact ih ..
    · rfl

/-- The flags of the next tokens as a number of so many bits, the first one highest. -/
def flagBits : ℕ → List Token → ℕ
  | 0, _ => 0
  | _, [] => 0
  | n + 1, t :: ts => (if t.1 then 2 ^ n else 0) + flagBits n ts

/-- What is written of tokens when the group has room for `n` more: their bytes, and the flags of
each later group in front of it. -/
def grouped : ℕ → List Token → List UInt8
  | _, [] => []
  | 0, t :: ts => leBytes 4 (flagBits 32 (t :: ts)) ++ t.2 ++ grouped 31 ts
  | n + 1, t :: ts => t.2 ++ grouped n ts

section Groups

variable {n : ℕ} {t : Token} {ts : List Token} {e : Encoder}

theorem flagBits_lt (n : ℕ) (ts : List Token) : flagBits n ts < 2 ^ n := by
  induction n generalizing ts with
  | zero => simp [flagBits]
  | succ n ih =>
    cases ts with
    | nil => simp [flagBits]
    | cons t ts =>
      have := ih ts
      rw [flagBits, Nat.pow_succ]
      split_ifs <;> omega

/-- The flags so far fit into as many bits. -/
structure Encoder.Wf (e : Encoder) : Prop where
  count_lt : e.count < 32
  flags_lt : e.flags.toNat < 2 ^ e.count

theorem Encoder.Wf.flags_small (h : e.Wf) : e.flags.toNat < 2 ^ 31 :=
  h.flags_lt.trans_le (Nat.pow_le_pow_right (by decide) (by have := h.count_lt; omega))

theorem Encoder.Wf.shift_flags (h : e.Wf) (b : Bool) :
    (e.flags <<< 1 ||| (if b then 1 else 0)).toNat = 2 * e.flags.toNat + (if b then 1 else 0) := by
  have hlt := h.flags_small
  have hshift : (e.flags <<< 1).toNat = 2 * e.flags.toNat := by
    rw [UInt32.toNat_shiftLeft, Nat.shiftLeft_eq]
    exact (Nat.mod_eq_of_lt (by simp; omega)).trans (Nat.mul_comm ..)
  have hor : 2 ^ 1 * e.flags.toNat + (if b then 1 else 0) =
      2 ^ 1 * e.flags.toNat ||| (if b then 1 else 0) :=
    Nat.two_pow_add_eq_or_of_lt (by cases b <;> simp) _
  rw [UInt32.toNat_or, hshift, ← Nat.pow_one 2, hor]
  cases b <;> rfl

theorem Encoder.Wf.align_flags (h : e.Wf) (hpos : 0 < e.count) :
    (e.flags <<< UInt32.ofNat (32 - e.count)).toNat = e.flags.toNat * 2 ^ (32 - e.count) := by
  have hcount := h.count_lt
  have hword : e.flags.toNat * 2 ^ (32 - e.count) < 2 ^ 32 := by
    calc e.flags.toNat * 2 ^ (32 - e.count) < 2 ^ e.count * 2 ^ (32 - e.count) :=
          Nat.mul_lt_mul_of_pos_right h.flags_lt (Nat.two_pow_pos _)
      _ = 2 ^ 32 := by rw [← Nat.pow_add, Nat.add_sub_cancel' hcount.le]
  have hshift : (UInt32.ofNat (32 - e.count)).toNat = 32 - e.count :=
    UInt32.toNat_ofNat_of_lt' (show 32 - e.count < 4294967296 by omega)
  rw [UInt32.toNat_shiftLeft, Nat.shiftLeft_eq, hshift,
    Nat.mod_eq_of_lt (show 32 - e.count < 32 by omega), Nat.mod_eq_of_lt hword]

theorem Encoder.Wf.put_full (h : e.Wf) (hfull : e.count + 1 = 32) (t : Token) :
    e.put t.1 t.2 = ⟨e.out ++ leBytes 4 (2 * e.flags.toNat + if t.1 then 1 else 0) ++
      (e.group ++ t.2), 0, 0, []⟩ := by
  rw [Encoder.put, if_pos hfull, h.shift_flags]

theorem Encoder.put_more (hfull : e.count + 1 ≠ 32) (t : Token) :
    e.put t.1 t.2 = ⟨e.out, e.flags <<< 1 ||| (if t.1 then 1 else 0), e.count + 1, e.group ++ t.2⟩ :=
  if_neg hfull

theorem Encoder.Wf.put (h : e.Wf) (t : Token) : (e.put t.1 t.2).Wf := by
  have hcount := h.count_lt
  by_cases hfull : e.count + 1 = 32
  · rw [h.put_full hfull]
    exact ⟨by simp, by simp⟩
  · rw [Encoder.put_more hfull]
    refine ⟨by dsimp only; omega, ?_⟩
    have := h.flags_lt
    rw [h.shift_flags, Nat.pow_succ]
    split_ifs <;> omega

/-- The rest of the flags go below those the group has. -/
theorem Encoder.Wf.finish_foldl (h : e.Wf) (ts : List Token) (hne : e.count ≠ 0 ∨ ts ≠ []) :
    (ts.foldl (fun e t => e.put t.1 t.2) e).finish =
      e.out ++ leBytes 4 (e.flags.toNat * 2 ^ (32 - e.count) + flagBits (32 - e.count) ts) ++
        e.group ++ grouped (32 - e.count) ts := by
  have hcount := h.count_lt
  obtain ⟨m, hm⟩ : ∃ m, 32 - e.count = m + 1 := ⟨31 - e.count, by omega⟩
  induction ts generalizing e m with
  | nil =>
    have hpos : 0 < e.count := by simp at hne; omega
    have hfinish : e.finish = _ := if_pos hpos
    rw [List.foldl_nil, hfinish, h.align_flags hpos, hm]
    simp [flagBits, grouped]
  | cons t ts ih =>
    have hput := h.put t
    rw [List.foldl_cons, hm]
    by_cases hfull : e.count + 1 = 32
    · -- what follows a full group has flags of its own
      obtain rfl : m = 0 := by omega
      rw [h.put_full hfull] at hput ⊢
      cases ts with
      | nil => simp [Encoder.finish, flagBits, grouped, Nat.mul_comm]
      | cons u us =>
        rw [ih hput (.inr (List.cons_ne_nil _ _)) (by simp) 31 rfl]
        simp [flagBits, grouped, Nat.mul_comm]
    · have hflags := h.shift_flags t.1
      rw [Encoder.put_more hfull] at hput ⊢
      rw [ih hput (.inl (Nat.succ_ne_zero _)) (by dsimp only; omega) (m - 1) (by dsimp only; omega)]
      obtain ⟨k, rfl⟩ : ∃ k, m = k + 1 := ⟨m - 1, by omega⟩
      have hroom : 32 - (e.count + 1) = k + 1 := by omega
      have hword : (2 * e.flags.toNat + if t.1 then 1 else 0) * 2 ^ (k + 1) + flagBits (k + 1) ts =
          e.flags.toNat * 2 ^ (k + 1 + 1) + flagBits (k + 1 + 1) (t :: ts) := by
        rw [flagBits]
        split_ifs <;> ring
      simp only [hroom, hflags, hword, grouped, List.append_assoc]

/-- The compressed input is its tokens in groups. -/
theorem lz77Compress_eq (input : List UInt8) :
    lz77Compress input = grouped 0 (tokensFrom input input.length 0) := by
  rw [lz77Compress, compressFrom_eq_foldl]
  cases tokensFrom input input.length 0 with
  | nil => rfl
  | cons t ts =>
    have hwf : (⟨[], 0, 0, []⟩ : Encoder).Wf := ⟨by simp, by simp⟩
    rw [hwf.finish_foldl _ (.inr (List.cons_ne_nil _ _))]
    simp [grouped]

end Groups

/-! ## Decoding -/

section Decode

variable {input : List UInt8} {maxOut n i room : ℕ} {t : Token} {ts : List Token} {d : Decoder}

/-- The decoder has the output up to a position of the input and tokens left, and the flags of the
group at the upper end of its word. -/
structure Reads (input : List UInt8) (i room : ℕ) (ts : List Token) (d : Decoder) : Prop where
  room_le : room ≤ 32
  rest : d.rest = grouped room ts
  flags : d.flags.toNat = flagBits room ts * 2 ^ (32 - room)
  flagCount : d.flagCount = room
  nibble : d.nibble = none
  out : d.out = input.take i

theorem takeBytes_append {k : ℕ} {b : List UInt8} (h : b.length = k) (rest : List UInt8) :
    takeBytes k (b ++ rest) = some (b, rest) := by
  subst h
  simp [takeBytes]

/-- At the end of a group the flags of the next one are read. -/
theorem Reads.refill (h : Reads input i room (t :: ts) d) :
    ∃ room' d', d.refill = some d' ∧ Reads input i (room' + 1) (t :: ts) d' := by
  cases room with
  | zero =>
    have hword : (UInt32.ofNat (ofLeBytes (leBytes 4 (flagBits 32 (t :: ts))))).toNat =
        flagBits 32 (t :: ts) := by
      have hlt : flagBits 32 (t :: ts) < 2 ^ 32 := flagBits_lt ..
      rw [ofLeBytes_leBytes, show 256 ^ 4 = 2 ^ 32 from rfl, Nat.mod_eq_of_lt hlt]
      exact UInt32.toNat_ofNat_of_lt' hlt
    have hfill : d.refill = some { d with
        rest := grouped 32 (t :: ts)
        flags := UInt32.ofNat (ofLeBytes (leBytes 4 (flagBits 32 (t :: ts))))
        flagCount := 32 } := by
      rw [Decoder.refill, if_pos h.flagCount, h.rest, grouped, List.append_assoc,
        takeBytes_append (length_leBytes ..)]
      rfl
    exact ⟨31, _, hfill, ⟨le_rfl, rfl, hword.trans (Nat.mul_one _).symm, rfl, h.nibble, h.out⟩⟩
  | succ room =>
    have hmore : d.flagCount ≠ 0 := by rw [h.flagCount]; exact Nat.succ_ne_zero _
    exact ⟨room, d, if_neg hmore, h⟩

theorem highest_bit_iff (flags : UInt32) : flags &&& 0x80000000 ≠ 0 ↔ 2 ^ 31 ≤ flags.toNat := by
  have hlt := flags.toNat_lt
  have hand : (flags &&& 0x80000000).toNat = (flags.toNat.testBit 31).toNat * 2 ^ 31 :=
    (UInt32.toNat_and ..).trans (Nat.and_two_pow flags.toNat 31)
  rw [ne_eq, ← UInt32.toNat_inj, hand, Nat.testBit_eq_decide_div_mod_eq]
  by_cases hbit : flags.toNat / 2 ^ 31 % 2 = 1
  · rw [decide_eq_true hbit]
    exact iff_of_true (by decide) (by omega)
  · rw [decide_eq_false hbit]
    exact iff_of_false (by decide) (by omega)

/-- The highest flag is that of the next token, and the other flags move up. -/
theorem next_flag {flags : UInt32} (hroom : room + 1 ≤ 32)
    (h : flags.toNat = flagBits (room + 1) (t :: ts) * 2 ^ (32 - (room + 1))) :
    (flags &&& 0x80000000 ≠ 0 ↔ t.1 = true) ∧
      (flags <<< 1).toNat = flagBits room ts * 2 ^ (32 - room) := by
  have hrest := flagBits_lt room ts
  obtain ⟨k, hk⟩ : ∃ k, 32 - (room + 1) = k := ⟨_, rfl⟩
  have hpow : 2 ^ room * 2 ^ k = 2 ^ 31 := by rw [← Nat.pow_add]; congr 1; omega
  have hsmall : flagBits room ts * 2 ^ k < 2 ^ 31 :=
    (Nat.mul_lt_mul_of_pos_right hrest (Nat.two_pow_pos k)).trans_eq hpow
  have hroom' : 32 - room = k + 1 := by omega
  have hup : flagBits room ts * 2 ^ (k + 1) = flagBits room ts * 2 ^ k * 2 := by
    rw [Nat.pow_succ, Nat.mul_assoc]
  have hone : (1 : UInt32).toNat % 32 = 1 := rfl
  rw [hk, flagBits, Nat.add_mul] at h
  rw [highest_bit_iff, UInt32.toNat_shiftLeft, Nat.shiftLeft_eq, hone, h, hroom', hup]
  generalize flagBits room ts * 2 ^ k = low at hsmall
  by_cases hflag : t.1 = true
  · rw [if_pos hflag, hpow]
    exact ⟨iff_of_true (by omega) hflag, by omega⟩
  · rw [if_neg hflag, Nat.zero_mul]
    exact ⟨iff_of_false (by omega) hflag, by omega⟩

theorem token_literal {b : UInt8} (h : Reads input i room ((false, [b]) :: ts) d)
    (hb : input[i]? = some b) (hmax : input.length ≤ maxOut) :
    ∃ room' d', d.token maxOut = some (d', true) ∧ Reads input (i + 1) room' ts d' := by
  obtain ⟨hi, rfl⟩ := List.getElem?_eq_some_iff.mp hb
  obtain ⟨room', d', hfill, h⟩ := h.refill
  obtain ⟨hflag, hshift⟩ := next_flag h.room_le h.flags
  have hroom : ¬ maxOut ≤ (input.take i).length := by rw [List.length_take]; omega
  refine ⟨room', { d' with
    rest := grouped room' ts, flags := d'.flags <<< 1, flagCount := room',
    out := input.take (i + 1) },
    ?_, ⟨by have := h.room_le; omega, rfl, hshift, rfl, h.nibble, rfl⟩⟩
  rw [Decoder.token, hfill]
  simp only [Option.bind_eq_bind, Option.bind_some]
  rw [if_neg (by simp [hflag])]
  simp only [Decoder.literal, if_neg hroom, h.rest, grouped, h.flagCount, Nat.add_sub_cancel,
    takeBytes_append (show [input[i]].length = 1 from rfl), Option.map_some, h.out,
    List.take_succ_eq_append_getElem hi]

theorem token_match {length offset : ℕ} (hmatch : IsMatch input i length offset) (hlong : 3 ≤ length)
    (h : Reads input i room ((true, leBytes 2 ((offset - 1) * 8 + (length - 3))) :: ts) d)
    (hmax : input.length ≤ maxOut) :
    ∃ room' d', d.token maxOut = some (d', true) ∧ Reads input (i + length) room' ts d' := by
  obtain ⟨room', d', hfill, h⟩ := h.refill
  obtain ⟨hflag, hshift⟩ := next_flag h.room_le h.flags
  have hend := (hmatch.agrees (length - 1) (by omega)).1
  have hout : (input.take i).length = i := by rw [List.length_take]; omega
  have hlength := hmatch.length_le
  have hoffset := hmatch.offset_le_max
  have hpos := hmatch.offset_pos
  have hle := hmatch.offset_le
  simp only [maxMatch, maxOffset] at hlength hoffset
  have hword : ofLeBytes (leBytes 2 ((offset - 1) * 8 + (length - 3))) =
      (offset - 1) * 8 + (length - 3) := by
    rw [ofLeBytes_leBytes]
    omega
  have hfield : ((offset - 1) * 8 + (length - 3)) % 8 = length - 3 := by omega
  have hback : ((offset - 1) * 8 + (length - 3)) / 8 + 1 = offset := by omega
  refine ⟨room', { d' with
    rest := grouped room' ts, flags := d'.flags <<< 1, flagCount := room',
    out := input.take (i + length) },
    ?_, ⟨by have := h.room_le; omega, rfl, hshift, rfl, h.nibble, rfl⟩⟩
  rw [Decoder.token, hfill]
  simp only [Option.bind_eq_bind, Option.bind_some]
  rw [if_pos (hflag.mpr rfl)]
  have hcopy := copyBack_take hpos hle hmatch.agrees
  simp only [h.rest, grouped, takeBytes_append (length_leBytes 2 _), Decoder.reference, hword, hfield,
    hback, matchLength, if_neg (show ¬ length - 3 = 7 by omega), Option.bind_eq_bind,
    Option.bind_some, h.out, hout, if_neg (show ¬ i < offset by omega), Nat.sub_add_cancel hlong,
    if_neg (show ¬ maxOut < i + length by omega), hcopy, h.flagCount, Nat.add_sub_cancel,
    Option.map_some]

theorem length_le_grouped (hne : ∀ t ∈ ts, t.2 ≠ []) : ts.length ≤ (grouped room ts).length := by
  induction ts generalizing room with
  | nil => simp
  | cons t ts ih =>
    have ht := List.length_pos_iff.mpr (hne t List.mem_cons_self)
    have hts (room : ℕ) := @ih room fun t hmem => hne t (List.mem_cons_of_mem _ hmem)
    cases room with
    | zero =>
      have := hts 31
      simp only [grouped, List.length_append, List.length_cons]
      omega
    | succ room =>
      have := hts room
      simp only [grouped, List.length_append, List.length_cons]
      omega

theorem ne_nil_of_mem_tokensFrom (h : t ∈ tokensFrom input n i) : t.2 ≠ [] := by
  induction n generalizing i with
  | zero => cases h
  | succ n ih =>
    simp only [tokensFrom] at h
    split_ifs at h with hi hlong
    · rcases List.mem_cons.mp h with rfl | h
      · simp [leBytes]
      · exact ih h
    · rcases List.mem_cons.mp h with rfl | h
      · simp
      · exact ih h
    · cases h

theorem tokens_step (h : Reads input i room (t :: ts) d) (hne : t.2 ≠ []) {d' : Decoder}
    (htoken : d.token maxOut = some (d', true)) (rounds : ℕ) :
    Decoder.tokens maxOut (rounds + 1) d = Decoder.tokens maxOut rounds d' := by
  have hrest : d.rest ≠ [] := by
    rw [h.rest]
    cases room <;> simp [grouped, hne]
  rw [Decoder.tokens, if_neg hrest, htoken]
  rfl

theorem tokens_nil (h : Reads input i room [] d) (hi : input.length ≤ i) (rounds : ℕ) :
    Decoder.tokens maxOut rounds d = some input := by
  have hrest : d.rest = [] := h.rest.trans (by simp [grouped])
  have hout : d.out = input := h.out.trans (List.take_of_length_le hi)
  cases rounds <;> simp [Decoder.tokens, hrest, hout]

/-- From any position on, the tokens give back the rest of the input. -/
theorem tokens_tokensFrom (hmax : input.length ≤ maxOut) (hn : input.length - i ≤ n)
    (h : Reads input i room (tokensFrom input n i) d) {rounds : ℕ}
    (hrounds : (tokensFrom input n i).length ≤ rounds) :
    Decoder.tokens maxOut rounds d = some input := by
  induction n generalizing i room d rounds with
  | zero => exact tokens_nil h (by omega) rounds
  | succ n ih =>
    simp only [tokensFrom] at h hrounds
    split_ifs at h hrounds with hlt hlong
    · obtain ⟨rounds, rfl⟩ := Nat.exists_eq_add_of_le' (Nat.one_le_of_lt hrounds)
      obtain ⟨room', d', htoken, h'⟩ := token_match (findMatch_isMatch hlong) hlong h hmax
      rw [tokens_step h (by simp [leBytes]) htoken]
      exact ih (by omega) h' (Nat.le_of_succ_le_succ hrounds)
    · obtain ⟨rounds, rfl⟩ := Nat.exists_eq_add_of_le' (Nat.one_le_of_lt hrounds)
      obtain ⟨room', d', htoken, h'⟩ := token_literal h (List.getElem?_eq_getElem hlt) hmax
      rw [tokens_step h (by simp) htoken]
      exact ih (by omega) h' (Nat.le_of_succ_le_succ hrounds)
    · exact tokens_nil h (by omega) rounds

theorem lz77Decompress_lz77Compress (hmax : input.length ≤ maxOut) :
    lz77Decompress (lz77Compress input) maxOut = some input := by
  rw [lz77Decompress, lz77Compress_eq]
  have hstart : Reads input 0 0 (tokensFrom input input.length 0)
      ⟨grouped 0 (tokensFrom input input.length 0), 0, 0, none, []⟩ :=
    ⟨Nat.zero_le _, rfl, by simp [flagBits], rfl, rfl, rfl⟩
  exact tokens_tokensFrom hmax (by omega) hstart
    (length_le_grouped fun t => ne_nil_of_mem_tokensFrom)

end Decode

theorem decompressMessage_compressMessage {message : List UInt8}
    (h : message.length ≤ maxDecompressed) :
    decompressMessage (compressMessage message) = some message := by
  have hsize : ofLeBytes (leBytes 4 message.length) = message.length := by
    rw [ofLeBytes_leBytes]
    exact Nat.mod_eq_of_lt (lt_of_le_of_lt h (by decide))
  have hprotocol : (compressMessage message).take 4 = compressionProtocolId := rfl
  have horiginal : ((compressMessage message).drop 4).take 4 = leBytes 4 message.length := rfl
  have halgorithm : ofLeBytes (((compressMessage message).drop 8).take 2) =
    compressionAlgorithmLz77 := rfl
  have hoffset : ofLeBytes (((compressMessage message).drop 12).take 4) = 0 := rfl
  have hpayload : (compressMessage message).drop transformHeaderLen = lz77Compress message := rfl
  have hheader : ¬ (compressMessage message).length < transformHeaderLen :=
    Nat.not_lt.mpr (by
      simp only [compressMessage, compressionProtocolId, transformHeaderLen, List.length_append,
        length_leBytes, List.length_cons, List.length_nil]
      omega)
  simp only [decompressMessage, hprotocol, horiginal, halgorithm, hoffset, hpayload, hsize, hheader,
    ne_eq, not_true_eq_false, or_self, if_false, Nat.not_lt.mpr h, Nat.not_lt_zero, List.drop_zero,
    Nat.sub_zero, lz77Decompress_lz77Compress le_rfl, Option.bind_eq_bind, Option.bind_some,
    List.take_zero, List.nil_append, if_true]

/-! ## Memory safety -/

/-- `input.get(i..i + k)`. -/
def getRange (input : List UInt8) (i k : ℕ) : Option (List UInt8) :=
  if i + k ≤ input.length then some ((input.drop i).take k) else none

def wideLengthAt (input : List UInt8) (i : ℕ) : Option (ℕ × ℕ) := do
  let w ← getRange input i 2
  if ofLeBytes w = 0 then (getRange input (i + 2) 4).map fun w => (ofLeBytes w, i + 2 + 4)
  else some (ofLeBytes w, i + 2)

def extraLengthAt (input : List UInt8) (i : ℕ) : Option (ℕ × ℕ) := do
  let b ← getRange input i 1
  if ofLeBytes b = 255 then
    let (length, i) ← wideLengthAt input (i + 1)
    if length < 15 + 7 then none else some (length - (15 + 7), i)
  else some (ofLeBytes b, i + 1)

/-- Length, position and place of the half byte that is left; 0 stands for none. -/
def nextNibbleAt (input : List UInt8) (i nibbleIndex : ℕ) : Attempt Unit (ℕ × ℕ × ℕ) :=
  if nibbleIndex = 0 then
    (Attempt.ofOption () (getRange input i 1)).map fun b => (ofLeBytes b % 16, i + 1, i)
  else (Attempt.expect input[nibbleIndex]?).map fun b => (b.toNat / 16, i, 0)

def matchLengthAt (input : List UInt8) (field i nibbleIndex : ℕ) : Attempt Unit (ℕ × ℕ × ℕ) :=
  if field = 7 then
    (nextNibbleAt input i nibbleIndex).bind fun (length, i, nibbleIndex) =>
      if length = 15 then
        (Attempt.ofOption () (extraLengthAt input i)).map fun (length, i) =>
          (length + 15 + 7, i, nibbleIndex)
      else .ok (length + 7, i, nibbleIndex)
  else .ok (field, i, nibbleIndex)

def copyAt (offset : ℕ) : ℕ → List UInt8 → Attempt Unit (List UInt8)
  | 0, out => .ok out
  | n + 1, out =>
    (Attempt.sub out.length offset).bind fun from_ =>
      (Attempt.expect out[from_]?).bind fun b => copyAt offset n (out ++ [b])

/-- The variables of the loop. -/
structure Cursor where
  i : ℕ
  flags : UInt32
  flagCount : ℕ
  nibbleIndex : ℕ
  out : List UInt8

namespace Cursor

def refill (input : List UInt8) (c : Cursor) : Attempt Unit Cursor :=
  if c.flagCount = 0 then
    (Attempt.ofOption () (getRange input c.i 4)).map fun word =>
      { c with i := c.i + 4, flags := UInt32.ofNat (ofLeBytes word), flagCount := 32 }
  else .ok c

def literal (input : List UInt8) (maxOut : ℕ) (c : Cursor) : Attempt Unit Cursor :=
  if maxOut ≤ c.out.length then .error ()
  else (Attempt.ofOption () (getRange input c.i 1)).map fun b =>
    { c with i := c.i + 1, out := c.out ++ b }

def reference (input : List UInt8) (maxOut : ℕ) (c : Cursor) (word : List UInt8) :
    Attempt Unit Cursor :=
  let token := ofLeBytes word
  let offset := token / 8 + 1
  (matchLengthAt input (token % 8) c.i c.nibbleIndex).bind fun (length, i, nibbleIndex) =>
    if c.out.length < offset then .error ()
    else if maxOut < c.out.length + (length + 3) then .error ()
    else (copyAt offset (length + 3) c.out).map fun out => { c with i, nibbleIndex, out }

def token (input : List UInt8) (maxOut : ℕ) (c : Cursor) : Attempt Unit (Cursor × Bool) :=
  (c.refill input).bind fun c =>
    (Attempt.sub c.flagCount 1).bind fun flagCount =>
      let isMatch := c.flags &&& 0x80000000 ≠ 0
      let c := { c with flags := c.flags <<< 1, flagCount }
      if isMatch then
        match getRange input c.i 2 with
        | none => .ok (c, false)
        | some word => ({ c with i := c.i + 2 }.reference input maxOut word).map (·, true)
      else (c.literal input maxOut).map (·, true)

/-- The loop; it counts as a fault if it does not end within so many rounds. -/
def tokens (input : List UInt8) (maxOut : ℕ) : ℕ → Cursor → Attempt Unit (List UInt8)
  | rounds, c =>
    if input.length ≤ c.i then .ok c.out
    else
      match rounds with
      | 0 => .panic
      | rounds + 1 => (c.token input maxOut).bind fun (c, more) =>
        if more then tokens input maxOut rounds c else .ok c.out

end Cursor

/-- `lz77Decompress` with every position and index of the code. -/
def lz77DecompressAt (input : List UInt8) (maxOut : ℕ) : Attempt Unit (List UInt8) :=
  Cursor.tokens input maxOut input.length ⟨0, 0, 0, 0, []⟩

section Refines

variable {input : List UInt8} {maxOut i k n : ℕ} {c : Cursor}

/-- The byte at the place of a half byte. -/
def pending (input : List UInt8) (nibbleIndex : ℕ) : Option UInt8 :=
  if nibbleIndex = 0 then none else input[nibbleIndex]?

theorem getRange_eq_some {b : List UInt8} (h : getRange input i k = some b) :
    i + k ≤ input.length ∧ b = (input.drop i).take k := by
  unfold getRange at h
  split_ifs at h with hle
  exact ⟨hle, (Option.some.inj h).symm⟩

theorem takeBytes_drop (hk : 0 < k) :
    takeBytes k (input.drop i) = (getRange input i k).map fun b => (b, input.drop (i + k)) := by
  unfold takeBytes getRange
  rw [List.length_drop, List.drop_drop]
  split_ifs <;> first | rfl | omega

theorem getRange_follows (hk : 0 < k) :
    (Attempt.ofOption () (getRange input i k)).Follows (fun b => (b, input.drop (i + k)))
      (fun b => getRange input i k = some b) (takeBytes k (input.drop i)) :=
  ⟨_, rfl, fun _ hb => hb, takeBytes_drop hk⟩

theorem wideLength_drop : wideLength (input.drop i) =
    (wideLengthAt input i).map fun (length, i) => (length, input.drop i) := by
  simp only [wideLength, wideLengthAt, takeBytes_drop (show 0 < 2 by decide), Option.bind_eq_bind]
  cases getRange input i 2 with
  | none => rfl
  | some w =>
    simp only [Option.map_some, Option.bind_some, takeBytes_drop (show 0 < 4 by decide)]
    split_ifs
    · rw [Option.map_map, Option.map_map]
      rfl
    · rfl

theorem extraLength_drop : extraLength (input.drop i) =
    (extraLengthAt input i).map fun (length, i) => (length, input.drop i) := by
  simp only [extraLength, extraLengthAt, takeBytes_drop (show 0 < 1 by decide), Option.bind_eq_bind]
  cases getRange input i 1 with
  | none => rfl
  | some b =>
    simp only [Option.map_some, Option.bind_some, wideLength_drop]
    split_ifs
    · cases wideLengthAt input (i + 1) with
      | none => rfl
      | some r =>
        simp only [Option.map_some, Option.bind_some]
        split_ifs <;> rfl
    · rfl

/-- A half byte is kept at a place inside the input that is not the first one. -/
theorem nextNibbleAt_follows (hi : 0 < i) (hk : k < input.length) :
    (nextNibbleAt input i k).Follows (fun (length, i, k) => (length, input.drop i, pending input k))
      (fun x => x.2.2 < input.length) (nextNibble (input.drop i) (pending input k)) := by
  unfold nextNibbleAt nextNibble
  by_cases hzero : k = 0
  · rw [if_pos hzero]
    simp only [pending, if_pos hzero]
    refine (getRange_follows (by decide)).map fun b hb => ?_
    obtain ⟨hlt, rfl⟩ := getRange_eq_some hb
    refine ⟨by dsimp only; omega, ?_⟩
    simp [if_neg hi.ne', List.head?_take, List.head?_drop]
  · rw [if_neg hzero, pending, if_neg hzero, List.getElem?_eq_getElem hk]
    exact Attempt.Follows.ok (by dsimp only; omega)

theorem matchLengthAt_follows (hi : 0 < i) (hk : k < input.length) (field : ℕ) :
    (matchLengthAt input field i k).Follows
      (fun (length, i, k) => (length, input.drop i, pending input k))
      (fun x => x.2.2 < input.length) (matchLength field (input.drop i) (pending input k)) := by
  unfold matchLengthAt matchLength
  by_cases hfield : field = 7
  · rw [if_pos hfield, if_pos hfield]
    refine (nextNibbleAt_follows hi hk).bind fun (length, j, m) hm => ?_
    dsimp only
    split_ifs
    · rw [extraLength_drop]
      exact (Attempt.Follows.ofOption (P := fun _ => True) (by simp)).map fun _ _ => ⟨hm, rfl⟩
    · exact Attempt.Follows.ok hm
  · rw [if_neg hfield, if_neg hfield]
    exact Attempt.Follows.ok hk

theorem copyAt_eq {offset : ℕ} (hpos : 0 < offset) {out : List UInt8} (hle : offset ≤ out.length) :
    copyAt offset n out = .ok (copyBack offset n out) := by
  induction n generalizing out with
  | zero => rfl
  | succ n ih =>
    have hin : out.length - offset < out.length := by omega
    rw [copyAt, Attempt.sub, if_neg (by omega), Attempt.bind,
      List.getElem?_eq_getElem hin, Attempt.expect, Attempt.bind, ih (by simp; omega), copyBack,
      List.getD_eq_getElem?_getD, List.getElem?_eq_getElem hin, Option.getD_some]

namespace Cursor

/-- The decoder at the position of the cursor. -/
def decoder (input : List UInt8) (c : Cursor) : Decoder :=
  ⟨input.drop c.i, c.flags, c.flagCount, pending input c.nibbleIndex, c.out⟩

/-- The half byte is inside the input, and once there are flags the position is behind them. -/
structure Wf (input : List UInt8) (c : Cursor) : Prop where
  nibble_lt : c.nibbleIndex < input.length
  behind : c.flagCount ≠ 0 → (input.drop c.i).length < input.length

theorem Wf.drop_lt (h : c.Wf input) (hk : 0 < k) : (input.drop (c.i + k)).length < input.length := by
  have := h.nibble_lt
  rw [List.length_drop]
  omega

theorem Wf.advance (h : c.Wf input) (hk : 0 < k) (flags : UInt32) (flagCount : ℕ)
    (out : List UInt8) : Wf input ⟨c.i + k, flags, flagCount, c.nibbleIndex, out⟩ :=
  ⟨h.nibble_lt, fun _ => h.drop_lt hk⟩

theorem refill_follows (h : c.Wf input) :
    (c.refill input).Follows (decoder input) (fun c => c.Wf input ∧ c.flagCount ≠ 0)
      (c.decoder input).refill :=
  Attempt.Follows.ite
    (fun _ => (getRange_follows (by decide)).map fun _ _ =>
      ⟨⟨h.advance (by decide) .., by simp⟩, rfl⟩)
    fun hcount => Attempt.Follows.ok ⟨h, hcount⟩

theorem literal_follows (h : c.Wf input) :
    (c.literal input maxOut).Follows (decoder input) (Wf input)
      ((c.decoder input).literal maxOut) :=
  Attempt.Follows.ite (fun _ => Attempt.Follows.error)
    fun _ => (getRange_follows (by decide)).map fun _ _ => ⟨h.advance (by decide) .., rfl⟩

theorem reference_follows (h : c.Wf input) (hi : (input.drop c.i).length < input.length)
    (word : List UInt8) :
    (c.reference input maxOut word).Follows (decoder input) (Wf input)
      ((c.decoder input).reference maxOut word) := by
  have hpos : 0 < c.i := Nat.pos_of_ne_zero fun hzero => by simp [hzero] at hi
  have hlength := (matchLengthAt_follows hpos h.nibble_lt (ofLeBytes word % 8)).strengthen
    fun _ hx => matchLength_rest hx
  refine hlength.bind fun (length, j, m) ⟨hm, hrest⟩ => ?_
  refine Attempt.Follows.ite (fun _ => Attempt.Follows.error) fun hfar => ?_
  refine Attempt.Follows.ite (fun _ => Attempt.Follows.error) fun _ => ?_
  rw [copyAt_eq (Nat.succ_pos _) (Nat.le_of_not_lt hfar)]
  exact Attempt.Follows.ok ⟨hm, fun _ => hrest.trans_lt hi⟩

theorem token_follows (h : c.Wf input) :
    (c.token input maxOut).Follows (fun (c, more) => (c.decoder input, more))
      (fun x => x.1.Wf input) ((c.decoder input).token maxOut) := by
  refine (refill_follows h).bind fun c ⟨hc, hcount⟩ => ?_
  rw [Attempt.sub, if_neg (by omega), Attempt.bind]
  refine Attempt.Follows.ite (fun _ => ?_) fun _ => ?_
  · dsimp only [decoder]
    rw [takeBytes_drop (by decide)]
    cases getRange input c.i 2 with
    | none => exact Attempt.Follows.ok ⟨hc.nibble_lt, fun _ => hc.behind hcount⟩
    | some word =>
      exact (reference_follows (hc.advance (by decide) ..) (hc.drop_lt (by decide)) word).map
        fun _ hwf => ⟨hwf, rfl⟩
  · have hshifted : Wf input ⟨c.i, c.flags <<< 1, c.flagCount - 1, c.nibbleIndex, c.out⟩ :=
      ⟨hc.nibble_lt, fun _ => hc.behind hcount⟩
    exact (literal_follows hshifted).map fun _ hwf => ⟨hwf, rfl⟩

/-- Every round moves on, so as many rounds as there are bytes are enough. -/
theorem tokens_eq (h : c.Wf input) (hout : c.out.length ≤ maxOut) {rounds : ℕ}
    (hrounds : (input.drop c.i).length ≤ rounds) :
    c.tokens input maxOut rounds = .ofOption () ((c.decoder input).tokens maxOut rounds) := by
  have hend : (c.decoder input).rest = [] ↔ input.length ≤ c.i := List.drop_eq_nil_iff
  induction rounds generalizing c with
  | zero =>
    have hlast : input.length ≤ c.i := by rw [List.length_drop] at hrounds; omega
    rw [tokens, if_pos hlast]
    rfl
  | succ rounds ih =>
    rw [tokens, Decoder.tokens]
    simp only [hend]
    split_ifs with hlast
    · rfl
    · obtain ⟨r, hat, hwf, hlist⟩ := @token_follows input maxOut c h
      rw [hat, hlist]
      cases r with
      | none => rfl
      | some next =>
        obtain ⟨c', more⟩ := next
        obtain ⟨hout', hless⟩ := Decoder.token_eq_some hlist hout
        cases more with
        | false => rfl
        | true =>
          have hless : (input.drop c'.i).length < (input.drop c.i).length := hless rfl
          exact ih (hwf _ rfl) hout' (Nat.le_of_lt_succ (hless.trans_le hrounds)) List.drop_eq_nil_iff

end Cursor

theorem lz77DecompressAt_eq (input : List UInt8) (maxOut : ℕ) :
    lz77DecompressAt input maxOut = .ofOption () (lz77Decompress input maxOut) := by
  cases input with
  | nil => rfl
  | cons b bs =>
    have hstart : Cursor.Wf (b :: bs) ⟨0, 0, 0, 0, []⟩ := ⟨Nat.succ_pos _, fun h => absurd rfl h⟩
    exact Cursor.tokens_eq hstart (Nat.zero_le _) le_rfl

end Refines

/-- A message of up to 16 MiB comes back from its compressed form. On any input and for any limit
the decoder ends without an access outside its buffers, and gives no more bytes than the limit. -/
theorem compression_roundTrip_safe :
    (∀ message, message.length ≤ maxDecompressed →
      decompressMessage (compressMessage message) = some message) ∧
    ∀ input maxOut, lz77DecompressAt input maxOut = .ofOption () (lz77Decompress input maxOut) ∧
      lz77DecompressAt input maxOut ≠ .panic ∧
      ∀ out, lz77Decompress input maxOut = some out → out.length ≤ maxOut := by
  refine ⟨fun message => decompressMessage_compressMessage, fun input maxOut => ?_⟩
  have heq := lz77DecompressAt_eq input maxOut
  refine ⟨heq, ?_, fun out hout => Decoder.tokens_length_le (Nat.zero_le _) hout⟩
  rw [heq]
  cases lz77Decompress input maxOut <;> nofun

/-- Eight equal bytes are a literal and a match that overlaps itself. -/
theorem compression_roundTrip_safe_run :
    lz77Compress (List.replicate 8 7) = [0, 0, 0, 0x40, 7, 4, 0] ∧
      decompressMessage (compressMessage (List.replicate 8 7)) = some (List.replicate 8 7) :=
  ⟨by decide, compression_roundTrip_safe.1 _ (by decide)⟩

end Magnetite.Smb.Comp
