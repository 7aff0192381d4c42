import Magnetite.Lib.Ndr

/-!
# Compressed messages

The plain LZ77 format and the header that wraps a compressed message. A stream is a sequence of
groups: 32 flags, then for each flag a literal byte or a reference back into the output. The output
of a decoder never passes the limit it is given.
-/
namespace Magnetite.Smb.Comp

open Magnetite.Lib Magnetite.Lib.Ndr

/-- `\xFCSMB`. -/
def compressionProtocolId : List UInt8 := [0xfc, 0x53, 0x4d, 0x42]

def transformHeaderLen : ℕ := 16

def compressionAlgorithmLz77 : ℕ := 2

/-- The longest match that the compressor emits. -/
def maxMatch : ℕ := 9

/-- The largest distance of a reference. -/
def maxOffset : ℕ := 8192

/-- The largest decompressed message, 16 MiB. -/
def maxDecompressed : ℕ := 16 * 1024 * 1024

/-! ## Decompression -/

/-- A number of bytes and what follows them. -/
def takeBytes (n : ℕ) (bytes : List UInt8) : Option (List UInt8 × List UInt8) :=
  if n ≤ bytes.length then some (bytes.take n, bytes.drop n) else none

/-- The next half byte of a length. Two lengths share a byte, the second has its high half. -/
def nextNibble (rest : List UInt8) (nibble : Option UInt8) :
    Option (ℕ × List UInt8 × Option UInt8) :=
  match nibble with
  | none => (takeBytes 1 rest).map fun (b, rest) => (ofLeBytes b % 16, rest, b.head?)
  | some b => some (b.toNat / 16, rest, none)

/-- A length in two bytes, or in four behind two that are zero. -/
def wideLength (rest : List UInt8) : Option (ℕ × List UInt8) := do
  let (w, rest) ← takeBytes 2 rest
  if ofLeBytes w = 0 then (takeBytes 4 rest).map fun (w, rest) => (ofLeBytes w, rest)
  else some (ofLeBytes w, rest)

/-- A length that does not fit into half a byte. -/
def extraLength (rest : List UInt8) : Option (ℕ × List UInt8) := do
  let (b, rest) ← takeBytes 1 rest
  if ofLeBytes b = 255 then
    let (length, rest) ← wideLength rest
    if length < 15 + 7 then none else some (length - (15 + 7), rest)
  else some (ofLeBytes b, rest)

/-- The length of a match, less 3: the field of the token, or what follows a full field. -/
def matchLength (field : ℕ) (rest : List UInt8) (nibble : Option UInt8) :
    Option (ℕ × List UInt8 × Option UInt8) :=
  if field = 7 then do
    let (length, rest, nibble) ← nextNibble rest nibble
    if length = 15 then (extraLength rest).map fun (length, rest) => (length + 15 + 7, rest, nibble)
    else some (length + 7, rest, nibble)
  else some (field, rest, nibble)

/-- Bytes from a distance behind the end, one at a time: a copy may overlap itself. -/
def copyBack (offset : ℕ) : ℕ → List UInt8 → List UInt8
  | 0, out => out
  | n + 1, out => copyBack offset n (out ++ [out.getD (out.length - offset) 0])

/-- What is left of the input, the flags of the group, the byte that still has half a length, and
the output. -/
structure Decoder where
  rest : List UInt8
  flags : UInt32
  flagCount : ℕ
  nibble : Option UInt8
  out : List UInt8
deriving DecidableEq

namespace Decoder

/-- Reads the flags of the next group. -/
def refill (d : Decoder) : Option Decoder :=
  if d.flagCount = 0 then
    (takeBytes 4 d.rest).map fun (word, rest) =>
      { d with rest, flags := UInt32.ofNat (ofLeBytes word), flagCount := 32 }
  else some d

def literal (maxOut : ℕ) (d : Decoder) : Option Decoder :=
  if maxOut ≤ d.out.length then none
  else (takeBytes 1 d.rest).map fun (b, rest) => { d with rest, out := d.out ++ b }

def reference (maxOut : ℕ) (d : Decoder) (word : List UInt8) : Option Decoder := do
  let token := ofLeBytes word
  let offset := token / 8 + 1
  let (length, rest, nibble) ← matchLength (token % 8) d.rest d.nibble
  if d.out.length < offset then none
  else if maxOut < d.out.length + (length + 3) then none
  else some { d with rest, nibble, out := copyBack offset (length + 3) d.out }

/-- One token; and whether to go on. A match token at the end of the input ends the stream. -/
def token (maxOut : ℕ) (d : Decoder) : Option (Decoder × Bool) := do
  let d ← d.refill
  let isMatch := d.flags &&& 0x80000000 ≠ 0
  let d := { d with flags := d.flags <<< 1, flagCount := d.flagCount - 1 }
  if isMatch then
    match takeBytes 2 d.rest with
    | none => some (d, false)
    | some (word, rest) => ({ d with rest }.reference maxOut word).map (·, true)
  else (d.literal maxOut).map (·, true)

/-- The loop over the tokens. Each takes a byte at least, so as many rounds as there are bytes are
enough. -/
def tokens (maxOut : ℕ) : ℕ → Decoder → Option (List UInt8)
  | 0, d => some d.out
  | n + 1, d =>
    if d.rest = [] then some d.out
    else do
      let (d, more) ← d.token maxOut
      if more then tokens maxOut n d else some d.out

end Decoder

def lz77Decompress (input : List UInt8) (maxOut : ℕ) : Option (List UInt8) :=
  Decoder.tokens maxOut input.length ⟨input, 0, 0, none, []⟩

/-- The message inside a compressed one: bytes that are not compressed, then the rest. -/
def decompressMessage (transform : List UInt8) : Option (List UInt8) :=
  if transform.length < transformHeaderLen ∨ transform.take 4 ≠ compressionProtocolId then none
  else
    let originalSize := ofLeBytes ((transform.drop 4).take 4)
    let algorithm := ofLeBytes ((transform.drop 8).take 2)
    let offset := ofLeBytes ((transform.drop 12).take 4)
    if algorithm ≠ compressionAlgorithmLz77 then none
    else if maxDecompressed < originalSize then none
    else
      let payload := transform.drop transformHeaderLen
      if payload.length < offset then none
      else do
        let tail ← lz77Decompress (payload.drop offset) (originalSize - offset)
        let out := payload.take offset ++ tail
        if out.length = originalSize then some out else none

/-! ### What a decoder takes and gives -/

section Bounds

variable {n maxOut length : ℕ} {bytes rest rest' b : List UInt8} {nibble nibble' : Option UInt8}
  {d d' : Decoder}

theorem takeBytes_eq_some (h : takeBytes n bytes = some (b, rest)) :
    b.length = n ∧ rest.length + n = bytes.length := by
  unfold takeBytes at h
  split at h
  · obtain ⟨rfl, rfl⟩ := Prod.mk.inj (Option.some.inj h)
    simp only [List.length_take, List.length_drop]
    omega
  · cases h

theorem nextNibble_rest (h : nextNibble rest nibble = some (length, rest', nibble')) :
    rest'.length ≤ rest.length := by
  unfold nextNibble at h
  split at h
  · simp only [Option.map_eq_some_iff, Prod.exists, Prod.mk.injEq] at h
    obtain ⟨_, _, htake, -, rfl, -⟩ := h
    have := takeBytes_eq_some htake
    omega
  · obtain ⟨-, rfl, -⟩ := by simpa using h
    exact le_rfl

theorem wideLength_rest (h : wideLength rest = some (length, rest')) :
    rest'.length ≤ rest.length := by
  simp only [wideLength, Option.bind_eq_bind, Option.bind_eq_some_iff, Prod.exists] at h
  obtain ⟨_, rest₁, htake, h⟩ := h
  have htwo := takeBytes_eq_some htake
  split at h
  · simp only [Option.map_eq_some_iff, Prod.exists, Prod.mk.injEq] at h
    obtain ⟨_, _, htake, -, rfl⟩ := h
    have := takeBytes_eq_some htake
    omega
  · obtain ⟨-, rfl⟩ := by simpa using h
    omega

theorem extraLength_rest (h : extraLength rest = some (length, rest')) :
    rest'.length ≤ rest.length := by
  simp only [extraLength, Option.bind_eq_bind, Option.bind_eq_some_iff, Prod.exists] at h
  obtain ⟨_, rest₁, htake, h⟩ := h
  have hone := takeBytes_eq_some htake
  split at h
  · simp only [Option.bind_eq_some_iff, Prod.exists] at h
    obtain ⟨_, rest₂, hwide, h⟩ := h
    have := wideLength_rest hwide
    split at h
    · cases h
    · obtain ⟨-, rfl⟩ := by simpa using h
      omega
  · obtain ⟨-, rfl⟩ := by simpa using h
    omega

theorem matchLength_rest {field : ℕ}
    (h : matchLength field rest nibble = some (length, rest', nibble')) :
    rest'.length ≤ rest.length := by
  unfold matchLength at h
  split at h
  · simp only [Option.bind_eq_bind, Option.bind_eq_some_iff, Prod.exists] at h
    obtain ⟨_, rest₁, _, hnibble, h⟩ := h
    have hone := nextNibble_rest hnibble
    split at h
    · simp only [Option.map_eq_some_iff, Prod.exists, Prod.mk.injEq] at h
      obtain ⟨_, _, hextra, -, rfl, -⟩ := h
      have := extraLength_rest hextra
      omega
    · obtain ⟨-, rfl, -⟩ := by simpa using h
      exact hone
  · obtain ⟨-, rfl, -⟩ := by simpa using h
    exact le_rfl

@[simp] theorem length_copyBack (offset n : ℕ) (out : List UInt8) :
    (copyBack offset n out).length = out.length + n := by
  induction n generalizing out with
  | zero => rfl
  | succ n ih =>
    rw [copyBack, ih, List.length_append, List.length_singleton]
    omega

namespace Decoder

theorem refill_eq_some (h : d.refill = some d') :
    d'.out = d.out ∧ d'.rest.length ≤ d.rest.length := by
  unfold refill at h
  split at h
  · simp only [Option.map_eq_some_iff, Prod.exists] at h
    obtain ⟨_, _, htake, rfl⟩ := h
    have := takeBytes_eq_some htake
    exact ⟨rfl, by simp only; omega⟩
  · cases h
    exact ⟨rfl, le_rfl⟩

theorem literal_eq_some (h : d.literal maxOut = some d') :
    d'.out.length ≤ maxOut ∧ d'.rest.length < d.rest.length := by
  unfold literal at h
  split at h
  · cases h
  · simp only [Option.map_eq_some_iff, Prod.exists] at h
    obtain ⟨_, _, htake, rfl⟩ := h
    have := takeBytes_eq_some htake
    simp only [List.length_append]
    omega

theorem reference_eq_some {word : List UInt8} (h : d.reference maxOut word = some d') :
    d'.out.length ≤ maxOut ∧ d'.rest.length ≤ d.rest.length := by
  simp only [reference, Option.bind_eq_bind, Option.bind_eq_some_iff, Prod.exists] at h
  obtain ⟨_, _, _, hlength, h⟩ := h
  have := matchLength_rest hlength
  split at h
  · cases h
  · split at h
    · cases h
    · cases h
      simp only [length_copyBack]
      omega

/-- A token keeps the output below its limit, and takes a byte at least if the loop goes on. -/
theorem token_eq_some {more : Bool} (h : d.token maxOut = some (d', more))
    (hout : d.out.length ≤ maxOut) :
    d'.out.length ≤ maxOut ∧ (more = true → d'.rest.length < d.rest.length) := by
  simp only [token, Option.bind_eq_bind, Option.bind_eq_some_iff] at h
  obtain ⟨d₁, hfill, h⟩ := h
  obtain ⟨hsame, hrest⟩ := refill_eq_some hfill
  rw [← hsame] at hout
  split at h
  · split at h
    · cases h
      exact ⟨hout, nofun⟩
    · rename_i htake
      simp only [Option.map_eq_some_iff, Prod.mk.injEq] at h
      obtain ⟨_, href, rfl, rfl⟩ := h
      have htaken := takeBytes_eq_some htake
      have hmatch := reference_eq_some href
      simp only at hmatch htaken
      exact ⟨hmatch.1, fun _ => by omega⟩
  · simp only [Option.map_eq_some_iff, Prod.mk.injEq] at h
    obtain ⟨_, hlit, rfl, rfl⟩ := h
    have hbyte := literal_eq_some hlit
    simp only at hbyte
    exact ⟨hbyte.1, fun _ => by omega⟩

theorem tokens_length_le {out : List UInt8} (hout : d.out.length ≤ maxOut)
    (h : tokens maxOut n d = some out) : out.length ≤ maxOut := by
  induction n generalizing d with
  | zero =>
    cases h
    exact hout
  | succ n ih =>
    rw [tokens] at h
    split at h
    · cases h
      exact hout
    · simp only [Option.bind_eq_bind, Option.bind_eq_some_iff, Prod.exists] at h
      obtain ⟨d₁, more, htoken, h⟩ := h
      have hstep := (token_eq_some htoken hout).1
      split at h
      · exact ih hstep h
      · cases h
        exact hstep

end Decoder

theorem length_decompressMessage {transform out : List UInt8}
    (h : decompressMessage transform = some out) : out.length ≤ maxDecompressed := by
  simp only [decompressMessage] at h
  split_ifs at h
  simp only [Option.bind_eq_bind, Option.bind_eq_some_iff] at h
  obtain ⟨tail, -, h⟩ := h
  split_ifs at h with hsize
  cases h
  omega

end Bounds

/-! ## Compression -/

/-- How far two stretches agree, up to a limit. -/
def agreement : ℕ → List UInt8 → List UInt8 → ℕ
  | n + 1, a :: as, b :: bs => if a = b then agreement n as bs + 1 else 0
  | _, _, _ => 0

/-- The first of the longest matches among some distances; a match of full length ends the
search. -/
def longestMatch (input : List UInt8) (pos maxLen : ℕ) : List ℕ → ℕ × ℕ → ℕ × ℕ
  | [], best => best
  | off :: offs, best =>
    let len := agreement maxLen (input.drop (pos - off)) (input.drop pos)
    if best.1 < len then
      if len = maxLen then (len, off) else longestMatch input pos maxLen offs (len, off)
    else longestMatch input pos maxLen offs best

/-- Length and distance of the match at a position, `(0, 0)` if it is shorter than 3. -/
def findMatch (input : List UInt8) (pos : ℕ) : ℕ × ℕ :=
  let maxLen := min (input.length - pos) maxMatch
  if maxLen < 3 then (0, 0)
  else
    let best := longestMatch input pos maxLen (List.range' 1 (min pos maxOffset)) (0, 0)
    if 3 ≤ best.1 then best else (0, 0)

/-- The finished groups, and the flags and tokens of the current one. -/
structure Encoder where
  out : List UInt8
  flags : UInt32
  count : ℕ
  group : List UInt8

/-- Adds a token and writes the group when it is full. -/
def Encoder.put (e : Encoder) (isMatch : Bool) (bytes : List UInt8) : Encoder :=
  let flags := e.flags <<< 1 ||| (if isMatch then 1 else 0)
  let group := e.group ++ bytes
  if e.count + 1 = 32 then ⟨e.out ++ leBytes 4 flags.toNat ++ group, 0, 0, []⟩
  else ⟨e.out, flags, e.count + 1, group⟩

/-- The last group has its flags at the upper end of the word. -/
def Encoder.finish (e : Encoder) : List UInt8 :=
  if 0 < e.count then e.out ++ leBytes 4 (e.flags <<< UInt32.ofNat (32 - e.count)).toNat ++ e.group
  else e.out

def compressFrom (input : List UInt8) : ℕ → ℕ → Encoder → Encoder
  | 0, _, e => e
  | n + 1, i, e =>
    if h : i < input.length then
      let (length, offset) := findMatch input i
      if 3 ≤ length then
        compressFrom input n (i + length)
          (e.put true (leBytes 2 ((offset - 1) * 8 + (length - 3))))
      else compressFrom input n (i + 1) (e.put false [input[i]])
    else e

def lz77Compress (input : List UInt8) : List UInt8 :=
  (compressFrom input input.length 0 ⟨[], 0, 0, []⟩).finish

/-- The header has all of the message compressed. -/
def compressMessage (plaintext : List UInt8) : List UInt8 :=
  compressionProtocolId ++ leBytes 4 plaintext.length ++ leBytes 2 compressionAlgorithmLz77 ++
    leBytes 2 0 ++ leBytes 4 0 ++ lz77Compress plaintext

/-! ### How long its output gets -/

theorem agreement_le (n : ℕ) (as bs : List UInt8) : agreement n as bs ≤ n := by
  induction n, as, bs using agreement.induct <;> simp_all [agreement]

theorem longestMatch_le (input : List UInt8) (pos maxLen : ℕ) (offs : List ℕ) (best : ℕ × ℕ)
    (h : best.1 ≤ maxLen) : (longestMatch input pos maxLen offs best).1 ≤ maxLen := by
  induction offs generalizing best with
  | nil => exact h
  | cons off offs ih =>
    rw [longestMatch]
    split
    · split
      · exact agreement_le ..
      · exact ih _ (agreement_le ..)
    · exact ih _ h

/-- A match lies within the input. -/
theorem findMatch_le (input : List UInt8) (pos : ℕ) :
    (findMatch input pos).1 ≤ input.length - pos := by
  have hbest := longestMatch_le input pos (min (input.length - pos) maxMatch)
    (List.range' 1 (min pos maxOffset)) (0, 0) (Nat.zero_le _)
  simp only [findMatch]
  split
  · exact Nat.zero_le _
  · split
    · exact hbest.trans (min_le_left ..)
    · exact Nat.zero_le _

/-- Eight bytes become nine at most: one more flag for every token, and no token is longer than what
it stands for. -/
def Encoder.Within (e : Encoder) (i : ℕ) : Prop :=
  8 * (e.out.length + e.group.length) + e.count ≤ 9 * i

theorem Encoder.Within.put {e : Encoder} {i k : ℕ} (h : e.Within i) (isMatch : Bool)
    {bytes : List UInt8} (hk : 0 < k) (hbytes : bytes.length ≤ k) :
    (e.put isMatch bytes).Within (i + k) := by
  unfold Encoder.Within at *
  by_cases hfull : e.count + 1 = 32
  · simp only [Encoder.put, if_pos hfull, List.length_append, length_leBytes, List.length_nil]
    omega
  · simp only [Encoder.put, if_neg hfull, List.length_append]
    omega

theorem Encoder.Within.compressFrom {input : List UInt8} {n i : ℕ} {e : Encoder} (h : e.Within i)
    (hi : i ≤ input.length) : (compressFrom input n i e).Within input.length := by
  have hend (e : Encoder) {i : ℕ} (h : e.Within i) (hi : i ≤ input.length) :
      e.Within input.length := by
    unfold Encoder.Within at *
    omega
  induction n generalizing i e with
  | zero => exact hend e h hi
  | succ n ih =>
    rw [Comp.compressFrom]
    split
    · have hmatch := findMatch_le input i
      dsimp only
      split
      · exact ih (h.put true (by omega) (by rw [length_leBytes]; omega)) (by omega)
      · exact ih (h.put false Nat.one_pos le_rfl) (by omega)
    · exact hend e h hi

theorem length_compressMessage (plaintext : List UInt8) :
    8 * (compressMessage plaintext).length ≤ 9 * plaintext.length + 160 := by
  have hstart : (⟨[], 0, 0, []⟩ : Encoder).Within 0 := by simp [Encoder.Within]
  have hwithin := hstart.compressFrom (n := plaintext.length) (Nat.zero_le plaintext.length)
  have hfinish (e : Encoder) (h : e.Within plaintext.length) :
      8 * e.finish.length ≤ 9 * plaintext.length + 32 := by
    unfold Encoder.Within at h
    unfold Encoder.finish
    split
    · simp only [List.length_append, length_leBytes]
      omega
    · omega
  have := hfinish _ hwithin
  simp only [compressMessage, compressionProtocolId, lz77Compress, List.length_append,
    length_leBytes, List.length_cons, List.length_nil]
  omega

end Magnetite.Smb.Comp
