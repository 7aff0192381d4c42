import Magnetite.Lib.Ndr

/-!
# Wrap tokens

The sealed per-message tokens over a Kerberos subkey: contiguous, or split between the body of a
PDU and its trailer with associated data under the checksum. A token carries its ciphertext turned
by counts that stand in the header before it. The header is sealed once more behind the data, but
what is unsealed is cut by the counts of the outer header and the sealed copy is not compared.
-/
namespace Magnetite.Krb5.Gss

open Magnetite.Lib.Ndr

section Header

/-- The key usage of a sealed token: who sends it. -/
inductive SealUsage where
  /-- `KG_USAGE_ACCEPTOR_SEAL` -/
  | acceptor
  /-- `KG_USAGE_INITIATOR_SEAL` -/
  | initiator
  deriving DecidableEq

/-- `WRAP_HEADER_LEN`, also the length of a confounder. -/
def wrapHeaderLen : Nat := 16

/-- `CFX_CKSUM_LEN` -/
def cksumLen : Nat := 12

/-- `WRAP_RRC` and `CFX_IOV_RRC` -/
def wrapRrc : Nat := 28

/-- `cfx_header` and `wrap_header`. -/
def cfxHeader (flags : UInt8) (ec rrc : Nat) (sequence : UInt64) : List UInt8 :=
  [0x05, 0x04, flags, 0xff] ++ beBytes 2 ec ++ beBytes 2 rrc ++ beBytes 8 sequence.toNat

def wrapFlags : SealUsage → UInt8
  | .acceptor => 0x07
  | .initiator => 0x06

/-- The number in the bytes of a token from an offset on. -/
def field (offset size : Nat) (token : List UInt8) : Nat :=
  ofBeBytes ((token.drop offset).take size)

/-- How much filler follows the data. -/
def extraCount : List UInt8 → Nat := field 4 2

/-- How far the ciphertext is turned, beside the filler. -/
def rotationCount : List UInt8 → Nat := field 6 2

def sndSeq (token : List UInt8) : UInt64 := .ofNat (field 8 8 token)

@[simp] theorem length_cfxHeader (flags : UInt8) (ec rrc : Nat) (sequence : UInt64) :
    (cfxHeader flags ec rrc sequence).length = 16 := by
  simp [cfxHeader]

theorem field_take {offset size n : Nat} (h : offset + size ≤ n) (token : List UInt8) :
    field offset size (token.take n) = field offset size token := by
  rw [field, field, List.drop_take, List.take_take, Nat.min_eq_left (by omega)]

section Fields

variable {flags : UInt8} {ec rrc : Nat} {sequence : UInt64} (rest : List UInt8)

theorem extraCount_cfxHeader (h : ec < 65536) :
    extraCount (cfxHeader flags ec rrc sequence ++ rest) = ec := by
  have hec : ec < 256 ^ 2 := h
  simp [extraCount, field, cfxHeader, ofBeBytes_beBytes hec]

theorem rotationCount_cfxHeader (h : rrc < 65536) :
    rotationCount (cfxHeader flags ec rrc sequence ++ rest) = rrc := by
  have hrrc : rrc < 256 ^ 2 := h
  simp [rotationCount, field, cfxHeader, ofBeBytes_beBytes hrrc]

theorem sndSeq_cfxHeader : sndSeq (cfxHeader flags ec rrc sequence ++ rest) = sequence := by
  have hseq : sequence.toNat < 256 ^ 8 := sequence.toNat_lt
  have hec : (beBytes 2 ec).drop 4 = [] := List.drop_of_length_le (by simp)
  simp [sndSeq, field, cfxHeader, List.drop_append, hec, ofBeBytes_beBytes hseq]

end Fields

end Header

section Rotation

def rotateRight (data : List UInt8) (n : Nat) : List UInt8 :=
  let split := data.length - n % data.length
  data.drop split ++ data.take split

def rotateLeft (data : List UInt8) (n : Nat) : List UInt8 :=
  data.drop (n % data.length) ++ data.take (n % data.length)

theorem rotateLeft_rotateRight (data : List UInt8) (n : Nat) :
    rotateLeft (rotateRight data n) n = data := by
  set split := data.length - n % data.length with hsplit
  have hle : split ≤ data.length := Nat.sub_le _ _
  have hlen : (rotateRight data n).length = data.length := by simp [rotateRight]
  rcases Nat.eq_zero_or_pos data.length with hzero | hpos
  · simp [List.length_eq_zero_iff.mp hzero, rotateLeft, rotateRight]
  · have hmod : n % data.length = (data.drop split).length := by
      have := Nat.mod_lt n hpos
      rw [List.length_drop]
      omega
    rw [rotateLeft, hlen, hmod]
    simp only [rotateRight, ← hsplit, List.drop_left, List.take_left, List.take_append_drop]

end Rotation

section Suite

/-- AES-256 in CTS mode with HMAC-SHA1-96, under the keys derived from a base key and a usage.
`verifies` stands for the comparison of a checksum with the one of a text. -/
structure Suite (κ : Type) where
  /-- Keys are derived from the base key: it is of the cipher's length. -/
  derives : κ → Bool
  ctsEncrypt : κ → SealUsage → List UInt8 → List UInt8
  ctsDecrypt : κ → SealUsage → List UInt8 → List UInt8
  hmac : κ → SealUsage → List UInt8 → List UInt8
  verifies : κ → SealUsage → List UInt8 → List UInt8 → Bool
  length_ctsEncrypt : ∀ key usage text, (ctsEncrypt key usage text).length = text.length
  length_hmac : ∀ key usage text, (hmac key usage text).length = cksumLen

variable {κ : Type} (suite : Suite κ) (key : κ) (usage : SealUsage)

/-- `Cipher::encrypt`: a confounder before the text, a checksum over both behind the ciphertext. -/
def Suite.encrypt (confounder plain : List UInt8) : Option (List UInt8) :=
  if suite.derives key then
    let text := confounder ++ plain
    some (suite.ctsEncrypt key usage text ++ suite.hmac key usage text)
  else
    none

/-- `Cipher::decrypt` -/
def Suite.decrypt (cipherText : List UInt8) : Option (List UInt8) :=
  if suite.derives key = true ∧ wrapHeaderLen + cksumLen ≤ cipherText.length then
    let split := cipherText.length - cksumLen
    let text := suite.ctsDecrypt key usage (cipherText.take split)
    if suite.verifies key usage text (cipherText.drop split) then
      some (text.drop wrapHeaderLen)
    else
      none
  else
    none

end Suite

section Tokens

variable {κ : Type} (suite : Suite κ) (key : κ) (usage : SealUsage)

/-- `0xff` bytes to the end of a block. -/
def filler (ec : Nat) : List UInt8 := List.replicate ec 0xff

/-- A ciphertext as it is sent: turned, behind a header, and split into a body and a token. -/
def layOut (ec : Nat) (sequence : UInt64) (cipherText : List UInt8) :
    List UInt8 × List UInt8 :=
  let rotate := wrapRrc + ec
  let rotated := rotateRight cipherText rotate
  let split := wrapHeaderLen + rotate
  (rotated.drop split, cfxHeader (wrapFlags usage) ec wrapRrc sequence ++ rotated.take split)

/-- `gss_wrap`: the sealed body and the token. -/
def gssWrap (sequence : UInt64) (data confounder : List UInt8) :
    Option (List UInt8 × List UInt8) := do
  let ec := padding 16 data.length
  let plain := data ++ filler ec ++ cfxHeader (wrapFlags usage) ec 0 sequence
  let cipherText ← suite.encrypt key usage confounder plain
  return layOut usage ec sequence cipherText

/-- `gss_wrap_iov`, with associated data before and behind the data in the checksum's text. -/
def gssWrapIov (sequence : UInt64) (pre post data confounder : List UInt8) :
    Option (List UInt8 × List UInt8) :=
  if suite.derives key then
    -- `CFX_IOV_EC` is 0: the caller has aligned the data.
    let header := cfxHeader (wrapFlags usage) 0 0 sequence
    let cipherText := suite.ctsEncrypt key usage (confounder ++ (data ++ header)) ++
      suite.hmac key usage (confounder ++ pre ++ data ++ post ++ header)
    some (layOut usage 0 sequence cipherText)
  else
    none

/-- The ciphertext that a token and a body carry, turned back by the counts of the token. -/
def carried (body auth : List UInt8) : List UInt8 :=
  rotateLeft (auth.drop wrapHeaderLen ++ body) (rotationCount auth + extraCount auth)

/-- `gss_unwrap` -/
def gssUnwrap (sealed auth : List UInt8) : Option (List UInt8) := do
  guard (wrapHeaderLen ≤ auth.length)
  let plain ← suite.decrypt key usage (carried sealed auth)
  guard (extraCount auth + wrapHeaderLen ≤ plain.length)
  return plain.take (plain.length - (extraCount auth + wrapHeaderLen))

/-- `gss_unwrap_iov` -/
def gssUnwrapIov (pre post body auth : List UInt8) : Option (List UInt8) := do
  guard (wrapHeaderLen ≤ auth.length)
  let e := carried body auth
  guard (wrapHeaderLen + cksumLen ≤ e.length)
  guard (suite.derives key = true)
  let plainFull := suite.ctsDecrypt key usage (e.take (e.length - cksumLen))
  let confounder := plainFull.take wrapHeaderLen
  let plain := plainFull.drop wrapHeaderLen
  guard (extraCount auth + wrapHeaderLen ≤ plain.length)
  let dataLen := plain.length - (extraCount auth + wrapHeaderLen)
  let macInput := confounder ++ pre ++ plain.take dataLen ++ post ++ plain.drop dataLen
  guard (suite.verifies key usage macInput (e.drop (e.length - cksumLen)) = true)
  return plain.take dataLen

/-- `gss_seal_token` -/
def gssSealToken (sequence : UInt64) (data confounder : List UInt8) : Option (List UInt8) := do
  let (sealed, auth) ← gssWrap suite key usage sequence data confounder
  return auth ++ sealed

/-- `gss_unseal_token` -/
def gssUnsealToken (token : List UInt8) : Option (UInt64 × List UInt8) := do
  guard (wrapHeaderLen ≤ token.length)
  let plain ← gssUnwrap suite key usage (token.drop wrapHeaderLen) (token.take wrapHeaderLen)
  return (sndSeq token, plain)

end Tokens

section Wraps

/-- A token that the holder of a key has made, by `gss_wrap` or by `gss_wrap_iov`. -/
structure Wrap (κ : Type) where
  key : κ
  usage : SealUsage
  sequence : UInt64
  pre : List UInt8
  data : List UInt8
  post : List UInt8
  confounder : List UInt8
  ec : Nat
  length_confounder : confounder.length = 16
  made : pre = [] ∧ post = [] ∧ ec = padding 16 data.length ∨ ec = 0 ∧ 16 ∣ data.length

variable {κ : Type} (suite : Suite κ)

namespace Wrap

variable (w : Wrap κ)

def header : List UInt8 := cfxHeader (wrapFlags w.usage) w.ec 0 w.sequence

/-- What stands before the header: the data and the filler. -/
def padded : List UInt8 := w.data ++ filler w.ec

def plain : List UInt8 := w.padded ++ w.header

/-- What the checksum covers. -/
def macInput : List UInt8 := w.confounder ++ w.pre ++ w.data ++ w.post ++ filler w.ec ++ w.header

def cipher : List UInt8 := suite.ctsEncrypt w.key w.usage (w.confounder ++ w.plain)

def tag : List UInt8 := suite.hmac w.key w.usage w.macInput

def cipherText : List UInt8 := w.cipher suite ++ w.tag suite

theorem ec_lt : w.ec < 65536 := by
  rcases w.made with ⟨-, -, hec⟩ | ⟨hec, -⟩
  · have hlt : padding 16 w.data.length < 16 := Nat.mod_lt _ (by decide)
    omega
  · omega

theorem length_padded : w.padded.length = w.data.length + w.ec := by simp [padded, filler]

theorem ec_le : w.ec ≤ w.padded.length := by
  rw [length_padded]
  omega

theorem length_plain : w.plain.length = w.padded.length + 16 := by simp [plain, header]

theorem length_tag : (w.tag suite).length = cksumLen := suite.length_hmac _ _ _

theorem length_cipherText : (w.cipherText suite).length = 16 + w.plain.length + cksumLen := by
  rw [cipherText, List.length_append, length_tag, cipher, suite.length_ctsEncrypt,
    List.length_append, w.length_confounder]

theorem header_inj {w w' : Wrap κ} (h : w.header = w'.header) :
    w.ec = w'.ec ∧ w.sequence = w'.sequence := by
  have hec := congrArg (fun bytes => extraCount (bytes ++ [])) h
  have hseq := congrArg (fun bytes => sndSeq (bytes ++ [])) h
  simp only [header, extraCount_cfxHeader [] w.ec_lt, extraCount_cfxHeader [] w'.ec_lt] at hec
  simp only [header, sndSeq_cfxHeader] at hseq
  exact ⟨hec, hseq⟩

/-- The header behind the data tells where the data ends. -/
theorem plain_inj {w w' : Wrap κ} (h : w.plain = w'.plain) :
    w.data = w'.data ∧ w.ec = w'.ec ∧ w.sequence = w'.sequence := by
  obtain ⟨hpadded, hheader⟩ := List.append_inj' h (by simp [header])
  obtain ⟨hec, hseq⟩ := header_inj hheader
  rw [padded, padded, hec] at hpadded
  exact ⟨List.append_cancel_right hpadded, hec, hseq⟩

/-- No data is associated with the token. -/
def Bare : Prop := w.pre = [] ∧ w.post = []

theorem macInput_eq_text_iff : w.macInput = w.confounder ++ w.plain ↔ w.Bare := by
  constructor
  · intro h
    have hlen := congrArg List.length h
    simp only [macInput, plain, padded, List.length_append] at hlen
    exact ⟨List.length_eq_zero_iff.mp (by omega), List.length_eq_zero_iff.mp (by omega)⟩
  · rintro ⟨hpre, hpost⟩
    simp [macInput, plain, padded, hpre, hpost]

/-- What is left of data and filler when a count of bytes is cut off. -/
def cut (ec : Nat) : List UInt8 := w.padded.take (w.padded.length - ec)

theorem cut_eq_data_iff {ec : Nat} (h : ec ≤ w.padded.length) : w.cut ec = w.data ↔ ec = w.ec := by
  have hlen := w.length_padded
  constructor
  · intro hcut
    have hcutlen := congrArg List.length hcut
    rw [cut, List.length_take] at hcutlen
    omega
  · rintro rfl
    have hkeep : w.padded.length - w.ec = w.data.length := by omega
    rw [cut, hkeep, padded, List.take_left]

theorem take_plain (ec : Nat) : w.plain.take (w.plain.length - (ec + wrapHeaderLen)) = w.cut ec := by
  rw [w.length_plain, wrapHeaderLen, Nat.add_sub_add_right, plain,
    List.take_append_of_le_length (Nat.sub_le _ _), cut]

theorem drop_plain (ec : Nat) : w.plain.drop (w.plain.length - (ec + wrapHeaderLen)) =
    w.padded.drop (w.padded.length - ec) ++ w.header := by
  rw [w.length_plain, wrapHeaderLen, Nat.add_sub_add_right, plain,
    List.drop_append_of_le_length (Nat.sub_le _ _)]

theorem le_length_plain {ec : Nat} :
    ec + wrapHeaderLen ≤ w.plain.length ↔ ec ≤ w.padded.length := by
  rw [w.length_plain, wrapHeaderLen]
  omega

/-- A count that leaves just the data, or is too large for the token to be accepted. -/
def Uncut (ec : Nat) : Prop := ec = w.ec ∨ w.padded.length < ec

/-- Cut elsewhere and between other associated data, the checksum's text is still the same. -/
def Resplit (pre post : List UInt8) (ec : Nat) : Prop :=
  w.pre ++ w.data ++ w.post ++ filler w.ec =
    pre ++ w.cut ec ++ post ++ w.padded.drop (w.padded.length - ec)

theorem macInput_eq_iff_resplit {pre post : List UInt8} {ec : Nat} :
    w.macInput = w.confounder ++ pre ++ w.cut ec ++ post ++
      (w.padded.drop (w.padded.length - ec) ++ w.header) ↔ w.Resplit pre post ec := by
  rw [← List.append_assoc, macInput, List.append_cancel_right_eq, Resplit]
  simp only [List.append_assoc, List.append_cancel_left_eq]

end Wrap

/-- The ciphertext is that of a token made under the key for the usage. -/
structure Sealing (log : List (Wrap κ)) (key : κ) (usage : SealUsage) (cipherText : List UInt8)
    (w : Wrap κ) : Prop where
  mem : w ∈ log
  key : w.key = key
  usage : w.usage = usage
  cipherText : w.cipherText suite = cipherText

theorem Sealing.self (w : Wrap κ) : Sealing suite [w] w.key w.usage (w.cipherText suite) w :=
  ⟨List.mem_singleton_self w, rfl, rfl, rfl⟩

/-- What a receiver is given to unwrap. -/
structure Delivery (κ : Type) where
  key : κ
  usage : SealUsage
  pre : List UInt8
  post : List UInt8
  body : List UInt8
  auth : List UInt8

namespace Delivery

/-- A token in one piece. -/
def contiguous (key : κ) (usage : SealUsage) (token : List UInt8) : Delivery κ :=
  ⟨key, usage, [], [], token.drop wrapHeaderLen, token.take wrapHeaderLen⟩

variable (d : Delivery κ)

def cipherText : List UInt8 := carried d.body d.auth

def opened : List UInt8 :=
  suite.ctsDecrypt d.key d.usage (d.cipherText.take (d.cipherText.length - cksumLen))

/-- The text whose checksum the receiver compares. -/
def checked : List UInt8 :=
  let plain := (d.opened suite).drop wrapHeaderLen
  let dataLen := plain.length - (extraCount d.auth + wrapHeaderLen)
  (d.opened suite).take wrapHeaderLen ++ d.pre ++ plain.take dataLen ++ d.post ++ plain.drop dataLen

theorem checked_eq_opened (hpre : d.pre = []) (hpost : d.post = []) :
    d.checked suite = d.opened suite := by
  simp [checked, hpre, hpost]

end Delivery

/-- An authenticated cipher that nobody has broken: of what is delivered, a checksum verifies just
where the holder of the key has made the ciphertext and its checksum, over the text that is
checked. -/
structure Ideal (log : List (Wrap κ)) (delivered : Set (Delivery κ)) : Prop where
  derives : ∀ w ∈ log, suite.derives w.key = true
  opens : ∀ w ∈ log,
    suite.ctsDecrypt w.key w.usage (w.cipher suite) = w.confounder ++ w.plain
  verifies_iff : ∀ d ∈ delivered,
    suite.verifies d.key d.usage (d.checked suite)
        (d.cipherText.drop (d.cipherText.length - cksumLen)) = true ↔
      ∃ w, Sealing suite log d.key d.usage d.cipherText w ∧ w.macInput = d.checked suite

end Wraps

section Unwrapping

variable {κ : Type} {suite : Suite κ} {log : List (Wrap κ)} {delivered : Set (Delivery κ)} {key : κ}
  {usage : SealUsage}

namespace Sealing

variable {e : List UInt8} {w : Wrap κ} (h : Sealing suite log key usage e w)

include h

theorem take_eq : e.take (e.length - cksumLen) = w.cipher suite := by
  have hlen := w.length_tag suite
  rw [← h.cipherText, Wrap.cipherText, List.length_append, hlen, Nat.add_sub_cancel, List.take_left]

theorem drop_eq : e.drop (e.length - cksumLen) = w.tag suite := by
  have hlen := w.length_tag suite
  rw [← h.cipherText, Wrap.cipherText, List.length_append, hlen, Nat.add_sub_cancel, List.drop_left]

theorem length_le : wrapHeaderLen + cksumLen ≤ e.length := by
  rw [← h.cipherText, w.length_cipherText, wrapHeaderLen]
  omega

theorem derives (ideal : Ideal suite log delivered) : suite.derives key = true :=
  h.key ▸ ideal.derives w h.mem

theorem opens (ideal : Ideal suite log delivered) :
    suite.ctsDecrypt key usage (e.take (e.length - cksumLen)) = w.confounder ++ w.plain := by
  rw [h.take_eq, ← h.key, ← h.usage, ideal.opens w h.mem]

theorem unique (ideal : Ideal suite log delivered) {w' : Wrap κ}
    (h' : Sealing suite log key usage e w') :
    w.data = w'.data ∧ w.ec = w'.ec ∧ w.sequence = w'.sequence := by
  have htext := (h.opens ideal).symm.trans (h'.opens ideal)
  have hlen : w.confounder.length = w'.confounder.length :=
    w.length_confounder.trans w'.length_confounder.symm
  exact Wrap.plain_inj (List.append_inj htext hlen).2

end Sealing

theorem Ideal.decrypt_eq_some (ideal : Ideal suite log delivered) {sealed auth plain : List UInt8}
    (hd : ⟨key, usage, [], [], sealed, auth⟩ ∈ delivered) :
    suite.decrypt key usage (carried sealed auth) = some plain ↔
      ∃ w, Sealing suite log key usage (carried sealed auth) w ∧ w.Bare ∧ w.plain = plain := by
  have hiff := ideal.verifies_iff _ hd
  rw [Delivery.checked_eq_opened _ _ rfl rfl] at hiff
  simp only [Delivery.opened, Delivery.cipherText] at hiff
  constructor
  · intro h
    simp only [Suite.decrypt] at h
    split_ifs at h with _ hverifies
    obtain ⟨w, hw, htext⟩ := hiff.mp hverifies
    rw [hw.opens ideal] at h htext
    refine ⟨w, hw, w.macInput_eq_text_iff.mp htext, ?_⟩
    rw [← Option.some.inj h, wrapHeaderLen, ← w.length_confounder, List.drop_left]
  · rintro ⟨w, hw, hbare, rfl⟩
    have hverifies := hiff.mpr ⟨w, hw, (w.macInput_eq_text_iff.mpr hbare).trans (hw.opens ideal).symm⟩
    simp only [Suite.decrypt]
    rw [if_pos ⟨hw.derives ideal, hw.length_le⟩, if_pos hverifies, hw.opens ideal, wrapHeaderLen,
      ← w.length_confounder, List.drop_left]

theorem Ideal.gssUnwrap_eq_some (ideal : Ideal suite log delivered) {sealed auth data : List UInt8}
    (hd : ⟨key, usage, [], [], sealed, auth⟩ ∈ delivered) :
    gssUnwrap suite key usage sealed auth = some data ↔ wrapHeaderLen ≤ auth.length ∧
      ∃ w, Sealing suite log key usage (carried sealed auth) w ∧ w.Bare ∧
        extraCount auth ≤ w.padded.length ∧ w.cut (extraCount auth) = data := by
  simp only [gssUnwrap, Option.bind_eq_bind, Option.bind_eq_some_iff, ideal.decrypt_eq_some hd,
    Option.guard_eq_some', Option.pure_def, Option.some.injEq]
  constructor
  · rintro ⟨-, hlen, _, ⟨w, hw, hbare, rfl⟩, -, hec, rfl⟩
    exact ⟨hlen, w, hw, hbare, w.le_length_plain.mp hec, (w.take_plain _).symm⟩
  · rintro ⟨hlen, w, hw, hbare, hec, rfl⟩
    exact ⟨(), hlen, _, ⟨w, hw, hbare, rfl⟩, (), w.le_length_plain.mpr hec, w.take_plain _⟩

theorem Ideal.gssUnwrapIov_eq_some (ideal : Ideal suite log delivered)
    {pre post body auth data : List UInt8} (hd : ⟨key, usage, pre, post, body, auth⟩ ∈ delivered) :
    gssUnwrapIov suite key usage pre post body auth = some data ↔ wrapHeaderLen ≤ auth.length ∧
      ∃ w, Sealing suite log key usage (carried body auth) w ∧
        extraCount auth ≤ w.padded.length ∧ w.Resplit pre post (extraCount auth) ∧
        w.cut (extraCount auth) = data := by
  have hiff := ideal.verifies_iff _ hd
  simp only [Delivery.checked, Delivery.opened, Delivery.cipherText] at hiff
  set e := carried body auth with he
  set ec := extraCount auth with hec
  set full := suite.ctsDecrypt key usage (e.take (e.length - cksumLen)) with hfull
  have hsplit {w : Wrap κ} (hw : Sealing suite log key usage e w) :
      full.take wrapHeaderLen = w.confounder ∧ full.drop wrapHeaderLen = w.plain := by
    rw [hfull, hw.opens ideal, wrapHeaderLen, ← w.length_confounder, List.take_left, List.drop_left]
    exact ⟨rfl, rfl⟩
  simp only [gssUnwrapIov, Option.bind_eq_bind, Option.bind_eq_some_iff, Option.guard_eq_some',
    Option.pure_def, Option.some.injEq, ← he, ← hec, ← hfull]
  constructor
  · rintro ⟨-, hauth, -, -, -, -, -, hcount, -, hverifies, rfl⟩
    obtain ⟨w, hw, htext⟩ := hiff.mp hverifies
    obtain ⟨hconfounder, hplain⟩ := hsplit hw
    rw [hplain] at hcount ⊢
    rw [hconfounder, hplain, w.take_plain, w.drop_plain] at htext
    exact ⟨hauth, w, hw, w.le_length_plain.mp hcount, w.macInput_eq_iff_resplit.mp htext,
      (w.take_plain ec).symm⟩
  · rintro ⟨hauth, w, hw, hle, hresplit, rfl⟩
    obtain ⟨hconfounder, hplain⟩ := hsplit hw
    have hcount : ec + wrapHeaderLen ≤ (full.drop wrapHeaderLen).length :=
      hplain ▸ w.le_length_plain.mpr hle
    refine ⟨(), hauth, (), hw.length_le, (), hw.derives ideal, (), hcount, (), ?_, ?_⟩
    · refine hiff.mpr ⟨w, hw, ?_⟩
      rw [hconfounder, hplain, w.take_plain, w.drop_plain]
      exact w.macInput_eq_iff_resplit.mpr hresplit
    · rw [hplain, w.take_plain]

theorem Ideal.gssUnsealToken_eq_some (ideal : Ideal suite log delivered) {token data : List UInt8}
    {sequence : UInt64} (hd : .contiguous key usage token ∈ delivered) :
    gssUnsealToken suite key usage token = some (sequence, data) ↔ wrapHeaderLen ≤ token.length ∧
      sndSeq token = sequence ∧
      ∃ w, Sealing suite log key usage
          (carried (token.drop wrapHeaderLen) (token.take wrapHeaderLen)) w ∧ w.Bare ∧
        extraCount token ≤ w.padded.length ∧ w.cut (extraCount token) = data := by
  have hcount : extraCount (token.take wrapHeaderLen) = extraCount token :=
    field_take (by decide) token
  simp only [gssUnsealToken, Option.bind_eq_bind, Option.bind_eq_some_iff, Option.guard_eq_some',
    ideal.gssUnwrap_eq_some hd, hcount, Option.pure_def, Option.some.injEq, Prod.mk.injEq]
  constructor
  · rintro ⟨-, hlen, _, ⟨-, hw⟩, hseq, rfl⟩
    exact ⟨hlen, hseq, hw⟩
  · rintro ⟨hlen, hseq, hw⟩
    exact ⟨(), hlen, data, ⟨by simp [hlen], hw⟩, hseq, rfl⟩

end Unwrapping

section Authenticity

variable {κ : Type} {suite : Suite κ} {log : List (Wrap κ)} {delivered : Set (Delivery κ)}

/-- What is unsealed is what was sealed into the ciphertext that the token carries, with the number
it was sealed with. This is so just when the counts in the outer header, and its sequence number,
are those of the sealed header, or the token is rejected for another reason. -/
theorem gss_unwrap_authentic_iff (ideal : Ideal suite log delivered) (key : κ) (usage : SealUsage) :
    (∀ sealed auth, ⟨key, usage, [], [], sealed, auth⟩ ∈ delivered →
      ((∀ data, gssUnwrap suite key usage sealed auth = some data →
          ∃ w, Sealing suite log key usage (carried sealed auth) w ∧ w.data = data) ↔
        (wrapHeaderLen ≤ auth.length → ∀ w,
          Sealing suite log key usage (carried sealed auth) w → w.Bare →
            w.Uncut (extraCount auth)))) ∧
    (∀ pre post body auth, ⟨key, usage, pre, post, body, auth⟩ ∈ delivered →
      ((∀ data, gssUnwrapIov suite key usage pre post body auth = some data →
          ∃ w, Sealing suite log key usage (carried body auth) w ∧ w.data = data) ↔
        (wrapHeaderLen ≤ auth.length → ∀ w,
          Sealing suite log key usage (carried body auth) w →
            w.Resplit pre post (extraCount auth) → w.Uncut (extraCount auth)))) ∧
    ∀ token, .contiguous key usage token ∈ delivered →
      ((∀ sequence data, gssUnsealToken suite key usage token = some (sequence, data) →
          ∃ w, Sealing suite log key usage
            (carried (token.drop wrapHeaderLen) (token.take wrapHeaderLen)) w ∧
            w.sequence = sequence ∧ w.data = data) ↔
        (wrapHeaderLen ≤ token.length → ∀ w,
          Sealing suite log key usage
            (carried (token.drop wrapHeaderLen) (token.take wrapHeaderLen)) w → w.Bare →
            extraCount token = w.ec ∧ sndSeq token = w.sequence ∨
              w.padded.length < extraCount token)) := by
  -- A count that cuts the sealed text to the data of a wrap with the same ciphertext is its count.
  have huncut {e : List UInt8} {w w' : Wrap κ} {ec : Nat} (hw : Sealing suite log key usage e w)
      (hw' : Sealing suite log key usage e w') (hle : ec ≤ w.padded.length)
      (hdata : w'.data = w.cut ec) : ec = w.ec :=
    (w.cut_eq_data_iff hle).mp (hdata.symm.trans (hw'.unique ideal hw).1)
  refine ⟨fun sealed auth hd => ?_, fun pre post body auth hd => ?_, fun token hd => ?_⟩
  · simp only [ideal.gssUnwrap_eq_some hd]
    constructor
    · intro h hlen w hw hbare
      refine or_iff_not_imp_right.mpr fun hle => ?_
      obtain ⟨w', hw', hdata⟩ := h _ ⟨hlen, w, hw, hbare, Nat.not_lt.mp hle, rfl⟩
      exact huncut hw hw' (Nat.not_lt.mp hle) hdata
    · rintro h data ⟨hlen, w, hw, hbare, hle, rfl⟩
      have hec := (h hlen w hw hbare).resolve_right (Nat.not_lt.mpr hle)
      exact ⟨w, hw, ((w.cut_eq_data_iff hle).mpr hec).symm⟩
  · simp only [ideal.gssUnwrapIov_eq_some hd]
    constructor
    · intro h hlen w hw hresplit
      refine or_iff_not_imp_right.mpr fun hle => ?_
      obtain ⟨w', hw', hdata⟩ := h _ ⟨hlen, w, hw, Nat.not_lt.mp hle, hresplit, rfl⟩
      exact huncut hw hw' (Nat.not_lt.mp hle) hdata
    · rintro h data ⟨hlen, w, hw, hle, hresplit, rfl⟩
      have hec := (h hlen w hw hresplit).resolve_right (Nat.not_lt.mpr hle)
      exact ⟨w, hw, ((w.cut_eq_data_iff hle).mpr hec).symm⟩
  · simp only [ideal.gssUnsealToken_eq_some hd]
    constructor
    · intro h hlen w hw hbare
      refine or_iff_not_imp_right.mpr fun hle => ?_
      obtain ⟨w', hw', hseq, hdata⟩ :=
        h _ _ ⟨hlen, rfl, w, hw, hbare, Nat.not_lt.mp hle, rfl⟩
      exact ⟨huncut hw hw' (Nat.not_lt.mp hle) hdata,
        hseq.symm.trans (hw'.unique ideal hw).2.2⟩
    · rintro h sequence data ⟨hlen, rfl, w, hw, hbare, hle, rfl⟩
      obtain ⟨hec, hseq⟩ := (h hlen w hw hbare).resolve_right (Nat.not_lt.mpr hle)
      exact ⟨w, hw, hseq.symm, ((w.cut_eq_data_iff hle).mpr hec).symm⟩

end Authenticity

section RoundTrip

variable {κ : Type} {suite : Suite κ}

theorem headerLen_le_layOut (usage : SealUsage) (ec : Nat) (sequence : UInt64)
    (cipherText : List UInt8) :
    wrapHeaderLen ≤ (layOut usage ec sequence cipherText).2.length := by
  simp [layOut, wrapHeaderLen]

theorem extraCount_layOut {usage : SealUsage} {ec : Nat} (h : ec < 65536) (sequence : UInt64)
    (cipherText : List UInt8) : extraCount (layOut usage ec sequence cipherText).2 = ec :=
  extraCount_cfxHeader _ h

theorem carried_layOut {usage : SealUsage} {ec : Nat} (h : ec < 65536) (sequence : UInt64)
    (cipherText : List UInt8) :
    carried (layOut usage ec sequence cipherText).1 (layOut usage ec sequence cipherText).2 =
      cipherText := by
  have hcounts : rotationCount (layOut usage ec sequence cipherText).2 +
      extraCount (layOut usage ec sequence cipherText).2 = wrapRrc + ec := by
    rw [extraCount_layOut h, layOut, rotationCount_cfxHeader _ (by decide)]
  rw [carried, hcounts, layOut, List.drop_left' (by simp [wrapHeaderLen]), List.take_append_drop,
    rotateLeft_rotateRight]

namespace Wrap

variable {w : Wrap κ} (hderives : suite.derives w.key = true)

include hderives

theorem gssWrap_eq (hbare : w.Bare) (hec : w.ec = padding 16 w.data.length) :
    gssWrap suite w.key w.usage w.sequence w.data w.confounder =
      some (layOut w.usage w.ec w.sequence (w.cipherText suite)) := by
  have hplain : w.data ++ filler w.ec ++ cfxHeader (wrapFlags w.usage) w.ec 0 w.sequence =
    w.plain := rfl
  simp only [gssWrap, Suite.encrypt, ← hec, hplain, hderives, if_true, cipherText, cipher, tag,
    w.macInput_eq_text_iff.mpr hbare]
  rfl

theorem gssWrapIov_eq (hec : w.ec = 0) :
    gssWrapIov suite w.key w.usage w.sequence w.pre w.post w.data w.confounder =
      some (layOut w.usage w.ec w.sequence (w.cipherText suite)) := by
  simp [gssWrapIov, hderives, hec, cipherText, cipher, tag, macInput, plain, padded, header, filler]

end Wrap

/-- A cipher that opens what it has made, on whole blocks. -/
structure Lawful (suite : Suite κ) : Prop where
  ctsDecrypt_ctsEncrypt : ∀ key usage text, 32 ≤ text.length → 16 ∣ text.length →
    suite.ctsDecrypt key usage (suite.ctsEncrypt key usage text) = text
  verifies_hmac : ∀ key usage text,
    suite.verifies key usage text (suite.hmac key usage text) = true

namespace Lawful

variable (lawful : Lawful suite) (w : Wrap κ) (hderives : suite.derives w.key = true)

include lawful

theorem opens : suite.ctsDecrypt w.key w.usage (w.cipher suite) = w.confounder ++ w.plain := by
  have hlen : (w.confounder ++ w.plain).length = 32 + (w.data.length + w.ec) := by
    rw [List.length_append, w.length_plain, w.length_padded, w.length_confounder]
    omega
  have hblocks : 16 ∣ w.data.length + w.ec := by
    rcases w.made with ⟨-, -, hec⟩ | ⟨hec, hdata⟩
    · rw [hec]
      exact dvd_add_padding (by decide) _
    · rwa [hec]
  exact lawful.ctsDecrypt_ctsEncrypt _ _ _ (by omega) (by omega)

include hderives

theorem decrypt_cipherText (hbare : w.Bare) :
    suite.decrypt w.key w.usage (w.cipherText suite) = some w.plain := by
  have hw := Sealing.self suite w
  have hverifies : suite.verifies w.key w.usage (w.confounder ++ w.plain) (w.tag suite) = true := by
    rw [← w.macInput_eq_text_iff.mpr hbare]
    exact lawful.verifies_hmac _ _ _
  simp only [Suite.decrypt]
  rw [if_pos ⟨hderives, hw.length_le⟩, hw.take_eq, hw.drop_eq, lawful.opens, if_pos hverifies,
    wrapHeaderLen, ← w.length_confounder, List.drop_left]

/-- What `gss_wrap` makes, `gss_unwrap` takes back. -/
theorem gssUnwrap_layOut (hbare : w.Bare) :
    gssUnwrap suite w.key w.usage (layOut w.usage w.ec w.sequence (w.cipherText suite)).1
      (layOut w.usage w.ec w.sequence (w.cipherText suite)).2 = some w.data := by
  simp only [gssUnwrap, carried_layOut w.ec_lt, extraCount_layOut w.ec_lt, Option.bind_eq_bind,
    Option.bind_eq_some_iff, Option.guard_eq_some', Option.pure_def, Option.some.injEq]
  exact ⟨(), headerLen_le_layOut _ _ _ _, w.plain, lawful.decrypt_cipherText w hderives hbare, (),
    w.le_length_plain.mpr w.ec_le, (w.take_plain _).trans ((w.cut_eq_data_iff w.ec_le).mpr rfl)⟩

/-- What `gss_wrap_iov` makes, `gss_unwrap_iov` takes back with the same associated data. -/
theorem gssUnwrapIov_layOut :
    gssUnwrapIov suite w.key w.usage w.pre w.post
      (layOut w.usage w.ec w.sequence (w.cipherText suite)).1
      (layOut w.usage w.ec w.sequence (w.cipherText suite)).2 = some w.data := by
  have hw := Sealing.self suite w
  have hcut := (w.cut_eq_data_iff w.ec_le).mpr rfl
  have hresplit : w.Resplit w.pre w.post w.ec := by
    have hkeep : w.padded.length - w.ec = w.data.length := by rw [w.length_padded]; omega
    rw [Wrap.Resplit, hcut, hkeep, Wrap.padded, List.drop_left]
  have htext := w.macInput_eq_iff_resplit.mpr hresplit
  have hverifies := lawful.verifies_hmac w.key w.usage w.macInput
  have hconfounder : (w.confounder ++ w.plain).take wrapHeaderLen = w.confounder :=
    List.take_left' w.length_confounder
  have hplain : (w.confounder ++ w.plain).drop wrapHeaderLen = w.plain :=
    List.drop_left' w.length_confounder
  simp only [gssUnwrapIov, carried_layOut w.ec_lt, extraCount_layOut w.ec_lt, hw.take_eq,
    hw.drop_eq, lawful.opens, hconfounder, hplain, w.take_plain, w.drop_plain, ← htext,
    Option.bind_eq_bind, Option.bind_eq_some_iff, Option.guard_eq_some', Option.pure_def,
    Option.some.injEq]
  exact ⟨(), headerLen_le_layOut _ _ _ _, (), hw.length_le, (), hderives, (),
    w.le_length_plain.mpr w.ec_le, (), lawful.verifies_hmac _ _ _, hcut⟩

end Lawful

theorem sndSeq_layOut (usage : SealUsage) (ec : Nat) (sequence : UInt64) (cipherText : List UInt8) :
    sndSeq (layOut usage ec sequence cipherText).2 = sequence :=
  sndSeq_cfxHeader _

/-- A token in one piece unwraps as in two. -/
theorem gssUnwrap_contiguous (key : κ) (usage : SealUsage) {sealed auth : List UInt8}
    (h : wrapHeaderLen ≤ auth.length) :
    gssUnwrap suite key usage ((auth ++ sealed).drop wrapHeaderLen)
      ((auth ++ sealed).take wrapHeaderLen) = gssUnwrap suite key usage sealed auth := by
  have htake : (auth ++ sealed).take wrapHeaderLen = auth.take wrapHeaderLen :=
    List.take_append_of_le_length h
  have hec : extraCount (auth.take wrapHeaderLen) = extraCount auth := field_take (by decide) auth
  have hrrc : rotationCount (auth.take wrapHeaderLen) = rotationCount auth :=
    field_take (by decide) auth
  have hlen : (auth.take wrapHeaderLen).length = wrapHeaderLen :=
    List.length_take_of_le h
  have hcarried : carried ((auth ++ sealed).drop wrapHeaderLen) (auth.take wrapHeaderLen) =
      carried sealed auth := by
    rw [carried, carried, hec, hrrc, List.drop_of_length_le hlen.le, List.nil_append,
      List.drop_append_of_le_length h]
  simp only [gssUnwrap, htake, hec, hcarried, hlen, h, le_rfl]

theorem gssUnsealToken_append (key : κ) (usage : SealUsage) {sealed auth : List UInt8}
    (h : wrapHeaderLen ≤ auth.length) :
    gssUnsealToken suite key usage (auth ++ sealed) =
      (gssUnwrap suite key usage sealed auth).map fun plain => (sndSeq auth, plain) := by
  have htake : (auth ++ sealed).take wrapHeaderLen = auth.take wrapHeaderLen :=
    List.take_append_of_le_length h
  have hfield : field 8 8 (auth ++ sealed) = field 8 8 auth := by
    rw [← field_take (show 8 + 8 ≤ wrapHeaderLen by decide), htake, field_take (by decide)]
  have hlen : wrapHeaderLen ≤ (auth ++ sealed).length := h.trans (by simp)
  simp only [gssUnsealToken, gssUnwrap_contiguous key usage h, hlen, sndSeq, hfield, guard_true,
    Option.map_eq_bind]
  rfl

end RoundTrip

section Sample

/-- Sixteen bytes of data that an initiator has sealed as its seventh message. -/
def sampleWrap : Wrap Unit where
  key := ()
  usage := .initiator
  sequence := 7
  pre := []
  data := [1, 2, 3, 4, 5, 6, 7, 8, 9, 10, 11, 12, 13, 14, 15, 16]
  post := []
  confounder := List.replicate 16 0xaa
  ec := 0
  length_confounder := rfl
  made := .inr ⟨rfl, by decide⟩

/-- A checksum by the remainder of a text, as a number. -/
def remainder (text : List UInt8) : List UInt8 := beBytes cksumLen (ofBeBytes text % (2 ^ 96 - 17))

/-- A cipher that leaves the text as it is. -/
def plainSuite : Suite Unit where
  derives _ := true
  ctsEncrypt _ _ text := text
  ctsDecrypt _ _ text := text
  hmac _ _ := remainder
  verifies _ _ text tag := tag = remainder text
  length_ctsEncrypt _ _ _ := rfl
  length_hmac _ _ _ := length_beBytes ..

theorem plainSuite_lawful : Lawful plainSuite where
  ctsDecrypt_ctsEncrypt _ _ _ _ _ := rfl
  verifies_hmac _ _ _ := decide_eq_true rfl

/-- The checksum of what is delivered is verified for the one token that was made. -/
def Wrap.Judged (w : Wrap Unit) (d : Delivery Unit) : Prop :=
  plainSuite.verifies d.key d.usage (d.checked plainSuite)
      (d.cipherText.drop (d.cipherText.length - cksumLen)) = true ↔
    w.usage = d.usage ∧ w.cipherText plainSuite = d.cipherText ∧ w.macInput = d.checked plainSuite

instance (w : Wrap Unit) (d : Delivery Unit) : Decidable (w.Judged d) :=
  inferInstanceAs (Decidable (_ ↔ _))

theorem plainSuite_ideal {w : Wrap Unit} {delivered : Set (Delivery Unit)}
    (h : ∀ d ∈ delivered, w.Judged d) : Ideal plainSuite [w] delivered where
  derives _ _ := rfl
  opens _ _ := rfl
  verifies_iff d hd := by
    refine (h d hd).trans ⟨?_, ?_⟩
    · rintro ⟨husage, hcipher, htext⟩
      exact ⟨w, ⟨List.mem_singleton_self _, rfl, husage, hcipher⟩, htext⟩
    · rintro ⟨w', ⟨hw, -, husage, hcipher⟩, htext⟩
      obtain rfl := List.mem_singleton.mp hw
      exact ⟨husage, hcipher, htext⟩

/-- The token of the sample with the counts 2 and 26 for 0 and 28, and the number 9 for 7. -/
def sampleToken : List UInt8 :=
  cfxHeader 0x06 2 26 9 ++ rotateRight (sampleWrap.cipherText plainSuite) 28

/-- The token as it was made, as it was changed, and with a byte of its ciphertext changed. -/
def sampleDelivered : List (Delivery Unit) :=
  [.contiguous () .initiator
      (cfxHeader 0x06 0 28 7 ++ rotateRight (sampleWrap.cipherText plainSuite) 28),
    .contiguous () .initiator sampleToken,
    .contiguous () .initiator (sampleToken.dropLast ++ [0])]

theorem sample_ideal : Ideal plainSuite [sampleWrap] {d | d ∈ sampleDelivered} := by
  have hall : ∀ d ∈ sampleDelivered, sampleWrap.Judged d := by decide +kernel
  exact plainSuite_ideal hall

/-- Two bytes of the data are cut off and another number is returned. -/
theorem gss_unwrap_cut :
    Lawful plainSuite ∧ Ideal plainSuite [sampleWrap] {d | d ∈ sampleDelivered} ∧
      gssUnwrap plainSuite () .initiator (sampleToken.drop 16) (sampleToken.take 16) =
        some [1, 2, 3, 4, 5, 6, 7, 8, 9, 10, 11, 12, 13, 14] ∧
      gssUnwrapIov plainSuite () .initiator [] [] (sampleToken.drop 16) (sampleToken.take 16) =
        some [1, 2, 3, 4, 5, 6, 7, 8, 9, 10, 11, 12, 13, 14] ∧
      gssUnsealToken plainSuite () .initiator sampleToken =
        some (9, [1, 2, 3, 4, 5, 6, 7, 8, 9, 10, 11, 12, 13, 14]) ∧
      sampleWrap.data.length = 16 ∧ sampleWrap.sequence = 7 :=
  ⟨plainSuite_lawful, sample_ideal, by decide +kernel, by decide +kernel, by decide +kernel, rfl,
    rfl⟩

theorem gss_unwrap_authentic_sample :
    Ideal plainSuite [sampleWrap] {d | d ∈ sampleDelivered} ∧
      (gssSealToken plainSuite () .initiator 7 sampleWrap.data sampleWrap.confounder).any
        (fun token => extraCount token = 0 ∧ sndSeq token = 7 ∧
          gssUnsealToken plainSuite () .initiator token = some (7, sampleWrap.data)) = true ∧
      ¬ ∀ sequence data,
        gssUnsealToken plainSuite () .initiator sampleToken = some (sequence, data) →
          ∃ w, Sealing plainSuite [sampleWrap] () .initiator
            (carried (sampleToken.drop wrapHeaderLen) (sampleToken.take wrapHeaderLen)) w ∧
            w.sequence = sequence ∧ w.data = data := by
  refine ⟨sample_ideal, by decide +kernel, fun h => ?_⟩
  have hsealing : Sealing plainSuite [sampleWrap] () .initiator
      (carried (sampleToken.drop wrapHeaderLen) (sampleToken.take wrapHeaderLen)) sampleWrap :=
    ⟨List.mem_singleton_self _, rfl, rfl, by decide +kernel⟩
  have hcounts := ((gss_unwrap_authentic_iff sample_ideal () .initiator).2.2 sampleToken
    (by simp [sampleDelivered])).mp h (by decide +kernel) sampleWrap hsealing ⟨rfl, rfl⟩
  exact absurd hcounts (by decide +kernel)

end Sample

end Magnetite.Krb5.Gss
