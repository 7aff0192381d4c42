import Magnetite.Krb5.Gss

/-!
# Wrap tokens that are signed only

The tokens without confidentiality: a header, the data and a checksum over both. Whoever sends a
token, its checksum is made over a header with the flags of the acceptor.
-/
namespace Magnetite.Krb5.Gss

open Magnetite.Lib.Ndr

section Tokens

/-- HMAC-SHA1-96 under the checksum key of a base key and a usage. `verifies` stands for the
comparison of a checksum with the one of a text. -/
structure Checksum (κ : Type) where
  derives : κ → Bool
  mac : κ → SealUsage → List UInt8 → List UInt8
  verifies : κ → SealUsage → List UInt8 → List UInt8 → Bool
  length_mac : ∀ key usage text, (mac key usage text).length = cksumLen

variable {κ : Type} (checksum : Checksum κ) (key : κ) (usage : SealUsage)

/-- `CFX_FLAG_ACCEPTOR | CFX_FLAG_ACCEPTOR_SUBKEY` -/
def integrityFlags : UInt8 := 0x05

/-- What the checksum covers: the data, and a header with both counts zero. -/
def signedText (sequence : UInt64) (data : List UInt8) : List UInt8 :=
  data ++ cfxHeader integrityFlags 0 0 sequence

/-- `gss_wrap_integrity` -/
def gssWrapIntegrity (sequence : UInt64) (data : List UInt8) : Option (List UInt8) :=
  if checksum.derives key then
    some (cfxHeader integrityFlags cksumLen 0 sequence ++ data ++
      checksum.mac key usage (signedText sequence data))
  else none

/-- `gss_unwrap_integrity` -/
def gssUnwrapIntegrity (token : List UInt8) : Option (UInt64 × List UInt8) := do
  guard (wrapHeaderLen + cksumLen ≤ token.length)
  -- a sealed token is not one of these
  guard ((token[2]?.getD 0) &&& 0x02 = 0)
  let body := rotateLeft (token.drop wrapHeaderLen) (rotationCount token)
  let split := body.length - cksumLen
  guard (checksum.derives key = true)
  guard (checksum.verifies key usage (signedText (sndSeq token) (body.take split))
    (body.drop split) = true)
  return (sndSeq token, body.take split)

end Tokens

section Ideal

variable {κ : Type}

/-- A token that was made: under which key and usage, with which number, for which data. -/
structure Signed (κ : Type) where
  key : κ
  usage : SealUsage
  sequence : UInt64
  data : List UInt8

theorem signedText_inj {sequence sequence' : UInt64} {data data' : List UInt8}
    (h : signedText sequence data = signedText sequence' data') :
    sequence = sequence' ∧ data = data' := by
  obtain ⟨hdata, hheader⟩ := List.append_inj' h (by simp)
  have hseq := congrArg (fun bytes => sndSeq (bytes ++ [])) hheader
  simp only [sndSeq_cfxHeader] at hseq
  exact ⟨hseq, hdata⟩

/-- A checksum that nobody forges: it verifies exactly over what a holder of the key has signed. -/
structure Checksum.Ideal (checksum : Checksum κ) (log : List (Signed κ)) : Prop where
  verifies_iff : ∀ key usage text tag, checksum.verifies key usage text tag = true ↔
    ∃ w ∈ log, w.key = key ∧ w.usage = usage ∧ signedText w.sequence w.data = text ∧
      checksum.mac key usage text = tag

variable {checksum : Checksum κ} {log : List (Signed κ)} {key : κ} {usage : SealUsage}

/-- What unwraps is what a holder of the key has signed, with its number. -/
theorem Checksum.Ideal.signed_of_unwrap (ideal : checksum.Ideal log) {token data : List UInt8}
    {sequence : UInt64} (h : gssUnwrapIntegrity checksum key usage token = some (sequence, data)) :
    ⟨key, usage, sequence, data⟩ ∈ log := by
  simp only [gssUnwrapIntegrity, Option.bind_eq_bind, Option.bind_eq_some_iff, Option.guard_eq_some',
    exists_const, Option.pure_def, Option.some.injEq, Prod.mk.injEq] at h
  obtain ⟨-, -, -, hverifies, rfl, rfl⟩ := h
  obtain ⟨w, hw, rfl, rfl, htext, -⟩ := (ideal.verifies_iff _ _ _ _).mp hverifies
  obtain ⟨hseq, hdata⟩ := signedText_inj htext
  rw [← hseq, ← hdata]
  exact hw

end Ideal

section RoundTrip

variable {κ : Type}

/-- A checksum verifies over the text it was made over. -/
def Checksum.Lawful (checksum : Checksum κ) : Prop :=
  ∀ key usage text, checksum.verifies key usage text (checksum.mac key usage text) = true

theorem Checksum.Lawful.unwrap_wrap {checksum : Checksum κ} (lawful : checksum.Lawful) {key : κ}
    {usage : SealUsage} {sequence : UInt64} {data token : List UInt8}
    (h : gssWrapIntegrity checksum key usage sequence data = some token) :
    gssUnwrapIntegrity checksum key usage token = some (sequence, data) := by
  unfold gssWrapIntegrity at h
  split_ifs at h with hderives
  obtain rfl := (Option.some.inj h).symm
  have hmac := checksum.length_mac key usage (signedText sequence data)
  set mac := checksum.mac key usage (signedText sequence data) with hm
  rw [List.append_assoc]
  have hcount : rotationCount (cfxHeader integrityFlags cksumLen 0 sequence ++ (data ++ mac)) = 0 :=
    rotationCount_cfxHeader _ (by decide)
  have hbody : rotateLeft (data ++ mac) 0 = data ++ mac := by simp [rotateLeft]
  have hsplit : (data ++ mac).length - cksumLen = data.length := by
    rw [List.length_append, hmac, Nat.add_sub_cancel]
  have hdrop : (cfxHeader integrityFlags cksumLen 0 sequence ++ (data ++ mac)).drop wrapHeaderLen =
      data ++ mac := List.drop_left' (by simp [wrapHeaderLen])
  have hflags : (cfxHeader integrityFlags cksumLen 0 sequence ++ (data ++ mac))[2]? =
      some integrityFlags := by simp [cfxHeader]
  have hunsealed : integrityFlags &&& 2 = 0 := by decide
  have hlen : wrapHeaderLen + cksumLen ≤
      (cfxHeader integrityFlags cksumLen 0 sequence ++ (data ++ mac)).length := by
    rw [List.length_append, List.length_append, hmac, length_cfxHeader, wrapHeaderLen]
    omega
  have hverifies : checksum.verifies key usage (signedText sequence data) mac = true := lawful ..
  simp only [gssUnwrapIntegrity, hcount, hdrop, hbody, hsplit, sndSeq_cfxHeader, hflags, hlen,
    Option.getD_some, hunsealed, hderives, List.take_left, List.drop_left, hverifies]
  rfl

/-- Each kind of token gives back the data it was made for. The number stands in the header of the
token; unsealing and the unwrapping of a signed token return it, unwrapping does not. Callers of the
layout with associated data fill whole blocks. -/
theorem wrap_roundTrip (suite : Suite κ) (lawful : Lawful suite) (checksum : Checksum κ)
    (lawful' : checksum.Lawful) (key : κ) (usage : SealUsage) (sequence : UInt64)
    (data confounder : List UInt8) (hconfounder : confounder.length = 16) :
    (suite.derives key = true →
      (∃ sealed auth, gssWrap suite key usage sequence data confounder = some (sealed, auth) ∧
        gssUnwrap suite key usage sealed auth = some data ∧ sndSeq auth = sequence) ∧
      (16 ∣ data.length → ∀ pre post, ∃ body auth,
        gssWrapIov suite key usage sequence pre post data confounder = some (body, auth) ∧
          gssUnwrapIov suite key usage pre post body auth = some data ∧ sndSeq auth = sequence) ∧
      ∃ token, gssSealToken suite key usage sequence data confounder = some token ∧
        gssUnsealToken suite key usage token = some (sequence, data)) ∧
    (checksum.derives key = true →
      ∃ token, gssWrapIntegrity checksum key usage sequence data = some token ∧
        gssUnwrapIntegrity checksum key usage token = some (sequence, data)) := by
  refine ⟨fun hderives => ?_, fun hderives => ?_⟩
  · let w : Wrap κ := ⟨key, usage, sequence, [], data, [], confounder, padding 16 data.length,
      hconfounder, .inl ⟨rfl, rfl, rfl⟩⟩
    have hbare : w.Bare := ⟨rfl, rfl⟩
    obtain ⟨sealed, auth, hwrap, hunwrap, hseq, hlen⟩ : ∃ sealed auth,
        gssWrap suite key usage sequence data confounder = some (sealed, auth) ∧
          gssUnwrap suite key usage sealed auth = some data ∧ sndSeq auth = sequence ∧
          wrapHeaderLen ≤ auth.length :=
      ⟨_, _, w.gssWrap_eq hderives hbare rfl, lawful.gssUnwrap_layOut w hderives hbare,
        sndSeq_layOut .., headerLen_le_layOut ..⟩
    refine ⟨⟨sealed, auth, hwrap, hunwrap, hseq⟩, fun hblocks pre post => ?_, auth ++ sealed, ?_, ?_⟩
    · let v : Wrap κ := ⟨key, usage, sequence, pre, data, post, confounder, 0, hconfounder,
        .inr ⟨rfl, hblocks⟩⟩
      exact ⟨_, _, v.gssWrapIov_eq hderives rfl, lawful.gssUnwrapIov_layOut v hderives,
        sndSeq_layOut ..⟩
    · rw [gssSealToken, hwrap]
      rfl
    · rw [gssUnsealToken_append key usage hlen, hunwrap, hseq]
      rfl
  · exact ⟨_, if_pos hderives, lawful'.unwrap_wrap (if_pos hderives)⟩

def zeroChecksum : Checksum Unit where
  derives _ := true
  mac _ _ _ := List.replicate 12 0
  verifies _ _ _ tag := tag = List.replicate 12 0
  length_mac _ _ _ := rfl

/-- What is unwrapped of messages with different numbers is the same: the number is not returned. -/
theorem unwrap_without_number :
    ((gssWrap plainSuite () .initiator 1 [5] (List.replicate 16 0)).bind fun (sealed, auth) =>
      gssUnwrap plainSuite () .initiator sealed auth) = some [5] ∧
    ((gssWrap plainSuite () .initiator 2 [5] (List.replicate 16 0)).bind fun (sealed, auth) =>
      gssUnwrap plainSuite () .initiator sealed auth) = some [5] :=
  ⟨by decide +kernel, by decide +kernel⟩

theorem wrap_roundTrip_one_byte :
    Lawful plainSuite ∧ zeroChecksum.Lawful ∧
      ∃ token, gssSealToken plainSuite () .acceptor 9 [5] (List.replicate 16 0) = some token ∧
        gssUnsealToken plainSuite () .acceptor token = some (9, [5]) := by
  have hchecksum : zeroChecksum.Lawful := fun _ _ _ => by simp [zeroChecksum]
  exact ⟨plainSuite_lawful, hchecksum,
    ((wrap_roundTrip plainSuite plainSuite_lawful zeroChecksum hchecksum () .acceptor 9 [5]
      (List.replicate 16 0) (by simp)).1 rfl).2.2⟩

end RoundTrip

end Magnetite.Krb5.Gss
