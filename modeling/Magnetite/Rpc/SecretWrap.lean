import Magnetite.Lib.Ndr
import Magnetite.Lib.StreamCipher

/-!
# Wrapped secrets

A password hash is replicated in two layers. Inside, its halves are encrypted with two DES keys made
of the identifier of the account; outside, a checksum and the result are encrypted with RC4 under a
key made of the session key and a salt. DES and MD5 are parameters; RC4 and the checksum are those
of the source.
-/
namespace Magnetite.Rpc.SecretWrap

open Magnetite.Lib Magnetite.Lib.Ndr Magnetite.Lib.StreamCipher

/-! ## RC4 and CRC-32 -/

/-- The permutation and the two indices; they are bytes, so that sums are taken modulo 256. -/
structure Rc4 where
  s : Vector UInt8 256
  i : UInt8
  j : UInt8

namespace Rc4

def byteAt (s : Vector UInt8 256) (i : UInt8) : UInt8 := s.get ⟨i.toNat, i.toNat_lt⟩

def swap (s : Vector UInt8 256) (i j : UInt8) : Vector UInt8 256 :=
  s.swap i.toNat j.toNat i.toNat_lt j.toNat_lt

/-- One round of the key schedule. -/
def schedule (key : List UInt8) (state : Vector UInt8 256 × UInt8) (i : ℕ) :
    Vector UInt8 256 × UInt8 :=
  let (s, j) := state
  let i' := UInt8.ofNat i
  let j := j + byteAt s i' + key.getD (i % key.length) 0
  (swap s i' j, j)

def init (key : List UInt8) : Rc4 where
  s := ((List.range 256).foldl (schedule key) (Vector.ofFn fun i => UInt8.ofNat i, 0)).1
  i := 0
  j := 0

/-- The next byte of the stream. -/
def next (state : Rc4) : UInt8 × Rc4 :=
  let i := state.i + 1
  let j := state.j + byteAt state.s i
  let s := swap state.s i j
  (byteAt s (byteAt s i + byteAt s j), ⟨s, i, j⟩)

end Rc4

def rc4 (key data : List UInt8) : List UInt8 := combine Rc4.next (Rc4.init key) data

/-- One bit of the checksum. -/
def crcBit (crc : UInt32) : UInt32 := (crc >>> 1) ^^^ (0xEDB88320 &&& -(crc &&& 1))

def crc32 (data : List UInt8) : UInt32 :=
  ~~~ data.foldl (fun crc b => crcBit^[8] (crc ^^^ b.toUInt32)) 0xFFFFFFFF

-- The digits from 1 to 9.
example : crc32 [49, 50, 51, 52, 53, 54, 55, 56, 57] = 0xCBF43926 := by decide +kernel

/-! ## The layer of DES -/

/-- Seven bytes spread over eight, without the parity bit. -/
def transformKey (i : Vector UInt8 7) : Vector UInt8 8 :=
  let o : Vector UInt8 8 := #v[
    i[0] >>> 1,
    ((i[0] &&& 0x01) <<< 6) ||| (i[1] >>> 2),
    ((i[1] &&& 0x03) <<< 5) ||| (i[2] >>> 3),
    ((i[2] &&& 0x07) <<< 4) ||| (i[3] >>> 4),
    ((i[3] &&& 0x0F) <<< 3) ||| (i[4] >>> 5),
    ((i[4] &&& 0x1F) <<< 2) ||| (i[5] >>> 6),
    ((i[5] &&& 0x3F) <<< 1) ||| (i[6] >>> 7),
    i[6] &&& 0x7F]
  o.map fun b : UInt8 => (b <<< 1) &&& 0xFE

/-- The two keys of an account. -/
def deriveDesKeys (rid : UInt32) : Vector UInt8 8 × Vector UInt8 8 :=
  let k0 := rid.toUInt8
  let k1 := (rid >>> 8).toUInt8
  let k2 := (rid >>> 16).toUInt8
  let k3 := (rid >>> 24).toUInt8
  (transformKey #v[k0, k1, k2, k3, k0, k1, k2], transformKey #v[k3, k0, k1, k2, k3, k0, k1])

/-- DES on one block; decryption undoes encryption. -/
structure Des where
  encrypt : (key block : Vector UInt8 8) → Vector UInt8 8
  decrypt : (key block : Vector UInt8 8) → Vector UInt8 8
  decrypt_encrypt : ∀ key block, decrypt key (encrypt key block) = block

def firstHalf (hash : Vector UInt8 16) : Vector UInt8 8 := .ofFn fun i => hash[i.val]

def secondHalf (hash : Vector UInt8 16) : Vector UInt8 8 := .ofFn fun i => hash[i.val + 8]

def join (first second : Vector UInt8 8) : Vector UInt8 16 := first ++ second

/-- Each half under its key. -/
def eachHalf (cipher : (key block : Vector UInt8 8) → Vector UInt8 8) (hash : Vector UInt8 16)
    (rid : UInt32) : Vector UInt8 16 :=
  let keys := deriveDesKeys rid
  join (cipher keys.1 (firstHalf hash)) (cipher keys.2 (secondHalf hash))

def desEncryptHash (des : Des) (hash : Vector UInt8 16) (rid : UInt32) : Vector UInt8 16 :=
  eachHalf des.encrypt hash rid

def desDecryptHash (des : Des) (hash : Vector UInt8 16) (rid : UInt32) : Vector UInt8 16 :=
  eachHalf des.decrypt hash rid

/-! ## The wrapped value -/

section Wrap

variable (md5 : List UInt8 → Vector UInt8 16) (sessionKey : List UInt8)

def drsEncryptValue (salt : Vector UInt8 16) (data : List UInt8) : List UInt8 :=
  let rc4Key := md5 (sessionKey ++ salt.toList)
  let inner := leBytes 4 (crc32 data).toNat ++ data
  salt.toList ++ rc4 rc4Key.toList inner

def drsDecryptValue (wrapped : List UInt8) : Option (List UInt8) :=
  if wrapped.length < 16 + 4 then none
  else
    let salt := wrapped.take 16
    let enc := wrapped.drop 16
    let rc4Key := md5 (sessionKey ++ salt)
    let inner := rc4 rc4Key.toList enc
    let crc := inner.take 4
    let data := inner.drop 4
    if (crc32 data).toNat ≠ ofLeBytes crc then none else some data

def secretSalt : Vector UInt8 16 := Vector.replicate 16 0xAA

def encryptedUnicodePwd (des : Des) (ntHash : Vector UInt8 16) (rid : UInt32) : List UInt8 :=
  drsEncryptValue md5 sessionKey secretSalt (desEncryptHash des ntHash rid).toList

def decryptUnicodePwd (des : Des) (value : List UInt8) (rid : UInt32) :
    Option (Vector UInt8 16) := do
  let desHash ← drsDecryptValue md5 sessionKey value
  if h : desHash.length = 16 then
    return desDecryptHash des ⟨desHash.toArray, by simpa using h⟩ rid
  else none

end Wrap

/-! ## Both layers come off again -/

section Halves

variable (a b : Vector UInt8 8)

theorem firstHalf_join : firstHalf (join a b) = a := by
  refine Vector.ext fun i hi => ?_
  rw [firstHalf, Vector.getElem_ofFn]
  exact Vector.getElem_append_left hi

theorem secondHalf_join : secondHalf (join a b) = b := by
  refine Vector.ext fun i hi => ?_
  rw [secondHalf, Vector.getElem_ofFn]
  have hi' : i + 8 < 8 + 8 := by omega
  exact (Vector.getElem_append_right hi' (by omega)).trans (by simp)

theorem join_halves (hash : Vector UInt8 16) : join (firstHalf hash) (secondHalf hash) = hash := by
  refine Vector.ext fun i hi => ?_
  refine (Vector.getElem_append hi).trans ?_
  by_cases hlt : i < 8
  · simp [firstHalf, hlt]
  · simp [secondHalf, hlt, Nat.sub_add_cancel (not_lt.mp hlt)]

/-- The halves are decrypted with the keys that they were encrypted with. -/
theorem desDecryptHash_desEncryptHash (des : Des) (hash : Vector UInt8 16) (rid : UInt32) :
    desDecryptHash des (desEncryptHash des hash rid) rid = hash := by
  rw [desDecryptHash, desEncryptHash, eachHalf, eachHalf, firstHalf_join, secondHalf_join,
    des.decrypt_encrypt, des.decrypt_encrypt, join_halves]

end Halves

section Wrap

variable (md5 : List UInt8 → Vector UInt8 16) (sessionKey : List UInt8) (salt : Vector UInt8 16)

/-- Behind the salt stands an encrypted text of a checksum and data. -/
theorem drsDecryptValue_append {crc data : List UInt8} (hcrc : crc.length = 4) :
    drsDecryptValue md5 sessionKey
        (salt.toList ++ rc4 (md5 (sessionKey ++ salt.toList)).toList (crc ++ data)) =
      if (crc32 data).toNat ≠ ofLeBytes crc then none else some data := by
  have hlong : ¬ (salt.toList ++
      rc4 (md5 (sessionKey ++ salt.toList)).toList (crc ++ data)).length < 16 + 4 := by
    simp only [rc4, List.length_append, Vector.length_toList, length_combine, hcrc]
    omega
  have hinner (key : List UInt8) : rc4 key (rc4 key (crc ++ data)) = crc ++ data :=
    combine_combine _ _ _
  rw [drsDecryptValue, if_neg hlong, List.take_left' (by simp), List.drop_left' (by simp)]
  dsimp only
  rw [hinner, List.take_left' hcrc, List.drop_left' hcrc]

theorem crc32_lt (data : List UInt8) : (crc32 data).toNat < 256 ^ 4 := (crc32 data).toNat_lt

theorem drsDecryptValue_drsEncryptValue (data : List UInt8) :
    drsDecryptValue md5 sessionKey (drsEncryptValue md5 sessionKey salt data) = some data := by
  rw [drsEncryptValue, drsDecryptValue_append _ _ _ (length_leBytes _ _), ofLeBytes_leBytes,
    Nat.mod_eq_of_lt (crc32_lt data), if_neg (not_not.mpr rfl)]

/-- A mask for what stands behind the salt. -/
def behindSalt (checksum payload : List UInt8) : List UInt8 :=
  List.replicate 16 0 ++ (checksum ++ payload)

/-- Bits that are flipped behind the salt are flipped in the text. -/
theorem drsDecryptValue_flip (data payload : List UInt8) {checksum : List UInt8}
    (hc : checksum.length = 4) :
    drsDecryptValue md5 sessionKey
        (flip (drsEncryptValue md5 sessionKey salt data) (behindSalt checksum payload)) =
      if (crc32 (flip data payload)).toNat ≠
          ofLeBytes (flip (leBytes 4 (crc32 data).toNat) checksum) then none
      else some (flip data payload) := by
  have hcrc : (leBytes 4 (crc32 data).toNat).length = checksum.length := by simp [hc]
  have hsalt : flip salt.toList (List.replicate 16 0) = salt.toList := by
    have := flip_zeros salt.toList
    rwa [Vector.length_toList] at this
  rw [drsEncryptValue, behindSalt, flip_append (by simp), hsalt, rc4, ← combine_flip,
    flip_append hcrc]
  exact drsDecryptValue_append md5 sessionKey salt (by rw [length_flip hcrc, length_leBytes])

/-- A checksum that was changed does not fit the data. -/
theorem checksum_ne {data checksum : List UInt8} (hc : checksum.length = 4)
    (hne : checksum ≠ List.replicate 4 0) :
    (crc32 data).toNat ≠ ofLeBytes (flip (leBytes 4 (crc32 data).toNat) checksum) := by
  intro heq
  have hcrc : (leBytes 4 (crc32 data).toNat).length = checksum.length := by simp [hc]
  have hbytes := leBytes_ofLeBytes (flip (leBytes 4 (crc32 data).toNat) checksum)
  rw [length_flip hcrc, length_leBytes, ← heq] at hbytes
  exact hne (by simpa using flip_eq_self hcrc hbytes.symm)

end Wrap

/-- What is wrapped comes out again for the same account and session, whatever the salt; a wrapped
value with a changed checksum, or with data that the checksum tells from the old, is refused. -/
theorem secret_wrapping (des : Des) (md5 : List UInt8 → Vector UInt8 16) (sessionKey : List UInt8) :
    (∀ ntHash rid, decryptUnicodePwd md5 sessionKey des
      (encryptedUnicodePwd md5 sessionKey des ntHash rid) rid = some ntHash) ∧
    (∀ ntHash rid salt, decryptUnicodePwd md5 sessionKey des
      (drsEncryptValue md5 sessionKey salt (desEncryptHash des ntHash rid).toList) rid =
        some ntHash) ∧
    ∀ salt data checksum payload, checksum.length = 4 →
      (checksum ≠ List.replicate 4 0 ∧ payload = List.replicate data.length 0 ∨
        checksum = List.replicate 4 0 ∧ crc32 (flip data payload) ≠ crc32 data ∨
        (crc32 (flip data payload)).toNat ≠
          ofLeBytes (flip (leBytes 4 (crc32 data).toNat) checksum)) →
      drsDecryptValue md5 sessionKey
        (flip (drsEncryptValue md5 sessionKey salt data) (behindSalt checksum payload)) = none := by
  have hround (ntHash rid salt) : decryptUnicodePwd md5 sessionKey des
      (drsEncryptValue md5 sessionKey salt (desEncryptHash des ntHash rid).toList) rid =
        some ntHash := by
    rw [decryptUnicodePwd, drsDecryptValue_drsEncryptValue, Option.bind_eq_bind, Option.bind_some,
      dif_pos (by simp)]
    have hsame : (⟨(desEncryptHash des ntHash rid).toList.toArray, by simp⟩ : Vector UInt8 16) =
        desEncryptHash des ntHash rid := rfl
    rw [hsame, desDecryptHash_desEncryptHash]
    rfl
  refine ⟨fun ntHash rid => hround ntHash rid _, hround, ?_⟩
  intro salt data checksum payload hc hchanged
  rw [drsDecryptValue_flip _ _ _ _ _ hc, if_pos]
  obtain ⟨hne, rfl⟩ | ⟨rfl, hcrc⟩ | hcrc := hchanged
  · rw [flip_zeros]
    exact checksum_ne hc hne
  · have hzeros := flip_zeros (leBytes 4 (crc32 data).toNat)
    rw [length_leBytes] at hzeros
    rw [hzeros, ofLeBytes_leBytes, Nat.mod_eq_of_lt (crc32_lt data)]
    exact fun heq => hcrc (UInt32.toNat_inj.mp heq)
  · exact hcrc

namespace Sample

/-- A block cipher that leaves blocks as they are, in the place of DES. -/
def plain : Des where
  encrypt _ block := block
  decrypt _ block := block
  decrypt_encrypt _ _ := rfl

def digest (_ : List UInt8) : Vector UInt8 16 := Vector.replicate 16 1

theorem secret_wrapping_sample :
    decryptUnicodePwd digest [1, 2] plain
      (encryptedUnicodePwd digest [1, 2] plain (Vector.replicate 16 7) 500) 500 =
        some (Vector.replicate 16 7) ∧
    drsDecryptValue digest [1, 2] (flip (drsEncryptValue digest [1, 2] secretSalt [5, 6])
      (behindSalt [0, 0, 0, 0] [0, 1])) = none ∧
    drsDecryptValue digest [1, 2] (flip (drsEncryptValue digest [1, 2] secretSalt [5, 6])
      (behindSalt [0, 0, 128, 0] [0, 0])) = none := by
  obtain ⟨hround, -, hchanged⟩ := secret_wrapping plain digest [1, 2]
  exact ⟨hround _ _, hchanged _ _ _ _ rfl (.inr (.inl ⟨rfl, by decide +kernel⟩)),
    hchanged _ _ _ _ rfl (.inl ⟨by decide, rfl⟩)⟩

end Sample

end Magnetite.Rpc.SecretWrap
