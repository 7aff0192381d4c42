import Magnetite.Lib.Ndr
import Magnetite.Lib.Text
import Magnetite.Lib.Utf16

/-!
# Security tokens

The tokens that the server sends when a client negotiates and sets up a session, and what it looks
for in the tokens of the client.
-/
namespace Magnetite.Smb

open Magnetite.Lib Magnetite.Lib.Ndr

def ntlmsspOid : List UInt8 :=
  [0x06, 0x0a, 0x2b, 0x06, 0x01, 0x04, 0x01, 0x82, 0x37, 0x02, 0x02, 0x0a]

def krb5Oid : List UInt8 := [0x06, 0x09, 0x2a, 0x86, 0x48, 0x86, 0xf7, 0x12, 0x01, 0x02, 0x02]

def mskrb5Oid : List UInt8 := [0x06, 0x09, 0x2a, 0x86, 0x48, 0x82, 0xf7, 0x12, 0x01, 0x02, 0x02]

def spnegoOid : List UInt8 := [0x06, 0x06, 0x2b, 0x06, 0x01, 0x05, 0x05, 0x02]

def apRepTokId : List UInt8 := [0x02, 0x00]

/-- The challenge of every NTLM exchange. -/
def serverChallenge : List UInt8 := Text.asciiBytes "SMBSVR01"

/-- Tag and length around a content. -/
def der (tag : UInt8) (content : List UInt8) : List UInt8 :=
  let n := content.length
  tag :: (if n < 0x80 then [UInt8.ofNat n]
    else if n < 0x100 then [0x81, UInt8.ofNat n]
    else [0x82, UInt8.ofNat (n / 256), UInt8.ofNat n]) ++ content

theorem length_der (tag : UInt8) (content : List UInt8) :
    (der tag content).length ≤ content.length + 4 := by
  simp only [der, List.length_append, List.length_cons]
  split_ifs <;> simp only [List.length_cons, List.length_nil] <;> omega

def negTokenInitFor (mechOids : List UInt8) : List UInt8 :=
  der 0x60 (spnegoOid ++ der 0xa0 (der 0x30 (der 0xa0 (der 0x30 mechOids))))

def negTokenInit : List UInt8 := negTokenInitFor ntlmsspOid

def negTokenInitKerberos : List UInt8 := negTokenInitFor (krb5Oid ++ mskrb5Oid ++ ntlmsspOid)

def utf16le (s : String) : List UInt8 := (Utf16.encode s).flatMap (leBytes 2)

def avPair (avId : ℕ) (value : List UInt8) : List UInt8 :=
  leBytes 2 avId ++ leBytes 2 value.length ++ value

def ntlmsspMarker : List UInt8 := Text.asciiBytes "NTLMSSP\x00"

def ntlmsspChallenge : List UInt8 :=
  let flags := 0x1 ||| 0x200 ||| 0x80000 ||| 0x8000 ||| 0x20000 ||| 0x800000 ||| 0x2000000
  let targetInfo := avPair 1 (utf16le "MAGNETITE") ++ avPair 2 (utf16le "EXAMPLE") ++
    avPair 3 (utf16le "magnetite.example.com") ++ avPair 4 (utf16le "example.com") ++ avPair 0 []
  let payloadOffset := 56
  ntlmsspMarker ++ leBytes 4 2 ++ leBytes 2 0 ++ leBytes 2 0 ++ leBytes 4 payloadOffset ++
    leBytes 4 flags ++ serverChallenge ++ List.replicate 8 0 ++ leBytes 2 targetInfo.length ++
    leBytes 2 targetInfo.length ++ leBytes 4 payloadOffset ++ [10, 0, 0, 0, 0, 0, 0, 15] ++ targetInfo

def negTokenRespChallenge : List UInt8 :=
  der 0xa1 (der 0x30 ([0xa0, 0x03, 0x0a, 0x01, 0x01] ++ der 0xa1 ntlmsspOid ++
    der 0xa2 (der 0x04 ntlmsspChallenge)))

def negTokenRespApRep (apRep : List UInt8) : List UInt8 :=
  der 0xa1 (der 0x30 (der 0xa0 (der 0x0a [0x00]) ++ der 0xa1 krb5Oid ++
    der 0xa2 (der 0x04 (der 0x60 (krb5Oid ++ apRepTokId ++ apRep)))))

def negTokenRespAcceptCompleted : List UInt8 := der 0xa1 (der 0x30 (der 0xa0 (der 0x0a [0x00])))

/-- Length of the DER value at the front, with tag and length bytes. -/
def derTotalLen (b : List UInt8) : Option ℕ := do
  let l0 := (← b[1]?).toNat
  if l0 ≤ 0x7f then some (2 + l0)
  else if l0 = 0x81 then return 3 + (← b[2]?).toNat
  else if l0 = 0x82 then return 4 + ((← b[2]?).toNat * 256 + (← b[3]?).toNat)
  else none

/-- The AP-REQ behind the first marker. -/
def extractApReq (blob : List UInt8) : Option (List UInt8) := do
  let rest ← blob.tails.find? fun rest => rest.take 3 == [0x01, 0x00, 0x6e] && 3 < rest.length
  let apReq := rest.drop 2
  let total ← derTotalLen apReq
  if total ≤ apReq.length then some (apReq.take total) else none

/-- The NTLM message from the first marker on. -/
def extractNtlmssp (blob : List UInt8) : Option (List UInt8) :=
  blob.tails.find? ntlmsspMarker.isPrefixOf

def ntlmsspMessageType (blob : List UInt8) : Option ℕ := do
  let message ← extractNtlmssp blob
  if 12 ≤ message.length then some (ofLeBytes ((message.drop 8).take 4)) else none

theorem length_negTokenRespApRep (apRep : List UInt8) :
    (negTokenRespApRep apRep).length ≤ apRep.length + 64 := by
  have h₁ := length_der 0xa1 (der 0x30 (der 0xa0 (der 0x0a [0x00]) ++ der 0xa1 krb5Oid ++
    der 0xa2 (der 0x04 (der 0x60 (krb5Oid ++ apRepTokId ++ apRep)))))
  have h₂ := length_der 0x30 (der 0xa0 (der 0x0a [0x00]) ++ der 0xa1 krb5Oid ++
    der 0xa2 (der 0x04 (der 0x60 (krb5Oid ++ apRepTokId ++ apRep))))
  have h₃ := length_der 0xa2 (der 0x04 (der 0x60 (krb5Oid ++ apRepTokId ++ apRep)))
  have h₄ := length_der 0x04 (der 0x60 (krb5Oid ++ apRepTokId ++ apRep))
  have h₅ := length_der 0x60 (krb5Oid ++ apRepTokId ++ apRep)
  have hresult : (der 0xa0 (der 0x0a [0x00])).length = 5 := rfl
  have hmech : (der 0xa1 krb5Oid).length = 13 := rfl
  have hoid : krb5Oid.length = 11 := rfl
  have hid : apRepTokId.length = 2 := rfl
  simp only [List.length_append] at h₁ h₂ h₃ h₄ h₅
  rw [negTokenRespApRep]
  omega

end Magnetite.Smb
