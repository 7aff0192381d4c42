import Magnetite.Krb5.GssIntegrity

/-!
# The protected stream

What the server takes out of the bytes of a connection once a security layer is in force: tokens
behind their lengths, each opened by the layer. An NTLM layer counts what it opens. A GSS layer
opens a token by itself and throws its number away, so that the number of a token says nothing
about its place in the stream.
-/
namespace Magnetite.Ldap

open Magnetite.Krb5

section Layers

variable {κ : Type}

/-- The receiving half of an `NtlmContext`: how far the RC4 handle of the client is, and the number
of the next message. -/
structure NtlmReceiver (κ : Type) where
  key : κ
  position : Nat
  recvSeq : Nat

inductive SecurityLayer (κ : Type) where
  | gss (subkey : κ) (confidential : Bool)
  | ntlm (ctx : NtlmReceiver κ)

/-- The ciphers and checksums under the layers. -/
structure LayerCrypto (κ : Type) where
  suite : Gss.Suite κ
  checksum : Gss.Checksum κ
  /-- RC4 from a position of the key stream on. -/
  rc4 : κ → (position : Nat) → List UInt8 → List UInt8
  /-- The comparison with `make_signature`, whose checksum is encrypted at the position. -/
  verifies : κ → (position seq : Nat) → (message signature : List UInt8) → Bool
  length_rc4 : ∀ key position text, (rc4 key position text).length = text.length

variable (crypto : LayerCrypto κ)

/-- `NtlmContext::unseal` -/
def NtlmReceiver.unseal (ctx : NtlmReceiver κ) (token : List UInt8) :
    Option (List UInt8 × NtlmReceiver κ) :=
  if token.length < 16 then none
  else
    let sealed := token.drop 16
    let plaintext := crypto.rc4 ctx.key ctx.position sealed
    let position := ctx.position + sealed.length
    if crypto.verifies ctx.key position ctx.recvSeq plaintext (token.take 16) then
      -- eight bytes of the key stream went into the signature
      some (plaintext, { ctx with position := position + 8, recvSeq := (ctx.recvSeq + 1) % 2 ^ 32 })
    else none

/-- `SecurityLayer::open` -/
def SecurityLayer.open (token : List UInt8) :
    SecurityLayer κ → Option (List UInt8 × SecurityLayer κ)
  | .gss subkey true =>
    (Gss.gssUnsealToken crypto.suite subkey .initiator token).map (·.2, .gss subkey true)
  | .gss subkey false =>
    (Gss.gssUnwrapIntegrity crypto.checksum subkey .initiator token).map (·.2, .gss subkey false)
  | .ntlm ctx => (ctx.unseal crypto token).map fun (pdu, ctx) => (pdu, .ntlm ctx)

end Layers

section Codec

variable {κ μ : Type}

/-- `MAX_LDAP_FRAME` -/
def maxLdapFrame : Nat := 16 * 1024 * 1024

/-- What stands at the front of a buffer. -/
inductive Framing where
  | incomplete
  | tooLarge
  | token (token rest : List UInt8)

def framing (buf : List UInt8) : Framing :=
  if buf.length < 4 then .incomplete
  else
    let len := Lib.Ndr.ofBeBytes (buf.take 4)
    if maxLdapFrame < len then .tooLarge
    else if buf.length < 4 + len then .incomplete
    else .token ((buf.drop 4).take len) (buf.drop (4 + len))

/-- `SaslAwareCodec` with a layer in force, and the bytes that were read and not yet decoded. -/
structure SaslAwareCodec (κ : Type) where
  layer : SecurityLayer κ
  buf : List UInt8

inductive Decoded (κ μ : Type) where
  | incomplete
  | error
  | message (message : μ) (codec : SaslAwareCodec κ)

variable (crypto : LayerCrypto κ) (parsePdu : List UInt8 → Option μ)

/-- `decode` -/
def SaslAwareCodec.decode (codec : SaslAwareCodec κ) : Decoded κ μ :=
  match framing codec.buf with
  | .incomplete => .incomplete
  | .tooLarge => .error
  | .token token rest =>
    match codec.layer.open crypto token with
    | none => .error
    | some (pdu, layer) =>
      match parsePdu pdu with
      | none => .error
      | some message => .message message ⟨layer, rest⟩

/-- Decodes until the buffer holds no whole frame; an error ends the connection. -/
def SaslAwareCodec.drain : Nat → SaslAwareCodec κ → List μ × Option (SaslAwareCodec κ)
  | 0, codec => ([], some codec)
  | fuel + 1, codec =>
    match codec.decode crypto parsePdu with
    | .incomplete => ([], some codec)
    | .error => ([], none)
    | .message message codec =>
      let (messages, last) := drain fuel codec
      (message :: messages, last)

/-- The messages that are processed when the bytes of the stream arrive in these pieces. -/
def SaslAwareCodec.deliver : SaslAwareCodec κ → List (List UInt8) → List μ
  | _, [] => []
  | codec, piece :: pieces =>
    let buf := codec.buf ++ piece
    match SaslAwareCodec.drain crypto parsePdu (buf.length + 1) { codec with buf } with
    | (messages, none) => messages
    | (messages, some codec) => messages ++ codec.deliver pieces

end Codec

section Cuts

variable {κ μ : Type}

/-- The tokens at the front of a stream, and what is behind them. -/
inductive Cuts : List UInt8 → List (List UInt8) → List UInt8 → Prop where
  | nil (stream : List UInt8) : Cuts stream [] stream
  | cons {stream rest last token : List UInt8} {tokens : List (List UInt8)} :
    framing stream = .token token rest → Cuts rest tokens last → Cuts stream (token :: tokens) last

theorem framing_append {stream token rest : List UInt8} (more : List UInt8)
    (h : framing stream = .token token rest) :
    framing (stream ++ more) = .token token (rest ++ more) := by
  simp only [framing] at h ⊢
  split_ifs at h with hfour hlarge hlen
  obtain ⟨rfl, rfl⟩ := Framing.token.inj h
  have htake : (stream ++ more).take 4 = stream.take 4 :=
    List.take_append_of_le_length (by omega)
  rw [htake, List.length_append, if_neg (by omega), if_neg hlarge, if_neg (by omega),
    List.drop_append_of_le_length (by omega), List.drop_append_of_le_length (by omega),
    List.take_append_of_le_length (by rw [List.length_drop]; omega)]

namespace Cuts

theorem append {stream last : List UInt8} {tokens : List (List UInt8)} (more : List UInt8)
    (h : Cuts stream tokens last) : Cuts (stream ++ more) tokens (last ++ more) := by
  induction h with
  | nil stream => exact .nil _
  | cons hframe _ ih => exact .cons (framing_append more hframe) ih

theorem trans {stream middle last : List UInt8} {tokens tokens' : List (List UInt8)}
    (h : Cuts stream tokens middle) (h' : Cuts middle tokens' last) :
    Cuts stream (tokens ++ tokens') last := by
  induction h with
  | nil stream => exact h'
  | cons hframe _ ih => exact .cons hframe (ih h')

end Cuts

variable (crypto : LayerCrypto κ) (parsePdu : List UInt8 → Option μ)

/-- A layer opens tokens one after the other into messages. -/
inductive Opens : SecurityLayer κ → List (List UInt8) → List μ → SecurityLayer κ → Prop where
  | nil (layer : SecurityLayer κ) : Opens layer [] [] layer
  | cons {layer next last : SecurityLayer κ} {token pdu : List UInt8}
    {tokens : List (List UInt8)} {message : μ} {messages : List μ} :
    layer.open crypto token = some (pdu, next) → parsePdu pdu = some message →
      Opens next tokens messages last → Opens layer (token :: tokens) (message :: messages) last

variable {crypto parsePdu}

theorem Opens.trans {layer middle last : SecurityLayer κ} {tokens tokens' : List (List UInt8)}
    {messages messages' : List μ} (h : Opens crypto parsePdu layer tokens messages middle)
    (h' : Opens crypto parsePdu middle tokens' messages' last) :
    Opens crypto parsePdu layer (tokens ++ tokens') (messages ++ messages') last := by
  induction h with
  | nil layer => exact h'
  | cons hopen hparse _ ih => exact .cons hopen hparse (ih h')

namespace SaslAwareCodec

theorem decode_eq_message {codec codec' : SaslAwareCodec κ} {message : μ}
    (h : codec.decode crypto parsePdu = .message message codec') :
    ∃ token pdu, framing codec.buf = .token token codec'.buf ∧
      codec.layer.open crypto token = some (pdu, codec'.layer) ∧ parsePdu pdu = some message := by
  rw [decode] at h
  split at h
  · cases h
  · cases h
  · split at h
    · cases h
    · split at h
      · cases h
      · cases h
        exact ⟨_, _, ‹_›, ‹_›, ‹_›⟩

variable (crypto parsePdu)

/-- The messages of a buffer are those of the tokens at its front. -/
theorem drain_opens (fuel : Nat) (codec : SaslAwareCodec κ) :
    ∃ tokens last layer, Cuts codec.buf tokens last ∧
      Opens crypto parsePdu codec.layer tokens (codec.drain crypto parsePdu fuel).1 layer ∧
      ∀ codec' ∈ (codec.drain crypto parsePdu fuel).2, codec' = ⟨layer, last⟩ := by
  induction fuel generalizing codec with
  | zero => exact ⟨[], codec.buf, codec.layer, .nil _, .nil _, by simp [drain]⟩
  | succ fuel ih =>
    rw [drain]
    split
    case h_1 => exact ⟨[], codec.buf, codec.layer, .nil _, .nil _, by simp⟩
    case h_2 => exact ⟨[], codec.buf, codec.layer, .nil _, .nil _, by simp⟩
    case h_3 message codec' hdecode =>
      obtain ⟨token, pdu, hframe, hopen, hparse⟩ := decode_eq_message hdecode
      obtain ⟨tokens, last, layer, hcuts, hopens, hlast⟩ := ih codec'
      exact ⟨token :: tokens, last, layer, .cons hframe hcuts, .cons hopen hparse hopens, hlast⟩

/-- However the bytes arrive, the messages are those of the tokens at the front of the stream. -/
theorem deliver_opens (codec : SaslAwareCodec κ) (pieces : List (List UInt8)) :
    ∃ tokens last layer, Cuts (codec.buf ++ pieces.flatten) tokens last ∧
      Opens crypto parsePdu codec.layer tokens (codec.deliver crypto parsePdu pieces) layer := by
  induction pieces generalizing codec with
  | nil => exact ⟨[], _, codec.layer, .nil _, .nil _⟩
  | cons piece pieces ih =>
    set buf := codec.buf ++ piece with hbuf
    obtain ⟨tokens, last, layer, hcuts, hopens, hlast⟩ :=
      drain_opens crypto parsePdu (buf.length + 1) { codec with buf }
    have hwhole := hcuts.append pieces.flatten
    rw [List.flatten_cons, ← List.append_assoc, ← hbuf, deliver]
    split
    case h_1 messages hdrain =>
      rw [hdrain] at hopens
      exact ⟨tokens, _, layer, hwhole, hopens⟩
    case h_2 messages codec' hdrain =>
      rw [hdrain] at hopens hlast
      obtain rfl := hlast codec' rfl
      obtain ⟨tokens', last', layer', hcuts', hopens'⟩ := ih ⟨layer, last⟩
      exact ⟨tokens ++ tokens', last', layer', hwhole.trans hcuts', hopens.trans hopens'⟩

end SaslAwareCodec

end Cuts

section Traffic

variable {κ μ : Type}

/-- What the client has sealed for the server under the keys of a layer, in order; for a GSS layer
also its tokens, and the number of its first message. -/
structure Traffic (κ : Type) where
  sent : List (List UInt8)
  first : UInt64
  wraps : List (Gss.Wrap κ)
  signed : List (Gss.Signed κ)

namespace Traffic

variable (traffic : Traffic κ)

/-- How much of the key stream the client has used before a message. -/
def positionOf (i : Nat) : Nat := ((traffic.sent.take i).map fun pdu => pdu.length + 8).sum

/-- The number of a message of the client. -/
def numberOf (i : Nat) : UInt64 := traffic.first + .ofNat i

/-- Checksums and signatures verify only over what the client has sealed, for a sealing layer in
the tokens that are delivered, and the client uses the number of a message for nothing else. -/
def Sealed (crypto : LayerCrypto κ) (delivered : Set (List UInt8)) : SecurityLayer κ → Prop
  | .gss subkey true =>
    Gss.Ideal crypto.suite traffic.wraps (Set.image (.contiguous subkey .initiator) delivered) ∧
    ∀ w ∈ traffic.wraps, w.key = subkey → w.usage = .initiator → ∀ i ≤ traffic.sent.length,
      w.sequence = traffic.numberOf i → traffic.sent[i]? = some w.data
  | .gss subkey false => crypto.checksum.Ideal traffic.signed ∧
    ∀ w ∈ traffic.signed, w.key = subkey → w.usage = .initiator → ∀ i ≤ traffic.sent.length,
      w.sequence = traffic.numberOf i → traffic.sent[i]? = some w.data
  | .ntlm ctx => ctx.position = 0 ∧ ctx.recvSeq = 0 ∧
    ∀ position seq message signature,
      crypto.verifies ctx.key position seq message signature = true →
        ∃ i, traffic.sent[i]? = some message ∧
          position = traffic.positionOf i + message.length ∧ seq = i % 2 ^ 32

/-- A token of the client stands in its place of the stream: its number is that of the place, and
the count of filler bytes that travels with it is the one that was sealed. An NTLM layer sees to
this itself. -/
def InTurn (crypto : LayerCrypto κ) (i : Nat) (token : List UInt8) : SecurityLayer κ → Prop
  | .gss subkey true => ∀ w, Gss.Sealing crypto.suite traffic.wraps subkey .initiator
      (Gss.carried (token.drop Gss.wrapHeaderLen) (token.take Gss.wrapHeaderLen)) w →
    w.sequence = traffic.numberOf i ∧ Gss.extraCount token = w.ec
  | .gss subkey false => ∀ sequence data,
    Gss.gssUnwrapIntegrity crypto.checksum subkey .initiator token = some (sequence, data) →
      sequence = traffic.numberOf i
  | .ntlm _ => True

/-- All tokens of a stream stand in their places. -/
def InOrder (crypto : LayerCrypto κ) (layer : SecurityLayer κ) (stream : List UInt8) : Prop :=
  ∀ tokens last, Cuts stream tokens last →
    ∀ i token, tokens[i]? = some token → traffic.InTurn crypto i token layer

/-- A layer after it has opened some of the messages. -/
def layerAfter (n : Nat) : SecurityLayer κ → SecurityLayer κ
  | .gss subkey confidential => .gss subkey confidential
  | .ntlm ctx => .ntlm ⟨ctx.key, traffic.positionOf n, n % 2 ^ 32⟩

variable {traffic}

theorem positionOf_succ {i : Nat} {pdu : List UInt8} (h : traffic.sent[i]? = some pdu) :
    traffic.positionOf (i + 1) = traffic.positionOf i + pdu.length + 8 := by
  rw [positionOf, List.take_add_one, h, positionOf]
  simp [Nat.add_assoc]

theorem positionOf_lt {i j : Nat} (hij : i < j) (hj : j ≤ traffic.sent.length) :
    traffic.positionOf i < traffic.positionOf j := by
  induction j, hij using Nat.le_induction with
  | base =>
    rw [positionOf_succ (List.getElem?_eq_getElem hj)]
    omega
  | succ j hij ih =>
    have hlt := ih (by omega)
    rw [positionOf_succ (List.getElem?_eq_getElem hj)]
    omega

theorem positionOf_inj {i j : Nat} (hi : i ≤ traffic.sent.length) (hj : j ≤ traffic.sent.length)
    (h : traffic.positionOf i = traffic.positionOf j) : i = j := by
  rcases Nat.lt_trichotomy i j with hlt | heq | hgt
  · exact absurd h (positionOf_lt hlt hj).ne
  · exact heq
  · exact absurd h (positionOf_lt hgt hi).ne'

theorem layerAfter_zero {crypto : LayerCrypto κ} {layer : SecurityLayer κ}
    {delivered : Set (List UInt8)} (h : traffic.Sealed crypto delivered layer) :
      traffic.layerAfter 0 layer = layer := by
  cases layer with
  | gss => rfl
  | ntlm ctx =>
    obtain ⟨hposition, hseq, -⟩ := h
    cases ctx
    simp_all [layerAfter, positionOf]

variable {crypto : LayerCrypto κ} {layer next : SecurityLayer κ} {token pdu : List UInt8} {n : Nat}
  {delivered : Set (List UInt8)}

section Steps

variable {subkey : κ} (hn : n ≤ traffic.sent.length)

include hn

theorem next_of_unseal (h : traffic.Sealed crypto delivered (.gss subkey true))
    (htoken : token ∈ delivered) {sequence : UInt64}
    (hturn : traffic.InTurn crypto n token (.gss subkey true))
    (hopen : Gss.gssUnsealToken crypto.suite subkey .initiator token = some (sequence, pdu)) :
    traffic.sent[n]? = some pdu := by
  obtain ⟨-, -, w, hw, -, hcount, rfl⟩ := (h.1.gssUnsealToken_eq_some ⟨token, htoken, rfl⟩).mp hopen
  obtain ⟨hseq, hec⟩ := hturn w hw
  rw [(w.cut_eq_data_iff hcount).mpr hec]
  exact h.2 w hw.mem hw.key hw.usage n hn hseq

theorem next_of_unwrap (h : traffic.Sealed crypto delivered (.gss subkey false)) {sequence : UInt64}
    (hturn : traffic.InTurn crypto n token (.gss subkey false))
    (hopen : Gss.gssUnwrapIntegrity crypto.checksum subkey .initiator token =
      some (sequence, pdu)) :
    traffic.sent[n]? = some pdu :=
  h.2 _ (h.1.signed_of_unwrap hopen) rfl rfl n hn (hturn _ _ hopen)

/-- The position of the key stream leaves one message that the signature can be of. -/
theorem next_of_ntlm {ctx ctx' : NtlmReceiver κ} (h : traffic.Sealed crypto delivered (.ntlm ctx))
    (hopen : NtlmReceiver.unseal crypto ⟨ctx.key, traffic.positionOf n, n % 2 ^ 32⟩ token =
      some (pdu, ctx')) :
    traffic.sent[n]? = some pdu ∧
      ctx' = ⟨ctx.key, traffic.positionOf (n + 1), (n + 1) % 2 ^ 32⟩ := by
  simp only [NtlmReceiver.unseal] at hopen
  split_ifs at hopen with hlen hverifies
  obtain ⟨rfl, rfl⟩ := Prod.mk.inj (Option.some.inj hopen)
  obtain ⟨i, hi, hposition, -⟩ := h.2.2 _ _ _ _ hverifies
  rw [crypto.length_rc4] at hposition
  have hlt : i < traffic.sent.length := (List.getElem?_eq_some_iff.mp hi).1
  obtain rfl : i = n := positionOf_inj hlt.le hn (by omega)
  refine ⟨hi, ?_⟩
  rw [positionOf_succ hi, crypto.length_rc4, Nat.mod_add_mod]

/-- A layer that has opened the first messages opens the next one, or nothing. -/
theorem open_layerAfter (h : traffic.Sealed crypto delivered layer) (htoken : token ∈ delivered)
    (hturn : traffic.InTurn crypto n token layer)
    (hopen : (traffic.layerAfter n layer).open crypto token = some (pdu, next)) :
    traffic.sent[n]? = some pdu ∧ next = traffic.layerAfter (n + 1) layer := by
  cases layer with
  | gss subkey confidential =>
    cases confidential with
    | true =>
      obtain ⟨⟨sequence, data⟩, hunseal, heq⟩ := Option.map_eq_some_iff.mp hopen
      obtain ⟨rfl, rfl⟩ := Prod.mk.inj heq
      exact ⟨next_of_unseal hn h htoken hturn hunseal, rfl⟩
    | false =>
      obtain ⟨⟨sequence, data⟩, hunwrap, heq⟩ := Option.map_eq_some_iff.mp hopen
      obtain ⟨rfl, rfl⟩ := Prod.mk.inj heq
      exact ⟨next_of_unwrap hn h hturn hunwrap, rfl⟩
  | ntlm ctx =>
    obtain ⟨⟨data, ctx'⟩, hunseal, heq⟩ := Option.map_eq_some_iff.mp hopen
    obtain ⟨rfl, rfl⟩ := Prod.mk.inj heq
    obtain ⟨hsent, rfl⟩ := next_of_ntlm hn h hunseal
    exact ⟨hsent, rfl⟩

end Steps

/-- The messages opened from some place on are those that the client sealed from that place on. -/
theorem opens_sent {parsePdu : List UInt8 → Option μ} (h : traffic.Sealed crypto delivered layer)
    {tokens : List (List UInt8)} {messages : List μ} {start last : SecurityLayer κ}
    (hopens : Opens crypto parsePdu start tokens messages last)
    (hstart : start = traffic.layerAfter n layer) (hn : n ≤ traffic.sent.length)
    (htokens : ∀ token ∈ tokens, token ∈ delivered)
    (hturn : ∀ i token, tokens[i]? = some token → traffic.InTurn crypto (n + i) token layer) :
    messages.map some <+: (traffic.sent.drop n).map parsePdu := by
  induction hopens generalizing n with
  | nil => exact List.nil_prefix
  | cons hopen hparse _ ih =>
    subst hstart
    obtain ⟨htoken, htokens⟩ := List.forall_mem_cons.mp htokens
    obtain ⟨hsent, hnext⟩ := open_layerAfter hn h htoken (hturn 0 _ rfl) hopen
    have hlt : n < traffic.sent.length := (List.getElem?_eq_some_iff.mp hsent).1
    have hrest := ih hnext hlt htokens fun i token hi => by
      rw [Nat.add_assoc, Nat.add_comm 1 i]
      exact hturn (i + 1) token hi
    rw [List.drop_eq_getElem_cons hlt, List.map_cons, List.map_cons,
      ← (List.getElem?_eq_some_iff.mp hsent).2.symm, hparse]
    exact List.cons_prefix_cons.mpr ⟨rfl, hrest⟩

end Traffic

/-- The tokens that a stream can be cut into. -/
def framed (stream : List UInt8) : Set (List UInt8) :=
  {token | ∃ tokens last, Cuts stream tokens last ∧ token ∈ tokens}

/-- Whatever arrives, in whatever pieces: the server processes the first messages of those that the
client sealed, in their order, if no genuine token of a GSS layer stands out of turn in the
stream. -/
theorem protected_stream {crypto : LayerCrypto κ} {parsePdu : List UInt8 → Option μ}
    {traffic : Traffic κ} {layer : SecurityLayer κ} (buf : List UInt8) (pieces : List (List UInt8))
    (sealing : traffic.Sealed crypto (framed (buf ++ pieces.flatten)) layer)
    (order : traffic.InOrder crypto layer (buf ++ pieces.flatten)) :
    (SaslAwareCodec.deliver crypto parsePdu ⟨layer, buf⟩ pieces).map some <+:
      traffic.sent.map parsePdu := by
  obtain ⟨tokens, last, layer', hcuts, hopens⟩ :=
    SaslAwareCodec.deliver_opens crypto parsePdu ⟨layer, buf⟩ pieces
  refine Traffic.opens_sent sealing hopens (Traffic.layerAfter_zero sealing).symm
    (Nat.zero_le _) (fun token hmem => ⟨tokens, last, hcuts, hmem⟩) fun i token hi => ?_
  rw [Nat.zero_add]
  exact order tokens last hcuts i token hi

end Traffic

section Sample

def sealedWrap : Gss.Wrap Unit :=
  { Gss.sampleWrap with data := [1, 2, 3], ec := 13, made := .inl ⟨rfl, rfl, rfl⟩ }

/-- The client has protected one message, with the number 7. -/
def oneMessage : Traffic Unit :=
  ⟨[[1, 2, 3]], 7, [sealedWrap], [⟨(), .initiator, 7, [1, 2, 3]⟩]⟩

def zeroChecksum : List UInt8 := List.replicate 12 0

def oneMessageCrypto : LayerCrypto Unit where
  suite := Gss.plainSuite
  checksum := {
    derives := fun _ => true
    mac := fun _ _ _ => zeroChecksum
    verifies := fun _ usage text tag => decide (usage = .initiator ∧
      text = Gss.signedText 7 [1, 2, 3] ∧ tag = zeroChecksum)
    length_mac := fun _ _ _ => rfl }
  rc4 := fun _ _ text => text
  verifies := fun _ position seq message signature =>
    position = 3 && seq = 0 && message = [1, 2, 3] && signature = List.replicate 16 0
  length_rc4 := fun _ _ _ => rfl

def signedToken : List UInt8 := Gss.cfxHeader 0x05 12 0 7 ++ [1, 2, 3] ++ zeroChecksum

def signedFrame : List UInt8 := Lib.Ndr.beBytes 4 31 ++ signedToken

def sealedToken : List UInt8 :=
  let (body, auth) := Gss.layOut .initiator 13 7 (sealedWrap.cipherText Gss.plainSuite)
  auth ++ body

def sealedFrame : List UInt8 := Lib.Ndr.beBytes 4 76 ++ sealedToken

def ntlmFrame : List UInt8 := Lib.Ndr.beBytes 4 19 ++ List.replicate 16 0 ++ [1, 2, 3]

theorem sent_of_number {i : Nat} (hi : i ≤ oneMessage.sent.length)
    (h : (7 : UInt64) = oneMessage.numberOf i) : oneMessage.sent[i]? = some [1, 2, 3] := by
  have hle : i ≤ 1 := hi
  interval_cases i
  · rfl
  · exact absurd h (by decide)

theorem oneMessage_signed (delivered : Set (List UInt8)) :
    oneMessage.Sealed oneMessageCrypto delivered (.gss () false) := by
  refine ⟨⟨fun key usage text tag => ?_⟩, fun w hw _ _ i hi hseq => ?_⟩
  · simp only [oneMessageCrypto, oneMessage, decide_eq_true_eq, List.mem_singleton,
      exists_eq_left, true_and]
    constructor
    · rintro ⟨rfl, rfl, rfl⟩
      exact ⟨rfl, rfl, rfl⟩
    · rintro ⟨rfl, rfl, rfl⟩
      exact ⟨rfl, rfl, rfl⟩
  · obtain rfl := List.mem_singleton.mp hw
    exact sent_of_number hi hseq

theorem oneMessage_sealed {delivered : Set (List UInt8)}
    (h : ∀ token ∈ delivered, token = sealedToken) :
    oneMessage.Sealed oneMessageCrypto delivered (.gss () true) := by
  refine ⟨Gss.plainSuite_ideal ?_, fun w hw _ _ i hi hseq => ?_⟩
  · rintro _ ⟨token, htoken, rfl⟩
    rw [h token htoken]
    decide +kernel
  · obtain rfl := List.mem_singleton.mp hw
    exact sent_of_number hi hseq

theorem oneMessage_ntlm (delivered : Set (List UInt8)) :
    oneMessage.Sealed oneMessageCrypto delivered (.ntlm ⟨(), 0, 0⟩) := by
  refine ⟨rfl, rfl, fun position seq message signature h => ⟨0, ?_⟩⟩
  simp only [oneMessageCrypto, Bool.and_eq_true, decide_eq_true_eq] at h
  obtain ⟨⟨⟨rfl, rfl⟩, rfl⟩, -⟩ := h
  exact ⟨rfl, rfl, rfl⟩

/-- A stream of one frame holds its token only. -/
theorem Cuts.of_frame {stream token last x : List UInt8} {tokens : List (List UInt8)} {i : Nat}
    (hframe : framing stream = .token token []) (h : Cuts stream tokens last)
    (hi : tokens[i]? = some x) : i = 0 ∧ x = token := by
  cases h with
  | nil => cases hi
  | cons hframe' hrest =>
    obtain ⟨rfl, rfl⟩ := Framing.token.inj (hframe.symm.trans hframe')
    cases hrest with
    | cons hframe'' _ => cases hframe''
    | nil =>
      cases i with
      | zero => exact ⟨rfl, (Option.some.inj hi).symm⟩
      | succ i => cases hi

/-- What comes out of a frame that arrives in two pieces. -/
def inTwoPieces (layer : SecurityLayer Unit) (frame : List UInt8) : List (List UInt8) :=
  SaslAwareCodec.deliver oneMessageCrypto some ⟨layer, []⟩ [frame.take 9, frame.drop 9]

theorem protected_stream_two_pieces :
    (inTwoPieces (.gss () false) signedFrame = [[1, 2, 3]] ∧
      (inTwoPieces (.gss () false) signedFrame).map some <+: oneMessage.sent.map some) ∧
    (inTwoPieces (.gss () true) sealedFrame = [[1, 2, 3]] ∧
      (inTwoPieces (.gss () true) sealedFrame).map some <+: oneMessage.sent.map some) ∧
    inTwoPieces (.ntlm ⟨(), 0, 0⟩) ntlmFrame = [[1, 2, 3]] ∧
      (inTwoPieces (.ntlm ⟨(), 0, 0⟩) ntlmFrame).map some <+: oneMessage.sent.map some := by
  have hflat (frame : List UInt8) : [] ++ [frame.take 9, frame.drop 9].flatten = frame := by simp
  have hsealed : framing sealedFrame = .token sealedToken [] := by rfl
  have hsigned : framing signedFrame = .token signedToken [] := by rfl
  refine ⟨⟨by decide +kernel, protected_stream [] _ (oneMessage_signed _) ?_⟩,
    ⟨by decide +kernel, protected_stream [] _ (oneMessage_sealed ?_) ?_⟩,
    by decide +kernel, protected_stream [] _ (oneMessage_ntlm _) ?_⟩ <;>
    rw [hflat]
  · intro tokens last hcuts i token hi sequence data hopen
    obtain ⟨rfl, rfl⟩ := Cuts.of_frame hsigned hcuts hi
    have hmade := List.mem_singleton.mp ((oneMessage_signed ∅).1.signed_of_unwrap hopen)
    exact (Gss.Signed.mk.inj hmade).2.2.1
  · rintro token ⟨tokens, last, hcuts, hmem⟩
    obtain ⟨i, hi⟩ := List.getElem?_of_mem hmem
    exact (Cuts.of_frame hsealed hcuts hi).2
  · intro tokens last hcuts i token hi w hw
    obtain ⟨rfl, rfl⟩ := Cuts.of_frame hsealed hcuts hi
    obtain rfl := List.mem_singleton.mp hw.mem
    exact ⟨rfl, by decide +kernel⟩
  · intro tokens last hcuts i token hi
    trivial

/-- The frame arrives twice. -/
theorem replayed_request :
    (∀ delivered, oneMessage.Sealed oneMessageCrypto delivered (.gss () false)) ∧
    SaslAwareCodec.deliver oneMessageCrypto some ⟨.gss () false, []⟩ [signedFrame, signedFrame] =
      [[1, 2, 3], [1, 2, 3]] ∧
    ¬ (SaslAwareCodec.deliver oneMessageCrypto some ⟨.gss () false, []⟩
      [signedFrame, signedFrame]).map some <+: oneMessage.sent.map some :=
  ⟨oneMessage_signed, by decide +kernel, by decide +kernel⟩

end Sample

end Magnetite.Ldap
