import Magnetite.Dns.Update
import Magnetite.Lib.History
import Mathlib.Logic.Function.Basic

/-!
# Secured dynamic updates

A TKEY exchange leaves a session key under the name of the context, and an update is carried out if
its MIC is one of the named context's key over the message and the variables of the TSIG record.

Signatures are ideal: a MIC is the value that names its key, direction and sequence number and all
that it covers.
-/
namespace Magnetite.Dns

deriving instance DecidableEq for UpdateRr, UpdateMessage

namespace Gss

open Magnetite.Lib

variable {ν : Type}

abbrev SessionKey := List UInt8

/-- The variables of a TSIG record that its MAC covers. -/
structure Tsig (ν : Type) where
  keyName : ν
  time : ℕ
  fudge : ℕ
deriving DecidableEq

/-- What the MIC of a request covers. -/
structure Signed (ν : Type) where
  id : UInt16
  body : UpdateMessage ν
  tsig : Tsig ν
deriving DecidableEq

structure Mic (ν : Type) where
  key : SessionKey
  byAcceptor : Bool
  sequence : UInt64
  covers : Signed ν
deriving DecidableEq

/-- An update with a GSS-TSIG record; the octets of its MAC may be no MIC at all. -/
structure UpdateRequest (ν : Type) where
  signed : Signed ν
  mac : Option (Mic ν)
deriving DecidableEq

/-- A TKEY record, with the acceptor subkey if its token holds an AP-REQ that verifies. -/
structure Tkey (ν : Type) where
  keyName : ν
  mode : UInt16
  expiration : ℕ
  established : Option SessionKey
deriving DecidableEq

inductive Message (ν : Type) where
  | tkey (t : Tkey ν)
  | update (r : UpdateRequest ν)
  /-- An update without a GSS-TSIG record. -/
  | unsigned (body : UpdateMessage ν)
deriving DecidableEq

def modeGssApi : UInt16 := 3

/-- Neither `inception` nor `expiration` is looked at. -/
def negotiate (t : Tkey ν) : Option SessionKey :=
  if t.mode = modeGssApi then t.established else none

/-- The key of a negotiation, on a server that may have no service key. -/
def acceptTkey (gss : Bool) (t : Tkey ν) : Option SessionKey := if gss then negotiate t else none

/-- `verify_request`: the time range that comes with the digest is not used, and neither is the
sequence number. -/
def verifyRequest [DecidableEq ν] (key : SessionKey) (r : UpdateRequest ν) : Bool :=
  r.mac.any fun mic => mic.key == key && mic.covers == r.signed

structure Server where
  /-- Whether the server has the service key. -/
  gssEnabled : Bool
  contexts : String → Option SessionKey
  db : ZoneDb
  now : ℕ

inductive Output where
  | none
  | refused
  | negotiated
  | updated (code : ResponseCode)
deriving DecidableEq

/-- The name under which a context is kept. -/
def contextName (c : Codec ν) (name : ν) : String := normalizeName (c.printName name)

/-- The message is received; `faults` are the failures of the store meanwhile. -/
def Server.deliver [DecidableEq ν] (c : Codec ν) (s : Server) (faults : List Bool) :
    Message ν → Server × Output
  | .tkey t =>
    match acceptTkey s.gssEnabled t with
    | .none => (s, .refused)
    | some key =>
      ({ s with contexts := Function.update s.contexts (contextName c t.keyName) (some key) },
        .negotiated)
  | .update r =>
    match s.contexts (contextName c r.signed.tsig.keyName) with
    | .none => (s, .refused)
    | some key =>
      if verifyRequest key r then
        let (code, session) := handleUpdate c r.signed.body (fun _ => s.now) ⟨s.db, faults, 0⟩
        ({ s with db := session.db },
          .updated (match code with
            | .ok code => code
            | .error _ => .servFail))
      else (s, .refused)
  | .unsigned _ => (s, .refused)

inductive Event (ν : Type) where
  | deliver (faults : List Bool) (m : Message ν)
  | tick (d : ℕ)
  /-- Another writer changes the zones. -/
  | write (db : ZoneDb)

def Server.step [DecidableEq ν] (c : Codec ν) (s : Server) : Event ν → Server × Output
  | .deliver faults m => s.deliver c faults m
  | .tick d => ({ s with now := s.now + d }, .none)
  | .write db => ({ s with db := db }, .none)

abbrev Label (ν : Type) := Event ν × Output

def Step [DecidableEq ν] (c : Codec ν) (s : Server) (l : Label ν) (t : Server) : Prop :=
  s.step c l.1 = (t, l.2)

/-- The labels of a sequence of events, and the server after them. -/
def runAll [DecidableEq ν] (c : Codec ν) : Server → List (Event ν) → List (Label ν) × Server
  | s, [] => ([], s)
  | s, e :: events =>
    let (t, out) := s.step c e
    let (labels, u) := runAll c t events
    ((e, out) :: labels, u)

theorem run_runAll [DecidableEq ν] (c : Codec ν) (s : Server) (events : List (Event ν)) :
    Run (Step c) s (runAll c s events).1 (runAll c s events).2 := by
  induction events generalizing s with
  | nil => exact .nil s
  | cons e events ih => exact .cons rfl (ih _)

theorem runAll_fst [DecidableEq ν] (c : Codec ν) (s : Server) (events : List (Event ν)) :
    (runAll c s events).1 = events.zip ((runAll c s events).1.map Prod.snd) := by
  induction events generalizing s with
  | nil => rfl
  | cons e events ih => exact congrArg _ (ih _)

/-! ## Histories -/

section History
variable (c : Codec ν) (gss : Bool)

/-- What an event says about the context of a name: its new key and when the TKEY record says
that it expires. -/
def Event.negotiates (name : String) : Event ν → Option (SessionKey × ℕ)
  | .deliver _ (.tkey t) =>
    if contextName c t.keyName = name then (acceptTkey gss t).map (·, t.expiration) else none
  | _ => none

/-- The last negotiation of the context. -/
def negotiated (past : List (Label ν)) (name : String) : Option (SessionKey × ℕ) :=
  past.foldl (fun known l => (l.1.negotiates c gss name).or known) none

/-- The MIC is one of the context's key over the request. -/
def Verifies (past : List (Label ν)) (r : UpdateRequest ν) : Prop :=
  ∃ mic key expiration, r.mac = some mic ∧
    negotiated c gss past (contextName c r.signed.tsig.keyName) = some (key, expiration) ∧
    mic.key = key ∧ mic.covers = r.signed

end History

theorem negotiated_append {c : Codec ν} {gss : Bool} {past : List (Label ν)} (l : Label ν)
    (name : String) :
    negotiated c gss (past ++ [l]) name =
      (l.1.negotiates c gss name).or (negotiated c gss past name) := by
  simp [negotiated, List.foldl_append]

/-- Behind `past`, the request arrives. -/
def Arrives (labels past : List (Label ν)) (r : UpdateRequest ν) : Prop :=
  ∃ faults out future, labels = past ++ (.deliver faults (.update r), out) :: future

/-- Behind `past`, the request is carried out. -/
def Applied (labels past : List (Label ν)) (r : UpdateRequest ν) : Prop :=
  ∃ faults code future, labels = past ++ (.deliver faults (.update r), .updated code) :: future

/-- The clock is within the fudge of the signed time. -/
def Tsig.Fresh (t : Tsig ν) (now : ℕ) : Prop := t.time ≤ now + t.fudge ∧ now ≤ t.time + t.fudge

section Run
variable [DecidableEq ν] {c : Codec ν} {s₀ s t : Server} {labels past : List (Label ν)}

/-- The request comes in time, and before the context expires. -/
def Timely (c : Codec ν) (s₀ : Server) (past : List (Label ν)) (r : UpdateRequest ν) : Prop :=
  ∃ s, Run (Step c) s₀ past s ∧ r.signed.tsig.Fresh s.now ∧
    ∀ key expiration,
      negotiated c s₀.gssEnabled past (contextName c r.signed.tsig.keyName) =
        some (key, expiration) → s.now ≤ expiration

theorem verifyRequest_iff {key : SessionKey} {r : UpdateRequest ν} :
    verifyRequest key r = true ↔
      ∃ mic, r.mac = some mic ∧ mic.key = key ∧ mic.covers = r.signed := by
  cases hmac : r.mac with
  | none => simp [verifyRequest, hmac]
  | some mic => simp [verifyRequest, hmac]

/-- The contexts that the server keeps are the negotiated ones, whatever their age. -/
structure Keeps (c : Codec ν) (s₀ : Server) (past : List (Label ν)) (s : Server) : Prop where
  enabled : s.gssEnabled = s₀.gssEnabled
  contexts : ∀ name, s.contexts name = (negotiated c s₀.gssEnabled past name).map Prod.fst

theorem deliver_update {faults : List Bool} {r : UpdateRequest ν} :
    ((s.deliver c faults (.update r)).1.gssEnabled = s.gssEnabled ∧
      (s.deliver c faults (.update r)).1.contexts = s.contexts) ∧
    ((∃ code, (s.deliver c faults (.update r)).2 = .updated code) ↔
      ∃ key, s.contexts (contextName c r.signed.tsig.keyName) = some key ∧
        verifyRequest key r = true) := by
  cases hkey : s.contexts (contextName c r.signed.tsig.keyName) with
  | none => simp [Server.deliver, hkey]
  | some key =>
    by_cases hv : verifyRequest key r = true
    · simp [Server.deliver, hkey, hv]
    · simp [Server.deliver, hkey, hv]

omit [DecidableEq ν] in
theorem Keeps.same (h : Keeps c s₀ past s) {l : Label ν} (henabled : t.gssEnabled = s.gssEnabled)
    (hcontexts : t.contexts = s.contexts)
    (hquiet : ∀ name, l.1.negotiates c s₀.gssEnabled name = none) :
    Keeps c s₀ (past ++ [l]) t where
  enabled := henabled.trans h.enabled
  contexts name := by rw [negotiated_append, hquiet, hcontexts]; exact h.contexts name

theorem Keeps.tkey (h : Keeps c s₀ past s) (faults : List Bool) (k : Tkey ν) (out : Output) :
    Keeps c s₀ (past ++ [(.deliver faults (.tkey k), out)]) (s.deliver c faults (.tkey k)).1 := by
  have henabled := h.enabled
  cases hkey : acceptTkey s.gssEnabled k with
  | none =>
    refine h.same (by simp [Server.deliver, hkey]) (by simp [Server.deliver, hkey]) fun name => ?_
    simp [Event.negotiates, ← henabled, hkey]
  | some key =>
    refine ⟨by simpa [Server.deliver, hkey] using henabled, fun name => ?_⟩
    rw [negotiated_append]
    simp only [Server.deliver, hkey, Event.negotiates, ← henabled, Function.update_apply]
    by_cases hname : name = contextName c k.keyName
    · simp [hname]
    · rw [if_neg hname, if_neg (Ne.symm hname), Option.none_or, henabled]
      exact h.contexts name

theorem keeps_of_run (start : ∀ name, s₀.contexts name = none)
    (run : Run (Step c) s₀ past s) : Keeps c s₀ past s := by
  refine Run.induction_last ⟨rfl, fun name => by simp [start, negotiated]⟩ ?_ run
  rintro past s ⟨e, out⟩ t - h hstep
  obtain rfl : (s.step c e).1 = t := congrArg Prod.fst hstep
  cases e with
  | deliver faults m =>
    cases m with
    | tkey k => exact h.tkey faults k out
    | update r =>
      exact h.same deliver_update.1.1 deliver_update.1.2 fun name => rfl
    | unsigned body => exact h.same rfl rfl fun name => rfl
  | tick d => exact h.same rfl rfl fun name => rfl
  | write db => exact h.same rfl rfl fun name => rfl

/-- A request that arrives is carried out exactly if it verifies. -/
theorem applied_iff (start : ∀ name, s₀.contexts name = none) (run : Run (Step c) s₀ labels t)
    (r : UpdateRequest ν) :
    Applied labels past r ↔ Arrives labels past r ∧ Verifies c s₀.gssEnabled past r := by
  -- the outcome of a delivery, from the contexts that the server keeps
  have outcome : ∀ {faults out future},
      labels = past ++ (.deliver faults (.update r), out) :: future →
      ((∃ code, out = .updated code) ↔ Verifies c s₀.gssEnabled past r) := by
    rintro faults out future rfl
    obtain ⟨s, s', before, hstep, -⟩ := run.split_at
    obtain rfl : (s.deliver c faults (.update r)).2 = out := congrArg Prod.snd hstep
    rw [deliver_update.2, (keeps_of_run start before).contexts]
    simp only [verifyRequest_iff, Option.map_eq_some_iff, Verifies]
    constructor
    · rintro ⟨_, ⟨⟨key, expiration⟩, hneg, rfl⟩, mic, hmac, hkey, hcovers⟩
      exact ⟨mic, key, expiration, hmac, hneg, hkey, hcovers⟩
    · rintro ⟨mic, key, expiration, hmac, hneg, hkey, hcovers⟩
      exact ⟨key, ⟨⟨key, expiration⟩, hneg, rfl⟩, mic, hmac, hkey, hcovers⟩
  constructor
  · rintro ⟨faults, code, future, hlabels⟩
    exact ⟨⟨faults, _, future, hlabels⟩, (outcome hlabels).mp ⟨code, rfl⟩⟩
  · rintro ⟨⟨faults, out, future, hlabels⟩, verifies⟩
    obtain ⟨code, rfl⟩ := (outcome hlabels).mpr verifies
    exact ⟨faults, code, future, hlabels⟩

/-- What secured updates have to satisfy: a signature is used once, in its time, under a context
that was negotiated and has not expired. -/
structure Secured (c : Codec ν) (s₀ : Server) (labels : List (Label ν)) : Prop where
  once : ∀ past past' r r', Applied labels past r → Applied labels past' r' → r.mac = r'.mac →
    past = past'
  context : ∀ past r, Applied labels past r → Verifies c s₀.gssEnabled past r
  timely : ∀ past r, Applied labels past r → Timely c s₀ past r

/-- The server secures updates exactly if no signature that verifies arrives twice, out of its
time, or after its context has expired: it checks none of this. -/
theorem secured_iff (c : Codec ν) (s₀ t : Server) (start : ∀ name, s₀.contexts name = none)
    (labels : List (Label ν)) (run : Run (Step c) s₀ labels t) :
    Secured c s₀ labels ↔
      (∀ past past' r r', Arrives labels past r → Arrives labels past' r' →
        Verifies c s₀.gssEnabled past r → Verifies c s₀.gssEnabled past' r' →
        r.mac = r'.mac → past = past') ∧
      ∀ past r, Arrives labels past r → Verifies c s₀.gssEnabled past r →
        Timely c s₀ past r := by
  have applied : ∀ past r, Applied labels past r ↔
      Arrives labels past r ∧ Verifies c s₀.gssEnabled past r :=
    fun past r => applied_iff start run r
  constructor
  · rintro ⟨once, -, timely⟩
    refine ⟨fun past past' r r' ha ha' hv hv' => ?_, fun past r ha hv => ?_⟩
    · exact once past past' r r' ((applied past r).mpr ⟨ha, hv⟩) ((applied past' r').mpr ⟨ha', hv'⟩)
    · exact timely past r ((applied past r).mpr ⟨ha, hv⟩)
  · rintro ⟨once, timely⟩
    refine ⟨fun past past' r r' ha ha' => ?_, fun past r ha => ((applied past r).mp ha).2,
      fun past r ha => ?_⟩
    · obtain ⟨harr, hv⟩ := (applied past r).mp ha
      obtain ⟨harr', hv'⟩ := (applied past' r').mp ha'
      exact once past past' r r' harr harr' hv hv'
    · obtain ⟨harr, hv⟩ := (applied past r).mp ha
      exact timely past r harr hv

end Run

namespace Sample

def server : Server := ⟨true, fun _ => none, primaryDb, 1000⟩

def session : Tkey String := ⟨"ctx", modeGssApi, 2000, some [1]⟩

def noteAdded : Signed String := ⟨7, updating [noteUpdate "new" .in], ⟨"ctx", 1000, 300⟩⟩

def request : UpdateRequest String := ⟨noteAdded, some ⟨[1], false, 0, noteAdded⟩⟩

/-- The update is carried out, its record taken out again by another writer, and the same message
delivered once more after 5000 s. -/
def replay : List (Event String) :=
  [.deliver [] (.tkey session), .deliver [] (.update request), .write primaryDb, .tick 5000,
    .deliver [] (.update request)]

def replayOutputs : List Output :=
  [.negotiated, .updated .noError, .none, .none, .updated .noError]

theorem replayed_update_applied :
    ∃ labels past past' s t, Run (Step plainCodec) server labels t ∧
      Applied labels past request ∧ Applied labels past' request ∧ past ≠ past' ∧
      Run (Step plainCodec) server past' s ∧ ¬ noteAdded.tsig.Fresh s.now ∧
      negotiated plainCodec true past' "ctx" = some ([1], 2000) ∧ 2000 < s.now ∧
      Db.recordsOf t.db "z" ≠ Db.recordsOf s.db "z" := by
  have outputs : (runAll plainCodec server replay).1.map Prod.snd = replayOutputs := by
    decide +kernel
  have labels : (runAll plainCodec server replay).1 = replay.zip replayOutputs := by
    rw [← outputs]
    exact runAll_fst plainCodec server replay
  have before : (runAll plainCodec server (replay.take 4)).1 =
      (replay.take 4).zip (replayOutputs.take 4) := by
    have hout : (runAll plainCodec server (replay.take 4)).1.map Prod.snd =
        replayOutputs.take 4 := by decide +kernel
    rw [← hout]
    exact runAll_fst plainCodec server (replay.take 4)
  have run := run_runAll plainCodec server replay
  have run' := run_runAll plainCodec server (replay.take 4)
  rw [labels] at run
  rw [before] at run'
  refine ⟨_, replay.take 1 |>.zip (replayOutputs.take 1), _, _, _, run, ⟨[], .noError, _, rfl⟩,
    ⟨[], .noError, [], rfl⟩, fun he => ?_, run', ?_, by decide +kernel, by decide +kernel, ?_⟩
  · exact absurd (congrArg List.length he) (by decide)
  · unfold Tsig.Fresh
    decide +kernel
  · decide +kernel

/-- The update arrives once, in time. -/
def prompt : List (Label String) :=
  [(.deliver [] (.tkey session), .negotiated),
    (.deliver [] (.update request), .updated .noError)]

theorem arrives_prompt {past : List (Label String)} {r : UpdateRequest String}
    (h : Arrives prompt past r) : past = prompt.take 1 ∧ r = request := by
  obtain ⟨faults, out, future, hlabels⟩ := h
  match past with
  | [] => simp [prompt] at hlabels
  | [_] =>
    simp only [prompt, List.cons_append, List.nil_append, List.cons.injEq, Prod.mk.injEq,
      Event.deliver.injEq, Message.update.injEq] at hlabels
    exact ⟨by rw [← hlabels.1]; rfl, hlabels.2.1.1.2.symm⟩
  | _ :: _ :: rest =>
    have hlength := congrArg List.length hlabels
    simp [prompt] at hlength

theorem secured_iff_prompt :
    (∃ t, Run (Step plainCodec) server prompt t) ∧ Applied prompt (prompt.take 1) request ∧
      Secured plainCodec server prompt := by
  have outputs : (runAll plainCodec server (prompt.map Prod.fst)).1.map Prod.snd =
      prompt.map Prod.snd := by decide +kernel
  have run := run_runAll plainCodec server (prompt.map Prod.fst)
  rw [runAll_fst, outputs] at run
  have run' := run_runAll plainCodec server (prompt.map Prod.fst |>.take 1)
  refine ⟨⟨_, run⟩, ⟨[], .noError, [], rfl⟩,
    (secured_iff plainCodec server _ (fun _ => rfl) prompt run).mpr ⟨?_, ?_⟩⟩
  · intro past past' r r' h h' _ _ _
    rw [(arrives_prompt h).1, (arrives_prompt h').1]
  · intro past r h _
    obtain ⟨rfl, rfl⟩ := arrives_prompt h
    refine ⟨_, run', ⟨by decide +kernel, by decide +kernel⟩, fun key expiration hneg => ?_⟩
    have hlast : negotiated plainCodec true (prompt.take 1) "ctx" = some ([1], 2000) := by
      decide +kernel
    obtain ⟨-, rfl⟩ := Prod.mk.inj (Option.some.inj (hlast.symm.trans hneg))
    decide +kernel

end Sample

end Gss

end Magnetite.Dns
