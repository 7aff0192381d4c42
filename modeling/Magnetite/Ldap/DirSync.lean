import Magnetite.Lib.System
import Magnetite.Ldap.AdMap
import Magnetite.Ldap.AdUsn

/-!
# Import by DirSync

A pass asks the upstream server for what has changed until there is nothing more. An answer holds
objects, of which only the changed attributes need to be there, and marks of deleted objects. Each
answer is applied as if it were the whole object: the entry at its DN gets the attributes of the
answer and no others, and an object that has got another DN leaves its old entry behind.
-/
namespace Magnetite.Ldap

open Magnetite.Lib Db

section Pass

variable (lossy : List UInt8 → String) (opts : AdMapOpts)

structure Tally where
  applied : ℕ
  deleted : ℕ
deriving DecidableEq

def NormalizedAdEntry.toSync (n : NormalizedAdEntry) (dn guid : String) : SyncEntry :=
  ⟨dn, guid, n.objectClasses, n.attributes, n.enabled⟩

/-- An object without an identifier is passed over. -/
def applyAdEntry (entry : SearchResultEntry) (acc : Tally) : DbM Tally := do
  let n := normalizeAdEntry lossy opts entry
  match n.guid with
  | none => return acc
  | some guid =>
    if n.isDeleted then
      let gone ← applyLdapSyncDelete guid
      return if gone then { acc with deleted := acc.deleted + 1 } else acc
    else
      let _ ← applyLdapSyncEntry (n.toSync entry.dn guid)
      return { acc with applied := acc.applied + 1 }

end Pass

/-! ## What applying an answer does -/

section Effect

variable {lossy : List UInt8 → String} {opts : AdMapOpts} {d t : Directory} {e : SearchResultEntry}

/-- What an answer does to the directory. -/
def Absorbs (lossy : List UInt8 → String) (opts : AdMapOpts) (d : Directory) (e : SearchResultEntry)
    (t : Directory) : Prop :=
  match (normalizeAdEntry lossy opts e).guid with
  | none => t = d
  | some guid =>
    if (normalizeAdEntry lossy opts e).isDeleted then
      ∀ dn : String, t.entries[dn]? = d.entries[dn]?.filter fun rec => rec.sourceUuid ≠ some guid
    else AppliedTo d ((normalizeAdEntry lossy opts e).toSync e.dn guid) t

theorem applyAdEntry_spec (lossy : List UInt8 → String) (opts : AdMapOpts) (e : SearchResultEntry)
    (acc : Tally) (d : Directory) :
    Triple (· = d) (applyAdEntry lossy opts e acc) (fun _ => Absorbs lossy opts d e) (· = d) := by
  unfold applyAdEntry Absorbs
  dsimp only
  cases (normalizeAdEntry lossy opts e).guid with
  | none => exact Triple.pure fun _ h => h
  | some guid =>
    dsimp only
    split_ifs
    · exact Triple.bind (applyLdapSyncDelete_spec guid d) fun _ => Triple.pure fun _ h => h
    · exact Triple.thenPure (applyLdapSyncEntry_spec _ d)

/-- An answer that was applied without an error. -/
def applies (lossy : List UInt8 → String) (opts : AdMapOpts) (d : Directory) (e : SearchResultEntry)
    (t : Directory) : Prop :=
  ∃ (acc acc' : Tally) (clock : ℕ → ℕ) (s s' : Session Directory), s.db = d ∧
    applyAdEntry lossy opts e acc clock s = (.ok acc', s') ∧ s'.db = t

theorem applies.absorbs (h : applies lossy opts d e t) : Absorbs lossy opts d e t := by
  obtain ⟨acc, acc', clock, s, s', rfl, hrun, rfl⟩ := h
  have := (applyAdEntry_spec lossy opts e acc s.db).run clock s rfl
  rwa [hrun] at this

end Effect

/-! ## The upstream directory -/

section Upstream

variable (lossy : List UInt8 → String) (opts : AdMapOpts)

/-- The live objects by their identifiers. -/
abbrev Upstream := String → Option SearchResultEntry

/-- Attributes with the changed ones in their place; no values say that one is gone. -/
def mergeAttributes (held delta : List PartialAttribute) : List PartialAttribute :=
  held.filter (fun a => !delta.any (Text.eqIgnoreAsciiCase a.atype ·.atype)) ++
    delta.filter (·.vals ≠ [])

/-- What is known of the upstream directory after one more answer. -/
def Upstream.answer (u : Upstream) (e : SearchResultEntry) : Upstream :=
  match (normalizeAdEntry lossy opts e).guid with
  | none => u
  | some guid =>
    Function.update u guid <|
      if (normalizeAdEntry lossy opts e).isDeleted then none
      else some ⟨e.dn, mergeAttributes ((u guid).elim [] (·.attributes)) e.attributes⟩

/-- The entry that an object is to have. -/
def wanted (guid : String) (o : SearchResultEntry) : SyncEntry :=
  (normalizeAdEntry lossy opts o).toSync o.dn guid

/-- There is an entry for each live object, as it is mapped as a whole, and no other import. -/
structure Converged (u : Upstream) (d : Directory) : Prop where
  present : ∀ guid o, u guid = some o → (wanted lossy opts guid o).Applied d
  only : ∀ (dn : String) (rec : EntryRecord) (guid : String), d.entries[dn]? = some rec →
    rec.sourceUuid = some guid → ∃ o, u guid = some o ∧ dn = normalizeDn o.dn

/-- The answer has all attributes of the object, at the DN where it was, and no other live object
is there. -/
structure WholeAnswer (u : Upstream) (e : SearchResultEntry) (guid : String) : Prop where
  attributes : ∀ o, u guid = some o → ∀ a ∈ o.attributes,
    ∃ b ∈ e.attributes, Text.eqIgnoreAsciiCase a.atype b.atype
  values : ∀ a ∈ e.attributes, a.vals ≠ []
  place : ∀ o, u guid = some o → normalizeDn o.dn = normalizeDn e.dn
  free : ∀ other o, other ≠ guid → u other = some o → normalizeDn o.dn ≠ normalizeDn e.dn

/-- Every answer about a live object is a whole one. -/
def WholeAnswers : List SearchResultEntry → Upstream → Prop
  | [], _ => True
  | e :: es, u =>
    (∀ guid, (normalizeAdEntry lossy opts e).guid = some guid →
      (normalizeAdEntry lossy opts e).isDeleted = false → WholeAnswer u e guid) ∧
    WholeAnswers es (u.answer lossy opts e)

variable {lossy opts} {u : Upstream} {d t : Directory} {e : SearchResultEntry} {guid : String}

theorem WholeAnswer.merge (h : WholeAnswer u e guid) :
    mergeAttributes ((u guid).elim [] (·.attributes)) e.attributes = e.attributes := by
  have hkept : ((u guid).elim [] (·.attributes)).filter
      (fun a => !e.attributes.any (Text.eqIgnoreAsciiCase a.atype ·.atype)) = [] := by
    rw [List.filter_eq_nil_iff]
    intro a ha
    cases hu : u guid with
    | none =>
      rw [hu] at ha
      cases ha
    | some o =>
      rw [hu] at ha
      obtain ⟨b, hb, hname⟩ := h.attributes o hu a ha
      simpa using ⟨b, hb, hname⟩
  have hnew : e.attributes.filter (·.vals ≠ []) = e.attributes :=
    List.filter_eq_self.mpr fun a ha => decide_eq_true (h.values a ha)
  rw [mergeAttributes, hkept, hnew, List.nil_append]

theorem Converged.withdraw (h : Converged lossy opts u d)
    (hgone : ∀ dn : String,
      t.entries[dn]? = d.entries[dn]?.filter fun rec => rec.sourceUuid ≠ some guid) :
    Converged lossy opts (Function.update u guid none) t := by
  constructor
  · intro other o ho
    by_cases hother : other = guid
    · rw [hother, Function.update_self] at ho
      cases ho
    · rw [Function.update_of_ne hother] at ho
      obtain ⟨rec, hrec, hmatches⟩ := h.present other o ho
      refine ⟨rec, ?_, hmatches⟩
      have huuid : rec.sourceUuid ≠ some guid := by
        rw [hmatches.uuid]
        exact fun heq => hother (Option.some.inj heq)
      rw [hgone, hrec]
      simp [Option.filter, huuid]
  · intro dn rec other hrec huuid
    rw [hgone] at hrec
    obtain ⟨hrec, hkept⟩ := Option.filter_eq_some_iff.mp hrec
    have hother : other ≠ guid := fun heq => by
      rw [huuid, heq] at hkept
      simp at hkept
    rw [Function.update_of_ne hother]
    exact h.only dn rec other hrec huuid

theorem Converged.apply (h : Converged lossy opts u d) (hwhole : WholeAnswer u e guid)
    (happlied : AppliedTo d ((normalizeAdEntry lossy opts e).toSync e.dn guid) t) :
    Converged lossy opts (Function.update u guid (some ⟨e.dn, e.attributes⟩)) t := by
  constructor
  · intro other o ho
    by_cases hother : other = guid
    · subst hother
      rw [Function.update_self] at ho
      cases ho
      exact happlied.applied
    · rw [Function.update_of_ne hother] at ho
      have hkept := h.present other o ho
      rw [SyncEntry.applied_iff] at hkept ⊢
      have hsame : t.unmarked (normalizeDn (wanted lossy opts other o).dn) =
          d.unmarked (normalizeDn (wanted lossy opts other o).dn) :=
        happlied.others _ (hwhole.free other o hother ho)
      rwa [hsame]
  · intro dn rec other hrec huuid
    by_cases hdn : dn = normalizeDn e.dn
    · obtain ⟨rec', hrec', hmatches⟩ := happlied.applied
      obtain rfl : rec' = rec := Option.some.inj (hrec'.symm.trans (hdn ▸ hrec))
      obtain rfl : guid = other := Option.some.inj (hmatches.uuid.symm.trans huuid)
      exact ⟨_, Function.update_self .., hdn⟩
    · have hsame := happlied.others dn hdn
      simp only [Directory.unmarked, hrec, Option.map_some] at hsame
      obtain ⟨rec', hrec', hmarked⟩ := Option.map_eq_some_iff.mp hsame.symm
      have huuid' : rec'.sourceUuid = some other := by
        have hsource := congrArg EntryRecord.sourceUuid hmarked
        exact hsource.trans huuid
      obtain ⟨o, ho, hplace⟩ := h.only dn rec' other hrec' huuid'
      have hother : other ≠ guid := fun heq => hdn (hplace.trans (hwhole.place o (heq ▸ ho)))
      exact ⟨o, by rw [Function.update_of_ne hother]; exact ho, hplace⟩

theorem Converged.absorb (h : Converged lossy opts u d) (habsorbs : Absorbs lossy opts d e t)
    (hwhole : ∀ guid, (normalizeAdEntry lossy opts e).guid = some guid →
      (normalizeAdEntry lossy opts e).isDeleted = false → WholeAnswer u e guid) :
    Converged lossy opts (u.answer lossy opts e) t := by
  unfold Absorbs at habsorbs
  unfold Upstream.answer
  cases hguid : (normalizeAdEntry lossy opts e).guid with
  | none =>
    rw [hguid] at habsorbs
    exact habsorbs ▸ h
  | some guid =>
    rw [hguid] at habsorbs
    dsimp only at *
    cases hdeleted : (normalizeAdEntry lossy opts e).isDeleted with
    | true =>
      rw [hdeleted, if_pos rfl] at habsorbs
      rw [if_pos rfl]
      exact h.withdraw habsorbs
    | false =>
      have hwhole := hwhole guid hguid hdeleted
      rw [hdeleted, if_neg Bool.false_ne_true] at habsorbs
      rw [if_neg Bool.false_ne_true, hwhole.merge]
      exact h.apply hwhole habsorbs

/-- If every answer about a live object is a whole one, the directory follows the answers. -/
theorem converged_of_answers {answers : List SearchResultEntry}
    (run : Run (applies lossy opts) d answers t) (h : Converged lossy opts u d)
    (hwhole : WholeAnswers lossy opts answers u) :
    Converged lossy opts (answers.foldl (Upstream.answer lossy opts) u) t := by
  induction run generalizing u with
  | nil => exact h
  | cons hstep _ ih => exact ih (h.absorb hstep.absorbs hwhole.1) hwhole.2

/-- Nothing is imported yet. -/
theorem converged_start (hnone : ∀ (dn : String) (rec : EntryRecord), d.entries[dn]? = some rec →
    rec.sourceUuid = none) : Converged lossy opts (fun _ => none) d where
  present _ _ h := by cases h
  only dn rec guid hrec huuid := by
    rw [hnone dn rec hrec] at huuid
    cases huuid

/-- A directory without imports follows the upstream directory, if every answer about a live object
is a whole one. -/
theorem dirsync_converges {answers : List SearchResultEntry}
    (hnone : ∀ (dn : String) (rec : EntryRecord), d.entries[dn]? = some rec → rec.sourceUuid = none)
    (run : Run (applies lossy opts) d answers t)
    (hwhole : WholeAnswers lossy opts answers fun _ => none) :
    Converged lossy opts (answers.foldl (Upstream.answer lossy opts) fun _ => none) t :=
  converged_of_answers run (converged_start hnone) hwhole

end Upstream

/-! ## An account to try out -/

section Sample

def sampleText (bytes : List UInt8) : String := .ofList (bytes.map fun b => Char.ofNat b.toNat)

def sampleOpts : AdMapOpts := ⟨false, 100000, 100000⟩

def sampleAttribute (name : String) (values : List String) : PartialAttribute :=
  ⟨name, values.map Text.asciiBytes⟩

/-- A disabled account. -/
def bobWhole (mail : String) : SearchResultEntry :=
  ⟨"CN=Bob,DC=example", [⟨"objectGUID", [[0xb0]]⟩, sampleAttribute "objectClass" ["top", "user"],
    sampleAttribute "userAccountControl" ["514"], sampleAttribute "mail" [mail]]⟩

/-- Only its mail address has changed. -/
def bobDelta : SearchResultEntry :=
  ⟨"CN=Bob,DC=example", [⟨"objectGUID", [[0xb0]]⟩, sampleAttribute "mail" ["bob@example"]]⟩

/-- The account after the change. -/
def bobMerged : SearchResultEntry :=
  ⟨"CN=Bob,DC=example", [sampleAttribute "objectClass" ["top", "user"],
    sampleAttribute "userAccountControl" ["514"], ⟨"objectGUID", [[0xb0]]⟩,
    sampleAttribute "mail" ["bob@example"]]⟩

def bobGone : SearchResultEntry :=
  ⟨"CN=Bob,DC=example", [⟨"objectGUID", [[0xb0]]⟩, sampleAttribute "isDeleted" ["TRUE"]]⟩

def afterImport (d : Directory) (e : SearchResultEntry) : Directory :=
  (applyAdEntry sampleText sampleOpts e ⟨0, 0⟩ id ⟨d, [], 0⟩).2.db

theorem applies_sample {d : Directory} {e : SearchResultEntry}
    (h : (applyAdEntry sampleText sampleOpts e ⟨0, 0⟩ id ⟨d, [], 0⟩).1.isOk) :
    applies sampleText sampleOpts d e (afterImport d e) := by
  rcases hrun : applyAdEntry sampleText sampleOpts e ⟨0, 0⟩ id ⟨d, [], 0⟩ with ⟨r, s'⟩
  rw [hrun] at h
  cases r with
  | error err => cases h
  | ok acc => exact ⟨⟨0, 0⟩, acc, id, _, s', rfl, hrun, by rw [afterImport, hrun]⟩

def noEntries : Directory := ⟨∅, [], []⟩

/-- A change of the mail address enables the account and takes its classes, although nothing else
has changed upstream. -/
theorem delta_enables_account :
    Run (applies sampleText sampleOpts) noEntries [bobWhole "old@example", bobDelta]
      (afterImport (afterImport noEntries (bobWhole "old@example")) bobDelta) ∧
    (wanted sampleText sampleOpts "b0" bobMerged).enabled = false ∧
    (afterImport (afterImport noEntries (bobWhole "old@example")) bobDelta).entries[
        "cn=bob,dc=example"]?.map (fun rec => (rec.enabled, rec.objectClasses)) = some (true, []) ∧
    ¬ Converged sampleText sampleOpts
      ([bobWhole "old@example", bobDelta].foldl (Upstream.answer sampleText sampleOpts) fun _ => none)
      (afterImport (afterImport noEntries (bobWhole "old@example")) bobDelta) := by
  refine ⟨.cons (applies_sample (by decide +kernel)) (.cons (applies_sample (by decide +kernel))
    (.nil _)), by decide +kernel, by decide +kernel, fun h => ?_⟩
  obtain ⟨rec, hrec, hmatches⟩ := h.present "b0" bobMerged (by decide +kernel)
  have henabled : (afterImport (afterImport noEntries (bobWhole "old@example")) bobDelta).entries[
      "cn=bob,dc=example"]?.map (·.enabled) = some true := by decide +kernel
  have hwanted : (wanted sampleText sampleOpts "b0" bobMerged).enabled = false := by
    decide +kernel
  have hdn : normalizeDn (wanted sampleText sampleOpts "b0" bobMerged).dn =
      "cn=bob,dc=example" := by decide +kernel
  rw [hdn] at hrec
  rw [hrec, Option.map_some, hmatches.enabled, hwanted] at henabled
  cases henabled

theorem answer_bobWhole : Upstream.answer sampleText sampleOpts (fun _ => none)
    (bobWhole "old@example") = Function.update (fun _ => none) "b0"
    (some (bobWhole "old@example")) := by
  have hguid : (normalizeAdEntry sampleText sampleOpts (bobWhole "old@example")).guid =
      some "b0" := by
    decide +kernel
  have hlive : (normalizeAdEntry sampleText sampleOpts
      (bobWhole "old@example")).isDeleted = false := by
    decide +kernel
  simp only [Upstream.answer, hguid, hlive]
  rfl

theorem wholeAnswers_bob : WholeAnswers sampleText sampleOpts
    [bobWhole "old@example", bobWhole "bob@example", bobGone] fun _ => none := by
  have hguid : (normalizeAdEntry sampleText sampleOpts (bobWhole "bob@example")).guid =
      some "b0" := by
    decide +kernel
  have hvalues (mail : String) : ∀ a ∈ (bobWhole mail).attributes, a.vals ≠ [] := by
    simp [bobWhole, sampleAttribute]
  refine ⟨fun guid _ _ => ⟨by simp, hvalues _, by simp, by simp⟩, fun guid hg _ => ?_, ?_, trivial⟩
  · obtain rfl : "b0" = guid := Option.some.inj (hguid.symm.trans hg)
    rw [answer_bobWhole]
    refine ⟨?_, hvalues _, ?_, ?_⟩
    · intro o ho
      rw [Function.update_self] at ho
      cases ho
      decide +kernel
    · intro o ho
      rw [Function.update_self] at ho
      cases ho
      rfl
    · intro other o hother ho
      rw [Function.update_of_ne hother] at ho
      cases ho
  · intro guid _ hlive
    exact absurd hlive (by decide +kernel)

/-- Two whole answers about an account and the mark of its deletion. -/
theorem dirsync_converges_bob : Converged sampleText sampleOpts
    ([bobWhole "old@example", bobWhole "bob@example", bobGone].foldl
      (Upstream.answer sampleText sampleOpts) fun _ => none)
    (afterImport (afterImport (afterImport noEntries (bobWhole "old@example"))
      (bobWhole "bob@example")) bobGone) :=
  dirsync_converges (d := noEntries) (by simp [noEntries])
    (.cons (applies_sample (by decide +kernel)) (.cons (applies_sample (by decide +kernel))
      (.cons (applies_sample (by decide +kernel)) (.nil _))))
    wholeAnswers_bob

end Sample

end Magnetite.Ldap
