import Magnetite.Ldap.Directory

/-!
# What the access rules say

The decision of the access rules in terms of the first rule that matches.
-/
namespace Magnetite.Ldap

open Magnetite.Lib

section Evaluation

/-- Whether the identity of a session is a rule's subject, in a directory. -/
def subjectMatches (d : Directory) (boundDn : Option String) : LdapAclSubject → Bool
  | .anyone => true
  | .anonymous => boundDn.isNone
  | .authenticated => boundDn.isSome
  | .dn dn => boundDn.map normalizeDn == some (normalizeDn dn)
  | .groupMember group => boundDn.any fun dn => d.entries[normalizeDn group]?.any fun rec =>
      Db.hasMember (normalizeDn dn) rec.attributes

/-- The code's decision for a directory that can be read. -/
def aclAllows (d : Directory) (boundDn : Option String) (op : LdapAclOperation) (dn : String) :
    Bool :=
  let rules := (sortByKey (·.priority) d.acls).filter (·.enabled)
  rules.isEmpty || (rules.find? fun r => r.operations.contains op &&
    Db.dnInScope r.targetDn (normalizeDn dn) && subjectMatches d boundDn r.subject).any
      (·.effect == .allow)

theorem findEntry_spec {d : Directory} (dn : String) {err : Directory → Prop} (h : err d) :
    Triple (· = d) (Db.findEntry dn) (fun r s => s = d ∧ r = d.entries[normalizeDn dn]?) err :=
  Triple.read (by grind) (by grind)

theorem aclSubjectMatches_spec (d : Directory) (subject : LdapAclSubject)
    (boundDn : Option String) :
    Triple (· = d) (Db.aclSubjectMatches subject boundDn)
      (fun b s => s = d ∧ b = subjectMatches d boundDn subject) (· = d) := by
  cases subject with
  | groupMember group =>
    cases boundDn with
    | none => exact Triple.pure fun s hs => ⟨hs, rfl⟩
    | some dn =>
      refine Triple.bind (findEntry_spec group rfl) ?_
      rintro (_ | rec)
      · exact Triple.pure fun s hs => ⟨hs.1, by simp [subjectMatches, ← hs.2]⟩
      · exact Triple.pure fun s hs => ⟨hs.1, by simp [subjectMatches, ← hs.2]⟩
  | anyone | anonymous | authenticated | dn _ => exact Triple.pure fun s hs => ⟨hs, rfl⟩

theorem firstEffect_spec (d : Directory) (boundDn : Option String) (op : LdapAclOperation)
    (target : String) (rules : List LdapAclRule) :
    Triple (· = d) (Db.firstEffect boundDn op target rules)
      (fun b s => s = d ∧ b = (rules.find? fun r => r.operations.contains op &&
        Db.dnInScope r.targetDn target && subjectMatches d boundDn r.subject).any
          (·.effect == .allow)) (· = d) := by
  induction rules with
  | nil => exact Triple.pure fun s hs => ⟨hs, rfl⟩
  | cons rule rules ih =>
    unfold Db.firstEffect
    split_ifs with hskip
    · refine ih.consequence (fun _ h => h) (fun b s h => ⟨h.1, ?_⟩) (fun _ h => h)
      rw [h.2, List.find?_cons_of_neg (by grind)]
    · refine Triple.bind (aclSubjectMatches_spec d rule.subject boundDn) fun b => ?_
      cases b with
      | true => exact Triple.pure fun s hs => ⟨hs.1, by rw [List.find?_cons_of_pos (by grind)]; rfl⟩
      | false =>
        refine Triple.assuming fun hno => ?_
        refine ih.consequence (fun _ h => h) (fun b s h => ⟨h.1, ?_⟩) (fun _ h => h)
        rw [h.2, List.find?_cons_of_neg (by simp [← hno])]

/-- Asking the rules leaves the directory as it is, and the answer is the one for that directory. -/
theorem evaluateLdapAcl_spec (d : Directory) (boundDn : Option String) (op : LdapAclOperation)
    (dn : String) :
    Triple (· = d) (Db.evaluateLdapAcl boundDn op dn)
      (fun b s => s = d ∧ b = aclAllows d boundDn op dn) (· = d) := by
  have hlist : Triple (· = d) Db.listLdapAcls
      (fun r s => s = d ∧ r = sortByKey (·.priority) d.acls) (· = d) :=
    Triple.read (by grind) (by grind)
  refine Triple.bind hlist fun rules => Triple.assuming ?_
  rintro rfl
  dsimp only
  split_ifs with hempty
  · exact Triple.pure fun s hs => ⟨hs, by simp [aclAllows, hempty]⟩
  · refine (firstEffect_spec d boundDn op _ _).consequence (fun _ h => h) (fun b s h => ⟨h.1, ?_⟩)
      (fun _ h => h)
    rw [h.2, aclAllows]
    simp [hempty]

end Evaluation

end Magnetite.Ldap
