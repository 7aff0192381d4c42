import Magnetite.Ldap.Sasl
import Magnetite.Ldap.Search

/-!
# The identity of a connection

A SASL bind proves an account, and requests are decided for an entry of the directory. The entry is
looked up once, when the bind completes: it is the first one, in the order of DNs, with the account
as its `uid`, `sAMAccountName` or `cn`. Until the next bind all requests are decided for that DN.
-/
namespace Magnetite.Ldap

open Magnetite.Lib Magnetite.Krb5

/-- The first value of an attribute, under exactly this name. -/
def EntryRecord.attr (rec : EntryRecord) (name : String) : Option String :=
  rec.attributes[name]?.bind List.head?

/-- Whether an entry has an account as its `uid`, `sAMAccountName` or `cn`. -/
def EntryRecord.namesAccount (account : String) (rec : EntryRecord) : Bool :=
  (["uid", "sAMAccountName", "cn"].filterMap rec.attr).any (Text.eqIgnoreAsciiCase · account)

/-- The DN of the first entry with an account. -/
def Db.resolveAccountDn (account : String) : DbM (Option String) :=
  .read .surreal fun d => (d.entries.toList.find? (·.2.namesAccount account)).map (·.1)

/-- What a bind learns of an account: nothing if the store fails. -/
def resolvedIn (clock : Nat → Nat) (s : Session Directory) (account : String) : Option String :=
  (Db.resolveAccountDn account clock s).1.toOption.join

/-! ## Requests of a connection -/

inductive Request where
  | write (hash : String → Option String) (req : WriteRequest)
  | search (req : LdapSearchRequest)
  | sync (req : LdapSearchRequest) (cookie : Option Nat)

inductive Reply where
  | write (result : LdapResult)
  | search (reply : SearchReply)
  | sync (reply : SyncReply)

section Requests

variable (schema : Schema) (config : Config) (search : SearchEnv)

/-- A request is decided for the DN that the connection is bound to. -/
def Request.handle (boundDn : Option String) : Request → DbM Reply
  | .write hash req => do return .write (← handleWrite schema config hash boundDn req)
  | .search req => do return .search (← handleSearch search boundDn req)
  | .sync req cookie => do return .sync (← handleSyncreplSearch search boundDn req cookie)

/-- What the access rules are asked about before a request is served. The root DSE and the schema
are open to all. -/
def Request.gate : Request → Option (LdapAclOperation × String)
  | .write _ (.add req) => some (.add, req.dn)
  | .write _ (.modify req) => some (.modify, req.dn)
  | .write _ (.delete dn) => some (.delete, dn)
  | .write _ (.modDn req) => some (.modifyDn, req.dn)
  | .search req =>
    if req.base = "" ∧ req.scope = .base ∨
      normalizeDn req.base = normalizeDn (subschemaDn search.baseDn) then none
    else some (.search, req.base)
  | .sync req _ => some (.search, req.base)

def Request.denied : Request → Reply
  | .write _ _ => .write ⟨.insufficentAccessRights, "access denied by ACL"⟩
  | .search _ => .search ⟨[], ⟨.insufficentAccessRights, "access denied by ACL"⟩⟩
  | .sync _ _ => .sync ⟨[], ⟨.insufficentAccessRights, "access denied by ACL"⟩, none⟩

/-- A request after the access rules; an add records who made the entry. -/
def Request.serve (dn : String) : Request → DbM Reply
  | .write hash (.add req) => do return .write (← serveAdd schema hash (some dn) req)
  | .write hash (.modify req) => do return .write (← serveModify schema config hash req)
  | .write _ (.delete dn) => do return .write (← serveDelete dn)
  | .write _ (.modDn req) => do return .write (← serveModDn req)
  | .search req => do return .search (← serveSearch search req)
  | .sync req cookie => do return .sync (← serveSync search req cookie)

/-- A request as the rules for a DN decide it. -/
def Request.decided (dn : String) (op : LdapAclOperation) (target : String) (req : Request) :
    DbM Reply := do
  let allowed ← StoreM.attempt (Db.evaluateLdapAcl (some dn) op target)
  if allowed.toOption = some false then return req.denied
  else req.serve schema config search dn

/-- What happens between two binds of a connection: a request of its own, under some clock and some
failures of the store, or a change of the directory by others. -/
inductive Act where
  | request (req : Request) (clock : Nat → Nat) (faults : List Bool) (tick : Nat)
  | others (d : Directory)

variable {κ : Type}

def actStep (s : Connection κ × Directory) (act : Act) (t : Connection κ × Directory) : Prop :=
  match act with
  | .request req clock faults tick =>
    t = (s.1, (req.handle schema config search s.1.boundDn clock ⟨s.2, faults, tick⟩).2.db)
  | .others d => t = (s.1, d)

/-- Access decisions on a connection are made for a DN. -/
structure DecidedFor (c : Connection κ) (dn : String) : Prop where
  bound : c.boundDn = some dn
  decided : ∀ (req : Request) op target, req.gate search = some (op, target) →
    req.handle schema config search c.boundDn = req.decided schema config search dn op target

variable {schema config search}

theorem gated_eq (what : String) {dn target : String} {op : LdapAclOperation}
    {serve : DbM LdapResult} :
    (do return Reply.write (← gated (some dn) op target what serve)) = (do
      let allowed ← StoreM.attempt (Db.evaluateLdapAcl (some dn) op target)
      if allowed.toOption = some false then
        return Reply.write ⟨.insufficentAccessRights, "access denied by ACL"⟩
      else return Reply.write (← serve) : DbM Reply) := by
  funext clock s
  simp only [gated, Bind.bind, StoreM.andThen, StoreM.attempt, Option.isNone_some,
    Bool.false_eq_true, if_false]
  rcases (Db.evaluateLdapAcl (some dn) op target clock s).1 with _ | _ | _ <;> rfl

/-- A bound connection's request is decided by the rules for its DN. -/
theorem handle_decided {req : Request} {dn target : String} {op : LdapAclOperation}
    (hgate : req.gate search = some (op, target)) :
    req.handle schema config search (some dn) = req.decided schema config search dn op target := by
  match req with
  | .write hash (.add req) => cases hgate; exact gated_eq "add"
  | .write hash (.modify req) => cases hgate; exact gated_eq "modify"
  | .write hash (.delete dn) => cases hgate; exact gated_eq "delete"
  | .write hash (.modDn req) => cases hgate; exact gated_eq "modifyDN"
  | .search req =>
    obtain ⟨hopen, heq⟩ := Option.ite_none_left_eq_some.mp hgate
    cases heq
    funext clock s
    simp only [Request.handle, Request.decided, handleSearch, if_neg (not_or.mp hopen).1,
      if_neg (not_or.mp hopen).2, Bind.bind, StoreM.andThen, StoreM.attempt]
    rcases (Db.evaluateLdapAcl (some dn) .search req.base clock s).1 with _ | _ | _ <;> rfl
  | .sync req cookie =>
    cases hgate
    funext clock s
    simp only [Request.handle, Request.decided, handleSyncreplSearch, Bind.bind, StoreM.andThen,
      StoreM.attempt]
    rcases (Db.evaluateLdapAcl (some dn) .search req.base clock s).1 with _ | _ | _ <;> rfl

theorem decidedFor_iff {c : Connection κ} {dn : String} :
    DecidedFor schema config search c dn ↔ c.boundDn = some dn :=
  ⟨DecidedFor.bound, fun h => ⟨h, fun _ _ _ hgate => h ▸ handle_decided hgate⟩⟩

/-- Only a bind changes whom requests are decided for. -/
theorem connection_of_run {s t : Connection κ × Directory} {acts : List Act}
    (run : Run (actStep schema config search) s acts t) : t.1 = s.1 := by
  induction run with
  | nil => rfl
  | @cons s t u act _ hstep _ ih =>
    rw [ih]
    cases act with
    | request req clock faults tick => rw [show t = _ from hstep]
    | others d => rw [show t = _ from hstep]

end Requests

/-- The entry at a DN is the first with the account of a principal; if there is none, the principal
stands for itself. -/
def FirstNamed (d : Directory) (principal dn : String) : Prop :=
  (∃ rec, d.entries[dn]? = some rec ∧ rec.namesAccount (accountOf principal) ∧
    ∀ (dn' : String) rec', d.entries[dn']? = some rec' → rec'.namesAccount (accountOf principal) →
      compare dn dn' ≠ .gt) ∨
  ((∀ (dn : String) rec, d.entries[dn]? = some rec → ¬ rec.namesAccount (accountOf principal)) ∧
    dn = principal)

/-- An entry with the account is taken exactly if no earlier one has it. -/
theorem FirstNamed.eq_iff {d : Directory} {principal first dn : String} {rec : EntryRecord}
    (h : FirstNamed d principal first) (hrec : d.entries[dn]? = some rec)
    (hnames : rec.namesAccount (accountOf principal)) :
    first = dn ↔ ∀ (dn' : String) rec', d.entries[dn']? = some rec' → compare dn' dn = .lt →
      ¬ rec'.namesAccount (accountOf principal) := by
  rcases h with ⟨rec₀, hrec₀, hnames₀, hmin⟩ | ⟨hnone, -⟩
  · constructor
    · rintro rfl dn' rec' hrec' hlt hnames'
      exact hmin dn' rec' hrec' hnames' (Std.OrientedCmp.gt_iff_lt.mpr hlt)
    · intro hearlier
      cases hcmp : compare first dn with
      | lt => exact absurd hnames₀ (hearlier first rec₀ hrec₀ hcmp)
      | eq => exact Std.LawfulEqCmp.eq_of_compare hcmp
      | gt => exact absurd hcmp (hmin dn rec hrec hnames)
  · exact absurd hnames (hnone dn rec hrec)

theorem firstNamed_resolved (d : Directory) (principal : String) :
    FirstNamed d principal (((d.entries.toList.find?
      (·.2.namesAccount (accountOf principal))).map (·.1)).getD principal) := by
  cases hfind : d.entries.toList.find? (·.2.namesAccount (accountOf principal)) with
  | none =>
    refine .inr ⟨fun dn rec hrec => ?_, rfl⟩
    exact List.find?_eq_none.mp hfind (dn, rec)
      (Std.ExtTreeMap.mem_toList_iff_getElem?_eq_some.mpr hrec)
  | some e =>
    obtain ⟨hnames, before, after, hlist, hbefore⟩ := List.find?_eq_some_iff_append.mp hfind
    have hmem : e ∈ d.entries.toList := List.mem_of_find?_eq_some hfind
    refine .inl ⟨e.2, Std.ExtTreeMap.mem_toList_iff_getElem?_eq_some.mp hmem, hnames, ?_⟩
    intro dn' rec' hrec' hnames' hgt
    have hmem' := Std.ExtTreeMap.mem_toList_iff_getElem?_eq_some.mpr hrec'
    have hsorted := Std.ExtTreeMap.ordered_keys_toList (t := d.entries)
    rw [hlist, List.mem_append, List.mem_cons] at hmem'
    rw [hlist] at hsorted
    rcases hmem' with hearlier | rfl | hlater
    · exact absurd hnames' (by simpa using hbefore _ hearlier)
    · simp at hgt
    · have hlt := (List.pairwise_cons.mp (List.pairwise_append.mp hsorted).2.1).1 _ hlater
      exact absurd (hlt.symm.trans hgt) (by decide)

section Bound

variable {κ : Type} [DecidableEq κ] {env : SaslEnv κ} {conn conn' : Connection κ}
  {schema : Schema} {config : Config} {search : SearchEnv}

end Bound

section Sample

/-- An entry with its attributes. -/
def accountEntry (rdn structural : String) (attributes : List (String × List String)) :
    String × EntryRecord :=
  (rdn ++ ",dc=x",
    { rdn, parentDn := some "dc=x", objectClasses := ["top", structural]
      structuralClass := structural, attributes := .ofList attributes, enabled := true
      passwordRef := none, hasChildren := false, createdAt := 0, updatedAt := 0, createdBy := "admin"
      sourceUuid := none })

/-- Alice, who must not delete, and a group that somebody named alike. -/
def namesakes : Directory where
  entries := .ofList [accountEntry "cn=a" "group" [("cn", ["alice"])],
    accountEntry "uid=alice" "inetOrgPerson" [("uid", ["alice"])]]
  changelog := []
  acls := [⟨10, "*", [.delete], .dn "uid=alice,dc=x", .deny, true⟩,
    ⟨20, "*", [.delete], .authenticated, .allow, true⟩]

/-- What the rules say of a delete of the group. -/
def mayDelete (boundDn : Option String) : Option Bool :=
  (Db.evaluateLdapAcl boundDn .delete "cn=a,dc=x" id ⟨namesakes, [], 0⟩).1.toOption

/-- After the bind of `replayedBinds`, at a directory. -/
def boundIn (d : Directory) : Connection Nat × BindResult Nat :=
  replayedConnection.bind (some silentEnv)
    (.sasl "GSSAPI" ⟨[], 0, fun _ => none⟩ (resolvedIn id ⟨d, [], 0⟩))

def onlyAlice : Directory where
  entries := .ofList [accountEntry "cn=a" "group" [("cn", ["staff"])],
    accountEntry "uid=alice" "inetOrgPerson" [("uid", ["alice"])]]
  changelog := []
  acls := []

theorem step_alice : gssSpnegoStep silentEnv replayedConnection.sasl ⟨[], 0, fun _ => none⟩ =
    (replayedConnection.sasl, .done "alice@EXAMPLE.COM" none) := by
  rw [gssSpnegoStep_last (by decide +kernel) (by decide +kernel)]
  have hclient : replayedConnection.sasl.client = some "alice@EXAMPLE.COM" := by decide +kernel
  have hsubkey : replayedConnection.sasl.subkey = some 9 := by decide +kernel
  simp [hclient, hsubkey, selection, Gss.gssUnwrapIntegrity, silentEnv]

theorem boundIn_success (d : Directory) : boundIn d = ((boundIn d).1, .success none) := by
  simp [boundIn, Connection.bind, step_alice, Connection.afterLeg]

def anySchema : Schema := ⟨fun _ => true, fun _ _ _ => .ok ()⟩

def bareSearch : SearchEnv := ⟨"dc=x", none, fun _ => [], fun _ => "", fun _ => [], fun _ => []⟩

end Sample

end Magnetite.Ldap
