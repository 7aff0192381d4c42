import Mathlib.Algebra.BigOperators.Group.List.Basic
import Magnetite.Mail.Store

/-!
# Mailbox quotas

A delivery adds the size of the message to the usage of the mailbox and is refused when that would
exceed the quota. Imports and deletions leave the usage as it is, so that it is the size of what is
stored only while as much has been imported as deleted.
-/
namespace Magnetite.Mail

open Lib

variable {email : String} {s : Store} {user : MailUser}

/-- What the message takes of the mailbox. -/
def MailMessage.bytesIn (email : String) (m : MailMessage) : ℕ :=
  if m.recipient = email then m.sizeBytes else 0

/-- The size of what is stored in the mailbox. -/
def bytesOf (email : String) (messages : List MailMessage) : ℕ :=
  (messages.map (·.bytesIn email)).sum

def storedBytes (email : String) (s : Store) : ℕ := bytesOf email s.messages

/-- More than a quota allows. -/
def exceeds (quota total : ℕ) : Prop := 0 < quota ∧ quota < total

/-- What the operation imports into the mailbox. -/
def Op.importedBytes (email : String) : Op → ℕ
  | imported recipient _ _ raw _ _ _ => if recipient = email then raw.utf8ByteSize else 0
  | _ => 0

/-- What the operation deletes from the mailbox. -/
def Op.deletedBytes (email : String) (s : Store) : Op → ℕ
  | delete id _ => bytesOf email (s.messages.filter (·.id = id))
  | _ => 0

def importedBytes (email : String) (ops : List Op) : ℕ := (ops.map (Op.importedBytes email)).sum

def deletedBytes (email : String) : Store → List Op → ℕ
  | _, [] => 0
  | s, op :: ops => op.deletedBytes email s + deletedBytes email (op.exec s) ops

/-! ## Sizes -/

@[simp] theorem bytesOf_cons (email : String) (m : MailMessage) (l : List MailMessage) :
    bytesOf email (m :: l) = m.bytesIn email + bytesOf email l := by
  simp [bytesOf]

/-- What is deleted and what is left. -/
theorem bytesOf_delete (email : String) (id : ℕ) (l : List MailMessage) :
    bytesOf email (Rows.delete (·.id) id l) + bytesOf email (l.filter (·.id = id)) =
      bytesOf email l := by
  induction l with
  | nil => rfl
  | cons m l ih =>
    simp only [Rows.delete, ne_eq, decide_not] at ih
    by_cases hid : m.id = id <;> simp [Rows.delete, hid] <;> omega

theorem bytesOf_setFlags (email : String) (id : ℕ) (flags : List String) (l : List MailMessage) :
    bytesOf email (Rows.update (·.id) id (MailMessage.setFlags flags) l) = bytesOf email l := by
  rw [bytesOf, Rows.update, List.map_map, bytesOf]
  congr 1
  refine List.map_congr_left fun m _ => ?_
  by_cases hid : m.id = id <;> simp [hid, MailMessage.setFlags, MailMessage.bytesIn]

theorem storedBytes_store (email recipient folder sender raw : String) (flags : List String)
    (receivedAt : ℕ) (replId : String) (s : Store) :
    storedBytes email (storeMessageRecord recipient folder sender raw flags receivedAt replId s) =
      storedBytes email s + if recipient = email then raw.utf8ByteSize else 0 := by
  simp [storedBytes, storeMessageRecord, bytesOf, newMessage, MailMessage.bytesIn]

/-! ## Usage -/

/-- Only a delivery to the mailbox changes its row. -/
theorem findUser_charge (email dest : String) (size : ℕ) (users : List MailUser) :
    (Rows.update (·.email) dest (MailUser.charge size) users).find? (·.email = email) =
      (users.find? (·.email = email)).map fun u => if dest = email then u.charge size else u := by
  induction users with
  | nil => rfl
  | cons u users ih =>
    simp only [Rows.update, List.map_cons, List.find?_cons] at ih ⊢
    by_cases hto : u.email = dest <;> by_cases he : u.email = email <;>
      grind [MailUser.charge]

/-- The mailbox stays, and its usage grows by the size of what is stored, less the imports and plus
the deletions. -/
theorem exec_usage (huser : findUser email s = some user) (op : Op) :
    ∃ u, findUser email (op.exec s) = some u ∧ u.quotaBytes = user.quotaBytes ∧
      u.usedBytes + storedBytes email s + op.importedBytes email =
        user.usedBytes + storedBytes email (op.exec s) + op.deletedBytes email s := by
  cases op with
  | deliver dest sender raw now replId =>
    simp only [Op.exec, deliverToMailbox, Op.importedBytes, Op.deletedBytes]
    split
    · rename_i target htarget
      split_ifs with hfull
      · exact ⟨user, huser, rfl, rfl⟩
      · refine ⟨if dest = email then user.charge raw.utf8ByteSize else user, ?_, ?_, ?_⟩
        · have hfind := findUser_charge email dest raw.utf8ByteSize s.users
          rw [findUser] at huser
          rw [huser] at hfind
          exact hfind
        · split_ifs <;> rfl
        · have hstored := storedBytes_store email dest inbox sender raw [] now replId s
          simp only [storedBytes] at hstored ⊢
          simp only [storeMailMessage]
          split_ifs with hto
          · simp_all [MailUser.charge]
            omega
          · simp_all
    · rename_i hnone
      -- the mailbox exists, so the message is for another address
      have hto : dest ≠ email := fun e => by simp [e, huser] at hnone
      refine ⟨user, huser, rfl, ?_⟩
      rw [storeMailMessage, storedBytes_store, if_neg hto]
      omega
  | imported recipient folder sender raw flags receivedAt replId =>
    refine ⟨user, huser, rfl, ?_⟩
    simp only [Op.exec, storeImportedMessage, storedBytes_store, Op.importedBytes, Op.deletedBytes]
    omega
  | setFlags id flags now =>
    simp only [Op.exec, setMailFlags, Op.importedBytes, Op.deletedBytes]
    split
    · exact ⟨user, huser, rfl, rfl⟩
    · exact ⟨user, huser, rfl, by simp [storedBytes, bytesOf_setFlags]⟩
  | delete id now =>
    simp only [Op.exec, deleteMailMessage, Op.importedBytes, Op.deletedBytes]
    split
    · rename_i hnone
      have hempty : s.messages.filter (·.id = id) = [] := by
        simpa [List.filter_eq_nil_iff] using hnone
      exact ⟨user, huser, rfl, by simp [hempty, bytesOf]⟩
    · refine ⟨user, huser, rfl, ?_⟩
      have := bytesOf_delete email id s.messages
      simp only [storedBytes]
      omega

/-- Along every sequence. -/
theorem run_usage (huser : findUser email s = some user) (ops : List Op) :
    ∃ u, findUser email (ops.foldl Op.exec s) = some u ∧ u.quotaBytes = user.quotaBytes ∧
      u.usedBytes + storedBytes email s + importedBytes email ops =
        user.usedBytes + storedBytes email (ops.foldl Op.exec s) + deletedBytes email s ops := by
  induction ops generalizing s user with
  | nil => exact ⟨user, huser, rfl, rfl⟩
  | cons op ops ih =>
    obtain ⟨v, hv, hvq, hvb⟩ := exec_usage huser op
    obtain ⟨u, hu, huq, hub⟩ := ih hv
    refine ⟨u, hu, huq.trans hvq, ?_⟩
    simp only [importedBytes, List.map_cons, List.sum_cons, deletedBytes, List.foldl_cons] at hub ⊢
    omega

theorem deliver_refused_iff (huser : findUser email s = some user) (sender raw : String) (now : ℕ)
    (replId : String) : (deliverToMailbox email sender raw now replId s).1 = false ↔
      exceeds user.quotaBytes (user.usedBytes + raw.utf8ByteSize) := by
  simp only [deliverToMailbox, huser, exceeds]
  split_ifs with hfull <;> simp [hfull]

/-! ## The books balance -/

/-- The usage of the mailbox is the size of what is stored, and deliveries are refused exactly when
they would exceed the quota. -/
def Balanced (email : String) (s : Store) : Prop :=
  ∃ u, findUser email s = some u ∧ u.usedBytes = storedBytes email s ∧
    ∀ sender raw now replId, (deliverToMailbox email sender raw now replId s).1 = false ↔
      exceeds u.quotaBytes (storedBytes email s + raw.utf8ByteSize)

/-- After every sequence of operations on a mailbox whose books balanced, they balance exactly if
as many bytes have been imported as deleted. -/
theorem balanced_iff (hstart : Balanced email s) (ops : List Op) :
    Balanced email (ops.foldl Op.exec s) ↔ importedBytes email ops = deletedBytes email s ops := by
  obtain ⟨user, huser, hused, -⟩ := hstart
  obtain ⟨u, hu, -, hbytes⟩ := run_usage huser ops
  constructor
  · rintro ⟨v, hv, hvused, -⟩
    obtain rfl := Option.some.inj (hu.symm.trans hv)
    omega
  · intro heq
    have hsame : u.usedBytes = storedBytes email (ops.foldl Op.exec s) := by omega
    refine ⟨u, hu, hsame, fun sender raw now replId => ?_⟩
    rw [deliver_refused_iff hu, hsame]

section Sample

def sampleBox : Store := ⟨[⟨"bob@example.com", 10, 0⟩], [], [], [], 0⟩

theorem sampleBox_balanced : Balanced "bob@example.com" sampleBox := by
  refine ⟨⟨"bob@example.com", 10, 0⟩, rfl, rfl, fun sender raw now replId => ?_⟩
  exact deliver_refused_iff rfl sender raw now replId

def deliverBob (raw replId : String) : Op := .deliver "bob@example.com" "amy@example.com" raw 1 replId

/-- The mailbox is emptied and yet refuses a message that would fit. -/
theorem emptied_and_full :
    let t := [deliverBob "12345678" "a", .delete 0 2].foldl Op.exec sampleBox
    storedBytes "bob@example.com" t = 0 ∧
      (deliverToMailbox "bob@example.com" "amy@example.com" "123" 3 "b" t).1 = false := by
  decide +kernel

/-- Two deliveries fit and the third does not. -/
theorem balanced_iff_deliveries :
    let t := [deliverBob "1234" "a", deliverBob "12345" "b", deliverBob "12" "c"].foldl Op.exec
      sampleBox
    Balanced "bob@example.com" t ∧ storedBytes "bob@example.com" t = 9 :=
  ⟨(balanced_iff sampleBox_balanced _).mpr (by decide +kernel), by decide +kernel⟩

end Sample

end Magnetite.Mail
