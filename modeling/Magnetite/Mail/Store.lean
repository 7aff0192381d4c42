import Mathlib.Data.Prod.Lex
import Mathlib.Data.String.Basic
import Magnetite.Lib.Rows
import Magnetite.Lib.Text

/-!
# The mail store

Mailboxes, their messages and the logs of deletions and flag changes that a secondary reads. Times
and the identifiers by which messages are replicated come from outside; keys come from a counter.
Rows from before there were such identifiers are left out.
-/
namespace Magnetite.Mail

open Lib Text

/-- A mailbox; a quota of zero is none. -/
structure MailUser where
  email : String
  quotaBytes : ℕ
  usedBytes : ℕ
deriving DecidableEq

structure MailMessage where
  id : ℕ
  recipient : String
  sender : String
  sizeBytes : ℕ
  raw : String
  receivedAt : ℕ
  replId : String
  flags : List String
  folder : String
deriving DecidableEq

/-- A deletion tombstone. -/
structure MailChange where
  replId : String
  csn : ℕ
deriving DecidableEq

structure MailFlagChange where
  replId : String
  flags : List String
  csn : ℕ
deriving DecidableEq

structure Store where
  users : List MailUser
  messages : List MailMessage
  changelog : List MailChange
  flagsChangelog : List MailFlagChange
  next : ℕ
deriving DecidableEq

/-! ## Messages -/

def inbox : String := "INBOX"

/-- The new row; a blank folder is the inbox. -/
def newMessage (s : Store) (recipient folder sender raw : String) (flags : List String)
    (receivedAt : ℕ) (replId : String) : MailMessage where
  id := s.next
  recipient
  sender
  sizeBytes := raw.utf8ByteSize
  raw
  receivedAt
  replId
  flags
  folder := if trim folder = "" then inbox else folder

/-- The writer shared by deliveries and imports. -/
def storeMessageRecord (recipient folder sender raw : String) (flags : List String)
    (receivedAt : ℕ) (replId : String) (s : Store) : Store :=
  { s with
    messages := s.messages ++ [newMessage s recipient folder sender raw flags receivedAt replId]
    next := s.next + 1 }

def storeMailMessage (recipient sender raw : String) (now : ℕ) (replId : String) (s : Store) :
    Store :=
  storeMessageRecord recipient inbox sender raw [] now replId s

def storeImportedMessage (recipient folder sender raw : String) (flags : List String)
    (receivedAt : ℕ) (replId : String) (s : Store) : Store :=
  storeMessageRecord recipient folder sender raw flags receivedAt replId s

def findUser (email : String) (s : Store) : Option MailUser := s.users.find? (·.email = email)

def MailUser.charge (size : ℕ) (u : MailUser) : MailUser :=
  { u with usedBytes := u.usedBytes + size }

/-- Whether the message was stored; it is not if the mailbox is full. -/
def deliverToMailbox (email sender raw : String) (now : ℕ) (replId : String) (s : Store) :
    Bool × Store :=
  let size := raw.utf8ByteSize
  match findUser email s with
  | some user =>
    if 0 < user.quotaBytes ∧ user.quotaBytes < user.usedBytes + size then (false, s)
    else
      let s := storeMailMessage email sender raw now replId s
      (true, { s with users := Rows.update (·.email) email (MailUser.charge size) s.users })
  | none => (true, storeMailMessage email sender raw now replId s)

/-- Leaves a tombstone. -/
def deleteMailMessage (id now : ℕ) (s : Store) : Store :=
  match s.messages.find? (·.id = id) with
  | none => s
  | some existing =>
    { s with
      messages := Rows.delete (·.id) id s.messages
      changelog := s.changelog ++ [⟨existing.replId, now⟩] }

def MailMessage.setFlags (flags : List String) (m : MailMessage) : MailMessage :=
  { m with flags := flags }

def setMailFlags (id : ℕ) (flags : List String) (now : ℕ) (s : Store) : Store :=
  match s.messages.find? (·.id = id) with
  | none => s
  | some rec =>
    { s with
      messages := Rows.update (·.id) id (MailMessage.setFlags flags) s.messages
      flagsChangelog := s.flagsChangelog ++ [⟨rec.replId, flags, now⟩] }

/-! ## Operations -/

/-- What changes the messages of a primary. -/
inductive Op where
  | deliver (email sender raw : String) (now : ℕ) (replId : String)
  | imported (recipient folder sender raw : String) (flags : List String) (receivedAt : ℕ)
    (replId : String)
  | setFlags (id : ℕ) (flags : List String) (now : ℕ)
  | delete (id now : ℕ)

def Op.exec (s : Store) : Op → Store
  | deliver email sender raw now replId => (deliverToMailbox email sender raw now replId s).2
  | imported recipient folder sender raw flags receivedAt replId =>
    storeImportedMessage recipient folder sender raw flags receivedAt replId s
  | setFlags id flags now => setMailFlags id flags now s
  | delete id now => deleteMailMessage id now s

end Magnetite.Mail
