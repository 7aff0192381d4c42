import Magnetite.Lib.Chunks
import Magnetite.Dns.Records

/-!
# Zone transfers

What a primary puts into the messages of a full (AXFR) and of an incremental (IXFR) transfer, and
how a secondary reads them back. A full transfer is the zone between two copies of its SOA. An
incremental one is a sequence of differences between two copies of the current SOA, where each
difference has the SOA it starts from, the removed records, the SOA it leads to and the added
records. The messages repeat the header and the question of the request, which no reader looks at.
-/
namespace Magnetite.Dns

open Magnetite.Lib

variable {ν : Type}

def soaRr (c : Codec ν) (apex : String) (soa : Soa) : Option (Rr ν) := do
  let mname ← c.parseName soa.mname
  let rname ← c.parseName soa.rname
  return {
    name := ← c.parseName apex
    ttl := soa.minimum
    rdata := .soa {
      mname, rname, serial := soa.serial, refresh := soa.refresh.toInt32,
      retry := soa.retry.toInt32, expire := soa.expire.toInt32, minimum := soa.minimum } }

/-- A timer that is negative on the wire is stored as zero. -/
def timer (n : Int32) : UInt32 := if n < 0 then 0 else n.toUInt32

def soaFromHickory (c : Codec ν) (s : SoaData ν) : Soa where
  mname := c.printName s.mname
  rname := c.printName s.rname
  serial := s.serial
  refresh := timer s.refresh
  retry := timer s.retry
  expire := timer s.expire
  minimum := s.minimum

def rrSoaSerial (rr : Rr ν) : Option UInt32 :=
  match rr.rdata with
  | .soa s => some s.serial
  | _ => none

/-- The resource records of those records that have one. -/
def wire (c : Codec ν) (records : List Record) : List (Rr ν) := records.filterMap (toRr c)

def axfrChunkRecords : ℕ := 150

def messagesFromRecords (records : List (Rr ν)) : List (List (Rr ν)) :=
  records.toChunks axfrChunkRecords

def buildAxfrMessages (c : Codec ν) (apex : String) (soa : Soa) (records : List Record) :
    List (List (Rr ν)) :=
  match soaRr c apex soa with
  | none => []
  | some boundary => messagesFromRecords (boundary :: (wire c records ++ [boundary]))

/-- What was added and removed to reach a serial. -/
structure ZoneChange where
  serial : UInt32
  added : List Record
  removed : List Record
deriving DecidableEq

/-- The difference sequences of a journal, from the serial before it. -/
def differences (c : Codec ν) (apex : String) (soa : Soa) (prev : UInt32) :
    List ZoneChange → List (Rr ν)
  | [] => []
  | change :: rest =>
    (soaRr c apex { soa with serial := prev }).toList ++ wire c change.removed ++
      (soaRr c apex { soa with serial := change.serial }).toList ++ wire c change.added ++
      differences c apex soa change.serial rest

def buildIxfrMessages (c : Codec ν) (apex : String) (soa : Soa) (clientSerial : UInt32)
    (journal : List ZoneChange) : List (List (Rr ν)) :=
  match soaRr c apex soa with
  | none => []
  | some header =>
    messagesFromRecords (header :: (differences c apex soa clientSerial journal ++ [header]))

/-- The answer to a client that is up to date. -/
def buildIxfrUptodate (c : Codec ν) (apex : String) (soa : Soa) : List (List (Rr ν)) :=
  match soaRr c apex soa with
  | none => []
  | some header => messagesFromRecords [header]

/-- One length-prefixed message as a secondary receives it: its signature does not verify, it does
not decode, or it has answers. A list of frames ends where the connection does, or where no message
came in time. -/
inductive Frame (ν : Type) where
  | unverified
  | undecodable
  | message (answers : List (Rr ν))

/-! ### Reading a full transfer -/

structure AxfrRead where
  soa : Option Soa := none
  records : List Record := []
  soaSeen : UInt8 := 0

/-- Nothing is read any more after the closing SOA. -/
def axfrAnswer (c : Codec ν) (read : AxfrRead) (rr : Rr ν) : AxfrRead :=
  if 2 ≤ read.soaSeen then read else
    match rr.rdata with
    | .soa s => { read with
        soaSeen := read.soaSeen + 1
        soa := read.soa.or (some (soaFromHickory c s)) }
    | _ =>
      match fromRr c rr with
      | some rec => { read with records := read.records ++ [rec] }
      | none => read

def axfrFrames (c : Codec ν) (read : AxfrRead) : List (Frame ν) → Option AxfrRead
  | [] => some read
  | .unverified :: _ => none
  | .undecodable :: _ => some read
  | .message answers :: rest =>
    let read := answers.foldl (axfrAnswer c) read
    if 2 ≤ read.soaSeen then some read else axfrFrames c read rest

/-- A stream that ends without its closing SOA is accepted if the opening one was there. -/
def axfrPull (c : Codec ν) (frames : List (Frame ν)) : Option (Soa × List Record) := do
  let read ← axfrFrames c {} frames
  return (← read.soa, read.records)

/-! ### Reading an incremental transfer -/

inductive IxfrResponse where
  | upToDate
  /-- Each sequence has the removed records and the added ones. -/
  | incremental (newSoa : Soa) (sequences : List (List Record × List Record))
  /-- The server answered with the whole zone. -/
  | full (soa : Soa) (records : List Record)
deriving DecidableEq

/-- The trailing SOA has the serial of the first one. -/
def closed (rrs : List (Rr ν)) (soaSeen : UInt8) : Bool :=
  match rrs.head?.bind rrSoaSerial, rrs.getLast?.bind rrSoaSerial with
  | some first, some last => 2 ≤ rrs.length && last == first && 2 ≤ soaSeen
  | _, _ => false

/-- The counter of SOA records has eight bits. -/
def countSoas (soaSeen : UInt8) (answers : List (Rr ν)) : UInt8 :=
  answers.foldl (fun n rr => if (rrSoaSerial rr).isSome then n + 1 else n) soaSeen

/-- The answers of all messages up to the one that closes the transfer. -/
def collect (rrs : List (Rr ν)) (soaSeen : UInt8) : List (Frame ν) → Option (List (Rr ν))
  | [] => some rrs
  | .unverified :: _ => none
  | .undecodable :: _ => some rrs
  | .message answers :: rest =>
    let soaSeen := countSoas soaSeen answers
    if closed (rrs ++ answers) soaSeen then some (rrs ++ answers)
    else collect (rrs ++ answers) soaSeen rest

def isData (rr : Rr ν) : Bool := (rrSoaSerial rr).isNone

/-- The difference sequences up to the trailing SOA. A sequence whose second SOA is missing is
left out. Each turn takes at least two records off the list, so its length is fuel enough. -/
def parseSequences (c : Codec ν) (newSerial : UInt32) :
    ℕ → List (Rr ν) → List (List Record × List Record)
  | 0, _ => []
  | _, [] => []
  | fuel + 1, rr :: rrs =>
    if rrSoaSerial rr = some newSerial then [] else
      let removed := rrs.takeWhile isData
      match rrs.dropWhile isData with
      | [] => []
      | _ :: rrs =>
        let added := rrs.takeWhile isData
        (removed.filterMap (fromRr c), added.filterMap (fromRr c)) ::
          parseSequences c newSerial fuel (rrs.dropWhile isData)

def parseIxfr (c : Codec ν) (rrs : List (Rr ν)) : Option IxfrResponse :=
  match rrs with
  | [] => none
  | first :: rest =>
    match first.rdata with
    | .soa s =>
      match rest with
      | [] => some .upToDate
      | second :: _ =>
        if (rrSoaSerial second).any (· != s.serial) then
          some (.incremental (soaFromHickory c s) (parseSequences c s.serial rest.length rest))
        else some (.full (soaFromHickory c s) (rrs.filterMap (fromRr c)))
    | _ => none

def ixfrPull (c : Codec ν) (frames : List (Frame ν)) : Option IxfrResponse := do
  parseIxfr c (← collect [] 0 frames)

end Magnetite.Dns
