import Magnetite.Dns.Ixfr
import Magnetite.Dns.Store

/-!
# Refreshing a secondary zone

A secondary asks its primaries in turn. The first sync is a full transfer; later ones ask for what
changed since the serial it has. What a primary does is given by what comes back from it. A refresh
to which no primary sends an SOA leaves the zone as it was, whatever the store does. A full transfer
that is cut off after its opening SOA is accepted as it is.
-/
namespace Magnetite.Dns

open Magnetite.Lib

variable {ν : Type}

/-- What comes back from a primary on each kind of request. -/
structure Primary (ν : Type) where
  /-- Whether its name resolves to an address. -/
  resolves : Bool
  /-- The answers to the query for the SOA, if any came and could be decoded. -/
  soaReply : Option (List (Rr ν))
  axfr : List (Frame ν)
  ixfr : List (Frame ν)

def Primary.querySoaSerial (p : Primary ν) : Option UInt32 :=
  p.soaReply.bind (·.findSome? rrSoaSerial)

/-- Serial number arithmetic: whether `a` is newer than `b`. -/
def serialNewer (a b : UInt32) : Bool := a != b && a - b < 0x80000000

def recordState (zone : String) (serial : UInt32) (ok : Bool) (error : Option String)
    (prevSuccess : Option ℕ) : DbM Unit := do
  let now ← .now
  let _ ← .attempt (Db.setZoneTransferState zone {
    lastSerial := serial
    lastAttempt := now
    lastOk := ok
    lastError := error
    lastSuccess := if ok then some now else prevSuccess })

/-- What the store answers is not looked at. -/
def storeFull (zone : Zone) (soa : Soa) (records : List Record) : DbM UInt32 := do
  let _ ← .attempt (Db.replaceZoneRecords zone.id soa (records.map (·.inZone zone.id)))
  pure soa.serial

def Zone.lastSuccess (zone : Zone) : Option ℕ := zone.transferState.bind (·.lastSuccess)

/-- A full zone is stored and the refresh reported as a success. -/
def acceptFull (zone : Zone) (soa : Soa) (records : List Record) : DbM Bool := do
  let serial ← storeFull zone soa records
  recordState zone.id serial true none zone.lastSuccess
  pure true

/-- The incremental path, for a zone that was synced before: whether it came to an end. -/
def refreshIncremental (c : Codec ν) (zone : Zone) (p : Primary ν) : DbM Bool := do
  match ixfrPull c p.ixfr with
  | some .upToDate =>
    recordState zone.id zone.soa.serial true none zone.lastSuccess
    pure true
  | some (.incremental newSoa sequences) =>
    .each sequences fun step => do
      let _ ← .attempt (Db.applyZoneDelta zone.id step.1 step.2)
    let _ ← .attempt (Db.setZoneSoa zone.id newSoa)
    recordState zone.id newSoa.serial true none zone.lastSuccess
    pure true
  | some (.full soa records) => acceptFull zone soa records
  | none => pure false

/-- The serial of the last attempt, if the primary says that it has nothing newer. -/
def notNewer (zone : Zone) (p : Primary ν) : Option UInt32 :=
  match zone.transferState.map (·.lastSerial), p.querySoaSerial with
  | some current, some remote => if serialNewer remote current then none else some current
  | _, _ => none

/-- The first sync: skipped if the primary is not newer, else a full transfer. -/
def refreshFull (c : Codec ν) (zone : Zone) (p : Primary ν) : DbM Bool := do
  match notNewer zone p with
  | some current =>
    recordState zone.id current true none zone.lastSuccess
    pure true
  | none =>
    match axfrPull c p.axfr with
    | some (soa, records) => acceptFull zone soa records
    | none => pure false

/-- Whether the primary brought the refresh to an end. -/
def refreshFrom (c : Codec ν) (zone : Zone) (p : Primary ν) : DbM Bool :=
  if ! p.resolves then pure false
  else if zone.lastSuccess.isSome then refreshIncremental c zone p
  else refreshFull c zone p

def refreshSecondary (c : Codec ν) (zone : Zone) : List (Primary ν) → DbM Unit
  | [] => recordState zone.id ((zone.transferState.map (·.lastSerial)).getD 0) false
      (some "no primary reachable") zone.lastSuccess
  | p :: rest => do
    if ← refreshFrom c zone p then pure () else refreshSecondary c zone rest

/-! ### Failed pulls -/

/-- The answers that arrive before the first message that cannot be used. -/
def arrived : List (Frame ν) → List (Rr ν)
  | .message answers :: rest => answers ++ arrived rest
  | _ => []

/-- The first message that cannot be used has a bad signature. -/
def BadSignature : List (Frame ν) → Prop
  | .message _ :: rest => BadSignature rest
  | .unverified :: _ => True
  | _ => False

def soaCount (rrs : List (Rr ν)) : ℕ := rrs.countP fun rr => (rrSoaSerial rr).isSome

/-- The stream has no SOA before it breaks off, or breaks off with a bad signature before a second
one. -/
def Barren (frames : List (Frame ν)) : Prop :=
  soaCount (arrived frames) = 0 ∨ BadSignature frames ∧ soaCount (arrived frames) < 2

section Pulls

variable (c : Codec ν)

/-- At most one SOA is counted for each that was read, and there is none without one. -/
structure AxfrRead.Counts (read : AxfrRead) (n : ℕ) : Prop where
  seen : read.soaSeen.toNat ≤ n
  soa : read.soaSeen = 0 → read.soa = none

theorem AxfrRead.Counts.answer {read : AxfrRead} {n : ℕ} (h : read.Counts n) (rr : Rr ν) :
    (axfrAnswer c read rr).Counts (n + soaCount [rr]) := by
  unfold axfrAnswer
  split
  case isTrue => exact ⟨h.seen.trans (Nat.le_add_right _ _), h.soa⟩
  case isFalse hlt =>
    cases hrr : rr.rdata with
    | soa s =>
      have hcount : soaCount [rr] = 1 := by simp [soaCount, rrSoaSerial, hrr]
      have hseen : (read.soaSeen + 1).toNat = read.soaSeen.toNat + 1 := by
        rw [UInt8.le_iff_toNat_le] at hlt
        simp only [UInt8.reduceToNat] at hlt
        rw [UInt8.toNat_add]
        simp only [UInt8.reduceToNat]
        omega
      refine ⟨by simp only [hseen, hcount]; have := h.seen; omega, fun h0 => ?_⟩
      have := congrArg UInt8.toNat h0
      simp [hseen] at this
    | _ =>
      cases fromRr c rr <;>
        exact ⟨h.seen.trans (Nat.le_add_right _ _), h.soa⟩

theorem AxfrRead.Counts.answers {read : AxfrRead} {n : ℕ} (h : read.Counts n)
    (answers : List (Rr ν)) :
    (answers.foldl (axfrAnswer c) read).Counts (n + soaCount answers) := by
  induction answers generalizing read n with
  | nil => simpa [soaCount] using h
  | cons rr rest ih =>
    have hcount : n + soaCount (rr :: rest) = n + soaCount [rr] + soaCount rest := by
      simp only [soaCount, List.countP_cons, List.countP_nil]
      omega
    rw [List.foldl_cons, hcount]
    exact ih (h.answer c rr)

theorem soaCount_arrived_message (answers : List (Rr ν)) (rest : List (Frame ν)) :
    soaCount (arrived (.message answers :: rest)) = soaCount answers + soaCount (arrived rest) := by
  simp [arrived, soaCount]

theorem AxfrRead.Counts.frames {read r : AxfrRead} {n : ℕ} (h : read.Counts n)
    {frames : List (Frame ν)} (hr : axfrFrames c read frames = some r) :
    r.Counts (n + soaCount (arrived frames)) := by
  induction frames generalizing read n with
  | nil =>
    cases hr
    simpa [arrived, soaCount] using h
  | cons frame rest ih =>
    cases frame with
    | unverified => cases hr
    | undecodable =>
      cases hr
      simpa [arrived, soaCount] using h
    | message answers =>
      rw [soaCount_arrived_message, ← Nat.add_assoc]
      rw [axfrFrames] at hr
      have hanswers := h.answers c answers
      split at hr
      · cases hr
        exact ⟨hanswers.seen.trans (Nat.le_add_right _ _), hanswers.soa⟩
      · exact ih hanswers hr

theorem axfrFrames_badSignature {read : AxfrRead} {n : ℕ} (h : read.Counts n)
    {frames : List (Frame ν)} (hbad : BadSignature frames)
    (hlt : n + soaCount (arrived frames) < 2) : axfrFrames c read frames = none := by
  induction frames generalizing read n with
  | nil => exact hbad.elim
  | cons frame rest ih =>
    cases frame with
    | unverified => rfl
    | undecodable => exact hbad.elim
    | message answers =>
      rw [soaCount_arrived_message, ← Nat.add_assoc] at hlt
      have hanswers := h.answers c answers
      rw [axfrFrames, if_neg, ih hanswers hbad hlt]
      rw [UInt8.le_iff_toNat_le]
      have := hanswers.seen
      simp only [UInt8.reduceToNat]
      omega

theorem axfrPull_of_barren {frames : List (Frame ν)} (h : Barren frames) :
    axfrPull c frames = none := by
  have hstart : ({} : AxfrRead).Counts 0 := ⟨le_rfl, fun _ => rfl⟩
  obtain h0 | ⟨hbad, hlt⟩ := h
  · cases hr : axfrFrames c {} frames with
    | none => simp [axfrPull, hr]
    | some r =>
      have hcounts := hstart.frames c hr
      have hseen : r.soaSeen = 0 := by
        have := hcounts.seen
        apply UInt8.toNat_inj.mp
        simp only [h0] at this
        simpa using this
      simp [axfrPull, hr, hcounts.soa hseen]
  · simp [axfrPull, axfrFrames_badSignature c hstart hbad (by omega)]

/-- What is collected has no more SOA records than what was there and what arrives. -/
theorem soaCount_of_collect {rrs l : List (Rr ν)} {seen : UInt8} {frames : List (Frame ν)}
    (h : collect rrs seen frames = some l) :
    soaCount l ≤ soaCount rrs + soaCount (arrived frames) := by
  induction frames generalizing rrs seen with
  | nil =>
    cases h
    simp
  | cons frame rest ih =>
    cases frame with
    | unverified => cases h
    | undecodable =>
      cases h
      simp
    | message answers =>
      have happend : soaCount (rrs ++ answers) = soaCount rrs + soaCount answers := by
        simp [soaCount]
      rw [collect] at h
      rw [soaCount_arrived_message]
      split at h
      · cases h
        omega
      · have := ih h
        omega

theorem collect_badSignature (rrs : List (Rr ν)) {frames : List (Frame ν)}
    (hbad : BadSignature frames) (hlt : soaCount rrs + soaCount (arrived frames) < 2) :
    collect rrs (countSoas 0 rrs) frames = none := by
  induction frames generalizing rrs with
  | nil => exact hbad.elim
  | cons frame rest ih =>
    cases frame with
    | unverified => rfl
    | undecodable => exact hbad.elim
    | message answers =>
      have happend : soaCount (rrs ++ answers) = soaCount rrs + soaCount answers := by
        simp [soaCount]
      have hcount : countSoas (countSoas 0 rrs) answers = countSoas 0 (rrs ++ answers) := by
        simp [countSoas]
      rw [soaCount_arrived_message, ← Nat.add_assoc, ← happend] at hlt
      have hopen : ¬ closed (rrs ++ answers) (countSoas 0 (rrs ++ answers)) := by
        have hseen : ¬ 2 ≤ countSoas 0 (rrs ++ answers) := by
          rw [countSoas_eq, UInt8.le_iff_toNat_le, UInt8.zero_add, UInt8.toNat_ofNat']
          change ¬ _ ≤ soaCount (rrs ++ answers) % _
          simp only [UInt8.reduceToNat]
          omega
        unfold closed
        split <;> simp [hseen]
      rw [collect, hcount, if_neg hopen]
      exact ih _ hbad hlt

theorem parseIxfr_of_soaCount {rrs : List (Rr ν)} (h : soaCount rrs = 0) :
    parseIxfr c rrs = none := by
  cases rrs with
  | nil => rfl
  | cons rr rest =>
    have hdata : rrSoaSerial rr = none := by
      have := List.countP_eq_zero.mp h rr List.mem_cons_self
      simpa using this
    unfold parseIxfr
    cases hrr : rr.rdata with
    | soa s => simp [rrSoaSerial, hrr] at hdata
    | _ => simp [hrr]

theorem ixfrPull_of_barren {frames : List (Frame ν)} (h : Barren frames) :
    ixfrPull c frames = none := by
  obtain h0 | ⟨hbad, hlt⟩ := h
  · cases hl : collect [] 0 frames with
    | none => simp [ixfrPull, hl]
    | some l =>
      have hcount : soaCount l = 0 := by
        have := soaCount_of_collect hl
        simp only [h0] at this
        simpa [soaCount] using this
      simp [ixfrPull, hl, parseIxfr_of_soaCount c hcount]
  · have hnone := collect_badSignature [] hbad (by simpa [soaCount] using hlt)
    simp only [countSoas, List.foldl_nil] at hnone
    simp [ixfrPull, hnone]

/-- After the closing SOA nothing counts. -/
theorem foldl_axfrAnswer_of_closed {read : AxfrRead} (h : 2 ≤ read.soaSeen)
    (answers : List (Rr ν)) : answers.foldl (axfrAnswer c) read = read := by
  induction answers with
  | nil => rfl
  | cons rr rest ih => rw [List.foldl_cons, axfrAnswer, if_pos h, ih]

/-- A full transfer is read from the answers that arrive, if it is closed or its stream does not
break off with a bad signature. -/
theorem axfrFrames_eq {read : AxfrRead} (hopen : ¬ 2 ≤ read.soaSeen) {frames : List (Frame ν)}
    (h : 2 ≤ ((arrived frames).foldl (axfrAnswer c) read).soaSeen ∨ ¬ BadSignature frames) :
    axfrFrames c read frames = some ((arrived frames).foldl (axfrAnswer c) read) := by
  induction frames generalizing read with
  | nil => rfl
  | cons frame rest ih =>
    cases frame with
    | undecodable => rfl
    | unverified =>
      obtain hclosed | hbad := h
      · exact absurd hclosed hopen
      · exact absurd trivial hbad
    | message answers =>
      rw [arrived, List.foldl_append] at h ⊢
      rw [axfrFrames]
      split
      case isTrue hclosed => rw [foldl_axfrAnswer_of_closed c hclosed]
      case isFalse hopen => exact ih hopen h

theorem axfrAnswer_data {read : AxfrRead} (hopen : ¬ 2 ≤ read.soaSeen) {rr : Rr ν}
    (hrr : isData rr) :
    axfrAnswer c read rr = { read with records := read.records ++ (fromRr c rr).toList } := by
  rw [axfrAnswer, if_neg hopen]
  cases hd : rr.rdata with
  | soa s => simp [isData, rrSoaSerial, hd] at hrr
  | _ => cases fromRr c rr <;> simp

theorem foldl_axfrAnswer_data {read : AxfrRead} (hopen : ¬ 2 ≤ read.soaSeen) {data : List (Rr ν)}
    (hdata : ∀ rr ∈ data, isData rr) :
    data.foldl (axfrAnswer c) read =
      { read with records := read.records ++ data.filterMap (fromRr c) } := by
  induction data generalizing read with
  | nil => simp
  | cons rr rest ih =>
    obtain ⟨hrr, hrest⟩ := List.forall_mem_cons.mp hdata
    rw [List.foldl_cons, axfrAnswer_data c hopen hrr, ih (by simpa using hopen) hrest,
      List.filterMap_cons]
    cases fromRr c rr <;> simp

/-- An opening SOA and records are a transfer, whether a closing SOA follows or the stream just
ends. -/
theorem axfrPull_eq {frames : List (Frame ν)} {header : Rr ν} {s : SoaData ν}
    (hheader : header.rdata = .soa s) {data tail : List (Rr ν)} (hdata : ∀ rr ∈ data, isData rr)
    (harrived : arrived frames = header :: (data ++ tail))
    (htail : tail = [] ∧ ¬ BadSignature frames ∨ ∃ rr ∈ tail.head?, ¬ isData rr) :
    axfrPull c frames = some (soaFromHickory c s, data.filterMap (fromRr c)) := by
  have hone : ¬ (2 : UInt8) ≤ 1 := by decide
  have htwo : (2 : UInt8) ≤ 2 := by decide
  have hopening : axfrAnswer c {} header =
      { soa := some (soaFromHickory c s), records := [], soaSeen := 1 } := by
    simp [axfrAnswer, hheader]
  have hfold : (header :: (data ++ tail)).foldl (axfrAnswer c) {} =
      tail.foldl (axfrAnswer c) { soa := some (soaFromHickory c s)
                                  records := data.filterMap (fromRr c)
                                  soaSeen := 1 } := by
    rw [List.foldl_cons, hopening, List.foldl_append, foldl_axfrAnswer_data c hone hdata]
    simp
  obtain ⟨rfl, hbad⟩ | ⟨closing, htail, hclosing⟩ := htail
  · rw [axfrPull, axfrFrames_eq c (by decide) (.inr hbad), harrived, hfold]
    rfl
  · obtain ⟨rest, rfl⟩ : ∃ rest, tail = closing :: rest := by
      cases tail with
      | nil => cases htail
      | cons rr rest => exact ⟨rest, by cases htail; rfl⟩
    have hclosed : axfrAnswer c { soa := some (soaFromHickory c s)
                                  records := data.filterMap (fromRr c)
                                  soaSeen := 1 } closing =
        { soa := some (soaFromHickory c s)
          records := data.filterMap (fromRr c)
          soaSeen := 2 } := by
      cases hd : closing.rdata with
      | soa s => simp [axfrAnswer, hd]
      | _ => simp [isData, rrSoaSerial, hd] at hclosing
    have hall : (arrived frames).foldl (axfrAnswer c) {} =
        { soa := some (soaFromHickory c s)
          records := data.filterMap (fromRr c)
          soaSeen := 2 } := by
      rw [harrived, hfold, List.foldl_cons, hclosed, foldl_axfrAnswer_of_closed c htwo]
    rw [axfrPull, axfrFrames_eq c (by decide) (.inl (by rw [hall]; exact htwo)), hall]
    rfl

end Pulls

/-! ### What a refresh leaves -/

/-- Nothing that a refresh asks the primary for brings an SOA, or says that the zone is current. -/
def Primary.BringsNothing (p : Primary ν) (zone : Zone) : Prop :=
  p.resolves = false ∨
    if zone.lastSuccess.isSome then Barren p.ixfr else notNewer zone p = none ∧ Barren p.axfr

/-- The records are the same, and so are the SOA and the last success of every zone. -/
structure Untouched (d d' : ZoneDb) : Prop where
  records : d'.records = d.records
  zones (id : String) : d'.zones[id]?.map (fun z => (z.soa, z.lastSuccess)) =
    d.zones[id]?.map fun z => (z.soa, z.lastSuccess)

variable {c : Codec ν} {zone : Zone}

theorem refreshFrom_of_bringsNothing {p : Primary ν} (h : p.BringsNothing zone) :
    refreshFrom c zone p = pure false := by
  unfold refreshFrom
  obtain h | h := h
  · simp [h]
  · split
    · rfl
    · split at h
      case isTrue hs => rw [if_pos hs, refreshIncremental, ixfrPull_of_barren c h]
      case isFalse hs => rw [if_neg hs, refreshFull, h.1, axfrPull_of_barren c h.2]

/-- Primaries that bring nothing are passed over. -/
theorem refreshSecondary_append {before : List (Primary ν)}
    (h : ∀ p ∈ before, p.BringsNothing zone) (rest : List (Primary ν)) :
    refreshSecondary c zone (before ++ rest) = refreshSecondary c zone rest := by
  induction before with
  | nil => rfl
  | cons p before ih =>
    obtain ⟨hp, hbefore⟩ := List.forall_mem_cons.mp h
    change (refreshFrom c zone p >>= fun done =>
      if done then pure () else refreshSecondary c zone (before ++ rest)) = _
    rw [refreshFrom_of_bringsNothing hp, ← ih hbefore]
    rfl

/-- A failure that is recorded keeps the time of the last success. -/
theorem keeps_recordState {d : ZoneDb} (hzone : d.zones[zone.id]? = some zone) (serial : UInt32)
    (error : Option String) :
    Keeps (Untouched d) (recordState zone.id serial false error zone.lastSuccess) := by
  have hwrite (state : TransferState) (hsuccess : state.lastSuccess = zone.lastSuccess) :
      Keeps (Untouched d) (Db.setZoneTransferState zone.id state) := by
    unfold Db.setZoneTransferState Db.updateZone
    refine Keeps.write fun s hs => ⟨hs.records, fun id => ?_⟩
    have hz := hs.zones id
    simp only [Std.ExtTreeMap.getElem?_modify, Std.compare_eq_iff_eq]
    split
    case isFalse => exact hz
    case isTrue h =>
      subst h
      rw [hzone, Option.map_some] at hz ⊢
      obtain ⟨row, hrow, hkept⟩ := Option.map_eq_some_iff.mp hz
      rw [Prod.mk.injEq] at hkept
      simp [hrow, Zone.lastSuccess, hsuccess, hkept.1]
  exact Keeps.now.bind fun now => (Keeps.attempt (hwrite _ rfl)).bind fun _ => Keeps.pure ()

/-- Whatever the store does. -/
theorem refreshSecondary_untouched {primaries : List (Primary ν)}
    (h : ∀ p ∈ primaries, p.BringsNothing zone) {d : ZoneDb}
    (hzone : d.zones[zone.id]? = some zone) :
    Keeps (Untouched d) (refreshSecondary c zone primaries) := by
  rw [← List.append_nil primaries, refreshSecondary_append h]
  exact keeps_recordState hzone _ _

/-- The store with the outcome of an attempt. -/
def recorded (d : ZoneDb) (id : String) (state : TransferState) : ZoneDb :=
  { d with zones := d.zones.modify id fun z => { z with transferState := some state } }

theorem getElem?_recorded {d : ZoneDb} {id : String} (h : d.zones[id]? = some zone)
    (state : TransferState) :
    (recorded d id state).zones[id]? = some { zone with transferState := some state } := by
  simp [recorded, h]

theorem total_recordState (d : ZoneDb) (id : String) (serial : UInt32) (ok : Bool)
    (error : Option String) (prevSuccess : Option ℕ) :
    Total (· = d) (recordState id serial ok error prevSuccess) fun _ d' =>
      ∃ now, d' = recorded d id ⟨serial, now, ok, error, if ok then some now else prevSuccess⟩ := by
  have hnow : Total (· = d) (.now : DbM ℕ) fun _ d' => d' = d := Total.now fun _ _ hd => hd
  refine hnow.bind fun now => Total.ignored ?_
  exact (Db.total_updateZone d id _).consequence (fun _ h => h) fun _ _ h => ⟨now, h⟩

/-- A success is recorded, and the refresh is at its end. -/
theorem total_recordSuccess (d : ZoneDb) (id : String) (serial : UInt32)
    (prevSuccess : Option ℕ) :
    Total (· = d) (recordState id serial true none prevSuccess >>= fun _ => pure true)
      fun done d' => done = true ∧ ∃ now, d' = recorded d id ⟨serial, now, true, none, some now⟩ :=
  (total_recordState d id serial true none prevSuccess).bind fun _ => Total.pure fun _ h => ⟨rfl, h⟩

/-- What a full transfer makes of the store. -/
def transferred (d : ZoneDb) (id : String) (soa : Soa) (records : List Record) : ZoneDb :=
  (records.map (·.inZone id)).foldl ZoneDb.create (Db.cleared d id soa)

theorem total_storeFull (d : ZoneDb) (zone : Zone) (soa : Soa) {records : List Record}
    (h : records.Pairwise fun a b => Compatible (Db.toRow a) b) :
    Total (· = d) (storeFull zone soa records) fun serial d' =>
      serial = soa.serial ∧ d' = transferred d zone.id soa records := by
  have hzone : ∀ r ∈ records.map (·.inZone zone.id), r.zone = zone.id := by
    simp [Record.inZone]
  have hstore : Total (· = d)
      (.attempt (Db.replaceZoneRecords zone.id soa (records.map (·.inZone zone.id))))
      fun _ d' => d' = transferred d zone.id soa records :=
    Total.attempt (Db.total_replaceZoneRecords d soa hzone (List.pairwise_map.mpr h))
  exact hstore.bind fun _ => Total.pure fun _ h => ⟨rfl, h⟩

theorem rowsOf_transferred (d : ZoneDb) (id : String) (soa : Soa) (records : List Record) :
    (transferred d id soa records).rowsOf id =
      {row | ∃ r ∈ records, row = Db.toRow (r.inZone id)} := by
  rw [transferred, ZoneDb.rowsOf_foldl_create, Db.rowsOf_cleared]
  ext row
  simp [Record.inZone]

theorem zones_transferred (d : ZoneDb) (id : String) (soa : Soa) (records : List Record) :
    (transferred d id soa records).zones = d.zones.modify id fun z => { z with soa } := by
  simp [transferred, Db.cleared]

/-- The zone has the rows of the records and the SOA, and counts as transferred. -/
structure Holds (d : ZoneDb) (id : String) (soa : Soa) (records : List Record) : Prop where
  rows : d.rowsOf id = {row | ∃ r ∈ records, row = Db.toRow (r.inZone id)}
  zone : ∃ z, d.zones[id]? = some z ∧ z.soa = soa ∧ z.lastSuccess.isSome

theorem total_acceptFull (d : ZoneDb) (zone : Zone) (soa : Soa) {records : List Record}
    (h : records.Pairwise fun a b => Compatible (Db.toRow a) b) :
    Total (· = d) (acceptFull zone soa records) fun done d' =>
      done = true ∧ ∃ now, d' = recorded (transferred d zone.id soa records) zone.id
        ⟨soa.serial, now, true, none, some now⟩ := by
  refine (total_storeFull d zone soa h).bind fun serial => ⟨?_⟩
  rintro clock s hf ⟨rfl, hd⟩
  exact (total_recordSuccess _ zone.id soa.serial zone.lastSuccess).run clock s hf hd

/-- The first primary that brings the refresh to an end decides it. -/
theorem total_refreshSecondary_of_done {d : ZoneDb} {p : Primary ν} {post : ZoneDb → Prop}
    (h : Total (· = d) (refreshFrom c zone p) fun done d' => done = true ∧ post d')
    (rest : List (Primary ν)) :
    Total (· = d) (refreshSecondary c zone (p :: rest)) fun _ => post := by
  refine h.bind fun done => ⟨?_⟩
  rintro clock s hf ⟨rfl, hd⟩
  exact ⟨(), s, rfl, hf, hd⟩

theorem refreshFrom_first {p : Primary ν} (hresolves : p.resolves) (hfirst : zone.lastSuccess = none)
    (hnew : notNewer zone p = none) {soa : Soa} {records : List Record}
    (hpull : axfrPull c p.axfr = some (soa, records)) :
    refreshFrom c zone p = acceptFull zone soa records := by
  simp [refreshFrom, hresolves, hfirst, refreshFull, hnew, hpull]

theorem total_refreshSecondary_full {d : ZoneDb} (hzone : d.zones[zone.id]? = some zone)
    (hfirst : zone.lastSuccess = none) {p : Primary ν} (hresolves : p.resolves)
    (hnew : notNewer zone p = none) {soa : Soa} {records : List Record}
    (hpull : axfrPull c p.axfr = some (soa, records))
    (h : records.Pairwise fun a b => Compatible (Db.toRow a) b) (rest : List (Primary ν)) :
    Total (· = d) (refreshSecondary c zone (p :: rest)) fun _ d' =>
      Holds d' zone.id soa records := by
  have hfrom := refreshFrom_first hresolves hfirst hnew hpull
  refine total_refreshSecondary_of_done (hfrom ▸ (total_acceptFull d zone soa h).consequence
    (fun _ h => h) ?_) rest
  rintro _ _ ⟨rfl, now, rfl⟩
  have hzone' : (transferred d zone.id soa records).zones[zone.id]? = some { zone with soa } := by
    simp [zones_transferred, hzone]
  exact ⟨rfl, rowsOf_transferred d zone.id soa records, _, getElem?_recorded hzone' _, rfl, rfl⟩

/-- A refresh to which no primary sends an SOA, or only such that have a bad signature before the
second one, leaves the zone as it was, whatever calls of the store fail. A first transfer, from the
first primary that brings anything, is taken as it is from its opening SOA to the closing one or to
where the stream ends. -/
theorem refresh_outcome (c : Codec ν) (zone : Zone) (primaries : List (Primary ν))
    (clock : ℕ → ℕ) (s : Session ZoneDb) (hzone : s.db.zones[zone.id]? = some zone) :
    ((∀ p ∈ primaries, p.BringsNothing zone) →
      Untouched s.db (refreshSecondary c zone primaries clock s).2.db) ∧
    ∀ before p rest header sd data tail, primaries = before ++ p :: rest →
      (∀ q ∈ before, q.BringsNothing zone) → p.resolves = true → zone.lastSuccess = none →
      notNewer zone p = none → s.faults = [] →
      header.rdata = .soa sd → (∀ rr ∈ data, isData rr) →
      arrived p.axfr = header :: (data ++ tail) →
      (tail = [] ∧ ¬ BadSignature p.axfr ∨ ∃ rr ∈ tail.head?, ¬ isData rr) →
      (data.filterMap (fromRr c)).Pairwise (fun a b => Compatible (Db.toRow a) b) →
      Holds (refreshSecondary c zone primaries clock s).2.db zone.id (soaFromHickory c sd)
        (data.filterMap (fromRr c)) := by
  constructor
  · intro h
    have hrun := (refreshSecondary_untouched (c := c) h hzone).run clock s ⟨rfl, fun _ => rfl⟩
    split at hrun <;> simp_all
  · rintro before p rest header sd data tail rfl hbefore hresolves hfirst hnew hf hheader hdata
      harrived htail hcomp
    have hpull := axfrPull_eq c hheader hdata harrived htail
    obtain ⟨_, t, ht, -, hholds⟩ := (total_refreshSecondary_full hzone hfirst hresolves hnew hpull
      hcomp rest).run clock s hf rfl
    rw [refreshSecondary_append hbefore, ht]
    exact hholds

/-! ### A transfer that is cut off -/

section Sample

def noRecords : RecordTable := ⟨∅, 0, fun _ hk => absurd hk Std.ExtTreeMap.not_mem_empty⟩

def copyZone : Zone where
  id := "z"
  name := "example.com"
  soa := currentSoa 1
  enabled := true
  role := .secondary
  transferState := some ⟨0, 7, false, some "no primary reachable", none⟩

def copyDb : ZoneDb where
  zones := (∅ : Std.ExtTreeMap String Zone).insert "z" copyZone
  records := noRecords.create (note "old")
  journal := []

def boundary (serial : UInt32) : Rr String :=
  ⟨"example.com", .in, 86400, .soa ⟨"ns.example.com", "admin.example.com", serial, 3600, 900, 604800,
    86400⟩⟩

/-- The connection ends after the first of the messages that the primary has for the zone. -/
def cutOff : Primary String where
  resolves := true
  soaReply := none
  axfr := [.message (boundary 2 :: wire plainCodec [note "new"])]
  ixfr := []

def unreachable : Primary String := ⟨true, none, [], []⟩

/-- Without its closing SOA the transfer replaces the zone. -/
theorem cut_transfer_stored :
    soaCount (arrived cutOff.axfr) = 1 ∧
      ¬ Untouched copyDb (refreshSecondary plainCodec copyZone [cutOff] id ⟨copyDb, [], 0⟩).2.db := by
  refine ⟨by decide +kernel, fun h => ?_⟩
  have hz := h.zones "z"
  revert hz
  decide +kernel

theorem refresh_outcome_sample :
    Untouched copyDb
        (refreshSecondary plainCodec copyZone [unreachable] id ⟨copyDb, [true], 0⟩).2.db ∧
      Holds (refreshSecondary plainCodec copyZone [unreachable, cutOff] id ⟨copyDb, [], 0⟩).2.db "z"
        (currentSoa 2) [{ note "new" with zone := "" }] := by
  have hzone : copyDb.zones["z"]? = some copyZone := by decide +kernel
  have hnothing : ∀ p ∈ [unreachable], p.BringsNothing copyZone :=
    List.forall_mem_singleton.mpr (.inr ⟨rfl, .inl rfl⟩)
  refine ⟨(refresh_outcome plainCodec copyZone [unreachable] id ⟨copyDb, [true], 0⟩ hzone).1
    hnothing, ?_⟩
  · have hdata : ∀ rr ∈ wire plainCodec [note "new"], isData rr := fun rr => isData_of_mem_wire
    have h := (refresh_outcome plainCodec copyZone [unreachable, cutOff] id ⟨copyDb, [], 0⟩
      hzone).2 [unreachable] cutOff [] (boundary 2) _ (wire plainCodec [note "new"]) [] rfl hnothing
      rfl rfl rfl rfl rfl hdata
      (by simp [arrived, cutOff]) (.inl ⟨rfl, id⟩)
    have hread : (wire plainCodec [note "new"]).filterMap (fromRr plainCodec) =
        [{ note "new" with zone := "" }] := by decide +kernel
    rw [hread] at h
    exact h (List.pairwise_singleton _ _)

end Sample

end Magnetite.Dns
