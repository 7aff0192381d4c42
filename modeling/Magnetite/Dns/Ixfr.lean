import Magnetite.Dns.Transfer

/-!
# Incremental transfers read back

A journal that leads from the client's serial to the current one is sent as difference sequences,
cut into messages in any way, and read back. The reader takes a message that ends in an SOA with the
current serial for the last one. The SOA that the last difference leads to has that serial too, so
what the last difference adds is lost when a message ends there.
-/
namespace Magnetite.Dns

open Magnetite.Lib

variable {ν : Type} {c : Codec ν} {apex : String} {soa : Soa}

/-- The changes lead from `prev` to `current`, which they reach only at their end. -/
def Chain (current : UInt32) : UInt32 → List ZoneChange → Prop
  | prev, [] => prev = current
  | prev, change :: rest => prev ≠ current ∧ Chain current change.serial rest

/-- Serials that go up by one form a chain, as long as they do not go all the way round. -/
theorem Chain.of_contiguous {current prev : UInt32} {journal : List ZoneChange}
    (hcur : current = prev + .ofNat journal.length) (hlen : journal.length < 2 ^ 32)
    (h : ∀ i (hi : i < journal.length), journal[i].serial = prev + .ofNat (i + 1)) :
    Chain current prev journal := by
  induction journal generalizing prev with
  | nil => simpa [Chain] using hcur.symm
  | cons change rest ih =>
    rw [List.length_cons] at hcur hlen
    have hserial : change.serial = prev + .ofNat 1 := h 0 (by simp)
    have hshift (n : ℕ) : prev + .ofNat (n + 1) = change.serial + UInt32.ofNat n := by
      rw [hserial, UInt32.add_assoc, ← UInt32.ofNat_add, Nat.add_comm]
    refine ⟨fun hne => ?_, ih ?_ (by omega) fun i hi => ?_⟩
    · have hnat := congrArg UInt32.toNat (hne.trans hcur)
      rw [UInt32.toNat_add, UInt32.toNat_ofNat'] at hnat
      have := prev.toNat_lt
      omega
    · rw [hcur, hshift]
    · have := h (i + 1) (by simpa using hi)
      rwa [List.getElem_cons_succ, hshift] at this

/-! ### Records on the wire -/

/-- No stored record is an SOA. -/
theorem toRdata_ne_soa (recordType : RecordType) (data : Data) (s : SoaData ν) :
    toRdata c recordType data ≠ some (.soa s) := by
  cases recordType
  case caa =>
    intro h
    obtain ⟨parts, -, h⟩ := Option.bind_eq_some_iff.mp h
    obtain ⟨issuer, -, h⟩ := Option.bind_eq_some_iff.mp h
    split_ifs at h <;> cases h
  all_goals simp [toRdata, Option.bind_eq_some_iff]

theorem isData_of_toRr {rec : Record} {rr : Rr ν} (h : toRr c rec = some rr) : isData rr := by
  obtain ⟨name, -, h⟩ := Option.bind_eq_some_iff.mp h
  obtain ⟨rdata, hr, h⟩ := Option.bind_eq_some_iff.mp h
  cases h
  cases rdata with
  | soa s => exact absurd hr (toRdata_ne_soa _ _ s)
  | _ => rfl

theorem isData_of_mem_wire {records : List Record} {rr : Rr ν} (h : rr ∈ wire c records) :
    isData rr := by
  obtain ⟨rec, -, hrec⟩ := List.mem_filterMap.mp h
  exact isData_of_toRr hrec

/-- What the reader makes of the records that were sent. -/
def received (c : Codec ν) (records : List Record) : List Record :=
  (wire c records).filterMap (fromRr c)

def sequences (c : Codec ν) (journal : List ZoneChange) : List (List Record × List Record) :=
  journal.map fun change => (received c change.removed, received c change.added)

section

variable {at_ : UInt32 → Rr ν}

/-- The SOA records of a transfer differ in their serials only. -/
structure Soas (c : Codec ν) (apex : String) (soa : Soa) (at_ : UInt32 → Rr ν) : Prop where
  eq (n : UInt32) : soaRr c apex { soa with serial := n } = some (at_ n)
  serial (n : UInt32) : rrSoaSerial (at_ n) = some n

theorem exists_soas {header : Rr ν} (h : soaRr c apex soa = some header) :
    ∃ at_, Soas c apex soa at_ ∧ at_ soa.serial = header := by
  obtain ⟨mname, hm, h⟩ := Option.bind_eq_some_iff.mp h
  obtain ⟨rname, hr, h⟩ := Option.bind_eq_some_iff.mp h
  obtain ⟨name, hn, h⟩ := Option.bind_eq_some_iff.mp h
  cases h
  refine ⟨fun n => ⟨name, .in, soa.minimum, .soa ⟨mname, rname, n, _, _, _, _⟩⟩, ⟨fun n => ?_,
    fun n => rfl⟩, rfl⟩
  simp [soaRr, hm, hr, hn]

variable (h : Soas c apex soa at_)
include h

theorem differences_cons (prev : UInt32) (change : ZoneChange) (rest : List ZoneChange) :
    differences c apex soa prev (change :: rest) =
      at_ prev :: (wire c change.removed ++ at_ change.serial :: (wire c change.added ++
        differences c apex soa change.serial rest)) := by
  simp [differences, h.eq]

/-- A list of records begins with an SOA, or is at its end. -/
def AtSoa (rrs : List (Rr ν)) : Prop := ∀ rr ∈ rrs.head?, ¬ isData rr

omit h in
theorem AtSoa.span {rrs : List (Rr ν)} (hrrs : AtSoa rrs) (data : List (Rr ν))
    (hdata : ∀ rr ∈ data, isData rr) :
    (data ++ rrs).takeWhile isData = data ∧ (data ++ rrs).dropWhile isData = rrs := by
  rw [List.takeWhile_append_of_pos hdata, List.dropWhile_append_of_pos hdata]
  cases rrs with
  | nil => simp
  | cons rr rrs => simp [hrrs rr rfl]

theorem atSoa_differences {tail : List (Rr ν)} (htail : AtSoa tail) (prev : UInt32)
    (journal : List ZoneChange) : AtSoa (differences c apex soa prev journal ++ tail) := by
  cases journal with
  | nil => simpa [differences] using htail
  | cons change rest => simp [differences_cons h, AtSoa, isData, h.serial]

/-- The reader finds the sequences of a chain, whatever follows its trailing SOA. -/
theorem parseSequences_differences {current prev : UInt32} {journal : List ZoneChange}
    (chain : Chain current prev journal) {tail : List (Rr ν)}
    (htail : ∀ rr ∈ tail.head?, rrSoaSerial rr = some current) {fuel : ℕ}
    (hfuel : (differences c apex soa prev journal ++ tail).length ≤ fuel) :
    parseSequences c current fuel (differences c apex soa prev journal ++ tail) =
      sequences c journal := by
  have hsoa : AtSoa tail := fun rr hrr => by simp [isData, htail rr hrr]
  induction journal generalizing prev fuel with
  | nil =>
    cases tail with
    | nil => cases fuel <;> rfl
    | cons rr rest => cases fuel <;> simp [differences, parseSequences, htail rr rfl, sequences]
  | cons change rest ih =>
    obtain ⟨hne, chain⟩ := chain
    rw [differences_cons h] at hfuel ⊢
    obtain ⟨fuel, rfl⟩ : ∃ n, fuel = n + 1 := ⟨fuel - 1, by simp at hfuel; omega⟩
    have hnext : AtSoa (at_ change.serial :: (wire c change.added ++
        (differences c apex soa change.serial rest ++ tail))) := by simp [AtSoa, isData, h.serial]
    have hremoved := hnext.span (wire c change.removed) fun rr => isData_of_mem_wire
    have hadded := (atSoa_differences h hsoa change.serial rest).span (wire c change.added)
      fun rr => isData_of_mem_wire
    have hlen : (differences c apex soa change.serial rest ++ tail).length ≤ fuel := by
      simp only [List.cons_append, List.append_assoc, List.length_cons, List.length_append] at hfuel ⊢
      omega
    simp only [List.cons_append, List.append_assoc, parseSequences, h.serial, Option.some.injEq,
      if_neg hne, hremoved, hadded, ih chain hlen]
    rfl

/-! ### Where the reader may stop -/

/-- The journal without what its last change adds. -/
def withoutLastAdded : List ZoneChange → List ZoneChange
  | [] => []
  | [change] => [{ change with added := [] }]
  | change :: rest => change :: withoutLastAdded rest

omit h in
theorem withoutLastAdded_cons_cons (change next : ZoneChange) (rest : List ZoneChange) :
    withoutLastAdded (change :: next :: rest) = change :: withoutLastAdded (next :: rest) := rfl

def lastAdded (journal : List ZoneChange) : List Record :=
  (journal.getLast?.map (·.added)).getD []

omit h in
theorem Chain.withoutLastAdded {current prev : UInt32} {journal : List ZoneChange}
    (chain : Chain current prev journal) : Chain current prev (withoutLastAdded journal) := by
  induction journal generalizing prev with
  | nil => exact chain
  | cons change rest ih =>
    cases rest with
    | nil => exact chain
    | cons next rest => exact ⟨chain.1, ih chain.2⟩

omit h in
@[simp] theorem length_withoutLastAdded (journal : List ZoneChange) :
    (withoutLastAdded journal).length = journal.length := by
  fun_induction withoutLastAdded journal <;> simp_all

theorem differences_eq (prev : UInt32) {journal : List ZoneChange} :
    differences c apex soa prev journal =
      differences c apex soa prev (withoutLastAdded journal) ++ wire c (lastAdded journal) := by
  induction journal generalizing prev with
  | nil => rfl
  | cons change rest ih =>
    cases rest with
    | nil => simp [withoutLastAdded, lastAdded, differences, wire]
    | cons next rest =>
      have hlast : lastAdded (change :: next :: rest) = lastAdded (next :: rest) := by
        simp [lastAdded]
      rw [differences_cons h, ih, withoutLastAdded_cons_cons, differences_cons h, hlast]
      simp

/-- Of the differences without what is added last, only the last record has the current serial. -/
theorem differences_withoutLastAdded {current prev : UInt32} {journal : List ZoneChange}
    (chain : Chain current prev journal) (hne : journal ≠ []) :
    ∃ before, differences c apex soa prev (withoutLastAdded journal) = before ++ [at_ current] ∧
      ∀ rr ∈ before, rrSoaSerial rr ≠ some current := by
  have hdata {records : List Record} : ∀ rr ∈ wire c records, rrSoaSerial rr ≠ some current :=
    fun rr hrr hs => by simpa [isData, hs] using isData_of_mem_wire hrr
  induction journal generalizing prev with
  | nil => exact absurd rfl hne
  | cons change rest ih =>
    obtain ⟨hprev, chain⟩ := chain
    have hfirst : rrSoaSerial (at_ prev) ≠ some current := by simpa [h.serial] using hprev
    cases rest with
    | nil =>
      obtain rfl : change.serial = current := chain
      refine ⟨at_ prev :: wire c change.removed, ?_, ?_⟩
      · rw [withoutLastAdded, differences_cons h]
        simp [wire, differences]
      · simpa [hfirst] using fun rr => hdata rr
    | cons next rest =>
      have hserial : rrSoaSerial (at_ change.serial) ≠ some current := by
        simpa [h.serial] using chain.1
      obtain ⟨before, heq, hbefore⟩ := ih chain (by simp)
      refine ⟨at_ prev :: (wire c change.removed ++ at_ change.serial ::
        (wire c change.added ++ before)), ?_, ?_⟩
      · rw [withoutLastAdded_cons_cons, differences_cons h, heq]
        simp
      · intro rr hrr
        simp only [List.mem_cons, List.mem_append] at hrr
        obtain rfl | hrr | rfl | hrr | hrr := hrr
        · exact hfirst
        · exact hdata rr hrr
        · exact hserial
        · exact hdata rr hrr
        · exact hbefore rr hrr

omit h in
/-- A prefix that ends in an element of a kind which `a` has none of goes beyond `a`. -/
theorem exists_of_prefix {p a b : List (Rr ν)} {P : Rr ν → Prop} (hp : p <+: a ++ b)
    (hlast : ∃ rr ∈ p.getLast?, P rr) (ha : ∀ rr ∈ a, ¬ P rr) :
    ∃ q, p = a ++ q ∧ q <+: b ∧ ∃ rr ∈ q.getLast?, P rr := by
  obtain ⟨rr, hrr, hP⟩ := hlast
  obtain hpa | ⟨q, rfl⟩ := List.prefix_or_prefix_of_prefix hp (List.prefix_append a b)
  · exact absurd hP (ha rr (hpa.subset (List.mem_of_getLast? hrr)))
  · refine ⟨q, rfl, (List.prefix_append_right_inj a).mp hp, rr, ?_, hP⟩
    cases q with
    | nil => exact absurd hP (ha rr (List.mem_of_getLast? (by simpa using hrr)))
    | cons x q => simpa using hrr

/-- The stream up to the SOA that the last difference leads to. -/
def opening (c : Codec ν) (apex : String) (soa : Soa) (at_ : UInt32 → Rr ν) (client : UInt32)
    (journal : List ZoneChange) : List (Rr ν) :=
  at_ soa.serial :: differences c apex soa client (withoutLastAdded journal)

def stream (c : Codec ν) (apex : String) (soa : Soa) (at_ : UInt32 → Rr ν) (client : UInt32)
    (journal : List ZoneChange) : List (Rr ν) :=
  at_ soa.serial :: (differences c apex soa client journal ++ [at_ soa.serial])

theorem stream_eq (client : UInt32) (journal : List ZoneChange) :
    stream c apex soa at_ client journal =
      opening c apex soa at_ client journal ++ (wire c (lastAdded journal) ++ [at_ soa.serial]) := by
  rw [stream, opening, differences_eq h]
  simp

/-- A part of the stream that ends in the current serial is the opening or all of it. -/
theorem eq_of_prefix_stream {client : UInt32} {journal : List ZoneChange}
    (chain : Chain soa.serial client journal) (hne : journal ≠ []) {p : List (Rr ν)}
    (hp : p <+: stream c apex soa at_ client journal) (hlen : 2 ≤ p.length)
    (hlast : ∃ rr ∈ p.getLast?, rrSoaSerial rr = some soa.serial) :
    p = opening c apex soa at_ client journal ∨ p = stream c apex soa at_ client journal := by
  obtain ⟨before, hopening, hbefore⟩ := differences_withoutLastAdded h chain hne
  rw [stream_eq h] at hp ⊢
  simp only [opening, hopening] at hp ⊢
  match p, hlen with
  | x :: y :: p, _ =>
    rw [List.cons_append, List.append_assoc, List.cons_prefix_cons] at hp
    obtain ⟨rfl, hp⟩ := hp
    obtain ⟨q, hq, hp, hlast⟩ := exists_of_prefix hp (by simpa using hlast) hbefore
    rw [hq]
    cases q with
    | nil => simp at hlast
    | cons z q =>
      rw [List.cons_append, List.nil_append, List.cons_prefix_cons] at hp
      obtain ⟨rfl, hp⟩ := hp
      cases q with
      | nil => simp
      | cons w q =>
        obtain ⟨r, hr, hp, hlast⟩ := exists_of_prefix hp (by simpa using hlast)
          fun rr hrr hs => by simpa [isData, hs] using isData_of_mem_wire hrr
        cases r with
        | nil => simp at hlast
        | cons v r =>
          rw [List.cons_prefix_cons, List.prefix_nil] at hp
          obtain ⟨rfl, rfl⟩ := hp
          simp [hr]

/-! ### The counter -/

omit h in
theorem countSoas_eq (n : UInt8) (rrs : List (Rr ν)) :
    countSoas n rrs = n + .ofNat (rrs.countP fun rr => (rrSoaSerial rr).isSome) := by
  induction rrs generalizing n with
  | nil => simp [countSoas]
  | cons rr rrs ih =>
    rw [countSoas, List.foldl_cons, ← countSoas, ih, List.countP_cons]
    split
    · rw [UInt8.ofNat_add, UInt8.add_comm (UInt8.ofNat _) _, UInt8.add_assoc]
      rfl
    · rfl

omit h in
theorem countP_wire (records : List Record) :
    (wire c records).countP (fun rr => (rrSoaSerial rr).isSome) = 0 := by
  rw [List.countP_eq_zero]
  intro rr hrr
  simpa [isData] using isData_of_mem_wire hrr

theorem countP_differences (prev : UInt32) (journal : List ZoneChange) :
    (differences c apex soa prev journal).countP (fun rr => (rrSoaSerial rr).isSome) =
      2 * journal.length := by
  induction journal generalizing prev with
  | nil => rfl
  | cons change rest ih =>
    simp only [differences_cons h, List.countP_cons, List.countP_append, countP_wire, h.serial, ih,
      Option.isSome_some, if_true, List.length_cons]
    omega

/-- The reader is content with the opening unless the number of changes is a multiple of 128: the
counter then stands at one. -/
theorem closed_opening {client : UInt32} {journal : List ZoneChange}
    (chain : Chain soa.serial client journal) (hne : journal ≠ []) :
    closed (opening c apex soa at_ client journal)
        (countSoas 0 (opening c apex soa at_ client journal)) ↔ ¬ 128 ∣ journal.length := by
  obtain ⟨before, hopening, -⟩ := differences_withoutLastAdded h chain hne
  have hcount : countSoas 0 (opening c apex soa at_ client journal) =
      .ofNat (2 * journal.length + 1) := by
    rw [countSoas_eq, opening, List.countP_cons, countP_differences h, length_withoutLastAdded]
    simp [h.serial]
  have hseen : 2 ≤ UInt8.ofNat (2 * journal.length + 1) ↔ ¬ 128 ∣ journal.length := by
    rw [UInt8.le_iff_toNat_le, UInt8.toNat_ofNat']
    simp only [UInt8.reduceToNat]
    omega
  have hhead : (opening c apex soa at_ client journal).head? = some (at_ soa.serial) := rfl
  have hlast : (opening c apex soa at_ client journal).getLast? = some (at_ soa.serial) := by
    simp [opening, hopening, List.getLast?_cons]
  have hlen : 2 ≤ (opening c apex soa at_ client journal).length := by
    simp [opening, hopening]
  rw [closed, hhead, hlast, hcount, ← hseen]
  simp [h.serial, hlen]

/-- Nothing but the opening and the whole stream closes the transfer. -/
theorem eq_of_closed {client : UInt32} {journal : List ZoneChange}
    (chain : Chain soa.serial client journal) (hne : journal ≠ []) {p : List (Rr ν)} {n : UInt8}
    (hp : p <+: stream c apex soa at_ client journal) (hclosed : closed p n) :
    p = opening c apex soa at_ client journal ∨ p = stream c apex soa at_ client journal := by
  cases p with
  | nil => simp [closed] at hclosed
  | cons rr p =>
    obtain ⟨rfl, -⟩ := List.cons_prefix_cons.mp hp
    obtain ⟨last, hlast⟩ : ∃ last, (at_ soa.serial :: p).getLast? = some last :=
      ⟨_, List.getLast?_cons⟩
    rw [closed, List.head?_cons, hlast, Option.bind_some, Option.bind_some, h.serial] at hclosed
    cases hs : rrSoaSerial last with
    | none => simp [hs] at hclosed
    | some serial =>
      simp only [hs, Bool.and_eq_true, decide_eq_true_eq, beq_iff_eq] at hclosed
      obtain ⟨⟨hlen, rfl⟩, -⟩ := hclosed
      exact eq_of_prefix_stream h chain hne hp hlen ⟨last, hlast, hs⟩

/-- A chain of differences is read as an incremental transfer to the current serial. -/
theorem parseIxfr_differences {client : UInt32} {journal : List ZoneChange}
    (chain : Chain soa.serial client journal) (hne : journal ≠ []) (tail : List (Rr ν))
    (htail : ∀ rr ∈ tail.head?, rrSoaSerial rr = some soa.serial) :
    ∃ newSoa, newSoa.serial = soa.serial ∧
      parseIxfr c (at_ soa.serial :: (differences c apex soa client journal ++ tail)) =
        some (.incremental newSoa (sequences c journal)) := by
  obtain ⟨s, hs, hserial⟩ : ∃ s, (at_ soa.serial).rdata = .soa s ∧ s.serial = soa.serial := by
    have := h.serial soa.serial
    unfold rrSoaSerial at this
    split at this
    · exact ⟨_, ‹_›, by simpa using this⟩
    · simp at this
  refine ⟨soaFromHickory c s, hserial, ?_⟩
  have hparse := parseSequences_differences h chain htail le_rfl
  cases journal with
  | nil => exact absurd rfl hne
  | cons change rest =>
    rw [differences_cons h] at hparse ⊢
    rw [List.cons_append] at hparse ⊢
    simp only [parseIxfr, hs, h.serial, hserial, hparse]
    simp [chain.1]

end

/-- Without failures the collector reads messages until the records it has are closed. -/
theorem collect_messages (rrs : List (Rr ν)) (cut : List (List (Rr ν))) :
    collect rrs (countSoas 0 rrs) (cut.map .message) =
      some (Chunks.readUntil (fun rrs => closed rrs (countSoas 0 rrs)) rrs cut) := by
  induction cut generalizing rrs with
  | nil => rfl
  | cons answers rest ih =>
    have hcount : countSoas (countSoas 0 rrs) answers = countSoas 0 (rrs ++ answers) := by
      simp [countSoas]
    rw [List.map_cons, collect, Chunks.readUntil, hcount, ih]
    split <;> rfl

/-- Each change as the resource records it removes and adds. -/
def wireChanges (c : Codec ν) (journal : List ZoneChange) : List (List (Rr ν) × List (Rr ν)) :=
  journal.map fun change => (wire c change.removed, wire c change.added)

theorem wire_received {records : List Record} (h : ∀ rec ∈ records, Carried c rec) :
    wire c (received c records) = wire c records := by
  induction records with
  | nil => rfl
  | cons rec rest ih =>
    obtain ⟨⟨rr, hrr, r, hr, hback⟩, hrest⟩ := List.forall_mem_cons.mp h
    have := ih hrest
    simp only [received, wire, List.filterMap_cons, hrr, hr, hback] at this ⊢
    rw [this]

theorem wireChanges_withoutLastAdded (journal : List ZoneChange) :
    wireChanges c (withoutLastAdded journal) = wireChanges c journal ↔
      wire c (lastAdded journal) = [] := by
  induction journal with
  | nil => simp [withoutLastAdded, lastAdded, wire]
  | cons change rest ih =>
    cases rest with
    | nil => simp [withoutLastAdded, lastAdded, wireChanges, wire, eq_comm (a := [])]
    | cons next rest =>
      have hlast : lastAdded (change :: next :: rest) = lastAdded (next :: rest) := by
        simp [lastAdded]
      rw [withoutLastAdded_cons_cons, hlast, ← ih]
      simp [wireChanges]

theorem map_wire_sequences {journal : List ZoneChange}
    (h : ∀ change ∈ journal, ∀ rec ∈ change.removed ++ change.added, Carried c rec) :
    (sequences c journal).map (fun step => (wire c step.1, wire c step.2)) =
      wireChanges c journal := by
  rw [sequences, wireChanges, List.map_map]
  refine List.map_congr_left fun change hmem => Prod.ext ?_ ?_
  · exact wire_received fun rec hrec => h change hmem rec (List.mem_append_left _ hrec)
  · exact wire_received fun rec hrec => h change hmem rec (List.mem_append_right _ hrec)

/-- The records of the journal without its last additions are among those of the journal. -/
theorem mem_withoutLastAdded {journal : List ZoneChange} {change : ZoneChange} {rec : Record}
    (hchange : change ∈ withoutLastAdded journal) (hrec : rec ∈ change.removed ++ change.added) :
    ∃ original ∈ journal, rec ∈ original.removed ++ original.added := by
  fun_induction withoutLastAdded journal with
  | case1 => simp at hchange
  | case2 last =>
    obtain rfl := List.mem_singleton.mp hchange
    exact ⟨last, by simp, by simp_all⟩
  | case3 first rest _ ih =>
    obtain rfl | hchange := List.mem_cons.mp hchange
    · exact ⟨_, List.mem_cons_self, hrec⟩
    · obtain ⟨original, hmem, hrec⟩ := ih hchange
      exact ⟨original, List.mem_cons_of_mem _ hmem, hrec⟩

section

variable {at_ : UInt32 → Rr ν} (h : Soas c apex soa at_) {client : UInt32}
  {journal : List ZoneChange} (chain : Chain soa.serial client journal) (hne : journal ≠ [])
  {cut : List (List (Rr ν))}
include h chain hne

/-- A message that ends with the opening ends the transfer. -/
theorem ixfrPull_early {k : ℕ} (hk : (cut.take k).flatten = opening c apex soa at_ client journal)
    (hn : ¬ 128 ∣ journal.length) : ∃ newSoa, newSoa.serial = soa.serial ∧
      ixfrPull c (cut.map .message) =
        some (.incremental newSoa (sequences c (withoutLastAdded journal))) := by
  have hread : Chunks.readUntil (fun rrs => closed rrs (countSoas 0 rrs)) [] cut =
      opening c apex soa at_ client journal := by
    refine Chunks.readUntil_eq (by simp [closed]) (by simpa using hk)
      ((closed_opening h chain hne).mpr hn) fun q hq hclosed => ?_
    have hstream := stream_eq h client journal
    obtain heq | rfl := eq_of_closed h chain hne
      (hq.trans (hstream ▸ List.prefix_append _ _)) hclosed
    · exact heq
    · have := hq.length_le
      simp [hstream] at this
  obtain ⟨newSoa, hserial, hparse⟩ := parseIxfr_differences h chain.withoutLastAdded
    (by simpa [← List.length_pos_iff] using hne) [] (by simp)
  refine ⟨newSoa, hserial, ?_⟩
  have hcollect := collect_messages [] cut
  rw [hread] at hcollect
  rw [ixfrPull, show collect [] 0 _ = _ from hcollect]
  simpa [opening] using hparse

/-- The transfer is read to its end if no message ends with the opening, or if the counter hides
that one does. -/
theorem ixfrPull_whole (hcut : cut.flatten = stream c apex soa at_ client journal)
    (hk : ∀ k, (cut.take k).flatten = opening c apex soa at_ client journal → 128 ∣ journal.length) :
    ∃ newSoa, newSoa.serial = soa.serial ∧
      ixfrPull c (cut.map .message) = some (.incremental newSoa (sequences c journal)) := by
  have hread : Chunks.readUntil (fun rrs => closed rrs (countSoas 0 rrs)) [] cut =
      stream c apex soa at_ client journal := by
    rw [Chunks.readUntil_all, hcut, List.nil_append]
    intro k hclosed
    rw [List.nil_append] at hclosed
    have hprefix : (cut.take k).flatten <+: stream c apex soa at_ client journal :=
      hcut ▸ List.IsPrefix.flatten (List.take_prefix k cut)
    obtain heq | heq := eq_of_closed h chain hne hprefix hclosed
    · rw [heq, closed_opening h chain hne] at hclosed
      exact absurd (hk k heq) hclosed
    · rw [heq, hcut]
  obtain ⟨newSoa, hserial, hparse⟩ := parseIxfr_differences h chain hne [at_ soa.serial]
    (by simp [h.serial])
  refine ⟨newSoa, hserial, ?_⟩
  have hcollect := collect_messages [] cut
  rw [hread] at hcollect
  rw [ixfrPull, show collect [] 0 _ = _ from hcollect]
  exact hparse

end

/-- The reader gets the changes of the journal and the current serial. -/
def RoundTrips (c : Codec ν) (soa : Soa) (journal : List ZoneChange) (cut : List (List (Rr ν))) :
    Prop :=
  ∃ newSoa steps, ixfrPull c (cut.map .message) = some (.incremental newSoa steps) ∧
    newSoa.serial = soa.serial ∧
    steps.map (fun step => (wire c step.1, wire c step.2)) = wireChanges c journal

/-- After some message only what the last change adds and the closing SOA are left. -/
def EndsBeforeLastAdded (journal : List ZoneChange) (cut : List (List (Rr ν))) : Prop :=
  ∃ k, (cut.take k).flatten.length + (lastAdded journal).length + 1 = cut.flatten.length

theorem length_wire {records : List Record} (h : ∀ rec ∈ records, (toRr c rec).isSome) :
    (wire c records).length = records.length := by
  induction records with
  | nil => rfl
  | cons rec rest ih =>
    obtain ⟨hrec, hrest⟩ := List.forall_mem_cons.mp h
    obtain ⟨rr, hrr⟩ := Option.isSome_iff_exists.mp hrec
    simpa [wire, hrr] using ih hrest

theorem mem_lastAdded {journal : List ZoneChange} {rec : Record} (h : rec ∈ lastAdded journal) :
    ∃ change ∈ journal, rec ∈ change.added := by
  unfold lastAdded at h
  cases hlast : journal.getLast? with
  | none => simp [hlast] at h
  | some change => exact ⟨change, List.mem_of_getLast? hlast, by simpa [hlast] using h⟩

/-- The opening is the part of the stream that leaves the last additions and the closing SOA. -/
theorem flatten_take_eq_opening {at_ : UInt32 → Rr ν} (h : Soas c apex soa at_) {client : UInt32}
    {journal : List ZoneChange} {cut : List (List (Rr ν))}
    (hcut : cut.flatten = stream c apex soa at_ client journal) (k : ℕ) :
    (cut.take k).flatten = opening c apex soa at_ client journal ↔
      (cut.take k).flatten.length + (wire c (lastAdded journal)).length + 1 =
        cut.flatten.length := by
  have hprefix : (cut.take k).flatten <+: stream c apex soa at_ client journal :=
    hcut ▸ List.IsPrefix.flatten (List.take_prefix k cut)
  have hstream := stream_eq h client journal
  have hopening : opening c apex soa at_ client journal <+: stream c apex soa at_ client journal :=
    hstream ▸ List.prefix_append _ _
  have hlen := congrArg List.length hstream
  simp only [List.length_append, List.length_singleton] at hlen
  rw [hcut, hlen]
  constructor
  · intro heq
    rw [heq]
    omega
  · intro heq
    exact (List.prefix_of_prefix_length_le hprefix hopening (by omega)).eq_of_length (by omega)

/-- The round trip fails exactly if a message ends before what the last change adds, there is
something to add, and the counter does not stand at one there. -/
theorem roundTrips_iff (c : Codec ν) (apex : String) (soa : Soa) (client : UInt32)
    (journal : List ZoneChange) (cut : List (List (Rr ν)))
    (hsoa : (soaRr c apex soa).isSome) (hne : journal ≠ [])
    (chain : Chain soa.serial client journal)
    (hc : c.Faithful) (hwire : ∀ change ∈ journal, ∀ rec ∈ change.removed ++ change.added,
      ∃ rr, toRr c rec = some rr ∧ IssuerReads c rr.rdata)
    (hcut : cut.flatten = (buildIxfrMessages c apex soa client journal).flatten) :
    RoundTrips c soa journal cut ↔
      (EndsBeforeLastAdded journal cut → lastAdded journal = [] ∨ 128 ∣ journal.length) := by
  have hcarried : ∀ change ∈ journal, ∀ rec ∈ change.removed ++ change.added, Carried c rec :=
    fun change hchange rec hrec =>
      let ⟨_, hrr, hissuer⟩ := hwire change hchange rec hrec
      carried hc hrr hissuer
  obtain ⟨header, hheader⟩ := Option.isSome_iff_exists.mp hsoa
  obtain ⟨at_, h, rfl⟩ := exists_soas hheader
  replace hcut : cut.flatten = stream c apex soa at_ client journal := by
    simpa [buildIxfrMessages, hheader, messagesFromRecords, stream] using hcut
  have hlast : (wire c (lastAdded journal)).length = (lastAdded journal).length := by
    refine length_wire fun rec hrec => ?_
    obtain ⟨change, hmem, hrec⟩ := mem_lastAdded hrec
    obtain ⟨rr, hrr, -⟩ := hcarried change hmem rec (List.mem_append_right _ hrec)
    exact Option.isSome_of_eq_some hrr
  by_cases hearly : EndsBeforeLastAdded journal cut ∧ ¬ 128 ∣ journal.length
  · obtain ⟨⟨k, hk⟩, hn⟩ := hearly
    have hopening := (flatten_take_eq_opening h hcut k).mpr (by rwa [hlast])
    obtain ⟨newSoa, hserial, hpull⟩ := ixfrPull_early h chain hne hopening hn
    have hsteps := map_wire_sequences (c := c) fun change hmem rec hrec =>
      let ⟨original, horiginal, hrec⟩ := mem_withoutLastAdded hmem hrec
      hcarried original horiginal rec hrec
    have hempty : lastAdded journal = [] ↔ wireChanges c (withoutLastAdded journal) =
        wireChanges c journal := by
      rw [wireChanges_withoutLastAdded, ← List.length_eq_zero_iff, ← hlast,
        List.length_eq_zero_iff]
    have hends : EndsBeforeLastAdded journal cut := ⟨k, hk⟩
    simp only [RoundTrips, hpull, Option.some.injEq, IxfrResponse.incremental.injEq, hends, hn,
      or_false, true_imp_iff, hempty]
    constructor
    · rintro ⟨_, _, ⟨rfl, rfl⟩, -, hmap⟩
      rw [← hsteps, hmap]
    · intro heq
      exact ⟨newSoa, _, ⟨rfl, rfl⟩, hserial, hsteps.trans heq⟩
  · have hwhole : EndsBeforeLastAdded journal cut → 128 ∣ journal.length := by
      simpa using hearly
    obtain ⟨newSoa, hserial, hpull⟩ := ixfrPull_whole h chain hne hcut fun k hk =>
      hwhole ⟨k, by rw [← hlast]; exact (flatten_take_eq_opening h hcut k).mp hk⟩
    exact iff_of_true ⟨newSoa, _, hpull, hserial, map_wire_sequences hcarried⟩
      fun hends => .inr (hwhole hends)

/-! ### A record lost -/

section Sample

/-- Names are texts; no addresses occur. -/
def plainCodec : Codec String where
  parseName := some
  printName := id
  parseV4 _ := none
  printV4 _ := ""
  parseV6 _ := none
  printV6 _ := ""

def note (text : String) : Record where
  id := none
  zone := "z"
  name := "example.com"
  ttl := 300
  recordType := .txt
  data := object [("text", .text text)]
  enabled := true

theorem faithful_plainCodec : plainCodec.Faithful :=
  ⟨fun _ => rfl, fun h => (by cases h), fun h => (by cases h)⟩

theorem toRr_note (text : String) :
    toRr plainCodec (note text) = some ⟨"example.com", .in, 300, .txt [text]⟩ := by
  simp [toRr, toRdata, field, note, plainCodec]

def currentSoa (serial : UInt32) : Soa :=
  ⟨"ns.example.com", "admin.example.com", serial, 3600, 900, 604800, 86400⟩

/-- A record is created `n` times, from serial one. -/
def creations (n : ℕ) : List ZoneChange :=
  (List.range n).map fun i => ⟨1 + .ofNat (i + 1), [note "new"], []⟩

theorem chain_creations (n : ℕ) (hn : n < 2 ^ 32) :
    Chain (1 + .ofNat n) 1 (creations n) :=
  .of_contiguous (by simp [creations]) (by simpa [creations] using hn) (by simp [creations])

theorem wire_creations (n : ℕ) :
    ∀ change ∈ creations n, ∀ rec ∈ change.removed ++ change.added,
      ∃ rr, toRr plainCodec rec = some rr ∧ IssuerReads plainCodec rr.rdata := by
  simp [creations, toRr_note, IssuerReads]

/-- After fifty creations the first message of 150 records ends with the SOA of the last one. -/
theorem fiftieth_creation_lost :
    Chain 51 1 (creations 50) ∧
      (∀ change ∈ creations 50, ∀ rec ∈ change.removed ++ change.added,
        ∃ rr, toRr plainCodec rec = some rr ∧ IssuerReads plainCodec rr.rdata) ∧
      ¬ RoundTrips plainCodec (currentSoa 51) (creations 50)
        (buildIxfrMessages plainCodec "example.com" (currentSoa 51) 1 (creations 50)) := by
  refine ⟨chain_creations 50 (by norm_num), wire_creations 50, ?_⟩
  rintro ⟨newSoa, steps, hpull, -, hsteps⟩
  have hread : ixfrPull plainCodec ((buildIxfrMessages plainCodec "example.com" (currentSoa 51) 1
      (creations 50)).map .message) = some (.incremental (currentSoa 51)
        (sequences plainCodec (withoutLastAdded (creations 50)))) := by
    decide +kernel
  obtain ⟨-, rfl⟩ := IxfrResponse.incremental.inj (Option.some.inj (hpull.symm.trans hread))
  revert hsteps
  decide +kernel

/-- Forty-nine creations fit into one message. -/
theorem roundTrips_iff_creations :
    RoundTrips plainCodec (currentSoa 50) (creations 49)
      (buildIxfrMessages plainCodec "example.com" (currentSoa 50) 1 (creations 49)) :=
  (roundTrips_iff plainCodec "example.com" (currentSoa 50) 1 (creations 49) _ (by decide +kernel)
    (by decide +kernel) (chain_creations 49 (by norm_num)) faithful_plainCodec
      (wire_creations 49) rfl).mpr
    fun ⟨k, hk⟩ => by
      have hone : (buildIxfrMessages plainCodec "example.com" (currentSoa 50) 1
          (creations 49)).length = 1 := by decide +kernel
      cases k with
      | zero => exact absurd hk (by decide +kernel)
      | succ k =>
        rw [List.take_of_length_le (by omega)] at hk
        omega

end Sample

end Magnetite.Dns
