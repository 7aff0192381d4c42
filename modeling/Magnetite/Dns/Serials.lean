import Magnetite.Dns.Serving
import Magnetite.Dns.Refresh
import Magnetite.Lib.System

/-!
# Serials over many edits

A serial counts the local edits of its zone in 32 bits and passes over zero, so a round has one
serial less than there are numbers. Serials that are less than half of all numbers apart are
compared as they were handed out. The journal is filtered and sorted by the number, and the server
looks at its first and its last entry only: that is enough as long as every edit has left its entry.
-/
namespace Magnetite.Dns.Serials

open Magnetite.Lib

/-! ### The serial after some edits -/

theorem toNat_nextSerial (s : UInt32) :
    (Db.nextSerial s).toNat = if s.toNat + 1 < 2 ^ 32 then s.toNat + 1 else 1 := by
  have hs := s.toNat_lt
  have hadd : (s + 1).toNat = (s.toNat + 1) % 2 ^ 32 := UInt32.toNat_add s 1
  have hmax : (Db.nextSerial s).toNat = max (s + 1).toNat 1 := by
    change (if s + 1 ≤ 1 then (1 : UInt32) else s + 1).toNat = _
    split
    · rename_i h
      exact (max_eq_right (UInt32.le_iff_toNat_le.mp h)).symm
    · rename_i h
      exact (max_eq_left (Nat.le_of_not_le fun hle => h (UInt32.le_iff_toNat_le.mpr hle))).symm
  split <;> omega

/-- The serial after `k` edits. -/
def after (k : ℕ) (s : UInt32) : UInt32 := Db.nextSerial^[k] s

theorem after_succ (k : ℕ) (s : UInt32) : after (k + 1) s = Db.nextSerial (after k s) :=
  Function.iterate_succ_apply' _ k s

/-- Within one round, the number is the sum, or one more than the sum less all numbers. -/
theorem toNat_after {k : ℕ} (hk : k < 2 ^ 32) (s : UInt32) :
    (after k s).toNat = if s.toNat + k < 2 ^ 32 then s.toNat + k else s.toNat + k + 1 - 2 ^ 32 := by
  have hs := s.toNat_lt
  induction k with
  | zero => simp [after, hs]
  | succ k ih =>
    rw [after_succ, toNat_nextSerial, ih (by omega)]
    split_ifs <;> omega

theorem serialNewer_iff (a b : UInt32) :
    serialNewer a b ↔ 0 < (a - b).toNat ∧ (a - b).toNat < 2 ^ 31 := by
  have hne : (a != b) = true ↔ 0 < (a - b).toNat := by
    rw [bne_iff_ne, Nat.pos_iff_ne_zero, not_iff_not, ← UInt32.toNat_zero, UInt32.toNat_inj,
      UInt32.sub_eq_iff_eq_add, UInt32.zero_add]
  rw [serialNewer, Bool.and_eq_true, hne, decide_eq_true_iff, UInt32.lt_iff_toNat_lt]
  rfl

/-- A later serial is newer up to the half of all numbers, where zero counts although no zone has
it. -/
theorem serialNewer_after_iff {k : ℕ} (hpos : 0 < k) (hk : k < 2 ^ 31) (s : UInt32) :
    serialNewer (after k s) s ↔ k < 2 ^ 31 - 1 ∨ s.toNat + k < 2 ^ 32 := by
  have hs := s.toNat_lt
  have hafter := toNat_after (k := k) (by omega) s
  have hsub := UInt32.toNat_sub (after k s) s
  rw [serialNewer_iff, hsub, hafter]
  split_ifs <;> omega

/-! ### Edits of a zone -/

/-- What happens to the store. A record edit runs with no store call failing; anything else leaves
the serial of the zone and its journal as they are. -/
inductive Step (zone : String) : ZoneDb → Bool → ZoneDb → Prop
  | edited (d : ZoneDb) (z : Zone) (added removed : List Record) (clock : ℕ → ℕ) (tick : ℕ) :
      d.zones[zone]? = some z →
      Step zone d true (journalChange zone added removed clock ⟨d, [], tick⟩).2.db
  | other (d d' : ZoneDb) :
      d'.zones[zone]?.map (·.soa.serial) = d.zones[zone]?.map (·.soa.serial) →
      changesOf d' zone = changesOf d zone → Step zone d false d'

/-- All serials of the journal, from the one the zone started with. -/
def handedOut (start : UInt32) (n : ℕ) : List UInt32 :=
  (List.range n).map fun i => after (i + 1) start

theorem mem_handedOut {start x : UInt32} {n : ℕ} :
    x ∈ handedOut start n ↔ ∃ i < n, after (i + 1) start = x := by
  simp [handedOut]

/-- What the zone and its journal are after `n` edits. -/
structure Edited (zone : String) (start : UInt32) (n : ℕ) (d : ZoneDb) : Prop where
  serial : d.zones[zone]?.map (·.soa.serial) = some (after n start)
  journal : (changesOf d zone).map (·.serial) = handedOut start n

theorem Step.edited_cases {zone : String} {d d' : ZoneDb} (h : Step zone d true d') :
    ∃ z added removed, d.zones[zone]? = some z ∧ d' = journaled d zone z added removed := by
  cases h with
  | edited z added removed clock tick hz =>
    obtain ⟨_, t, hrun, -, ht⟩ :=
      (total_journalChange hz added removed).run clock ⟨d, [], tick⟩ rfl rfl
    exact ⟨z, added, removed, hz, by rw [hrun, ht]⟩

theorem Edited.step {zone : String} {start : UInt32} {n : ℕ} {d d' : ZoneDb} {edit : Bool}
    (h : Edited zone start n d) (hstep : Step zone d edit d') :
    Edited zone start (n + edit.toNat) d' := by
  cases edit with
  | false =>
    cases hstep with
    | other _ hserial hchanges =>
      exact ⟨hserial.trans h.serial, by rw [hchanges]; exact h.journal⟩
  | true =>
    obtain ⟨z, added, removed, hz, rfl⟩ := hstep.edited_cases
    have hserial : z.soa.serial = after n start := by simpa [hz] using h.serial
    refine ⟨?_, ?_⟩
    · simp [journaled, hz, Zone.bumped, hserial, after_succ]
    · have hchanges : changesOf (journaled d zone z added removed) zone =
          changesOf d zone ++ [⟨Db.nextSerial z.soa.serial, added, removed⟩] := by
        simp [changesOf, journaled, List.filter_append]
      rw [hchanges, List.map_append, h.journal, Bool.toNat_true, handedOut, handedOut,
        List.range_succ, List.map_append, hserial]
      simp [after_succ]

theorem Edited.run {zone : String} {start : UInt32} {n : ℕ} {d d' : ZoneDb} {edits : List Bool}
    (h : Edited zone start n d) (hrun : Run (Step zone) d edits d') :
    Edited zone start (n + edits.count true) d' := by
  induction hrun generalizing n with
  | nil => simpa using h
  | @cons _ _ _ edit edits hstep _ ih =>
    have hcount : n + (edit :: edits).count true = n + edit.toNat + edits.count true := by
      cases edit with
      | false => simp
      | true =>
        rw [List.count_cons_self, Bool.toNat_true]
        omega
    rw [hcount]
    exact ih (h.step hstep)

/-! ### The changes since a serial -/

/-- A sorted journal with every serial after one up to the current one, and no other, goes up by
one. -/
theorem consecutive_of_interval {journal : List ZoneChange} {prev current : ℕ}
    (hle : prev ≤ current) (hsorted : journal.Pairwise fun a b => a.serial < b.serial)
    (hmem : ∀ m, (∃ change ∈ journal, change.serial.toNat = m) ↔ prev < m ∧ m ≤ current) :
    Consecutive current prev journal := by
  induction journal generalizing prev with
  | nil =>
    by_contra hne
    have := (hmem current).mpr ⟨by simp only [Consecutive] at hne; omega, le_rfl⟩
    simp at this
  | cons first rest ih =>
    obtain ⟨hfirst, hrest⟩ := List.pairwise_cons.mp hsorted
    have hin := (hmem first.serial.toNat).mp ⟨first, List.mem_cons_self, rfl⟩
    -- The least of the serials is the one that follows.
    have hnext : first.serial.toNat = prev + 1 := by
      obtain ⟨change, hchange, heq⟩ := (hmem (prev + 1)).mpr ⟨by omega, by omega⟩
      obtain rfl | hchange := List.mem_cons.mp hchange
      · exact heq
      · have := UInt32.lt_iff_toNat_lt.mp (hfirst change hchange)
        omega
    refine ⟨hnext, ih (by omega) hrest fun m => ?_⟩
    constructor
    · rintro ⟨change, hchange, rfl⟩
      have hlt := UInt32.lt_iff_toNat_lt.mp (hfirst change hchange)
      have := (hmem change.serial.toNat).mp ⟨change, List.mem_cons_of_mem _ hchange, rfl⟩
      omega
    · intro hm
      obtain ⟨change, hchange, heq⟩ := (hmem m).mpr ⟨by omega, hm.2⟩
      obtain rfl | hchange := List.mem_cons.mp hchange
      · omega
      · exact ⟨change, hchange, heq⟩

theorem mem_journalSince {d : ZoneDb} {zone : String} {client : UInt32} {change : ZoneChange} :
    change ∈ Db.journalSince d zone client ↔
      change ∈ changesOf d zone ∧ client < change.serial := by
  rw [Db.journalSince, List.mem_insertionSort, ← changesOf, List.mem_filter, decide_eq_true_iff]

theorem nodup_handedOut (start : UInt32) {n : ℕ} (hn : n < 2 ^ 32) : (handedOut start n).Nodup := by
  refine List.Nodup.map_on (fun i hi j hj heq => ?_) List.nodup_range
  rw [List.mem_range] at hi hj
  have hi' := toNat_after (k := i + 1) (by omega) start
  have hj' := toNat_after (k := j + 1) (by omega) start
  rw [heq] at hi'
  split_ifs at hi' hj' <;> omega

section

variable {zone : String} {start : UInt32} {n : ℕ} {d : ZoneDb} {client current : UInt32}

theorem Edited.exists_iff (h : Edited zone start n d) (m : ℕ) :
    (∃ change ∈ Db.journalSince d zone client, change.serial.toNat = m) ↔
      client.toNat < m ∧ ∃ i < n, (after (i + 1) start).toNat = m := by
  have hmem (x : UInt32) : (∃ change ∈ changesOf d zone, change.serial = x) ↔
      ∃ i < n, after (i + 1) start = x := by
    rw [← mem_handedOut, ← h.journal, List.mem_map]
  constructor
  · rintro ⟨change, hchange, rfl⟩
    obtain ⟨hchange, hlt⟩ := mem_journalSince.mp hchange
    obtain ⟨i, hi, heq⟩ := (hmem change.serial).mp ⟨change, hchange, rfl⟩
    exact ⟨UInt32.lt_iff_toNat_lt.mp hlt, i, hi, by rw [heq]⟩
  · rintro ⟨hlt, i, hi, rfl⟩
    obtain ⟨change, hchange, heq⟩ := (hmem _).mpr ⟨i, hi, rfl⟩
    refine ⟨change, mem_journalSince.mpr ⟨hchange, ?_⟩, by rw [heq]⟩
    rwa [heq, UInt32.lt_iff_toNat_lt]

theorem Edited.sorted (h : Edited zone start n d) (hn : n < 2 ^ 32) :
    (Db.journalSince d zone client).Pairwise fun a b => a.serial < b.serial := by
  have hle : (Db.journalSince d zone client).Pairwise fun a b => a.serial ≤ b.serial := by
    have : Std.Total fun a b : ZoneChange => a.serial ≤ b.serial := ⟨fun a b => UInt32.le_total _ _⟩
    have : IsTrans ZoneChange fun a b => a.serial ≤ b.serial := ⟨fun _ _ _ => UInt32.le_trans⟩
    exact List.pairwise_insertionSort _ _
  have hne : (Db.journalSince d zone client).Pairwise fun a b => a.serial ≠ b.serial := by
    have hall : (changesOf d zone).Pairwise fun a b => a.serial ≠ b.serial := by
      rw [← List.pairwise_map, h.journal]
      exact nodup_handedOut start hn
    exact ((hall.filter _).perm (List.perm_insertionSort _ _).symm fun hab => hab.symm)
  exact hle.imp₂ (fun _ _ hab hne => UInt32.lt_of_le_of_ne hab hne) hne

/-- The ends are enough: between them no serial of a round is missing. -/
theorem Edited.consecutive (h : Edited zone start n d) (hn : n < 2 ^ 32 - 1)
    (hbridges : bridges client (after n start) (Db.journalSince d zone client)) :
    Consecutive (after n start).toNat client.toNat (Db.journalSince d zone client) := by
  have hsorted : (Db.journalSince d zone client).Pairwise fun a b => a.serial < b.serial :=
    h.sorted (by omega)
  have hexists (m : ℕ) := @Edited.exists_iff zone start n d client h m
  have hstart := start.toNat_lt
  obtain ⟨hhead, hlast⟩ := Bool.and_eq_true_iff.mp hbridges
  obtain ⟨first, hfirst, hserial⟩ := Option.map_eq_some_iff.mp (beq_iff_eq.mp hhead)
  obtain ⟨last, hlast, hcurrent⟩ := Option.map_eq_some_iff.mp (beq_iff_eq.mp hlast)
  -- No serial that was handed out and is above the client's is above the current one.
  have hmax (i : ℕ) (hi : i < n) (hlt : client.toNat < (after (i + 1) start).toNat) :
      (after (i + 1) start).toNat ≤ (after n start).toNat := by
    obtain ⟨change, hchange, heq⟩ := (hexists _).mpr ⟨hlt, i, hi, rfl⟩
    obtain ⟨front, hfront⟩ := List.getLast?_eq_some_iff.mp hlast
    rw [hfront] at hchange hsorted
    rw [← heq, ← hcurrent]
    obtain hchange | rfl := List.mem_append.mp hchange |>.imp_right List.mem_singleton.mp
    · exact (UInt32.lt_iff_toNat_lt.mp
        ((List.pairwise_append.mp hsorted).2.2 change hchange last (by simp))).le
    · exact le_rfl
  -- The serial after the client's was handed out.
  obtain ⟨hlt, i, hi, hnext⟩ := (hexists _).mp ⟨first, List.mem_of_head? hfirst, rfl⟩
  have hsucc : first.serial.toNat = client.toNat + 1 := by
    have := UInt32.toNat_add client 1
    rw [hserial] at hlt ⊢
    simp only [UInt32.toNat_one] at this
    omega
  have hi' := toNat_after (k := i + 1) (by omega) start
  have hn' := toNat_after (k := n) (by omega) start
  have hle := hmax i hi (by omega)
  refine consecutive_of_interval (by omega) hsorted fun m => ?_
  rw [hexists]
  constructor
  · rintro ⟨hm, j, hj, rfl⟩
    exact ⟨hm, hmax j hj hm⟩
  · rintro ⟨hm, hmle⟩
    refine ⟨hm, ?_⟩
    by_cases hround : start.toNat + n < 2 ^ 32
    · rw [if_pos hround] at hn'
      rw [if_pos (by omega)] at hi'
      refine ⟨m - start.toNat - 1, by omega, ?_⟩
      rw [toNat_after (by omega), if_pos (by omega)]
      omega
    · rw [if_neg hround] at hn'
      by_cases htop : start.toNat + 1 < 2 ^ 32
      · -- The greatest number was handed out and is not the current serial.
        have htop' := toNat_after (k := 2 ^ 32 - 1 - start.toNat - 1 + 1) (by omega) start
        rw [if_pos (by omega)] at htop'
        have := hmax (2 ^ 32 - 1 - start.toNat - 1) (by omega)
        have := first.serial.toNat_lt
        omega
      · rw [if_neg (by omega)] at hi'
        refine ⟨m - 1, by omega, ?_⟩
        rw [toNat_after (by omega), if_neg (by omega)]
        omega

end

/-! ### Serving -/

/-- The zone the server answers for. -/
def served (d : ZoneDb) (now : ℕ) (qname : String) : Option Zone :=
  (d.zones.toList.map (·.2)).find? fun z =>
    ! secondaryExpired now z && z.enabled && normalizeName z.name == normalizeName qname

theorem buildAxfrStream_since {ν : Type} (c : Codec ν) {d : ZoneDb} {now : ℕ} {qname : String}
    {z : Zone} {client : UInt32} (hserved : served d now qname = some z)
    (hclient : client ≠ z.soa.serial) :
    buildAxfrStream c d now qname (some client) =
      if bridges client z.soa.serial (Db.journalSince d z.id client) then
        buildIxfrMessages c (normalizeName qname) z.soa client (Db.journalSince d z.id client)
      else buildAxfrMessages c (normalizeName qname) z.soa (Db.recordsOf d z.id) := by
  unfold served at hserved
  simp only [buildAxfrStream, hserved, if_neg hclient]

/-- A serial is newer than the ones before it, except for the one just half a round back when zero
was passed over. As long as every edit has left its entry and a round has not come to its end, the
differences of an answer lead from one serial to the next up to the current one. -/
theorem serials_and_journal {ν : Type} (c : Codec ν) :
    (∀ (s : UInt32) (k : ℕ), 0 < k → k < 2 ^ 31 →
      (serialNewer (after k s) s ↔ k < 2 ^ 31 - 1 ∨ s.toNat + k < 2 ^ 32)) ∧
    ∀ (zone : String) (d₀ d : ZoneDb) (edits : List Bool), Run (Step zone) d₀ edits d →
      d₀.zones[zone]?.isSome → changesOf d₀ zone = [] → edits.count true < 2 ^ 32 - 1 →
      ∀ (now : ℕ) (qname : String) (client : UInt32) (z : Zone), d.zones[zone]? = some z →
        z.id = zone → served d now qname = some z → client ≠ z.soa.serial →
        let journal := Db.journalSince d zone client
        Consecutive z.soa.serial.toNat client.toNat journal ∧
            buildAxfrStream c d now qname (some client) =
              buildIxfrMessages c (normalizeName qname) z.soa client journal ∨
          ¬ Consecutive z.soa.serial.toNat client.toNat journal ∧
            buildAxfrStream c d now qname (some client) =
              buildAxfrMessages c (normalizeName qname) z.soa (Db.recordsOf d zone) := by
  refine ⟨fun s k hpos hk => serialNewer_after_iff hpos hk s, ?_⟩
  rintro zone d₀ d edits hrun hsome hnew hcount now qname client z hz rfl hserved hclient
  obtain ⟨z₀, hz₀⟩ := Option.isSome_iff_exists.mp hsome
  have hstart : Edited z.id z₀.soa.serial 0 d₀ := ⟨by simp [hz₀, after], by simp [hnew, handedOut]⟩
  have hedited := hstart.run hrun
  rw [Nat.zero_add] at hedited
  have hcurrent : z.soa.serial = after (edits.count true) z₀.soa.serial := by
    simpa [hz] using hedited.serial
  rw [buildAxfrStream_since c hserved hclient]
  by_cases hbridges : bridges client z.soa.serial (Db.journalSince d z.id client)
  · rw [if_pos hbridges]
    refine .inl ⟨?_, rfl⟩
    rw [hcurrent] at hbridges ⊢
    exact hedited.consecutive hcount hbridges
  · rw [if_neg hbridges]
    refine .inr ⟨fun hchain => hbridges (hchain.bridges fun hnil => ?_), rfl⟩
    rw [hnil] at hchain
    exact hclient (UInt32.toNat_inj.mp hchain)

/-! ### A zone with three edits -/

namespace Sample

def soa : Soa := ⟨"ns.a.test", "root.a.test", 4, 1, 1, 1, 1⟩

def zone : Zone := ⟨"z", "a.test", soa, true, .primary, none⟩

/-- A new zone without records. -/
def store : ZoneDb where
  zones := .ofList [("z", zone)]
  records := noRecords
  journal := []

def edited : ZoneDb := (journalChange "z" [] [] (fun _ => 0) ⟨store, [], 0⟩).2.db

theorem serials_and_journal_edited :
    Consecutive 5 4 (Db.journalSince edited "z" 4) ∧
      buildAxfrStream plainCodec edited 0 "a.test" (some 4) =
        buildIxfrMessages plainCodec "a.test" { soa with serial := 5 } 4
          (Db.journalSince edited "z" 4) := by
  have hname : normalizeName "a.test" = "a.test" := by decide +kernel
  have hjournal : Db.journalSince edited "z" 4 = [⟨5, [], []⟩] := by decide +kernel
  have hchain : Consecutive 5 4 (Db.journalSince edited "z" 4) := by
    rw [hjournal]
    exact ⟨rfl, rfl⟩
  have hrun : Run (Step "z") store [true] edited :=
    .cons (.edited store zone [] [] (fun _ => 0) 0 (by decide +kernel)) (.nil _)
  obtain h | h := (serials_and_journal plainCodec).2 "z" store edited [true] hrun
    (by decide +kernel) rfl (by decide) 0 "a.test" 4 { zone with soa := { soa with serial := 5 } }
    (by decide +kernel) rfl (by decide +kernel) (by decide)
  · rwa [hname] at h
  · exact absurd hchain h.1

def threeEdits : DbM Unit := do
  journalChange "z" [] []
  journalChange "z" [] []
  journalChange "z" [] []

/-- The store refuses the entry of the second edit. -/
def gap : ZoneDb :=
  (threeEdits (fun _ => 0) ⟨store, [false, false, false, false, false, true], 0⟩).2.db

/-- The serial half a round back is not older when zero lies between, and an entry that is missing
in the middle is not noticed. -/
theorem half_round_and_gap :
    serialNewer (after (2 ^ 31 - 1) 0xFFFFFFFF) 0xFFFFFFFF = false ∧
    (Db.journalSince gap "z" 4).map (·.serial) = [5, 7] ∧
    ¬ Consecutive 7 4 (Db.journalSince gap "z" 4) ∧
    buildAxfrStream plainCodec gap 0 "a.test" (some 4) =
      buildIxfrMessages plainCodec "a.test" { soa with serial := 7 } 4
        (Db.journalSince gap "z" 4) := by
  have hjournal : Db.journalSince gap "z" 4 = [⟨5, [], []⟩, ⟨7, [], []⟩] := by decide +kernel
  have hserved : served gap 0 "a.test" =
      some { zone with soa := { soa with serial := 7 } } := by decide +kernel
  have hname : normalizeName "a.test" = "a.test" := by decide +kernel
  refine ⟨?_, ?_, ?_, ?_⟩
  · rw [Bool.eq_false_iff, Ne, serialNewer_after_iff (by decide) (by decide)]
    decide
  · rw [hjournal]
    rfl
  · rw [hjournal]
    rintro ⟨-, h, -⟩
    exact absurd h (by decide)
  · have hbridges : bridges 4 7 (Db.journalSince gap "z" 4) := by
      rw [hjournal]
      decide
    refine (buildAxfrStream_since plainCodec hserved (by decide)).trans ?_
    rw [hname]
    exact if_pos hbridges

end Sample

end Magnetite.Dns.Serials
