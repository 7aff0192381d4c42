import Magnetite.Dns.Update

/-!
# What a list of updates should leave

One update after the other, each on what the one before left: an addition of what is absent, a
deletion of what is there. The service looks at the records of the zone as they were before the
first update instead. Both are compared for one resource record at a time, since an update that is
not about it does nothing to its copies.
-/
namespace Magnetite.Dns

open Magnetite.Lib

variable {ν : Type}

/-! ### The copies of one resource record -/

/-- What an update does to the copies of a resource record. -/
inductive Change (ρ : Type) where
  | add (x : ρ)
  | delete

namespace Change

variable {ρ : Type} {l : List ρ} {ops before after : List (Change ρ)} {x : ρ}

/-- The addition is for an absent resource record. -/
def run (l : List ρ) : Change ρ → List ρ
  | add x => if l.isEmpty then [x] else l
  | delete => []

def isDelete : Change ρ → Bool
  | add _ => false
  | delete => true

def addition : Change ρ → Option ρ
  | add x => some x
  | delete => none

/-- The copies if every change looks at those that were there first. -/
def atOnce (l : List ρ) (ops : List (Change ρ)) : List ρ :=
  (if ops.any isDelete then [] else l) ++ if l.isEmpty then ops.filterMap addition else []

/-- Nothing comes after an addition to no copy; an addition after a deletion is deleted again. -/
def InOrder (l : List ρ) (ops : List (Change ρ)) : Prop :=
  ∀ before x after, ops = before ++ add x :: after →
    if l.isEmpty then after = [] else before.any isDelete → after.any isDelete

theorem foldl_run_of_no_delete (hl : l ≠ []) (h : ops.any isDelete = false) :
    ops.foldl run l = l := by
  induction ops with
  | nil => rfl
  | cons op ops ih =>
    cases op with
    | add x =>
      rw [List.foldl_cons, run, List.isEmpty_eq_false_iff.mpr hl]
      exact ih h
    | delete => cases h

theorem foldl_run_delete (l : List ρ) (before after : List (Change ρ)) :
    (before ++ delete :: after).foldl run l = after.foldl run [] := by
  rw [List.foldl_append, List.foldl_cons, run]

theorem foldl_run_deletes (h : ∀ op ∈ ops, op = delete) : ops.foldl run ([] : List ρ) = [] := by
  induction ops with
  | nil => rfl
  | cons op ops ih =>
    rw [h op List.mem_cons_self]
    exact ih fun op hop => h op (List.mem_cons_of_mem _ hop)

theorem length_foldl_run (ops : List (Change ρ)) (hl : l.length ≤ 1) :
    (ops.foldl run l).length ≤ 1 := by
  induction ops generalizing l with
  | nil => exact hl
  | cons op ops ih =>
    refine ih ?_
    cases op with
    | add x =>
      cases l with
      | nil => exact Nat.le_refl 1
      | cons y l => exact hl
    | delete => exact Nat.zero_le _

/-- The changes after the last deletion. -/
theorem exists_last_delete (h : ops.any isDelete) :
    ∃ before after, ops = before ++ delete :: after ∧ after.any isDelete = false := by
  induction ops with
  | nil => cases h
  | cons op ops ih =>
    by_cases hops : ops.any isDelete
    · obtain ⟨before, after, rfl, hafter⟩ := ih hops
      exact ⟨op :: before, after, rfl, hafter⟩
    · cases op with
      | add x => exact absurd h hops
      | delete => exact ⟨[], ops, rfl, Bool.eq_false_iff.mpr hops⟩

theorem exists_first_add (ops : List (Change ρ)) :
    (∀ op ∈ ops, op = delete) ∨
      ∃ before x after, ops = before ++ add x :: after ∧ ∀ op ∈ before, op = delete := by
  induction ops with
  | nil => exact .inl nofun
  | cons op ops ih =>
    cases op with
    | add x => exact .inr ⟨[], x, ops, rfl, nofun⟩
    | delete =>
      obtain h | ⟨before, x, after, rfl, h⟩ := ih
      · exact .inl (List.forall_mem_cons.mpr ⟨rfl, h⟩)
      · exact .inr ⟨delete :: before, x, after, rfl, List.forall_mem_cons.mpr ⟨rfl, h⟩⟩

theorem filterMap_addition_deletes (h : ∀ op ∈ ops, op = delete) : ops.filterMap addition = [] :=
  List.filterMap_eq_nil_iff.mpr fun op hop => by rw [h op hop]; rfl

/-- Where there are copies, only the last change counts. -/
theorem inOrder_of_ne_nil (hl : l ≠ []) :
    (InOrder l ops → ops.foldl run l = atOnce l ops) ∧
      ((ops.foldl run l).length = (atOnce l ops).length → InOrder l ops) := by
  have hempty : l.isEmpty = false := List.isEmpty_eq_false_iff.mpr hl
  by_cases hdel : ops.any isDelete
  · obtain ⟨before, after, rfl, hafter⟩ := exists_last_delete hdel
    have honce : atOnce l (before ++ delete :: after) = [] := by simp [atOnce, hempty, isDelete]
    rw [honce, foldl_run_delete]
    cases after with
    | nil =>
      refine ⟨fun _ => rfl, fun _ before' x after' heq => ?_⟩
      -- the last of the changes is the deletion
      have hlast : (add x :: after').getLast? = some delete := by
        have := congrArg List.getLast? heq
        rw [List.getLast?_append_cons, List.getLast?_append_cons] at this
        exact this.symm
      rw [hempty]
      rintro -
      cases after' with
      | nil => cases hlast
      | cons op after' =>
        rw [List.getLast?_cons_cons] at hlast
        exact List.any_eq_true.mpr ⟨delete, List.mem_of_getLast? hlast, rfl⟩
    | cons op after =>
      cases op with
      | delete => cases hafter
      | add x =>
        have hrun : (add x :: after).foldl run [] = [x] :=
          foldl_run_of_no_delete (List.cons_ne_nil x []) hafter
        rw [hrun]
        refine ⟨fun h => ?_, fun h => by cases h⟩
        have := h (before ++ [delete]) x after (by simp)
        rw [hempty] at this
        simp only [List.any_cons, isDelete, Bool.false_or] at hafter
        rw [if_neg Bool.false_ne_true, hafter] at this
        cases this (by simp [isDelete])
  · rw [Bool.not_eq_true] at hdel
    rw [foldl_run_of_no_delete hl hdel]
    have honce : atOnce l ops = l := by simp [atOnce, hdel, hempty]
    rw [honce]
    refine ⟨fun _ => rfl, ?_⟩
    rintro - before x after rfl
    rw [hempty]
    intro hbefore
    simp [hbefore] at hdel

theorem inOrder_nil :
    (InOrder [] ops → ops.foldl run ([] : List ρ) = atOnce [] ops) ∧
      ((ops.foldl run ([] : List ρ)).length = (atOnce [] ops).length → InOrder [] ops) := by
  have honce : atOnce [] ops = ops.filterMap addition := by simp [atOnce]
  rw [honce]
  obtain h | ⟨before, x, after, rfl, h⟩ := exists_first_add ops
  · rw [foldl_run_deletes h, filterMap_addition_deletes h]
    refine ⟨fun _ => rfl, ?_⟩
    rintro - before x after rfl
    cases h (add x) (by simp)
  · have hadds : (before ++ add x :: after).filterMap addition = x :: after.filterMap addition := by
      rw [List.filterMap_append, filterMap_addition_deletes h]
      rfl
    have hrun : (before ++ add x :: after).foldl run [] = after.foldl run [x] := by
      rw [List.foldl_append, foldl_run_deletes h]
      rfl
    rw [hadds, hrun]
    constructor
    · intro horder
      have : after = [] := horder before x after rfl
      rw [this]
      rfl
    · intro hlength
      have hle := length_foldl_run after (Nat.le_refl [x].length)
      have hnone : after.filterMap addition = [] := by
        rw [hlength, List.length_cons] at hle
        exact List.eq_nil_of_length_eq_zero (by omega)
      have hdeletes : ∀ op ∈ after, op = delete := by
        intro op hop
        have := List.filterMap_eq_nil_iff.mp hnone op hop
        cases op with
        | add y => cases this
        | delete => rfl
      have hafter : after = [] := by
        cases after with
        | nil => rfl
        | cons op after =>
          rw [hdeletes op List.mem_cons_self, List.foldl_cons, run, foldl_run_deletes fun op hop =>
            hdeletes op (List.mem_cons_of_mem _ hop)] at hlength
          cases hlength
      rintro before' y after' heq
      rw [hafter] at heq
      obtain ⟨between, rfl, hbetween⟩ | ⟨between, rfl, hbetween⟩ := List.append_eq_append_iff.mp heq
      · cases between with
        | nil => cases hbetween; rfl
        | cons op rest =>
          have := List.cons.inj hbetween
          simp at this
      · cases between with
        | nil => cases hbetween; rfl
        | cons op rest =>
          cases hbetween
          cases h (add y) (by simp)

theorem inOrder_iff :
    (InOrder l ops → ops.foldl run l = atOnce l ops) ∧
      ((ops.foldl run l).length = (atOnce l ops).length → InOrder l ops) := by
  by_cases hl : l = []
  · rw [hl]
    exact inOrder_nil
  · exact inOrder_of_ne_nil hl

end Change

/-! ### Names that are printed -/

/-- What a name is printed as has no white space at its ends. -/
def Codec.Trimmed (c : Codec ν) : Prop := ∀ n, Text.trim (c.printName n) = c.printName n

theorem norm_normalizeName {name : String} (h : Text.trim name = name) :
    norm (normalizeName name) = norm name := by
  rw [normalizeName, h]
  exact Text.lower_trimEnd_idem name

/-! ### Updates one after the other -/

/-- Two records stand for one resource record on the wire, whatever their texts are. -/
def sameWireRr [DecidableEq ν] (c : Codec ν) (x y : Record) : Bool :=
  norm x.name = norm y.name ∧ x.recordType = y.recordType ∧
    toRdata c x.recordType x.data = toRdata c y.recordType y.data

/-- Whether a deletion is of the resource record of a record. -/
def UpdateRr.withdraws [DecidableEq ν] (c : Codec ν) (up : UpdateRr ν) (r : Record) : Bool :=
  match up.rr.dnsClass with
  | .any => norm r.name == norm (c.printName up.rr.name) && up.type.covers r.recordType
  | .none => (fromRr c up.rr).any (sameWireRr c r)
  | _ => false

/-- An update on the records of a zone. -/
def UpdateRr.step [DecidableEq ν] (c : Codec ν) (zone : String) (records : List Record)
    (up : UpdateRr ν) : List Record :=
  match up.added c with
  | some r => if records.any (sameWireRr c · r) then records
    else records ++ [Db.toRow (r.inZone zone)]
  | none => records.filter fun r => ! up.withdraws c r

/-- The same for records that are compared by their texts. -/
def UpdateRr.textStep (c : Codec ν) (zone : String) (records : List Record) (up : UpdateRr ν) :
    List Record :=
  match up.added c with
  | some r => if records.any (sameUpdateRr · r) then records
    else records ++ [Db.toRow (r.inZone zone)]
  | none => records.filter fun r => ! up.deletes c r

/-- Of the records of the zone and of the request, those for one resource record have one text. -/
def OneText [DecidableEq ν] (c : Codec ν) (existing : List Record) (updates : List (UpdateRr ν)) :
    Prop :=
  ∀ x ∈ existing ++ updates.filterMap fun up => fromRr c up.rr,
    ∀ y ∈ updates.filterMap fun up => fromRr c up.rr, sameWireRr c x y → x.data = y.data

/-- What an update does to the copies of the resource record of `r`. -/
def UpdateRr.change (c : Codec ν) (zone : String) (r : Record) (up : UpdateRr ν) :
    Option (Change Record) :=
  match up.added c with
  | some x => if sameUpdateRr x r then some (.add (Db.toRow (x.inZone zone))) else none
  | none => if up.deletes c r then some .delete else none

section

variable {c : Codec ν} {zone : String} {existing : List Record} {up : UpdateRr ν} {r x y : Record}

theorem sameUpdateRr_iff : sameUpdateRr x y ↔
    norm x.name = norm y.name ∧ x.recordType = y.recordType ∧ x.data = y.data := by
  simp [sameUpdateRr, and_assoc]

theorem sameUpdateRr_comm : sameUpdateRr x y = sameUpdateRr y x := by
  rw [Bool.eq_iff_iff, sameUpdateRr_iff, sameUpdateRr_iff]
  constructor <;> rintro ⟨h, h', h''⟩ <;> exact ⟨h.symm, h'.symm, h''.symm⟩

theorem sameUpdateRr_congr (h : sameUpdateRr x y) (r : Record) :
    sameUpdateRr r x = sameUpdateRr r y := by
  obtain ⟨h, h', h''⟩ := sameUpdateRr_iff.mp h
  rw [Bool.eq_iff_iff, sameUpdateRr_iff, sameUpdateRr_iff, h, h', h'']

theorem deletes_congr (h : sameUpdateRr x y) : up.deletes c x = up.deletes c y := by
  have hname := (sameUpdateRr_iff.mp h).1
  have htype := (sameUpdateRr_iff.mp h).2.1
  have hsame : sameUpdateRr x = sameUpdateRr y :=
    funext fun r => by rw [sameUpdateRr_comm, sameUpdateRr_congr h, sameUpdateRr_comm]
  unfold UpdateRr.deletes
  rw [hname, htype, hsame]

theorem filter_map_row (records : List Record) : (records.map Record.row).filter (sameUpdateRr · r) =
    (records.filter (sameUpdateRr · r)).map Record.row := by
  have hrow (x : Record) : sameUpdateRr x.row r = sameUpdateRr x r := rfl
  induction records with
  | nil => rfl
  | cons x records ih =>
    rw [List.map_cons, List.filter_cons, List.filter_cons, hrow, ih]
    split <;> rfl

theorem deletes_of_added (h : up.added c = some x) : up.deletes c r = false := by
  unfold UpdateRr.added at h
  unfold UpdateRr.deletes
  split at h
  · simp_all
  · cases h

theorem sameUpdateRr_toRow (hc : c.Trimmed) (h : up.added c = some x) (zone : String) (r : Record) :
    sameUpdateRr (Db.toRow (x.inZone zone)) r = sameUpdateRr x r := by
  have hname : Text.trim x.name = x.name := by
    unfold UpdateRr.added at h
    split at h
    · simp only [fromRr, Option.bind_eq_bind, Option.bind_eq_some_iff] at h
      obtain ⟨_, -, h⟩ := h
      cases h
      exact hc _
    · cases h
  unfold sameUpdateRr
  rw [show norm (Db.toRow (x.inZone zone)).name = norm x.name from norm_normalizeName hname]
  rfl

/-! ### Both, for one resource record -/

theorem isEmpty_filter_same (h : sameUpdateRr x r) (records : List Record) :
    (records.filter (sameUpdateRr · r)).isEmpty = ! records.any (sameUpdateRr · x) := by
  rw [Bool.eq_iff_iff]
  simp [List.filter_eq_nil_iff, sameUpdateRr_congr h]

theorem filter_step (hc : c.Trimmed) (records : List Record) :
    (up.textStep c zone records).filter (sameUpdateRr · r) =
      match up.change c zone r with
      | some op => op.run (records.filter (sameUpdateRr · r))
      | none => records.filter (sameUpdateRr · r) := by
  unfold UpdateRr.textStep UpdateRr.change
  cases hadded : up.added c with
  | some x =>
    by_cases hx : sameUpdateRr x r
    · have hany := isEmpty_filter_same hx records
      by_cases hold : records.any (sameUpdateRr · x)
      · simp [hx, hold, Change.run, hany]
      · have hnil : records.filter (sameUpdateRr · r) = [] := by
          simpa [hold] using hany
        simp [hx, hold, Change.run, hnil, List.filter_append, sameUpdateRr_toRow hc hadded]
    · by_cases hold : records.any (sameUpdateRr · x)
      · simp [hx, hold]
      · simp [hx, hold, List.filter_append, sameUpdateRr_toRow hc hadded]
  | none =>
    rw [List.filter_filter]
    by_cases hdel : up.deletes c r
    · have hnil : records.filter (fun x => sameUpdateRr x r && ! up.deletes c x) = [] := by
        refine List.filter_eq_nil_iff.mpr fun x _ => ?_
        rw [Bool.and_eq_true, not_and]
        intro hx
        simp [deletes_congr hx, hdel]
      simp [hdel, hnil, Change.run]
    · have hkeep : records.filter (fun x => sameUpdateRr x r && ! up.deletes c x) =
          records.filter (sameUpdateRr · r) := by
        refine List.filter_congr fun x _ => ?_
        by_cases hx : sameUpdateRr x r
        · simp [hx, deletes_congr hx, hdel]
        · simp [hx]
      simp [hdel, hkeep]

theorem filter_foldl_step (hc : c.Trimmed) (updates : List (UpdateRr ν)) (records : List Record) :
    (updates.foldl (fun records up => up.textStep c zone records) records).filter (sameUpdateRr · r) =
      (updates.filterMap (·.change c zone r)).foldl Change.run
        (records.filter (sameUpdateRr · r)) := by
  induction updates generalizing records with
  | nil => rfl
  | cons up updates ih =>
    rw [List.foldl_cons, ih, filter_step hc, List.filterMap_cons]
    cases up.change c zone r <;> rfl

theorem any_isDelete (updates : List (UpdateRr ν)) :
    (updates.filterMap (·.change c zone r)).any Change.isDelete =
      updates.any fun up => up.deletes c r := by
  induction updates with
  | nil => rfl
  | cons up updates ih =>
    rw [List.filterMap_cons, List.any_cons, ← ih]
    unfold UpdateRr.change
    cases hadded : up.added c with
    | some x =>
      rw [deletes_of_added hadded]
      by_cases hx : sameUpdateRr x r <;> simp [hx, Change.isDelete]
    | none => by_cases hdel : up.deletes c r <;> simp [hdel, Change.isDelete]

theorem filter_created (hc : c.Trimmed) (existing : List Record) (updates : List (UpdateRr ν)) :
    ((created c zone existing updates).map Db.toRow).filter (sameUpdateRr · r) =
      if (existing.filter (sameUpdateRr · r)).isEmpty then
        (updates.filterMap (·.change c zone r)).filterMap Change.addition
      else [] := by
  induction updates with
  | nil => simp [created]
  | cons up updates ih =>
    have hcons : created c zone existing (up :: updates) =
        (up.creates c existing).toList.map (·.inZone zone) ++ created c zone existing updates := by
      unfold created
      rw [List.filterMap_cons]
      cases up.creates c existing <;> rfl
    rw [hcons, List.map_append, List.filter_append, ih, List.filterMap_cons]
    cases hadded : up.added c with
    | none =>
      have hcreates : up.creates c existing = none := by rw [UpdateRr.creates, hadded]; rfl
      rw [hcreates, UpdateRr.change, hadded]
      by_cases hdel : up.deletes c r <;> simp [hdel, List.filterMap_cons, Change.addition]
    | some x =>
      have hnew := sameUpdateRr_toRow hc hadded zone r
      rw [UpdateRr.creates, UpdateRr.change, hadded, Option.filter_some]
      by_cases hx : sameUpdateRr x r
      · have hany := isEmpty_filter_same hx existing
        by_cases hold : existing.any (sameUpdateRr · x)
        · simp [hold, hany]
        · simp [hx, hold, hany, hnew, Change.addition]
      · by_cases hold : existing.any (sameUpdateRr · x) <;> simp [hx, hold, hnew]

theorem filter_left (hc : c.Trimmed) (existing : List Record) (updates : List (UpdateRr ν)) :
    (left c zone existing updates).filter (sameUpdateRr · r) =
      Change.atOnce (existing.filter (sameUpdateRr · r))
        (updates.filterMap (·.change c zone r)) := by
  have hkept : (existing.filter fun x => sameUpdateRr x r && updates.all fun up => ! up.deletes c x) =
      if updates.any (·.deletes c r) then [] else existing.filter (sameUpdateRr · r) := by
    split
    case isTrue hdel =>
      refine List.filter_eq_nil_iff.mpr fun x _ => ?_
      rw [Bool.and_eq_true, not_and]
      intro hx
      simpa [deletes_congr hx] using hdel
    case isFalse hdel =>
      refine List.filter_congr fun x _ => ?_
      by_cases hx : sameUpdateRr x r
      · simpa [hx, deletes_congr hx] using hdel
      · simp [hx]
  rw [left, List.filter_append, List.filter_filter, hkept, filter_created hc, Change.atOnce,
    any_isDelete]

/-! ### All resource records -/

theorem perm_iff_filter {l l' : List Record} : l.Perm l' ↔
    ∀ r, (l.filter (sameUpdateRr · r)).Perm (l'.filter (sameUpdateRr · r)) := by
  refine ⟨fun h r => h.filter _, fun h => List.perm_iff_count.mpr fun r => ?_⟩
  have hself : sameUpdateRr r r := sameUpdateRr_iff.mpr ⟨rfl, rfl, rfl⟩
  have := List.perm_iff_count.mp (h r) r
  rwa [List.count_filter (p := (sameUpdateRr · r)) hself,
    List.count_filter (p := (sameUpdateRr · r)) hself] at this

/-- Nothing comes after the addition of a resource record that the zone did not have; where it had
it, an addition after a deletion is deleted again. -/
def InSequence (c : Codec ν) (existing : List Record) (updates : List (UpdateRr ν)) : Prop :=
  ∀ before up after r, updates = before ++ up :: after → up.added c = some r →
    if existing.any (sameUpdateRr · r) then
      (∃ b ∈ before, b.deletes c r) → ∃ a ∈ after, a.deletes c r
    else ∀ a ∈ after, a.deletes c r = false ∧ ∀ x, a.added c = some x → sameUpdateRr x r = false

theorem change_eq_none_iff : up.change c zone r = none ↔
    up.deletes c r = false ∧ ∀ x, up.added c = some x → sameUpdateRr x r = false := by
  unfold UpdateRr.change
  cases hadded : up.added c with
  | some x => simp [deletes_of_added hadded]
  | none => simp

theorem change_eq_add {y : Record} (h : up.change c zone r = some (.add y)) :
    ∃ x, up.added c = some x ∧ sameUpdateRr x r := by
  unfold UpdateRr.change at h
  split at h
  case h_1 x hadded =>
    split at h
    case isTrue hx => exact ⟨x, hadded, hx⟩
    case isFalse => cases h
  case h_2 => split at h <;> cases h

theorem inSequence_iff (zone : String) (updates : List (UpdateRr ν)) :
    InSequence c existing updates ↔ ∀ r, Change.InOrder (existing.filter (sameUpdateRr · r))
      (updates.filterMap (·.change c zone r)) := by
  constructor
  · intro h r before y after heq
    obtain ⟨first, last, rfl, rfl, hlast⟩ := List.filterMap_eq_append_iff.mp heq
    obtain ⟨skipped, up, rest, rfl, hskipped, hup, rfl⟩ := List.filterMap_eq_cons_iff.mp hlast
    obtain ⟨x, hadded, hx⟩ := change_eq_add hup
    have := h (first ++ skipped) up rest x (by simp) hadded
    rw [isEmpty_filter_same hx, any_isDelete, any_isDelete]
    by_cases hold : existing.any (sameUpdateRr · x)
    · simp only [hold, if_true, Bool.not_true, Bool.false_eq_true, if_false] at this ⊢
      intro hdel
      obtain ⟨b, hb, hdel⟩ := List.any_eq_true.mp hdel
      obtain ⟨a, ha, hdel⟩ := this ⟨b, List.mem_append_left _ hb, by rwa [deletes_congr hx]⟩
      exact List.any_eq_true.mpr ⟨a, ha, by rwa [← deletes_congr hx]⟩
    · simp only [hold, if_false, Bool.not_false, if_true, Bool.false_eq_true] at this ⊢
      refine List.filterMap_eq_nil_iff.mpr fun a ha => change_eq_none_iff.mpr ⟨?_, fun y hy => ?_⟩
      · rw [← deletes_congr hx]
        exact (this a ha).1
      · rw [← sameUpdateRr_congr hx]
        exact (this a ha).2 y hy
  · rintro h before up after r rfl hadded
    have hself : sameUpdateRr r r := sameUpdateRr_iff.mpr ⟨rfl, rfl, rfl⟩
    have hchange : up.change c zone r = some (.add (Db.toRow (r.inZone zone))) := by
      simp [UpdateRr.change, hadded, hself]
    have := h r (before.filterMap (·.change c zone r)) _ (after.filterMap (·.change c zone r))
      (by rw [List.filterMap_append, List.filterMap_cons_some hchange])
    rw [isEmpty_filter_same hself, any_isDelete, any_isDelete] at this
    by_cases hold : existing.any (sameUpdateRr · r)
    · simpa [hold] using this
    · simp only [hold, Bool.not_false, if_true, if_false, Bool.false_eq_true] at this ⊢
      exact fun a ha => change_eq_none_iff.mp (List.filterMap_eq_nil_iff.mp this a ha)

theorem left_perm_iff (hc : c.Trimmed) (zone : String) (existing : List Record)
    (updates : List (UpdateRr ν)) :
    ((left c zone existing updates).map Record.row).Perm
      ((updates.foldl (fun records up => up.textStep c zone records) existing).map Record.row) ↔
    InSequence c existing updates := by
  rw [perm_iff_filter, inSequence_iff zone]
  refine forall_congr' fun r => ?_
  rw [filter_map_row, filter_map_row, filter_left hc, filter_foldl_step hc]
  constructor
  · intro h
    refine Change.inOrder_iff.2 ?_
    simpa using h.length_eq.symm
  · intro h
    rw [Change.inOrder_iff.1 h]

/-! ### Texts and resource records -/

section Texts

variable {records : List Record}

theorem fromRr_of_added (hadded : up.added c = some r) : fromRr c up.rr = some r := by
  unfold UpdateRr.added at hadded
  split at hadded
  · exact hadded
  · cases hadded

theorem any_congr {α : Type} {o : Option α} {p q : α → Bool} (h : ∀ x, o = some x → p x = q x) :
    o.any p = o.any q := by
  cases o with
  | none => rfl
  | some x => exact h x rfl

variable [DecidableEq ν]

/-- The records agree with those of the updates about what one resource record is. -/
def Agrees (c : Codec ν) (records : List Record) (updates : List (UpdateRr ν)) : Prop :=
  ∀ x ∈ records, ∀ up ∈ updates, ∀ r, fromRr c up.rr = some r → sameWireRr c x r = sameUpdateRr x r

theorem sameWireRr_of_text (h : sameWireRr c x y → x.data = y.data) :
    sameWireRr c x y = sameUpdateRr x y := by
  rw [Bool.eq_iff_iff, sameUpdateRr_iff]
  constructor
  · intro hxy
    simp only [sameWireRr, decide_eq_true_eq] at hxy
    exact ⟨hxy.1, hxy.2.1, h (by simpa [sameWireRr] using hxy)⟩
  · rintro ⟨hname, htype, hdata⟩
    simp [sameWireRr, hname, htype, hdata]

theorem OneText.agrees {updates : List (UpdateRr ν)} (h : OneText c existing updates) :
    Agrees c existing updates := fun x hx up hup r hr =>
  sameWireRr_of_text (h x (List.mem_append_left _ hx) r (List.mem_filterMap.mpr ⟨up, hup, hr⟩))

/-- What the updates add is in one text with what they are about. -/
theorem OneText.added_agrees {updates : List (UpdateRr ν)} (hc : c.Trimmed)
    (h : OneText c existing updates) (hup : up ∈ updates) (hadded : up.added c = some x) :
    Agrees c [Db.toRow (x.inZone zone)] updates := by
  intro y hy up' hup' r hr
  rw [List.mem_singleton.mp hy, sameUpdateRr_toRow hc hadded]
  have hprinted := fromRr_of_added hadded
  have hname := sameUpdateRr_iff.mp ((sameUpdateRr_toRow hc hadded zone x).trans
    (sameUpdateRr_iff.mpr ⟨rfl, rfl, rfl⟩))
  rw [← sameWireRr_of_text (h x (List.mem_append_right _ (List.mem_filterMap.mpr ⟨up, hup, hprinted⟩))
    r (List.mem_filterMap.mpr ⟨up', hup', hr⟩))]
  unfold sameWireRr
  rw [hname.1, hname.2.1, hname.2.2]

theorem step_eq_textStep {updates : List (UpdateRr ν)} (h : Agrees c records updates)
    (hup : up ∈ updates) : up.step c zone records = up.textStep c zone records := by
  unfold UpdateRr.step UpdateRr.textStep
  cases hadded : up.added c with
  | some r =>
    have hprinted := fromRr_of_added hadded
    have hany : records.any (sameWireRr c · r) = records.any (sameUpdateRr · r) := by
      rw [Bool.eq_iff_iff, List.any_eq_true, List.any_eq_true]
      constructor <;> rintro ⟨x, hx, hsame⟩
      · exact ⟨x, hx, by rwa [← h x hx up hup r hprinted]⟩
      · exact ⟨x, hx, by rwa [h x hx up hup r hprinted]⟩
    dsimp only
    rw [hany]
  | none =>
    refine List.filter_congr fun x hx => congrArg (! ·) ?_
    have hany := any_congr (h x hx up hup)
    unfold UpdateRr.withdraws UpdateRr.deletes
    cases up.rr.dnsClass with
    | none => exact hany
    | _ => rfl

theorem foldl_step_eq {all updates : List (UpdateRr ν)} (hc : c.Trimmed)
    (htext : OneText c existing all) (hsub : ∀ up ∈ updates, up ∈ all) (h : Agrees c records all) :
    updates.foldl (fun records up => up.step c zone records) records =
      updates.foldl (fun records up => up.textStep c zone records) records := by
  induction updates generalizing records with
  | nil => rw [List.foldl_nil, List.foldl_nil]
  | cons up updates ih =>
    obtain ⟨hup, hrest⟩ := List.forall_mem_cons.mp hsub
    rw [List.foldl_cons, List.foldl_cons, step_eq_textStep h hup]
    refine ih hrest fun x hx => ?_
    unfold UpdateRr.textStep at hx
    cases hadded : up.added c with
    | some r =>
      rw [hadded] at hx
      dsimp only at hx
      split at hx
      · exact h x hx
      · rcases List.mem_append.mp hx with hx | hx
        · exact h x hx
        · exact htext.added_agrees hc hup hadded x hx
    | none =>
      rw [hadded] at hx
      exact h x (List.mem_of_mem_filter hx)

end Texts

end

section Sample

def tidyCodec : Codec String := { plainCodec with printName := Text.trim }

theorem trimmed_tidyCodec : tidyCodec.Trimmed := by
  intro n
  simp [tidyCodec, Text.trim, Text.trimChars_trimChars]

def answer (updates : List (UpdateRr String)) : Except DbError ResponseCode × Session ZoneDb :=
  handleUpdate tidyCodec (updating updates) id ⟨primaryDb, [], 0⟩

def answered (updates : List (UpdateRr String)) : List Record :=
  (Db.recordsOf (answer updates).2.db "z").map Record.row

def meant (updates : List (UpdateRr String)) : List Record :=
  (updates.foldl (fun records up => up.step tidyCodec "z" records)
    (Db.recordsOf primaryDb "z")).map Record.row

end Sample

end Magnetite.Dns
