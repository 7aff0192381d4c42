import Mathlib.Data.List.Destutter
import Mathlib.Data.List.Sort
import Mathlib.Data.String.Basic
import Magnetite.Lib.Cycle

/-!
# The replication ring

Every controller orders the live ones by their identifiers, closes the order to a ring and pulls
from its two neighbours. The controllers do this on their own; if they start from the same set, what
each of them gets fits together.
-/
namespace Magnetite.Addc

variable {σ : Type}

/-- A domain controller; `σ` are socket addresses. -/
structure TopologyDc (σ : Type) where
  id : String
  drs : σ
  kdc : σ
  spn : String

namespace Topology

/-- The live controllers by their identifiers, each identifier once. -/
def liveDcs (dcs : List (TopologyDc σ)) (dead : Finset String) : List (TopologyDc σ) :=
  ((dcs.filter (·.id ∉ dead)).insertionSort (·.id ≤ ·.id)).destutter (·.id ≠ ·.id)

def ringInboundPartners (dcs : List (TopologyDc σ)) (selfId : String) (dead : Finset String) :
    List (TopologyDc σ) :=
  let live := liveDcs dcs dead
  let n := live.length
  match live.findIdx? (·.id == selfId) with
  | none => []
  | some pos =>
    match n with
    | 0 | 1 => []
    | 2 => live[1 - pos]?.toList
    | _ => live[(pos + n - 1) % n]?.toList ++ live[(pos + 1) % n]?.toList

/-! ## The order of the live controllers -/

section Order

variable {dcs : List (TopologyDc σ)} {dead : Finset String}

theorem mem_of_mem_liveDcs {dc : TopologyDc σ} (h : dc ∈ liveDcs dcs dead) :
    dc ∈ dcs ∧ dc.id ∉ dead := by
  have hsorted := (List.destutter_sublist _ _).subset h
  have hfilter := (List.mem_insertionSort _).mp hsorted
  simpa using List.mem_filter.mp hfilter

/-- Of neighbours with one identifier one is kept. -/
theorem exists_mem_destutter' (a : TopologyDc σ) (l : List (TopologyDc σ)) {dc : TopologyDc σ}
    (h : dc ∈ a :: l) : ∃ kept ∈ l.destutter' (·.id ≠ ·.id) a, kept.id = dc.id := by
  induction l generalizing a with
  | nil => exact ⟨a, by simp, by simp_all⟩
  | cons b l ih =>
    rw [List.destutter']
    split_ifs with hne
    · obtain rfl | h := List.mem_cons.mp h
      · exact ⟨dc, List.mem_cons_self, rfl⟩
      · obtain ⟨kept, hkept, hid⟩ := ih b h
        exact ⟨kept, List.mem_cons_of_mem _ hkept, hid⟩
    · have heq : a.id = b.id := not_not.mp hne
      obtain rfl | h := List.mem_cons.mp h
      · exact ih dc List.mem_cons_self
      · obtain rfl | h := List.mem_cons.mp h
        · exact ⟨a, List.mem_destutter' _ _ a, heq⟩
        · exact ih a (List.mem_cons_of_mem _ h)

theorem exists_mem_liveDcs {dc : TopologyDc σ} (h : dc ∈ dcs) (hlive : dc.id ∉ dead) :
    ∃ kept ∈ liveDcs dcs dead, kept.id = dc.id := by
  have hmem : dc ∈ (dcs.filter (·.id ∉ dead)).insertionSort (·.id ≤ ·.id) := by
    simpa using ⟨h, hlive⟩
  unfold liveDcs
  generalize (dcs.filter (·.id ∉ dead)).insertionSort (·.id ≤ ·.id) = sorted at hmem ⊢
  cases sorted with
  | nil => cases hmem
  | cons a l => exact exists_mem_destutter' a l hmem

theorem pairwise_liveDcs (dcs : List (TopologyDc σ)) (dead : Finset String) :
    (liveDcs dcs dead).Pairwise (·.id < ·.id) := by
  have htotal : Std.Total fun a b : TopologyDc σ => a.id ≤ b.id := ⟨fun a b => le_total a.id b.id⟩
  have htrans : IsTrans (TopologyDc σ) (·.id ≤ ·.id) := ⟨fun _ _ _ => le_trans⟩
  have hlt : IsTrans (TopologyDc σ) (·.id < ·.id) := ⟨fun _ _ _ => lt_trans⟩
  have hsorted : (liveDcs dcs dead).Pairwise (·.id ≤ ·.id) :=
    (List.pairwise_insertionSort _ _).sublist (List.destutter_sublist _ _)
  have hchain : (liveDcs dcs dead).IsChain (·.id ≠ ·.id) := List.isChain_destutter _ _
  rw [← List.isChain_iff_pairwise, List.isChain_iff_getElem]
  intro i hi
  exact lt_of_le_of_ne (List.pairwise_iff_getElem.mp hsorted i (i + 1) _ hi (by omega))
    (List.isChain_iff_getElem.mp hchain i hi)

theorem findIdx?_liveDcs {i : ℕ} {dc : TopologyDc σ} (h : (liveDcs dcs dead)[i]? = some dc) :
    (liveDcs dcs dead).findIdx? (·.id == dc.id) = some i := by
  obtain ⟨hi, rfl⟩ := List.getElem?_eq_some_iff.mp h
  rw [List.findIdx?_eq_some_iff_getElem]
  refine ⟨hi, by simp, fun j hj => ?_⟩
  have hlt := List.pairwise_iff_getElem.mp (pairwise_liveDcs dcs dead) j i (by omega) hi hj
  simpa using hlt.ne

/-- A place is found again by its identifier. -/
theorem eq_of_id_eq {i j : ℕ} {a b : TopologyDc σ} (ha : (liveDcs dcs dead)[i]? = some a)
    (hb : (liveDcs dcs dead)[j]? = some b) (hid : a.id = b.id) : i = j := by
  have hi := findIdx?_liveDcs ha
  rw [hid, findIdx?_liveDcs hb] at hi
  exact (Option.some.inj hi).symm

end Order

/-! ## Neighbours -/

/-- The places of the neighbours on a ring. -/
def neighbours (n pos : ℕ) : List ℕ :=
  match n with
  | 0 | 1 => []
  | 2 => [1 - pos]
  | _ => [(pos + n - 1) % n, (pos + 1) % n]

theorem neighbours_spec {n pos : ℕ} (hpos : pos < n) :
    (neighbours n pos).length ≤ 2 ∧ (neighbours n pos).Nodup ∧
      (∀ j ∈ neighbours n pos, j < n ∧ j ≠ pos) ∧ (2 ≤ n → (pos + 1) % n ∈ neighbours n pos) := by
  match n, hpos with
  | 1, hpos => simp [neighbours]
  | 2, hpos => interval_cases pos <;> simp [neighbours]
  | n + 3, hpos =>
    have hprev : (pos + (n + 3) - 1) % (n + 3) = if pos = 0 then n + 2 else pos - 1 := by
      split_ifs with h
      · rw [Nat.mod_eq_of_lt (by omega)]
        omega
      · have hsum : pos + (n + 3) - 1 = pos - 1 + (n + 3) := by omega
        rw [hsum, Nat.add_mod_right, Nat.mod_eq_of_lt (by omega)]
    have hnext : (pos + 1) % (n + 3) = if pos = n + 2 then 0 else pos + 1 := by
      split_ifs with h
      · subst h
        exact Nat.mod_self _
      · exact Nat.mod_eq_of_lt (by omega)
    simp only [neighbours, hprev, hnext]
    refine ⟨by simp, ?_, ?_, by simp⟩
    · simp only [List.nodup_cons, List.mem_singleton, List.not_mem_nil, not_false_eq_true,
        List.nodup_nil, and_true]
      split_ifs <;> omega
    · intro j hj
      simp only [List.mem_cons, List.not_mem_nil, or_false] at hj
      split_ifs at hj <;> omega

section Ring

variable {dcs : List (TopologyDc σ)} {dead : Finset String}

theorem filterMap_pair {α β : Type} (f : α → Option β) (a b : α) :
    [a, b].filterMap f = (f a).toList ++ (f b).toList := by
  cases ha : f a <;> cases hb : f b <;> simp [ha, hb]

theorem ringInboundPartners_eq {i : ℕ} {dc : TopologyDc σ}
    (h : (liveDcs dcs dead)[i]? = some dc) :
    ringInboundPartners dcs dc.id dead =
      (neighbours (liveDcs dcs dead).length i).filterMap ((liveDcs dcs dead)[·]?) := by
  rw [ringInboundPartners, findIdx?_liveDcs h]
  generalize (liveDcs dcs dead).length = n
  match n with
  | 0 | 1 => rfl
  | 2 => cases hdc : (liveDcs dcs dead)[1 - i]? <;> simp [neighbours, hdc]
  | n + 3 => exact (filterMap_pair _ _ _).symm

theorem ringInboundPartners_of_not_live {selfId : String}
    (h : ∀ dc ∈ liveDcs dcs dead, dc.id ≠ selfId) : ringInboundPartners dcs selfId dead = [] := by
  have hnone : (liveDcs dcs dead).findIdx? (·.id == selfId) = none :=
    List.findIdx?_eq_none_iff.mpr (by simpa using h)
  simp only [ringInboundPartners, hnone]

/-- Data comes to a controller from its partners. -/
def PullsFrom (dcs : List (TopologyDc σ)) (dead : Finset String) (a b : String) : Prop :=
  b ∈ (ringInboundPartners dcs a dead).map (·.id)

/-- What a controller gets: at most two partners, no duplicates, live ones, and not itself. -/
theorem ringInboundPartners_spec (dcs : List (TopologyDc σ)) (selfId : String)
    (dead : Finset String) :
    (ringInboundPartners dcs selfId dead).length ≤ 2 ∧
      ((ringInboundPartners dcs selfId dead).map (·.id)).Nodup ∧
      ∀ dc ∈ ringInboundPartners dcs selfId dead, dc ∈ dcs ∧ dc.id ∉ dead ∧ dc.id ≠ selfId := by
  by_cases hself : ∃ dc ∈ liveDcs dcs dead, dc.id = selfId
  · obtain ⟨dc, hdc, rfl⟩ := hself
    obtain ⟨i, hi⟩ := List.mem_iff_getElem?.mp hdc
    obtain ⟨hlt, rfl⟩ := List.getElem?_eq_some_iff.mp hi
    obtain ⟨hlen, hnodup, hplaces, -⟩ := neighbours_spec hlt
    rw [ringInboundPartners_eq hi]
    refine ⟨(List.length_filterMap_le _ _).trans hlen, ?_, fun dc hdc => ?_⟩
    · rw [List.map_filterMap]
      refine hnodup.filterMap fun j j' x hj hj' => ?_
      obtain ⟨a, ha, rfl⟩ := Option.map_eq_some_iff.mp hj
      obtain ⟨b, hb, hid⟩ := Option.map_eq_some_iff.mp hj'
      exact eq_of_id_eq ha hb hid.symm
    · obtain ⟨j, hj, hdc⟩ := List.mem_filterMap.mp hdc
      obtain ⟨hmem, hlive⟩ := mem_of_mem_liveDcs (List.mem_of_getElem? hdc)
      exact ⟨hmem, hlive, fun hid => (hplaces j hj).2 (eq_of_id_eq hdc hi hid)⟩
  · rw [ringInboundPartners_of_not_live (by simpa using hself)]
    simp

theorem pullsFrom_next {i : ℕ} {a b : TopologyDc σ} (ha : (liveDcs dcs dead)[i]? = some a)
    (hb : (liveDcs dcs dead)[(i + 1) % (liveDcs dcs dead).length]? = some b) :
    a.id = b.id ∨ PullsFrom dcs dead a.id b.id := by
  obtain ⟨hi, -⟩ := List.getElem?_eq_some_iff.mp ha
  by_cases hn : 2 ≤ (liveDcs dcs dead).length
  · right
    rw [PullsFrom, ringInboundPartners_eq ha]
    exact List.mem_map_of_mem (List.mem_filterMap.mpr ⟨_, (neighbours_spec hi).2.2.2 hn, hb⟩)
  · left
    have hone : (liveDcs dcs dead).length = 1 := by omega
    obtain rfl : i = 0 := by omega
    rw [hone, Nat.mod_one] at hb
    rw [Option.some.inj (ha.symm.trans hb)]

/-- From every live controller the others are reached along what each of them pulls from. -/
theorem reaches_live {a b : TopologyDc σ} (ha : a ∈ dcs) (hb : b ∈ dcs) (hlive : a.id ∉ dead)
    (hlive' : b.id ∉ dead) : Relation.ReflTransGen (PullsFrom dcs dead) a.id b.id := by
  obtain ⟨a', ha', haid⟩ := exists_mem_liveDcs ha hlive
  obtain ⟨b', hb', hbid⟩ := exists_mem_liveDcs hb hlive'
  have hround : Relation.ReflTransGen
      (fun x y : TopologyDc σ => Relation.ReflTransGen (PullsFrom dcs dead) x.id y.id) a' b' := by
    refine Lib.Cycle.reaches_of_next (fun i x y hx hy => ?_) ha' hb'
    obtain heq | hpulls := pullsFrom_next hx hy
    · rw [heq]
    · exact .single hpulls
  rw [← haid, ← hbid]
  exact hround.lift' TopologyDc.id fun _ _ h => h

end Ring

end Topology

end Magnetite.Addc
