import Mathlib.Order.Bounds.Basic
import Mathlib.Data.List.Basic

/-!
# The last writer wins

A register holds the write with the greatest key it has seen; a write whose key is not greater
changes nothing. What a sequence of writes leaves depends on which writes there are and not on
their order or repetition, as long as writes with the same key are the same.
-/
namespace Magnetite.Lib.LastWriter

variable {ω κ : Type} [LinearOrder κ] (key : ω → κ)

/-- A write takes the place of the one held if its key is greater. -/
def latest (held : Option ω) (w : ω) : Option ω :=
  if held.all (key · < key w) then some w else held

/-- What is left of `start` and the writes: one of them, with the greatest key; `start` gives way
to greater keys only. -/
structure IsLatest (start : Option ω) (ws : List ω) (r : Option ω) : Prop where
  mem : ∀ w ∈ r, w ∈ start ∨ w ∈ ws
  top : ∀ w, w ∈ start ∨ w ∈ ws → ∃ h ∈ r, key w ≤ key h
  keep : ∀ w ∈ start, (∀ v ∈ ws, key v ≤ key w) → r = some w

variable {key}

theorem isLatest_nil (start : Option ω) : IsLatest key start [] start where
  mem w hw := .inl hw
  top w hw := ⟨w, by simpa using hw, le_rfl⟩
  keep w hw _ := hw

/-- One more write before all others. -/
theorem IsLatest.cons {start r : Option ω} {w : ω} {ws : List ω}
    (h : IsLatest key (latest key start w) ws r) : IsLatest key start (w :: ws) r := by
  unfold latest at h
  by_cases hall : start.all (key · < key w)
  · rw [if_pos hall] at h
    have hlt : ∀ s ∈ start, key s < key w := by simpa [Option.all_eq_true] using hall
    refine ⟨fun v hv => ?_, fun v hv => ?_, fun s hs hle => ?_⟩
    · rcases h.mem v hv with hvw | hmem
      · exact .inr (by simp [Option.some.inj hvw])
      · exact .inr (List.mem_cons_of_mem _ hmem)
    · obtain ⟨top, htop, hw⟩ := h.top w (.inl rfl)
      rcases hv with hv | hv
      · exact ⟨top, htop, (hlt v hv).le.trans hw⟩
      · rcases List.mem_cons.mp hv with rfl | hv
        exacts [⟨top, htop, hw⟩, h.top v (.inr hv)]
    · exact absurd (hlt s hs) (not_lt.mpr (hle w (by simp)))
  · rw [if_neg hall] at h
    obtain ⟨s, rfl, hs⟩ : ∃ s, start = some s ∧ key w ≤ key s := by
      cases start with
      | none => simp at hall
      | some s => exact ⟨s, rfl, by simpa using hall⟩
    refine ⟨fun v hv => (h.mem v hv).imp_right (List.mem_cons_of_mem _), fun v hv => ?_,
      fun v hv hle => h.keep v hv fun u hu => hle u (List.mem_cons_of_mem _ hu)⟩
    rcases hv with hv | hv
    · exact h.top v (.inl hv)
    · rcases List.mem_cons.mp hv with rfl | hv
      · obtain ⟨top, htop, hle⟩ := h.top s (.inl rfl)
        exact ⟨top, htop, hs.trans hle⟩
      · exact h.top v (.inr hv)

theorem isLatest_foldl (key : ω → κ) (start : Option ω) (ws : List ω) :
    IsLatest key start ws (ws.foldl (latest key) start) := by
  induction ws generalizing start with
  | nil => exact isLatest_nil start
  | cons w ws ih => exact (ih (latest key start w)).cons

/-- The result is determined by the writes when equal keys mean equal writes. -/
theorem IsLatest.unique {start r r' : Option ω} {ws ws' : List ω} (same : ∀ w, w ∈ ws ↔ w ∈ ws')
    (ties : ∀ v ∈ ws, ∀ w ∈ ws, key v = key w → v = w) (h : IsLatest key start ws r)
    (h' : IsLatest key start ws' r') : r = r' := by
  cases r with
  | none =>
    cases r' with
    | none => rfl
    | some w =>
      obtain ⟨t, ht, -⟩ := h.top w ((h'.mem w rfl).imp_right (same w).mpr)
      simp at ht
  | some v =>
    obtain ⟨w, rfl, hvw⟩ := h'.top v ((h.mem v rfl).imp_right (same v).mp)
    obtain ⟨u, hu, hwv⟩ := h.top w ((h'.mem w rfl).imp_right (same w).mpr)
    obtain rfl := Option.some.inj hu
    have hkey : key v = key w := le_antisymm hvw hwv
    -- whichever of the two was there at the start stays on both sides
    have top : ∀ u ∈ ws, key u ≤ key v := by
      intro u hu
      obtain ⟨t, ht, hle⟩ := h.top u (.inr hu)
      exact Option.some.inj ht ▸ hle
    by_cases hv : v ∈ start
    · exact (h'.keep v hv fun u hu => top u ((same u).mpr hu)).symm
    · by_cases hw : w ∈ start
      · exact h.keep w hw fun u hu => hkey ▸ top u hu
      · have hvs := (h.mem v rfl).resolve_left hv
        have hws := (same w).mpr ((h'.mem w rfl).resolve_left hw)
        rw [ties v hvs w hws hkey]

/-- Order and repetition of the writes do not matter. -/
theorem foldl_latest_congr {start : Option ω} {ws ws' : List ω} (same : ∀ w, w ∈ ws ↔ w ∈ ws')
    (ties : ∀ v ∈ ws, ∀ w ∈ ws, key v = key w → v = w) :
    ws.foldl (latest key) start = ws'.foldl (latest key) start :=
  (isLatest_foldl key start ws).unique same ties (isLatest_foldl key start ws')

/-- What was held stays, or a greater write took its place. -/
theorem IsLatest.eq_or_lt {s t : ω} {ws : List ω} (h : IsLatest key (some s) ws (some t)) :
    t = s ∨ t ∈ ws ∧ key s < key t := by
  obtain ⟨u, hu, hle⟩ := h.top s (.inl rfl)
  obtain rfl := Option.some.inj hu
  rcases hle.lt_or_eq with hlt | heq
  · exact .inr ⟨(h.mem t rfl).resolve_left fun hs => hlt.ne (by rw [Option.some.inj hs]), hlt⟩
  · refine .inl (Option.some.inj (h.keep s rfl fun v hv => ?_))
    obtain ⟨u, hu, hle⟩ := h.top v (.inr hv)
    rwa [heq, Option.some.inj hu]

/-- The key held is the greatest of all keys. -/
theorem IsLatest.isGreatest_iff {start r : Option ω} {ws : List ω} (h : IsLatest key start ws r)
    (k : κ) :
    (∃ w ∈ r, key w = k) ↔ IsGreatest {k | ∃ w, (w ∈ start ∨ w ∈ ws) ∧ key w = k} k := by
  constructor
  · rintro ⟨w, hw, rfl⟩
    refine ⟨⟨w, h.mem w hw, rfl⟩, ?_⟩
    rintro _ ⟨v, hv, rfl⟩
    obtain ⟨t, ht, hle⟩ := h.top v hv
    rwa [Option.mem_unique ht hw] at hle
  · rintro ⟨⟨v, hv, rfl⟩, hub⟩
    obtain ⟨w, hw, hle⟩ := h.top v hv
    exact ⟨w, hw, le_antisymm (hub ⟨w, h.mem w hw, rfl⟩) hle⟩

end Magnetite.Lib.LastWriter
