import Magnetite.Proxy.Service
import Mathlib.Data.List.Rotate

/-!
# Load balancing

All requests and streams take their number from one counter, whichever virtual host they are for,
and the number selects the upstream. A host whose requests take consecutive numbers is served by
its upstreams in proportion to their weights; requests to other hosts in between spoil this.
-/
namespace Magnetite.Proxy
open Lib Text Net

/-! ## One period -/

/-- How many of the numbers of a period an upstream has: one for round-robin, else its weight, and
at least one. -/
def LbStrategy.share : LbStrategy → Upstream → Nat
  | .roundRobin, _ => 1
  | _, u => max u.weight 1

@[simp] theorem LbStrategy.share_roundRobin : LbStrategy.roundRobin.share = fun _ => 1 :=
  funext fun _ => rfl

@[simp] theorem LbStrategy.share_weighted :
    LbStrategy.weighted.share = fun u => max u.weight 1 := funext fun _ => rfl

/-- The length of a period. -/
def VirtualHost.total (v : VirtualHost) : Nat := (v.upstream.map v.lbStrategy.share).sum

/-- The share of an upstream, which may be listed more than once. -/
def VirtualHost.due (v : VirtualHost) (u : Upstream) : Nat :=
  ((v.upstream.filter (· = u)).map v.lbStrategy.share).sum

/-- The upstreams are taken in turn. -/
def VirtualHost.InTurn (v : VirtualHost) : Prop :=
  v.lbStrategy = .roundRobin ∨ v.lbStrategy = .weighted

/-- The upstream of a place in the period. -/
def VirtualHost.at (v : VirtualHost) (pos : Nat) : Option Upstream :=
  match v.lbStrategy with
  | .roundRobin => v.upstream[pos]?
  | _ => weightedPick v.upstream pos

section Period

variable {v : VirtualHost} {us : List Upstream} {u : Upstream}

theorem count_weightedPick (us : List Upstream) (u : Upstream) :
    ((List.range (us.map fun u => max u.weight 1).sum).map (weightedPick us)).count (some u) =
      ((us.filter (· = u)).map fun u => max u.weight 1).sum := by
  induction us with
  | nil => rfl
  | cons x us ih =>
    -- the first places are those of `x`
    have hfirst : (List.range (max x.weight 1)).map (weightedPick (x :: us)) =
        List.replicate (max x.weight 1) (some x) := by
      refine List.eq_replicate_iff.mpr ⟨by simp, fun y hy => ?_⟩
      obtain ⟨pos, hpos, rfl⟩ := List.mem_map.mp hy
      exact if_pos (List.mem_range.mp hpos)
    have hrest : weightedPick (x :: us) ∘ (max x.weight 1 + ·) = weightedPick us := by
      funext pos
      rw [Function.comp_apply, weightedPick, if_neg (by omega), Nat.add_sub_cancel_left]
    rw [List.map_cons, List.sum_cons, List.range_add, List.map_append, List.count_append, hfirst,
      List.map_map, hrest, ih, List.count_replicate]
    by_cases hx : x = u <;> simp [hx]

theorem weightedPick_isSome {pos : Nat} (h : pos < (us.map fun u => max u.weight 1).sum) :
    (weightedPick us pos).isSome := by
  induction us generalizing pos with
  | nil => simp at h
  | cons x us ih =>
    rw [List.map_cons, List.sum_cons] at h
    rw [weightedPick]
    split_ifs
    · rfl
    · exact ih (by omega)

theorem VirtualHost.InTurn.total_pos (h : v.InTurn) (hne : v.upstream ≠ []) : 0 < v.total := by
  obtain ⟨x, us, hus⟩ := List.exists_cons_of_ne_nil hne
  have hshare : 0 < v.lbStrategy.share x := by
    rcases h with h | h <;> simp [h]
  simp only [total, hus, List.map_cons, List.sum_cons]
  omega

/-- In a period every upstream has its share. -/
theorem VirtualHost.InTurn.count_range (h : v.InTurn) (u : Upstream) :
    ((List.range v.total).map v.at).count (some u) = v.due u := by
  rcases h with h | h
  · have hall : (List.range v.upstream.length).map (v.upstream[·]?) = v.upstream.map some :=
      List.ext_getElem (by simp) fun i _ _ => by simp_all
    have htotal : v.total = v.upstream.length := by simp [total, h]
    have hat : v.at = (v.upstream[·]?) := by funext pos; simp [VirtualHost.at, h]
    have hdue : v.due u = v.upstream.count u := by
      simp [due, h, List.count_eq_length_filter, beq_eq_decide]
    rw [hat, htotal, hall, hdue, List.count_map_of_injective _ _ (Option.some_injective _)]
  · have hat : v.at = weightedPick v.upstream := by funext pos; simp [VirtualHost.at, h]
    rw [total, due, hat, h]
    exact count_weightedPick ..

/-- A period may start at any number. -/
theorem VirtualHost.InTurn.count_window (h : v.InTurn) (start : Nat) (u : Upstream) :
    ((List.range v.total).map fun i => v.at ((start + i) % v.total)).count (some u) = v.due u := by
  have hturn : (List.range v.total).map (fun i => (start + i) % v.total) =
      (List.range v.total).rotate start :=
    List.ext_getElem (by simp) fun i _ _ => by simp [List.getElem_rotate, Nat.add_comm]
  have hmap : (List.range v.total).map (fun i => v.at ((start + i) % v.total)) =
      ((List.range v.total).map (fun i => (start + i) % v.total)).map v.at := by
    rw [List.map_map]
    rfl
  rw [hmap, hturn, ((List.rotate_perm _ start).map v.at).count_eq, h.count_range]

theorem VirtualHost.InTurn.selectUpstream_eq (h : v.InTurn) (hne : v.upstream ≠ [])
    (hashIp : IpAddr → Nat) (peer : IpAddr) (counter : Nat) (inflight : Upstream → Nat) :
    selectUpstream hashIp v.upstream v.lbStrategy peer counter inflight =
      v.at (counter % v.total) := by
  have hlt := Nat.mod_lt counter (h.total_pos hne)
  rcases h with h | h
  · simp [selectUpstream, hne, VirtualHost.at, h, total]
  · simp only [total, h, LbStrategy.share_weighted] at hlt
    obtain ⟨u, hu⟩ := Option.isSome_iff_exists.mp (weightedPick_isSome hlt)
    simp [selectUpstream, hne, VirtualHost.at, h, total, hu]

end Period

/-! ## Runs -/

/-- A request or a stream with what it finds in the shared context, except for the counter. -/
inductive Arrival where
  | request (ctx : Ctx) (peer : IpAddr) (secure : Bool) (req : Request)
  | stream (ctx : Ctx) (peer : IpAddr) (port : Nat) (preread : List UInt8)

/-- What is chosen for an arrival with a number; none if it is turned away before the choice. -/
def Arrival.choice (counter : Nat) : Arrival → Option (Option (VirtualHost × Upstream))
  | request ctx peer secure req =>
    match handle { ctx with counter } peer secure req with
    | .proxied v u => some (some (v, u))
    -- the only reply of this code: the host has no upstream
    | .status 502 _ => some none
    | _ => none
  | stream ctx peer port preread =>
    match handleTcp { ctx with counter } peer port preread with
    | .proxied v u => some (some (v, u))
    | .noUpstream => some none
    | _ => none

/-- The choices of a run. Each takes the number of the counter, which is a machine word. -/
def choices : Nat → List Arrival → List (Option (VirtualHost × Upstream))
  | _, [] => []
  | counter, a :: as =>
    match a.choice counter with
    | none => choices counter as
    | some c => c :: choices ((counter + 1) % 2 ^ 64) as

section Run

variable {v : VirtualHost} {u : Upstream}

theorem handle_eq_proxied {ctx : Ctx} {peer : IpAddr} {secure : Bool} {req : Request}
    (h : handle ctx peer secure req = .proxied v u) :
    selectUpstream ctx.hashIp v.upstream v.lbStrategy peer ctx.counter ctx.inflight = some u := by
  unfold handle at h
  split at h
  · rename_i hacme
    unfold acmeChallengeResponse at hacme
    split_ifs at hacme
    dsimp only at hacme
    split at hacme <;> simp_all
  · dsimp only at h
    split_ifs at h
    split at h
    · cases h
    · split_ifs at h
      split at h
      · cases h
      · cases h
        assumption

theorem handleTcp_eq_proxied {ctx : Ctx} {peer : IpAddr} {port : Nat} {preread : List UInt8}
    (h : handleTcp ctx peer port preread = .proxied v u) :
    selectUpstream ctx.hashIp v.upstream v.lbStrategy peer ctx.counter ctx.inflight = some u := by
  unfold handleTcp at h
  dsimp only at h
  split_ifs at h
  split at h
  · cases h
  · split_ifs at h
    split at h
    · cases h
    · cases h
      assumption

theorem Arrival.choice_eq_some {a : Arrival} {counter : Nat}
    (h : a.choice counter = some (some (v, u))) :
    ∃ hashIp peer inflight,
      selectUpstream hashIp v.upstream v.lbStrategy peer counter inflight = some u := by
  cases a with
  | request ctx peer secure req =>
    have hreply : handle { ctx with counter } peer secure req = .proxied v u := by
      simp only [choice] at h
      split at h <;> simp_all
    exact ⟨_, _, _, handle_eq_proxied hreply⟩
  | stream ctx peer port preread =>
    have hend : handleTcp { ctx with counter } peer port preread = .proxied v u := by
      simp only [choice] at h
      split at h <;> simp_all
    exact ⟨_, _, _, handleTcp_eq_proxied hend⟩

/-- The choice in a place of the run is made with the number so far from the start. -/
theorem choices_getElem? {counter : Nat} (hcounter : counter < 2 ^ 64) {arrivals : List Arrival}
    {k : Nat} (h : (choices counter arrivals)[k]? = some (some (v, u))) :
    ∃ hashIp peer inflight, selectUpstream hashIp v.upstream v.lbStrategy peer
      ((counter + k) % 2 ^ 64) inflight = some u := by
  induction arrivals generalizing counter k with
  | nil => simp [choices] at h
  | cons a as ih =>
    rw [choices] at h
    split at h
    · exact ih hcounter h
    · rename_i c hc
      cases k with
      | zero =>
        obtain rfl : c = some (v, u) := by simpa using h
        rw [Nat.add_zero, Nat.mod_eq_of_lt hcounter]
        exact Arrival.choice_eq_some hc
      | succ k =>
        have hnext := ih (Nat.mod_lt _ (by decide)) (List.getElem?_cons_succ.symm.trans h)
        rwa [Nat.mod_add_mod, Nat.add_assoc, Nat.add_comm 1 k] at hnext

/-- As many consecutive choices for one host as its period is long, before the counter wraps, give
every upstream its share. -/
theorem balanced_in_turn (counter : Nat) (hcounter : counter < 2 ^ 64) (arrivals : List Arrival)
    (v : VirtualHost) (hturn : v.InTurn) (pre window post : List (Option (VirtualHost × Upstream)))
    (hrun : choices counter arrivals = pre ++ window ++ post) (hlen : window.length = v.total)
    (hhost : ∀ c ∈ window, ∃ u, c = some (v, u))
    (hwrap : (counter + pre.length) % 2 ^ 64 + v.total ≤ 2 ^ 64) (u : Upstream) :
    window.count (some (v, u)) = v.due u := by
  rcases List.eq_nil_or_concat v.upstream with hempty | ⟨_, _, hconcat⟩
  · have htotal : v.total = 0 := by simp [VirtualHost.total, hempty]
    rw [htotal, List.length_eq_zero_iff] at hlen
    simp [hlen, VirtualHost.due, hempty]
  have hne : v.upstream ≠ [] := by simp [hconcat]
  set start := (counter + pre.length) % 2 ^ 64 with hstart
  have hwindow : window = ((List.range v.total).map fun i => v.at ((start + i) % v.total)).map
      (Option.map (v, ·)) := by
    refine List.ext_getElem (by simp [hlen]) fun i hi _ => ?_
    obtain ⟨u, hu⟩ := hhost _ (List.getElem_mem hi)
    have hplace : (choices counter arrivals)[pre.length + i]? = some (some (v, u)) := by
      rw [hrun, List.append_assoc, List.getElem?_append_right (by omega), Nat.add_sub_cancel_left,
        List.getElem?_append_left hi, List.getElem?_eq_getElem hi, hu]
    obtain ⟨hashIp, peer, inflight, hselect⟩ := choices_getElem? hcounter hplace
    have hnumber : (counter + (pre.length + i)) % 2 ^ 64 = start + i := by
      rw [← Nat.add_assoc, ← Nat.mod_add_mod, ← hstart, Nat.mod_eq_of_lt (by omega)]
    rw [hturn.selectUpstream_eq hne, hnumber] at hselect
    simp [hu, hselect]
  have hinj : Function.Injective (Option.map (v, ·) : Option Upstream → _) :=
    Option.map_injective (Prod.mk_right_injective v)
  have hcount := List.count_map_of_injective
    ((List.range v.total).map fun i => v.at ((start + i) % v.total)) _ hinj (some u)
  rw [← hwindow] at hcount
  exact hcount.trans (hturn.count_window start u)

end Run

namespace Balance.Sample

def upstream (port weight : Nat) : Upstream := ⟨"10.0.0.1", port, weight, .http⟩

def vhost (name : String) (strategy : LbStrategy) (upstreams : List Upstream) : VirtualHost where
  id := name
  hostname := name
  pathPrefix := none
  listenPort := 80
  upstream := upstreams
  forceHttps := false
  proxyMode := .http
  lbStrategy := strategy
  enabled := true

/-- Two upstreams in turn. -/
def shop : VirtualHost := vhost "shop" .roundRobin [upstream 81 1, upstream 82 1]

def wiki : VirtualHost := vhost "wiki" .roundRobin [upstream 83 1]

/-- The first upstream has no weight. -/
def mail : VirtualHost := vhost "mail" .weighted [upstream 84 0, upstream 85 1]

def ctx : Ctx := ⟨⟨[shop, wiki, mail], [], []⟩, [], 0, fun _ => 0, fun _ => 0, 0⟩

def visit (host : String) : Arrival :=
  .request ctx (.v4 0x0A000002#32) false ⟨"/", some "/", some host, none⟩

/-- With a request to another host after each of its own, one of two upstreams gets all requests of
a host; and an upstream of weight 0 takes the whole round of a host with the weights 0 and 1. -/
theorem shared_counter_unbalanced :
    choices 0 [visit "shop", visit "wiki", visit "shop", visit "wiki"] =
        [some (shop, upstream 81 1), some (wiki, upstream 83 1), some (shop, upstream 81 1),
          some (wiki, upstream 83 1)] ∧
      shop.total = 2 ∧ shop.due (upstream 82 1) = 1 ∧
      choices 0 [visit "mail"] = [some (mail, upstream 84 0)] :=
  ⟨by decide +kernel, by decide, by decide, by decide +kernel⟩

theorem balanced_in_turn_shop :
    choices 0 [visit "wiki", visit "shop", visit "shop"] = [some (wiki, upstream 83 1),
        some (shop, upstream 82 1), some (shop, upstream 81 1)] ∧
      [some (shop, upstream 82 1), some (shop, upstream 81 1)].count
        (some (shop, upstream 82 1)) = shop.due (upstream 82 1) := by
  have hrun : choices 0 [visit "wiki", visit "shop", visit "shop"] = [some (wiki, upstream 83 1),
      some (shop, upstream 82 1), some (shop, upstream 81 1)] := by decide +kernel
  exact ⟨hrun, balanced_in_turn 0 (by decide) _ shop (.inl rfl) [some (wiki, upstream 83 1)] _ []
    hrun (by decide) (by simp) (by decide) _⟩

end Balance.Sample

end Magnetite.Proxy
