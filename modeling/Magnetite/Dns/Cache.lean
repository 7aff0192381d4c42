import Magnetite.Lib.History
import Magnetite.Lib.Text
import Mathlib.Data.List.MinMax
import Mathlib.Data.List.Perm.Basic

/-!
# The cache of forwarded answers

Answers of the upstream servers are kept until their lifetime is over, under the name and the type
of the question. The class of the question and whether it asked for signatures are not part of the
key.
-/
namespace Magnetite.Dns.Cache

open Lib

variable {τ κ ρ : Type}

/-- What a query asks: `τ` are record types and `κ` classes. -/
structure Question (τ κ : Type) where
  qname : String
  qtype : τ
  qclass : κ
  dnssecOk : Bool
deriving DecidableEq

structure Entry (ρ : Type) where
  response : ρ
  expiresAt : ℕ
deriving DecidableEq

/-- The entries in some order, and the time. -/
structure DnsCache (ρ : Type) where
  entries : List (String × Entry ρ)
  now : ℕ
deriving DecidableEq

def maxEntries : ℕ := 4096

/-- The name as it stands in a key. -/
def keyName (qname : String) : String := Text.toAsciiLowercase (Text.trimEndMatches '.' qname)

def key (qname qtype : String) : String := keyName qname ++ "|" ++ qtype

/-- The key that a forwarded question has; `typeText` prints record types. -/
def Question.key (typeText : τ → String) (q : Question τ κ) : String :=
  Cache.key q.qname (typeText q.qtype)

namespace DnsCache

def start : DnsCache ρ := ⟨[], 0⟩

def lookup (s : DnsCache ρ) (key : String) : Option (Entry ρ) :=
  (s.entries.find? (·.1 == key)).map Prod.snd

def remove (entries : List (String × Entry ρ)) (key : String) : List (String × Entry ρ) :=
  entries.filter (·.1 != key)

def get (s : DnsCache ρ) (key : String) : Option ρ × DnsCache ρ :=
  match s.lookup key with
  | some entry =>
    if s.now < entry.expiresAt then (some entry.response, s)
    else (none, { s with entries := remove s.entries key })
  | none => (none, s)

/-- A full cache first gives up what has expired. -/
def retained (s : DnsCache ρ) : List (String × Entry ρ) :=
  if maxEntries ≤ s.entries.length then s.entries.filter (s.now < ·.2.expiresAt) else s.entries

/-- A cache that is still full gives up what expires first; `order` is the order in which the map
lists its entries. -/
def evicted (order entries : List (String × Entry ρ)) : List (String × Entry ρ) :=
  if maxEntries ≤ entries.length then
    match order.argmin (·.2.expiresAt) with
    | some oldest => remove entries oldest.1
    | none => entries
  else entries

/-- A response is stored; `elapsed` passes between the two looks at the clock. -/
def put (s : DnsCache ρ) (order : List (String × Entry ρ)) (elapsed : ℕ) (key : String)
    (response : ρ) (ttl : ℕ) : DnsCache ρ :=
  if ttl = 0 then s
  else
    { entries := remove (evicted order s.retained) key ++ [(key, ⟨response, s.now + elapsed + ttl⟩)]
      now := s.now + elapsed }

end DnsCache

/-- The lifetime of a response: the least lifetime of its records, up to `MAX_CACHE_TTL_SECS`. -/
def lifetime (minAnswerTtl : Option ℕ) : ℕ := min (minAnswerTtl.getD 60) 300

/-- A question is answered from the cache, with `restamp` for the new identifier, or by the upstream
servers, whose response is stored; `upstream` is the response with its least lifetime, after the
time that it took. -/
def forwardCached (typeText : τ → String) (restamp : ρ → Option ρ) (s : DnsCache ρ)
    (q : Question τ κ) (upstream : Option (ρ × Option ℕ)) (waited elapsed : ℕ)
    (order : List (String × Entry ρ)) : Option ρ × DnsCache ρ :=
  match s.get (q.key typeText) with
  | (some cached, s) => (restamp cached, s)
  | (none, s) =>
    let s := { s with now := s.now + waited }
    match upstream with
    | none => (none, s)
    | some (response, minTtl) =>
      (some response, s.put order elapsed (q.key typeText) response (lifetime minTtl))

inductive Event (τ κ ρ : Type) where
  | advance (duration : ℕ)
  | get (q : Question τ κ)
  | put (q : Question τ κ) (response : ρ) (ttl : ℕ) (elapsed : ℕ) (order : List (String × Entry ρ))

/-- What happens to the cache, with what is returned. -/
inductive Step (typeText : τ → String) :
    DnsCache ρ → Event τ κ ρ × Option ρ → DnsCache ρ → Prop
  | advance {s : DnsCache ρ} {duration : ℕ} :
      Step typeText s (.advance duration, none) { s with now := s.now + duration }
  | get {s : DnsCache ρ} {q : Question τ κ} :
      Step typeText s (.get q, (s.get (q.key typeText)).1) (s.get (q.key typeText)).2
  | put {s : DnsCache ρ} {q : Question τ κ} {response : ρ} {ttl elapsed : ℕ}
      {order : List (String × Entry ρ)} (listed : order.Perm s.retained) :
      Step typeText s (.put q response ttl elapsed order, none)
        (s.put order elapsed (q.key typeText) response ttl)

/-- A forwarded question is a look into the cache and, if that finds nothing and there is a
response, a put for the same question. -/
theorem forwardCached_run {typeText : τ → String} {restamp : ρ → Option ρ} {s : DnsCache ρ}
    {q : Question τ κ} {upstream : Option (ρ × Option ℕ)} {waited elapsed : ℕ}
    {order : List (String × Entry ρ)}
    (listed : order.Perm
      { (s.get (q.key typeText)).2 with now := (s.get (q.key typeText)).2.now + waited }.retained) :
    ∃ rest, Run (Step typeText) s ((.get q, (s.get (q.key typeText)).1) :: rest)
        (forwardCached typeText restamp s q upstream waited elapsed order).2 ∧
      ∀ q' response ttl elapsed' order', (.put q' response ttl elapsed' order', none) ∈ rest →
        q' = q ∧ ∃ minTtl, upstream = some (response, minTtl) ∧ ttl = lifetime minTtl := by
  have hget := @Step.get τ κ ρ typeText s q
  unfold forwardCached
  generalize s.get (q.key typeText) = found at listed hget ⊢
  obtain ⟨_ | cached, s'⟩ := found
  · cases upstream with
    | none => exact ⟨[_], .cons hget (.cons .advance (.nil _)), by simp⟩
    | some answer =>
      refine ⟨[_, _], .cons hget (.cons .advance (.cons (.put listed) (.nil _))), ?_⟩
      intro q' response ttl elapsed' order' hput
      simp only [List.mem_cons, Prod.mk.injEq, reduceCtorEq, false_and, false_or, Event.put.injEq,
        List.not_mem_nil, or_false] at hput
      obtain ⟨⟨rfl, rfl, rfl, -⟩, -⟩ := hput
      exact ⟨rfl, _, rfl, rfl⟩
  · exact ⟨[], .cons hget (.nil _), by simp⟩

/-! ## What is promised -/

/-- The questions have the same name and the same type, as far as it can be read off its text. -/
def SameKey (typeText : τ → String) (q q' : Question τ κ) : Prop :=
  keyName q.qname = keyName q'.qname ∧ typeText q.qtype = typeText q'.qtype

/-- The questions ask the same. -/
def SameQuestion (q q' : Question τ κ) : Prop :=
  keyName q.qname = keyName q'.qname ∧ q.qtype = q'.qtype ∧ q.qclass = q'.qclass ∧
    q.dnssecOk = q'.dnssecOk

/-- A response was stored for a question like this one as the last of its kind, and its lifetime is
not over. -/
def StoredFor (typeText : τ → String) (same : Question τ κ → Question τ κ → Prop)
    (past : List (Event τ κ ρ × Option ρ)) (now : ℕ) (q : Question τ κ) (response : ρ) : Prop :=
  ∃ before after s q' ttl elapsed order,
    past = before ++ (.put q' response ttl elapsed order, none) :: after ∧
    Run (Step typeText) .start before s ∧ same q' q ∧ now < s.now + elapsed + ttl ∧
    ∀ q'' response' ttl' elapsed' order',
      (.put q'' response' ttl' elapsed' order', none) ∈ after → ttl' ≠ 0 → ¬ same q'' q

/-! ## One step -/

namespace DnsCache

variable {s : DnsCache ρ}

theorem mem_remove {entries : List (String × Entry ρ)} {key : String} {x : String × Entry ρ} :
    x ∈ remove entries key ↔ x ∈ entries ∧ x.1 ≠ key := by
  simp [remove]

theorem sublist_evicted (order entries : List (String × Entry ρ)) :
    (evicted order entries).Sublist entries := by
  unfold evicted
  split
  · split
    · exact List.filter_sublist
    · exact List.Sublist.refl _
  · exact List.Sublist.refl _

theorem sublist_retained (s : DnsCache ρ) : s.retained.Sublist s.entries := by
  unfold retained
  split
  · exact List.filter_sublist
  · exact List.Sublist.refl _

theorem length_evicted {order entries : List (String × Entry ρ)} (h : order.Perm entries)
    (hlen : entries.length ≤ maxEntries) : (evicted order entries).length < maxEntries := by
  unfold evicted
  split
  case isFalse hfree => omega
  case isTrue hfull =>
    cases holdest : order.argmin (·.2.expiresAt) with
    | none =>
      rw [List.argmin_eq_none.mp holdest] at h
      rw [← h.length_eq] at hfull
      simp [maxEntries] at hfull
    | some oldest =>
      have hmem : oldest ∈ entries := h.mem_iff.mp (List.argmin_mem holdest)
      have hlt : (remove entries oldest.1).length < entries.length :=
        List.length_filter_lt_length_iff_exists.mpr ⟨oldest, hmem, by simp⟩
      exact hlt.trans_le hlen

theorem sublist_get (s : DnsCache ρ) (key : String) : (s.get key).2.entries.Sublist s.entries := by
  unfold get
  split
  · split
    · exact List.Sublist.refl _
    · exact List.filter_sublist
  · exact List.Sublist.refl _

/-- A response comes out of an entry of the key that has not expired. -/
theorem get_eq_some {key : String} {response : ρ} (h : (s.get key).1 = some response) :
    ∃ entry, (key, entry) ∈ s.entries ∧ entry.response = response ∧ s.now < entry.expiresAt := by
  unfold get lookup at h
  cases hfind : s.entries.find? (·.1 == key) with
  | none => simp [hfind] at h
  | some x =>
    obtain rfl : x.1 = key := by simpa using List.find?_some hfind
    by_cases hlive : s.now < x.2.expiresAt
    · exact ⟨x.2, List.mem_of_find?_eq_some hfind, by simpa [hfind, hlive] using h, hlive⟩
    · simp [hfind, hlive] at h

/-- An entry after a put is the new one, or an old one of another key. -/
theorem mem_put {order : List (String × Entry ρ)} {elapsed ttl : ℕ} {key : String} {response : ρ}
    {x : String × Entry ρ} (httl : ttl ≠ 0)
    (h : x ∈ (s.put order elapsed key response ttl).entries) :
    x = (key, ⟨response, s.now + elapsed + ttl⟩) ∨ x ∈ s.entries ∧ x.1 ≠ key := by
  rw [put, if_neg httl] at h
  obtain h | h := List.mem_append.mp h
  · obtain ⟨hmem, hne⟩ := mem_remove.mp h
    exact .inr ⟨(sublist_retained s).subset ((sublist_evicted _ _).subset hmem), hne⟩
  · exact .inl (List.mem_singleton.mp h)

/-- The cache is a map of bounded size. -/
structure Wf (s : DnsCache ρ) : Prop where
  keys : (s.entries.map Prod.fst).Nodup
  size : s.entries.length ≤ maxEntries

theorem wf_start : (start : DnsCache ρ).Wf := ⟨List.nodup_nil, Nat.zero_le _⟩

theorem Wf.of_sublist {t : DnsCache ρ} (h : s.Wf) (hsub : t.entries.Sublist s.entries) : t.Wf :=
  ⟨h.keys.sublist (hsub.map _), hsub.length_le.trans h.size⟩

theorem Wf.put (h : s.Wf) {order : List (String × Entry ρ)} (listed : order.Perm s.retained)
    (elapsed : ℕ) (key : String) (response : ρ) (ttl : ℕ) :
    (s.put order elapsed key response ttl).Wf := by
  unfold DnsCache.put
  split
  · exact h
  · have hsub : (remove (evicted order s.retained) key).Sublist s.entries :=
      List.filter_sublist.trans ((sublist_evicted _ _).trans (sublist_retained s))
    have hlt := length_evicted listed ((sublist_retained s).length_le.trans h.size)
    constructor
    · rw [List.map_append, List.nodup_append]
      refine ⟨h.keys.sublist (hsub.map _), by simp, ?_⟩
      intro k hk k' hk' heq
      obtain ⟨x, hx, rfl⟩ := List.mem_map.mp hk
      exact (mem_remove.mp hx).2 (heq.trans (by simpa using hk'))
    · have hle : (remove (evicted order s.retained) key).length ≤
          (evicted order s.retained).length := List.length_filter_le _ _
      rw [List.length_append, List.length_singleton]
      omega

end DnsCache

variable {typeText : τ → String}

theorem Step.wf {s t : DnsCache ρ} {l : Event τ κ ρ × Option ρ} (hstep : Step typeText s l t)
    (h : s.Wf) : t.Wf := by
  cases hstep with
  | advance => exact ⟨h.keys, h.size⟩
  | get => exact h.of_sublist (DnsCache.sublist_get _ _)
  | put listed => exact h.put listed _ _ _ _

/-! ## Whole runs -/

/-- The entry comes from the last put with its key. -/
def Stored (typeText : τ → String) (past : List (Event τ κ ρ × Option ρ))
    (x : String × Entry ρ) : Prop :=
  ∃ before after s q ttl elapsed order,
    past = before ++ (.put q x.2.response ttl elapsed order, none) :: after ∧
    Run (Step typeText) .start before s ∧ q.key typeText = x.1 ∧
    x.2.expiresAt = s.now + elapsed + ttl ∧
    ∀ q' response ttl' elapsed' order',
      (.put q' response ttl' elapsed' order', none) ∈ after → ttl' ≠ 0 → q'.key typeText ≠ x.1

/-- What is no put of the key leaves the last one the last. -/
theorem Stored.append {past : List (Event τ κ ρ × Option ρ)} {x : String × Entry ρ}
    (h : Stored typeText past x) {l : Event τ κ ρ × Option ρ}
    (hl : ∀ q response ttl elapsed order, l = (.put q response ttl elapsed order, none) → ttl ≠ 0 →
      q.key typeText ≠ x.1) : Stored typeText (past ++ [l]) x := by
  obtain ⟨before, after, s, q, ttl, elapsed, order, rfl, run, hkey, hexp, hafter⟩ := h
  refine ⟨before, after ++ [l], s, q, ttl, elapsed, order, by simp, run, hkey, hexp, ?_⟩
  intro q' response ttl' elapsed' order' hmem
  obtain hmem | hmem := List.mem_append.mp hmem
  · exact hafter q' response ttl' elapsed' order' hmem
  · exact hl q' response ttl' elapsed' order' (List.mem_singleton.mp hmem).symm

theorem stored_of_run {labels : List (Event τ κ ρ × Option ρ)} {t : DnsCache ρ}
    (run : Run (Step typeText) .start labels t) : ∀ x ∈ t.entries, Stored typeText labels x := by
  refine Run.induction_last (P := fun past s => ∀ x ∈ s.entries, Stored typeText past x) ?_ ?_ run
  · simp [DnsCache.start]
  · intro past s l t before ih hstep x hx
    cases hstep with
    | advance => exact (ih x hx).append (by simp)
    | get => exact (ih x ((DnsCache.sublist_get _ _).subset hx)).append (by simp)
    | @put q response ttl elapsed order listed =>
      by_cases httl : ttl = 0
      · have hx : x ∈ s.entries := by simpa [DnsCache.put, httl] using hx
        refine (ih x hx).append ?_
        rintro _ _ _ _ _ heq hne
        simp only [Prod.mk.injEq, Event.put.injEq] at heq
        exact absurd (heq.1.2.2.1.symm.trans httl) hne
      · obtain rfl | ⟨hx, hne⟩ := DnsCache.mem_put httl hx
        · exact ⟨past, [], s, q, ttl, elapsed, order, rfl, before, rfl, rfl, by simp⟩
        · refine (ih x hx).append ?_
          rintro _ _ _ _ _ heq -
          simp only [Prod.mk.injEq, Event.put.injEq] at heq
          rw [← heq.1.1]
          exact hne.symm

/-- The key tells the name and the text of the type, if no type has a bar in its text. -/
theorem key_eq_iff (hbar : ∀ ty, '|' ∉ (typeText ty).toList) {q q' : Question τ κ} :
    q.key typeText = q'.key typeText ↔ SameKey typeText q q' := by
  constructor
  · intro h
    have hsplit (q : Question τ κ) : Text.splitOnceChars '|' (q.key typeText).toList.reverse =
        some ((typeText q.qtype).toList.reverse, (keyName q.qname).toList.reverse) := by
      rw [← Text.splitOnceChars_append (List.mem_reverse.not.mpr (hbar q.qtype))]
      simp [Question.key, key]
    have hpair := hsplit q
    rw [h, hsplit q'] at hpair
    simp only [Option.some.injEq, Prod.mk.injEq, List.reverse_inj, String.toList_inj] at hpair
    exact ⟨hpair.2.symm, hpair.1.symm⟩
  · rintro ⟨hname, htype⟩
    rw [Question.key, Question.key, key, key, hname, htype]

/-- Every run keeps the cache within its bound, and what comes out of it is what was stored last
under the name and the type and has not expired. -/
theorem cache_faithful (hbar : ∀ ty, '|' ∉ (typeText ty).toList)
    {labels : List (Event τ κ ρ × Option ρ)} {s : DnsCache ρ}
    (run : Run (Step typeText) .start labels s) :
    s.entries.length ≤ maxEntries ∧ (s.entries.map Prod.fst).Nodup ∧
      ∀ (q : Question τ κ) response t, Step typeText s (.get q, some response) t →
        StoredFor typeText (SameKey typeText) labels s.now q response := by
  have hwf : s.Wf := run.invariant DnsCache.Wf (fun _ _ _ h hstep => hstep.wf h) DnsCache.wf_start
  refine ⟨hwf.size, hwf.keys, fun q response t hstep => ?_⟩
  obtain ⟨entry, hmem, rfl, hlive⟩ : ∃ entry, (q.key typeText, entry) ∈ s.entries ∧
      entry.response = response ∧ s.now < entry.expiresAt := by
    generalize hl : ((.get q, some response) : Event τ κ ρ × Option ρ) = l at hstep
    cases hstep with
    | get =>
      simp only [Prod.mk.injEq, Event.get.injEq] at hl
      obtain ⟨rfl, hget⟩ := hl
      exact DnsCache.get_eq_some hget.symm
    | _ => simp at hl
  obtain ⟨before, after, s', q', ttl, elapsed, order, hpast, run', hkey, hexp, hafter⟩ :=
    stored_of_run run _ hmem
  refine ⟨before, after, s', q', ttl, elapsed, order, hpast, run', (key_eq_iff hbar).mp hkey,
    hexp ▸ hlive, ?_⟩
  intro q'' response' ttl' elapsed' order' hmem' httl hsame
  exact hafter q'' response' ttl' elapsed' order' hmem' httl ((key_eq_iff hbar).mpr hsame)

namespace Sample

/-- The two types of addresses. -/
def texts (v6 : Bool) : String := if v6 then "AAAA" else "A"

/-- An address asked for in a class, with signatures or without. -/
def question (qclass : ℕ) (dnssecOk : Bool) : Question Bool ℕ :=
  ⟨"www.test.", false, qclass, dnssecOk⟩

/-- One response, stored for some minutes for the question in class 1 without signatures. -/
def stored : List (Event Bool ℕ ℕ × Option ℕ) := [(.put (question 1 false) 7 300 0 [], none)]

def filled : DnsCache ℕ := ⟨[("www.test|A", ⟨7, 300⟩)], 0⟩

/-- One question asks for signatures, the other one is of another class. -/
def others : List (Question Bool ℕ) := [question 1 true, question 3 false]

theorem run_stored : Run (Step texts) .start stored filled := by
  have hput : DnsCache.start.put [] 0 ((question 1 false).key texts) 7 300 = filled := by
    decide +kernel
  rw [← hput]
  exact .cons (.put (.refl _)) (.nil _)

theorem step_get {q : Question Bool ℕ} (h : q ∈ others) :
    Step texts filled (.get q, some 7) filled := by
  have hall : ∀ q ∈ others, filled.get (q.key texts) = (some 7, filled) := by decide +kernel
  have hstep := @Step.get Bool ℕ ℕ texts filled q
  rwa [hall q h] at hstep

/-- The question that asks for signatures gets the response to the one that does not, and so does
the question in another class. -/
theorem unsigned_served : ∃ labels s, Run (Step texts) .start labels s ∧
    ∀ q ∈ others, (∃ t, Step texts s (.get q, some 7) t) ∧
      ¬ StoredFor texts SameQuestion labels s.now q 7 := by
  refine ⟨stored, filled, run_stored, fun q hq => ⟨⟨filled, step_get hq⟩, ?_⟩⟩
  rintro ⟨before, after, s, q', ttl, elapsed, order, hpast, -, hsame, -⟩
  have hmem : (Event.put q' 7 ttl elapsed order, none) ∈ stored := by
    rw [hpast]
    simp
  obtain rfl : q' = question 1 false := by
    simp only [stored, List.mem_singleton, Prod.mk.injEq, Event.put.injEq] at hmem
    exact hmem.1.1
  have hne : ∀ q ∈ others, ¬ ((1 : ℕ) = q.qclass ∧ false = q.dnssecOk) := by decide
  exact hne q hq hsame.2.2

theorem cache_faithful_stored :
    filled.entries.length ≤ maxEntries ∧ (filled.entries.map Prod.fst).Nodup ∧
      StoredFor texts (SameKey texts) stored filled.now (question 1 true) 7 := by
  obtain ⟨hsize, hkeys, hget⟩ := cache_faithful (by decide) run_stored
  exact ⟨hsize, hkeys, hget _ _ _ (step_get List.mem_cons_self)⟩

end Sample

end Magnetite.Dns.Cache
