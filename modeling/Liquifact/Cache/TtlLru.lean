import Liquifact.Cache.CacheStore
import Liquifact.Lib.Run

/-!
# The store as a least-recently-used map with expiry

A run of the store with a journal of its calls, newest first. What the store should hold is
said of the journal alone: an entry is current when its key was set and since then neither
set again, deleted nor evicted, and it is live while it has not expired. The age of a key is
the number of calls since its last `set` or successful `get`.
-/

namespace Liquifact.Cache
open Liquifact.Lib

inductive CacheOp (α : Type) where
  | set (key : String) (value : α) (ttlMs : JsNumber)
  | get (key : String)
  | del (key : String)
  | keys
  | delByPrefix (start : String)
  | clear

inductive CacheAnswer (α : Type) where
  | nothing
  | got (value : Option α)
  | listed (keys : List String)
  deriving DecidableEq

structure CacheEvent (α : Type) where
  op : CacheOp α
  now : ℕ
  answer : CacheAnswer α
  evicted : List String

structure Observed (α : Type) where
  store : MemoryCacheStore α
  journal : List (CacheEvent α)

section Journal
variable {α : Type}

namespace CacheEvent

def sets (e : CacheEvent α) (k : String) : Bool :=
  match e.op with
  | .set key _ _ => decide (key = k)
  | _ => false

def deletes (e : CacheEvent α) (k : String) : Bool :=
  match e.op with
  | .del key => decide (key = k)
  | .delByPrefix start => startsWith k start
  | .clear => true
  | _ => false

/- A `set` or a successful `get` of the key. -/
def touches (e : CacheEvent α) (k : String) : Bool :=
  match e.op, e.answer with
  | .set key _ _, _ => decide (key = k)
  | .get key, .got (some _) => decide (key = k)
  | _, _ => false

end CacheEvent

/-- What a call answers, what it evicts, and the store after it. -/
def MemoryCacheStore.perform (s : MemoryCacheStore α) (now : ℕ) :
    CacheOp α → CacheAnswer α × List String × MemoryCacheStore α
  | .set key value ttlMs => (.nothing, s.set key value ttlMs now)
  | .get key => (.got (s.get key now).1, [], (s.get key now).2)
  | .del key => (.nothing, [], s.del key)
  | .keys => (.listed (s.keys now).1, [], (s.keys now).2)
  | .delByPrefix start => (.nothing, [], s.delByPrefix start now)
  | .clear => (.nothing, [], s.clear)

namespace Observed

def start (maxEntries : ℕ) : Observed α := ⟨.new (some (.ofNat maxEntries)), []⟩

/- The event of a call made in this state. -/
def event (s : Observed α) (c : CacheOp α × ℕ) : CacheEvent α :=
  ⟨c.1, c.2, (s.store.perform c.2 c.1).1, (s.store.perform c.2 c.1).2.1⟩

def step (s : Observed α) (c : CacheOp α × ℕ) : Observed α :=
  ⟨(s.store.perform c.2 c.1).2.2, s.event c :: s.journal⟩

def clock (s : Observed α) : ℕ := (s.journal.head?.map CacheEvent.now).getD 0

/-- The clock does not go back, and a time-to-live is a duration: the callers of `set` pass
constants and numbers they have checked. -/
def Timely (s : Observed α) (c : CacheOp α × ℕ) : Prop :=
  s.clock ≤ c.2 ∧ ∀ key value ttlMs, c.1 = .set key value ttlMs → ttlMs ≠ .nan

end Observed

/-- `v` was the value last set for `k`, and since then the key was neither deleted nor
evicted, and at `now` the time-to-live of that `set` has not run out. -/
def Live (journal : List (CacheEvent α)) (k : String) (v : α) (now : ℕ) : Prop :=
  ∃ since e before ttlMs, journal = since ++ e :: before ∧ e.op = .set k v ttlMs ∧
    (∀ f ∈ since, f.sets k = false) ∧ (∀ f ∈ since, f.deletes k = false) ∧
    (∀ f ∈ since, k ∉ f.evicted) ∧
    JsNumber.lt (JsNumber.add (.ofNat e.now) ttlMs) (.ofNat now) = false

/- The entry last set for `k`, unless it was deleted or evicted since. -/
def current (k : String) : List (CacheEvent α) → Option (CacheEntry α)
  | [] => none
  | e :: before =>
    match e.op with
    | .set key v ttlMs =>
      if key = k then some ⟨v, JsNumber.add (.ofNat e.now) ttlMs⟩
      else if k ∈ e.evicted then none else current k before
    | _ => if e.deletes k = true ∨ k ∈ e.evicted then none else current k before

theorem current_cons_of_set {e : CacheEvent α} {k : String} {v : α} {ttlMs : JsNumber}
    (h : e.op = .set k v ttlMs) (before : List (CacheEvent α)) :
    current k (e :: before) = some ⟨v, JsNumber.add (.ofNat e.now) ttlMs⟩ := by
  simp only [current, h, if_pos]

theorem current_cons_of_not_sets {e : CacheEvent α} {k : String} (h : e.sets k = false)
    (before : List (CacheEvent α)) :
    current k (e :: before) =
      if e.deletes k = true ∨ k ∈ e.evicted then none else current k before := by
  cases ho : e.op with
  | set key v ttlMs =>
    simp only [CacheEvent.sets, ho, decide_eq_false_iff_not] at h
    simp [current, ho, h, CacheEvent.deletes]
  | get key => simp only [current, ho]
  | del key => simp only [current, ho]
  | keys => simp only [current, ho]
  | delByPrefix start => simp only [current, ho]
  | clear => simp only [current, ho]

theorem sets_iff {e : CacheEvent α} {k : String} :
    e.sets k = true ↔ ∃ v ttlMs, e.op = .set k v ttlMs := by
  cases ho : e.op <;> simp [CacheEvent.sets, ho]

section Live
variable {f : CacheEvent α} {journal : List (CacheEvent α)} {k : String} {v : α} {now : ℕ}

/- The newest event sets the key: the value is live if it is that one and is fresh. -/
theorem live_cons_of_set {w : α} {ttlMs : JsNumber} (hop : f.op = .set k w ttlMs) :
    Live (f :: journal) k v now ↔
      w = v ∧ JsNumber.lt (JsNumber.add (.ofNat f.now) ttlMs) (.ofNat now) = false := by
  constructor
  · rintro ⟨since, e, before, ttl, hj, he, hset, -, -, hfresh⟩
    cases since with
    | nil =>
      obtain ⟨rfl, -⟩ := List.cons.inj hj
      rw [hop] at he
      cases he
      exact ⟨rfl, hfresh⟩
    | cons g since =>
      obtain ⟨rfl, -⟩ := List.cons.inj hj
      have hnot := hset f (List.mem_cons_self ..)
      rw [sets_iff.mpr ⟨w, ttlMs, hop⟩] at hnot
      cases hnot
  · rintro ⟨rfl, hfresh⟩
    exact ⟨[], f, journal, ttlMs, rfl, hop, by simp, by simp, by simp, hfresh⟩

/- The newest event does not set the key: what was live stays so unless the key goes. -/
theorem live_cons_of_not_sets (hf : f.sets k = false) :
    Live (f :: journal) k v now ↔
      ¬ (f.deletes k = true ∨ k ∈ f.evicted) ∧ Live journal k v now := by
  rw [not_or, Bool.not_eq_true]
  constructor
  · rintro ⟨since, e, before, ttl, hj, he, hset, hdel, hev, hfresh⟩
    cases since with
    | nil =>
      obtain ⟨rfl, -⟩ := List.cons.inj hj
      rw [sets_iff.mpr ⟨v, ttl, he⟩] at hf
      cases hf
    | cons g since =>
      obtain ⟨rfl, rfl⟩ := List.cons.inj hj
      obtain ⟨-, hset⟩ := List.forall_mem_cons.mp hset
      obtain ⟨hdelf, hdel⟩ := List.forall_mem_cons.mp hdel
      obtain ⟨hevf, hev⟩ := List.forall_mem_cons.mp hev
      exact ⟨⟨hdelf, hevf⟩, since, e, before, ttl, rfl, he, hset, hdel, hev, hfresh⟩
  · rintro ⟨⟨hdelf, hevf⟩, since, e, before, ttl, rfl, he, hset, hdel, hev, hfresh⟩
    refine ⟨f :: since, e, before, ttl, rfl, he, ?_, ?_, ?_, hfresh⟩
    · exact List.forall_mem_cons.mpr ⟨hf, hset⟩
    · exact List.forall_mem_cons.mpr ⟨hdelf, hdel⟩
    · exact List.forall_mem_cons.mpr ⟨hevf, hev⟩

end Live

theorem live_iff (journal : List (CacheEvent α)) (k : String) (v : α) (now : ℕ) :
    Live journal k v now ↔ ∃ x, current k journal = some ⟨v, x⟩ ∧
      JsNumber.lt x (.ofNat now) = false := by
  induction journal with
  | nil =>
    constructor
    · rintro ⟨since, e, before, -, h, -⟩
      simp at h
    · rintro ⟨x, h, -⟩
      cases h
  | cons f journal ih =>
    cases hf : f.sets k with
    | true =>
      obtain ⟨w, ttlMs, hop⟩ := sets_iff.mp hf
      rw [current_cons_of_set hop, live_cons_of_set hop]
      simp
    | false =>
      rw [current_cons_of_not_sets hf, live_cons_of_not_sets hf, ih]
      by_cases hgone : f.deletes k = true ∨ k ∈ f.evicted
      · simp [hgone]
      · simp [hgone]

/-! ### The store follows its journal -/

/-- The store holds current entries only, it holds every current entry that has not expired,
and its keys stand in the order of their ages. -/
structure Follows (n : ℕ) (s : Observed α) : Prop where
  limit : s.store.maxEntries = .ofNat n
  bounded : s.store.cache.size ≤ n
  held : ∀ k e, s.store.cache.get k = some e → current k s.journal = some e
  kept : ∀ k e, current k s.journal = some e → s.store.cache.get k = some e ∨
    JsNumber.lt e.expiresAt (.ofNat s.clock) = true
  durations : ∀ k e, current k s.journal = some e → e.expiresAt ≠ .nan
  order : ByAge CacheEvent.touches s.journal s.store.cache.keys

theorem follows_start {n : ℕ} (hn : 1 ≤ n) : Follows n (Observed.start n : Observed α) := by
  refine ⟨?_, Nat.zero_le _, ?_, ?_, ?_, List.Pairwise.nil⟩
  · have hpos : JsNumber.lt (.fin 0) (.ofNat n) = true := by
      rw [show JsNumber.fin 0 = .ofNat 0 by simp [JsNumber.ofNat], JsNumber.lt_ofNat]
      exact decide_eq_true (by omega)
    simp [Observed.start, MemoryCacheStore.new, hpos]
  · intro k e h
    cases h
  · intro k e h
    cases h
  · intro k e h
    cases h

/- Whatever had expired by the clock has expired by a later reading. -/
theorem expired_later {x : JsNumber} {m n : ℕ} (h : JsNumber.lt x (.ofNat m) = true) (hle : m ≤ n) :
    JsNumber.lt x (.ofNat n) = true :=
  JsNumber.lt_of_lt_of_le h (JsNumber.le_ofNat hle)

section Steps
variable {n : ℕ} {s : Observed α} {c : CacheOp α × ℕ}

/- The calls that set nothing: entries only go, either because the call deletes the key or
because they have expired, and the order of the others stays unless the call is a hit. -/
theorem Follows.of_fewer (h : Follows n s) (hclock : s.clock ≤ c.2)
    (hset : ∀ k, (s.event c).sets k = false) (hevict : (s.event c).evicted = [])
    (hlimit : (s.step c).store.maxEntries = s.store.maxEntries)
    (hsize : (s.step c).store.cache.size ≤ s.store.cache.size)
    (hget : ∀ k e, (s.step c).store.cache.get k = some e →
      s.store.cache.get k = some e ∧ (s.event c).deletes k = false)
    (hkeep : ∀ k e, s.store.cache.get k = some e → (s.event c).deletes k = false →
      (s.step c).store.cache.get k = some e ∨ JsNumber.lt e.expiresAt (.ofNat c.2) = true)
    (horder : ByAge CacheEvent.touches (s.event c :: s.journal) (s.step c).store.cache.keys) :
    Follows n (s.step c) := by
  have hcurrent : ∀ k, current k (s.step c).journal =
      if (s.event c).deletes k = true then none else current k s.journal := by
    intro k
    have hcons := current_cons_of_not_sets (hset k) s.journal
    simpa [hevict, Observed.step] using hcons
  refine ⟨hlimit.trans h.limit, hsize.trans h.bounded, ?_, ?_, ?_, horder⟩
  · intro k e hk
    obtain ⟨hold, hdel⟩ := hget k e hk
    rw [hcurrent, hdel, if_neg Bool.false_ne_true]
    exact h.held k e hold
  · intro k e hk
    rw [hcurrent] at hk
    split at hk
    · cases hk
    · rename_i hdel
      rcases h.kept k e hk with hold | hexp
      · exact hkeep k e hold (Bool.not_eq_true _ ▸ hdel)
      · exact .inr (expired_later hexp hclock)
  · intro k e hk
    rw [hcurrent] at hk
    split at hk
    · cases hk
    · exact h.durations k e hk

theorem Follows.set {k : String} {v : α} {ttlMs : JsNumber} {now : ℕ} (hn : 1 ≤ n)
    (h : Follows n s) (hclock : s.clock ≤ now) (httl : ttlMs ≠ .nan) :
    Follows n (s.step (.set k v ttlMs, now)) := by
  have hspec := MemoryCacheStore.set_spec hn h.limit h.bounded k v ttlMs now
  have hcurrent : ∀ j, current j (s.step (.set k v ttlMs, now)).journal =
      if k = j then some ⟨v, JsNumber.add (.ofNat now) ttlMs⟩
      else if j ∈ (s.store.set k v ttlMs now).1 then none else current j s.journal := fun j => rfl
  refine ⟨h.limit, hspec.size_le, ?_, ?_, ?_, ?_⟩
  · intro j e hj
    rw [hcurrent]
    rcases (hspec.get_iff j e).mp hj with ⟨rfl, rfl⟩ | ⟨hne, hev, hold⟩
    · exact if_pos rfl
    · rw [if_neg hne, if_neg hev]
      exact h.held j e hold
  · intro j e hj
    rw [hcurrent] at hj
    split at hj
    · rename_i hkj
      exact .inl ((hspec.get_iff j e).mpr (.inl ⟨hkj, Option.some.inj hj⟩))
    · rename_i hkj
      split at hj
      · cases hj
      · rename_i hev
        rcases h.kept j e hj with hold | hexp
        · exact .inl ((hspec.get_iff j e).mpr (.inr ⟨hkj, hev, hold⟩))
        · exact .inr (expired_later hexp hclock)
  · intro j e hj
    rw [hcurrent] at hj
    split at hj
    · cases hj
      exact JsNumber.add_ne_nan_of_ofNat now httl
    · split at hj
      · cases hj
      · exact h.durations j e hj
  · have hothers : ∀ j ∈ (s.store.cache.delete k).keys,
        (s.event (.set k v ttlMs, now)).touches j = false := by
      intro j hj
      have hne : k ≠ j := fun hkj => OrdMap.not_mem_keys_delete s.store.cache k (hkj ▸ hj)
      simp [CacheEvent.touches, Observed.event, hne]
    have htouch : (s.event (.set k v ttlMs, now)).touches k = true := by
      simp [CacheEvent.touches, Observed.event]
    have hrest := h.order.sublist (OrdMap.keys_delete_sublist s.store.cache k)
    exact (hrest.touch hothers htouch).sublist hspec.keys_sublist

section Get
variable {k : String} {now : ℕ}

theorem touches_of_miss (hmiss : (s.store.get k now).1 = none) (j : String) :
    (s.event (.get k, now)).touches j = false := by
  simp [CacheEvent.touches, Observed.event, MemoryCacheStore.perform, hmiss]

theorem Follows.get_miss (h : Follows n s) (hclock : s.clock ≤ now)
    (hget : s.store.cache.get k = none) : Follows n (s.step (.get k, now)) := by
  have hr : s.store.get k now = (none, s.store) := by simp only [MemoryCacheStore.get, hget]
  have hstore : (s.step (.get k, now)).store = s.store := congrArg Prod.snd hr
  apply h.of_fewer hclock (fun _ => rfl) rfl
  · rw [hstore]
  · rw [hstore]
  · intro j e hj
    rw [hstore] at hj
    exact ⟨hj, rfl⟩
  · intro j e hj _
    rw [hstore]
    exact .inl hj
  · rw [hstore]
    exact h.order.idle fun j _ => touches_of_miss (congrArg Prod.fst hr) j

/- The entry is dropped, and nothing is used. -/
theorem Follows.get_expired (h : Follows n s) (hclock : s.clock ≤ now) {entry : CacheEntry α}
    (hget : s.store.cache.get k = some entry)
    (hexp : JsNumber.lt entry.expiresAt (.ofNat now) = true) :
    Follows n (s.step (.get k, now)) := by
  have hr : s.store.get k now = (none, { s.store with cache := s.store.cache.delete k }) := by
    simp only [MemoryCacheStore.get, hget, if_pos hexp]
  have hstore : (s.step (.get k, now)).store.cache = s.store.cache.delete k :=
    congrArg (fun r => r.2.cache) hr
  apply h.of_fewer hclock (fun _ => rfl) rfl
  · exact MemoryCacheStore.get_maxEntries
  · rw [hstore]
    exact OrdMap.size_delete_le ..
  · intro j e hj
    rw [hstore, OrdMap.get_delete] at hj
    split at hj
    · cases hj
    · exact ⟨hj, rfl⟩
  · intro j e hj _
    rw [hstore, OrdMap.get_delete]
    split
    · next hkj =>
      rw [← hkj, hget] at hj
      cases hj
      exact .inr hexp
    · exact .inl hj
  · rw [hstore]
    exact (h.order.sublist (OrdMap.keys_delete_sublist ..)).idle fun j _ =>
      touches_of_miss (congrArg Prod.fst hr) j

/- The same entries, with this key at the end. -/
theorem Follows.get_hit (h : Follows n s) (hclock : s.clock ≤ now) {entry : CacheEntry α}
    (hget : s.store.cache.get k = some entry)
    (hexp : ¬ JsNumber.lt entry.expiresAt (.ofNat now) = true) :
    Follows n (s.step (.get k, now)) := by
  have hr : s.store.get k now =
      (some entry.value, { s.store with cache := s.store.cache.reinsert k entry }) := by
    simp only [MemoryCacheStore.get, hget, if_neg hexp]
  have hstore : (s.step (.get k, now)).store.cache = s.store.cache.reinsert k entry :=
    congrArg (fun r => r.2.cache) hr
  have hsame : ∀ j, (s.step (.get k, now)).store.cache.get j = s.store.cache.get j := by
    intro j
    rw [hstore, OrdMap.get_reinsert]
    split
    · next hkj => rw [← hkj, hget]
    · rfl
  have hhas : s.store.cache.has k = true := by rw [OrdMap.has, hget]; rfl
  apply h.of_fewer hclock (fun _ => rfl) rfl
  · exact MemoryCacheStore.get_maxEntries
  · rw [hstore, OrdMap.size_reinsert]
    exact OrdMap.size_delete_lt _ _ hhas
  · intro j e hj
    rw [hsame] at hj
    exact ⟨hj, rfl⟩
  · intro j e hj _
    rw [hsame]
    exact .inl hj
  · have hothers : ∀ j ∈ (s.store.cache.delete k).keys,
        (s.event (.get k, now)).touches j = false := by
      intro j hj
      have hne : k ≠ j := fun hkj => OrdMap.not_mem_keys_delete s.store.cache k (hkj ▸ hj)
      simp [CacheEvent.touches, Observed.event, MemoryCacheStore.perform, hr, hne]
    have htouch : (s.event (.get k, now)).touches k = true := by
      simp [CacheEvent.touches, Observed.event, MemoryCacheStore.perform, hr]
    rw [hstore, OrdMap.keys_reinsert]
    exact (h.order.sublist (OrdMap.keys_delete_sublist ..)).touch hothers htouch

theorem Follows.get (h : Follows n s) (hclock : s.clock ≤ now) :
    Follows n (s.step (.get k, now)) := by
  cases hget : s.store.cache.get k with
  | none => exact h.get_miss hclock hget
  | some entry =>
    by_cases hexp : JsNumber.lt entry.expiresAt (.ofNat now) = true
    · exact h.get_expired hclock hget hexp
    · exact h.get_hit hclock hget hexp

end Get

/- The calls that keep exactly the entries `keep` picks: a key that goes is deleted by the
call or has expired. -/
theorem Follows.of_filter {op : CacheOp α} {now : ℕ} {keep : String × CacheEntry α → Bool}
    (h : Follows n s) (hclock : s.clock ≤ now)
    (hset : ∀ k, (s.event (op, now)).sets k = false)
    (htouch : ∀ k, (s.event (op, now)).touches k = false)
    (hevict : (s.event (op, now)).evicted = [])
    (hlimit : (s.step (op, now)).store.maxEntries = s.store.maxEntries)
    (hentries : (s.step (op, now)).store.cache.entries = s.store.cache.entries.filter keep)
    (hkeep : ∀ k e, s.store.cache.get k = some e → keep (k, e) = true →
      (s.event (op, now)).deletes k = false)
    (hdrop : ∀ k e, s.store.cache.get k = some e → keep (k, e) = false →
      (s.event (op, now)).deletes k = true ∨ JsNumber.lt e.expiresAt (.ofNat now) = true) :
    Follows n (s.step (op, now)) := by
  have hget := OrdMap.get_filter_iff hentries
  apply h.of_fewer hclock hset hevict hlimit
  · rw [OrdMap.size, hentries]
    exact List.length_filter_le ..
  · intro k e hk
    obtain ⟨hold, hkept⟩ := (hget k e).mp hk
    exact ⟨hold, hkeep k e hold hkept⟩
  · intro k e hk hdel
    cases hkept : keep (k, e) with
    | true => exact .inl ((hget k e).mpr ⟨hk, hkept⟩)
    | false =>
      rcases hdrop k e hk hkept with hgone | hexp
      · rw [hdel] at hgone
        cases hgone
      · exact .inr hexp
  · have hsub : (s.step (op, now)).store.cache.keys.Sublist s.store.cache.keys := by
      rw [OrdMap.keys, hentries]
      exact List.Sublist.map Prod.fst List.filter_sublist
    exact (h.order.sublist hsub).idle fun j _ => htouch j

theorem Follows.del {k : String} {now : ℕ} (h : Follows n s) (hclock : s.clock ≤ now) :
    Follows n (s.step (.del k, now)) := by
  have hentries : (s.step (.del k, now)).store.cache.entries =
      s.store.cache.entries.filter fun e => decide (e.1 ≠ k) := rfl
  apply h.of_filter hclock (fun _ => rfl) (fun _ => rfl) rfl rfl hentries
  · intro j e _ hj
    have hne : j ≠ k := by simpa using hj
    simpa [CacheEvent.deletes, Observed.event] using hne.symm
  · intro j e _ hj
    have heq : j = k := by simpa using hj
    exact .inl (by simp [CacheEvent.deletes, Observed.event, heq])

theorem Follows.keys {now : ℕ} (h : Follows n s) (hclock : s.clock ≤ now) :
    Follows n (s.step (.keys, now)) := by
  have hentries : (s.step (.keys, now)).store.cache.entries = s.store.cache.entries.filter fun e =>
      JsNumber.le (.ofNat now) e.2.expiresAt := MemoryCacheStore.keys_entries s.store now
  apply h.of_filter hclock (fun _ => rfl) (fun _ => rfl) rfl rfl hentries
  · intro j e _ _
    rfl
  · intro j e hj hexp
    have hnan := h.durations j e (h.held j e hj)
    rw [JsNumber.le_eq_not_lt (by simp [JsNumber.ofNat]) hnan] at hexp
    exact .inr (by simpa using hexp)

theorem Follows.delByPrefix {start : String} {now : ℕ} (h : Follows n s) (hclock : s.clock ≤ now) :
    Follows n (s.step (.delByPrefix start, now)) := by
  have hentries : (s.step (.delByPrefix start, now)).store.cache.entries =
      s.store.cache.entries.filter fun e => !(JsNumber.lt e.2.expiresAt (.ofNat now) ||
        startsWith e.1 start) := MemoryCacheStore.delByPrefix_entries s.store start now
  apply h.of_filter hclock (fun _ => rfl) (fun _ => rfl) rfl rfl hentries
  · intro j e _ hj
    simp only [Bool.not_or, Bool.and_eq_true, Bool.not_eq_true'] at hj
    exact hj.2
  · intro j e _ hj
    simp only [Bool.not_eq_false', Bool.or_eq_true] at hj
    exact hj.symm

theorem Follows.clear {now : ℕ} (h : Follows n s) (hclock : s.clock ≤ now) :
    Follows n (s.step (.clear, now)) := by
  have hentries : (s.step (.clear, now)).store.cache.entries =
      s.store.cache.entries.filter fun _ => false := (List.filter_eq_nil_iff.mpr (by simp)).symm
  apply h.of_filter hclock (fun _ => rfl) (fun _ => rfl) rfl rfl hentries
  · intro j e _ hj
    cases hj
  · intro j e _ _
    exact .inl rfl

theorem Follows.step (hn : 1 ≤ n) (h : Follows n s) (hc : s.Timely c) : Follows n (s.step c) := by
  obtain ⟨op, now⟩ := c
  cases op with
  | set k v ttlMs => exact h.set hn hc.1 (hc.2 k v ttlMs rfl)
  | get k => exact h.get hc.1
  | del k => exact h.del hc.1
  | keys => exact h.keys hc.1
  | delByPrefix start => exact h.delByPrefix hc.1
  | clear => exact h.clear hc.1

end Steps

/-! ### The refinement -/

def CacheOp.concerns (k : String) : CacheOp α → Bool
  | .set key _ _ | .get key | .del key => decide (key = k)
  | _ => false

/-- A call made in state `s` is one of a least-recently-used map with expiry that holds at
most `n` entries. -/
structure Conforms (n : ℕ) (s : Observed α) (c : CacheOp α × ℕ) : Prop where
  bounded : (s.step c).store.cache.size ≤ n
  got : ∀ k, c.1 = .get k → ∀ v, (s.event c).answer = .got (some v) ↔ Live s.journal k v c.2
  listed : c.1 = .keys → ∃ ks, (s.event c).answer = .listed ks ∧ ks.Nodup ∧
    ∀ k, k ∈ ks ↔ ∃ v, Live s.journal k v c.2
  evicts : ∀ j ∈ (s.event c).evicted, (s.event c).evicted = [j] ∧
    (∃ k v ttlMs, c.1 = .set k v ttlMs ∧ s.store.cache.has k = false) ∧
    s.store.cache.has j = true ∧ ∀ i, s.store.cache.has i = true → i ≠ j →
      age CacheEvent.touches s.journal i < age CacheEvent.touches s.journal j
  frame : ∀ k, c.1.concerns k = true → ∀ j, j ≠ k → j ∉ (s.event c).evicted →
    ∀ t, ((s.step c).store.get j t).1 = (s.store.get j t).1

section Conformance
variable {n : ℕ} {s : Observed α} {c : CacheOp α × ℕ}

theorem Follows.get_iff_live (h : Follows n s) {now : ℕ} (hclock : s.clock ≤ now) (k : String)
    (v : α) : (s.store.get k now).1 = some v ↔ Live s.journal k v now := by
  rw [MemoryCacheStore.get_eq_some_iff, live_iff]
  constructor
  · rintro ⟨e, hget, rfl, hfresh⟩
    exact ⟨e.expiresAt, h.held k e hget, hfresh⟩
  · rintro ⟨x, hcur, hfresh⟩
    refine ⟨⟨v, x⟩, ?_, rfl, hfresh⟩
    rcases h.kept k ⟨v, x⟩ hcur with hget | hexp
    · exact hget
    · have hlater := expired_later hexp hclock
      rw [hfresh] at hlater
      cases hlater

theorem Follows.keys_iff_live (h : Follows n s) {now : ℕ} (hclock : s.clock ≤ now) (k : String) :
    k ∈ (s.store.keys now).1 ↔ ∃ v, Live s.journal k v now := by
  have hle : ∀ e, s.store.cache.get k = some e →
      (JsNumber.le (.ofNat now) e.expiresAt = true ↔
        JsNumber.lt e.expiresAt (.ofNat now) = false) := by
    intro e hget
    rw [JsNumber.le_eq_not_lt (by simp [JsNumber.ofNat]) (h.durations k e (h.held k e hget))]
    rw [Bool.not_eq_true']
  rw [MemoryCacheStore.keys_fst]
  constructor
  · intro hk
    obtain ⟨⟨j, e⟩, hmem, rfl⟩ := List.mem_map.mp hk
    obtain ⟨hmem, hfresh⟩ := List.mem_filter.mp hmem
    have hget := (OrdMap.mem_entries_iff _ _ _).mp hmem
    refine ⟨e.value, (h.get_iff_live hclock _ _).mp ?_⟩
    exact MemoryCacheStore.get_eq_some_iff.mpr ⟨e, hget, rfl, (hle e hget).mp hfresh⟩
  · rintro ⟨v, hlive⟩
    obtain ⟨e, hget, -, hfresh⟩ :=
      MemoryCacheStore.get_eq_some_iff.mp ((h.get_iff_live hclock k v).mpr hlive)
    have hmem := (OrdMap.mem_entries_iff _ _ _).mpr hget
    exact List.mem_map_of_mem (f := Prod.fst) (List.mem_filter.mpr ⟨hmem, (hle e hget).mpr hfresh⟩)

theorem Follows.evicts (hn : 1 ≤ n) (h : Follows n s) :
    ∀ j ∈ (s.event c).evicted, (s.event c).evicted = [j] ∧
      (∃ k v ttlMs, c.1 = .set k v ttlMs ∧ s.store.cache.has k = false) ∧
      s.store.cache.has j = true ∧ ∀ i, s.store.cache.has i = true → i ≠ j →
        age CacheEvent.touches s.journal i < age CacheEvent.touches s.journal j := by
  intro j hj
  obtain ⟨op, now⟩ := c
  cases op with
  | set k v ttlMs =>
    have hspec := MemoryCacheStore.set_spec hn h.limit h.bounded k v ttlMs now
    have hev : (s.event (.set k v ttlMs, now)).evicted = (s.store.set k v ttlMs now).1 := rfl
    rw [hev] at hj ⊢
    rcases hspec.evicted_eq with hnil | ⟨i, rest, hnew, -, hkeys, hone⟩
    · rw [hnil] at hj
      cases hj
    · rw [hone] at hj ⊢
      obtain rfl := List.mem_singleton.mp hj
      refine ⟨rfl, ⟨k, v, ttlMs, rfl, hnew⟩, ?_, ?_⟩
      · rw [← OrdMap.mem_keys_iff, hkeys]
        exact List.mem_cons_self ..
      · intro i hi hij
        rw [← OrdMap.mem_keys_iff, hkeys] at hi
        have hord := h.order
        rw [hkeys] at hord
        exact hord.oldest i ((List.mem_cons.mp hi).resolve_left hij)
  | get k => cases hj
  | del k => cases hj
  | keys => cases hj
  | delByPrefix start => cases hj
  | clear => cases hj

/- A call on `k` leaves the entry of any other key alone, unless it evicts it. -/
theorem Follows.frame (hn : 1 ≤ n) (h : Follows n s) (k : String) (hk : c.1.concerns k = true)
    (j : String) (hj : j ≠ k) (hev : j ∉ (s.event c).evicted) :
    (s.step c).store.cache.get j = s.store.cache.get j := by
  obtain ⟨op, now⟩ := c
  cases op with
  | set key v ttlMs =>
    obtain rfl : key = k := of_decide_eq_true hk
    have hspec := MemoryCacheStore.set_spec hn h.limit h.bounded key v ttlMs now
    apply Option.ext
    intro e
    have hiff := hspec.get_iff j e
    simp only [hj.symm, false_and, false_or, ne_eq, not_false_eq_true, true_and] at hiff
    rw [show (s.step (.set key v ttlMs, now)).store.cache.get j = some e ↔ _ from hiff]
    exact ⟨fun hx => hx.2, fun hx => ⟨hev, hx⟩⟩
  | get key =>
    obtain rfl : key = k := of_decide_eq_true hk
    simp only [Observed.step, MemoryCacheStore.perform, MemoryCacheStore.get]
    cases s.store.cache.get key with
    | none => rfl
    | some entry =>
      simp only
      split
      · rw [OrdMap.get_delete, if_neg hj.symm]
      · rw [OrdMap.get_reinsert, if_neg hj.symm]
  | del key =>
    obtain rfl : key = k := of_decide_eq_true hk
    exact (OrdMap.get_delete s.store.cache key j).trans (if_neg hj.symm)
  | keys => cases hk
  | delByPrefix start => cases hk
  | clear => cases hk

theorem Follows.conforms (hn : 1 ≤ n) (h : Follows n s) (hc : s.Timely c) : Conforms n s c where
  bounded := (h.step hn hc).bounded
  got := by
    intro k hop v
    rw [← h.get_iff_live hc.1 k v]
    simp [Observed.event, hop, MemoryCacheStore.perform]
  listed := by
    intro hop
    refine ⟨(s.store.keys c.2).1, ?_, ?_, h.keys_iff_live hc.1⟩
    · simp [Observed.event, hop, MemoryCacheStore.perform]
    · rw [MemoryCacheStore.keys_fst]
      exact List.Nodup.sublist (List.Sublist.map Prod.fst List.filter_sublist) s.store.cache.nodup
  evicts := h.evicts hn
  frame := by
    intro k hk j hj hev t
    rw [MemoryCacheStore.get_fst, MemoryCacheStore.get_fst, h.frame hn k hk j hj hev]

end Conformance

/-- Every call of every run is one of a least-recently-used map with expiry. -/
theorem memory_cache_store_refines_ttl_lru (n : ℕ) (hn : 1 ≤ n) (calls : List (CacheOp α × ℕ))
    (h : Along Observed.step Observed.Timely (Observed.start n) calls) :
    ∀ before c after, calls = before ++ c :: after →
      Conforms n (run Observed.step (Observed.start n) before) c := by
  rintro before c after rfl
  have hsplit := (along_iff_forall Observed.step Observed.Timely (Observed.start n) _).mp h
  have hbefore : Along Observed.step Observed.Timely (Observed.start n) before := by
    rw [along_iff_forall]
    rintro pre a post rfl
    exact hsplit pre a (post ++ c :: after) (by simp)
  have hfollows : Follows n (run Observed.step (Observed.start n) before) :=
    run_invariant Observed.step Observed.Timely (Follows n) (fun _ _ hs ha => hs.step hn ha) _
      before (follows_start hn) hbefore
  exact hfollows.conforms hn (hsplit before c after rfl)

end Journal

/- Two entries at most: the hit on `a` makes `b` the oldest, and `c` takes its place. -/
def sampleCalls : List (CacheOp ℕ × ℕ) :=
  [(.set "a" 1 (.fin 100), 0), (.set "b" 2 (.fin 100), 1), (.get "a", 2),
    (.set "c" 3 (.fin 5), 3), (.keys, 8)]

theorem memory_cache_store_refines_sample :
    ((run Observed.step (Observed.start 2) sampleCalls).journal.map CacheEvent.evicted,
      (run Observed.step (Observed.start 2) sampleCalls).store.cache.keys) =
      ([[], ["b"], [], [], []], ["a", "c"]) ∧
    ∀ before c after, sampleCalls = before ++ c :: after →
      Conforms 2 (run Observed.step (Observed.start 2) before) c := by
  refine ⟨by decide +kernel, memory_cache_store_refines_ttl_lru 2 (by omega) sampleCalls ?_⟩
  refine ⟨⟨Nat.zero_le _, ?_⟩, ⟨by decide, ?_⟩, ⟨by decide, ?_⟩, ⟨by decide, ?_⟩, ⟨by decide, ?_⟩,
    trivial⟩ <;> rintro k v ttl h <;> cases h <;> simp

end Liquifact.Cache
