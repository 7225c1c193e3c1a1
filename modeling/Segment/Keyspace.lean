/-
The keyspaces (`keyspace.rs`): `Evictor`, `Value`, `Db`, `Keyspace::set / get / del`, `sample_and_evict`, and the
`KeyspaceManager` operations.

A `HashMap<String, Value>` is an `AList` (its keys are distinct by construction). Its iteration order is unspecified,
so `sample_and_evict` takes the order it iterates in as an argument; the random draws (`gen::<f32>() < 0.5`) and the
resident set size (`get_rss`) are arguments too, and `Instant::now()` is a clock reading `now`. A `Keyspace` is its
`Db`: the `Arc` is shared only with the keyspace's own evictor task, which works on the same `Db`, and a keyspace that
`insert` replaces is dropped (its `Db` shut down) and reached by nothing afterwards. Every closure passed to
`with_keyspace` returns `Ok`, so the closure is a function `Db → Db × α` here.

`KeyspaceManager::with_keyspace` holds the `DashMap` entry (`get_mut`) while its closure runs, so it is one step;
`KeyspaceManager::create` is two, `contains_key` and then `insert`. `create` here composes the two as one handler runs
them alone; the interleavings of several handlers are the subject of `Segment.Interleaving`.

Results:
- `Db.view_set`, `Db.get_view`, `Db.view_del`: the store refines a partial map from keys to values: a read returns the
  value of the last write, and a delete answers 1 exactly when it removed a value;
- `sampleLoop_mem`, `Db.sampleAndEvict_view`: an eviction pass deletes at most one key, one of the first
  `max_memory_sample_size` entries in iteration order; with a sample size of 0 it deletes nothing;
- `foldl_lru_last_min`, `Db.sampleAndEvict_lru`, `Db.sampleAndEvict_removes`: whatever the order the store is
  iterated in, a pass removes at most one of the first `min(s, n)` entries and changes nothing else. A `Db` shut down,
  or a resident size below the cap, makes it return at its guard and change nothing. Under LRU, past the guards, it
  removes the last of them whose access time is the least when that time is no later than the pass's start, and
  nothing otherwise. `lru_pass_under_cap`: under the cap a pass removes nothing.
-/
import Segment.Numeral

namespace Segment

/-! ## Stores -/

/-- `Evictor` -/
inductive Evictor where
  | random
  | noop
  | lru
deriving DecidableEq, Repr

/-- `MAX_MEMORY_SAMPLE_SIZE` -/
def maxMemorySampleSize : ℕ := 3

/-- `Value`: the data, and the `Instant` of its last access as a clock reading -/
structure Value where
  data : Bytes
  lastAccessed : ℕ

/-- the `HashMap<String, Value>` behind a keyspace's mutex -/
abbrev Store := AList fun _ : String => Value

/-- `Db`: the store, the shutdown flag, and the evictor's settings -/
structure Db where
  store : Store
  shutdown : Bool
  evictor : Evictor
  serverMaxMemory : ℕ
  maxMemorySampleSize : ℕ

/-- `Db::new`, behind `Keyspace::new` -/
def Db.new (evictor : Evictor) (serverMaxMemory maxMemorySampleSize : ℕ) : Db :=
  ⟨∅, false, evictor, serverMaxMemory, maxMemorySampleSize⟩

/-- `Keyspace::set` at time `now` -/
def Db.set (db : Db) (now : ℕ) (key : String) (value : Bytes) : Db × UInt8 :=
  ({ db with store := db.store.insert key ⟨value, now⟩ }, 1)

/-- `Keyspace::get` at time `now`: the value, with its access time moved to `now` -/
def Db.get (db : Db) (now : ℕ) (key : String) : Db × Option Bytes :=
  match db.store.lookup key with
  | some value => ({ db with store := db.store.insert key { value with lastAccessed := now } }, some value.data)
  | none => (db, none)

/-- `Keyspace::del`: `remove`, then 1 when it removed a value -/
def Db.del (db : Db) (key : String) : Db × UInt8 :=
  let (value, store) := db.store.extract key
  ({ db with store }, if value.isSome then 1 else 0)

/-! ## The store is a map -/

/-- what the store holds for reads: the data under each key (access times are the evictor's business) -/
def Db.view (db : Db) (key : String) : Option Bytes := (db.store.lookup key).map Value.data

theorem Db.view_set (db : Db) (now : ℕ) (key : String) (value : Bytes) :
    (db.set now key value).1.view = Function.update db.view key (some value) := by
  funext k
  by_cases hk : k = key
  · subst hk; simp [Db.set, Db.view, AList.lookup_insert]
  · simp [Db.set, Db.view, AList.lookup_insert_ne hk, hk]

theorem Db.get_view (db : Db) (now : ℕ) (key : String) :
    (db.get now key).2 = db.view key ∧ (db.get now key).1.view = db.view := by
  unfold Db.get
  split
  · next value hv =>
    refine ⟨by simp [Db.view, hv], funext fun k => ?_⟩
    by_cases hk : k = key
    · subst hk; simp [Db.view, AList.lookup_insert, hv]
    · simp [Db.view, AList.lookup_insert_ne hk]
  · next hv => exact ⟨by simp [Db.view, hv], rfl⟩

theorem Db.view_del (db : Db) (key : String) :
    (db.del key).1.view = Function.update db.view key none ∧
      (db.del key).2 = if (db.view key).isSome then 1 else 0 := by
  refine ⟨funext fun k => ?_, by simp [Db.del, Db.view, AList.extract_eq_lookup_erase]⟩
  by_cases hk : k = key
  · subst hk; simp [Db.del, Db.view, AList.extract_eq_lookup_erase, AList.lookup_erase]
  · simp [Db.del, Db.view, AList.extract_eq_lookup_erase, AList.lookup_erase_ne hk, hk]

/-! ## `sample_and_evict` -/

/-- one turn of the `for` loop of `sample_and_evict`: the key picked so far and the oldest access time seen -/
def sampleStep (evictor : Evictor) (draw : Bool) (entry : Σ _ : String, Value) (picked : Option String × ℕ) :
    Option String × ℕ :=
  if evictor = .random then (if draw then some entry.1 else picked.1, picked.2)
  else if entry.2.lastAccessed ≤ picked.2 then (some entry.1, entry.2.lastAccessed)
  else picked

/-- the `for` loop of `sample_and_evict` over the entries in iteration order, from sample number `samples` on: the key
it deletes when it reaches the bound `min(max_memory_sample_size, len)`; `none` when it has picked none then, or when
the entries run out first -/
def sampleLoop (evictor : Evictor) (bound : ℕ) (draw : ℕ → Bool) (samples : ℕ) (picked : Option String × ℕ) :
    List (Σ _ : String, Value) → Option String
  | [] => none
  | entry :: rest =>
    let picked := sampleStep evictor (draw samples) entry picked
    if samples + 1 = bound then picked.1 else sampleLoop evictor bound draw (samples + 1) picked rest

/-- `sample_and_evict` at time `now`, with resident set size `rss`, the store iterated in the order `order`, and the
random draws `draw` -/
def Db.sampleAndEvict (db : Db) (now rss : ℕ) (order : List (Σ _ : String, Value)) (draw : ℕ → Bool) : Db :=
  if db.shutdown then db
  else if rss < db.serverMaxMemory then db
  else
    match sampleLoop db.evictor (min db.maxMemorySampleSize db.store.entries.length) draw 0 (none, now) order with
    | some key => { db with store := db.store.erase key }
    | none => db

theorem sampleStep_fst {evictor : Evictor} {draw : Bool} {entry : Σ _ : String, Value} {picked : Option String × ℕ}
    {k : String} (h : (sampleStep evictor draw entry picked).1 = some k) : picked.1 = some k ∨ entry.1 = k := by
  unfold sampleStep at h
  split_ifs at h <;> simp_all

/-- the loop deletes a key it picked before it started, or one of the entries it samples before the bound -/
theorem sampleLoop_mem {evictor : Evictor} {bound : ℕ} {draw : ℕ → Bool} {order : List (Σ _ : String, Value)} :
    ∀ {samples : ℕ} {picked : Option String × ℕ} {k : String},
      sampleLoop evictor bound draw samples picked order = some k →
        samples < bound ∧ (picked.1 = some k ∨ k ∈ (order.take (bound - samples)).map Sigma.fst) := by
  induction order with
  | nil => intro _ _ _ h; cases h
  | cons entry rest ih =>
    intro samples picked k h
    unfold sampleLoop at h
    split_ifs at h with hb
    · obtain h | h := sampleStep_fst h
      · exact ⟨by omega, .inl h⟩
      · refine ⟨by omega, .inr ?_⟩
        rw [show bound - samples = 0 + 1 by omega]
        simp [h]
    · obtain ⟨hlt, h | h⟩ := ih h
      · refine ⟨by omega, ?_⟩
        obtain h | h := sampleStep_fst h
        · exact .inl h
        · refine .inr ?_
          rw [show bound - samples = bound - (samples + 1) + 1 by omega]
          simp [h]
      · refine ⟨by omega, .inr ?_⟩
        rw [show bound - samples = bound - (samples + 1) + 1 by omega]
        simp only [List.take_succ_cons, List.map_cons, List.mem_cons]
        exact .inr h

/-- **An eviction pass deletes at most one sampled key.** Whatever the iteration order, the draws, the clock and the
resident size, `sample_and_evict` leaves the store as it was, or deletes one key among the first
`max_memory_sample_size` entries in iteration order; and with a sample size of 0 it never deletes. -/
theorem Db.sampleAndEvict_view (db : Db) (now rss : ℕ) (order : List (Σ _ : String, Value)) (draw : ℕ → Bool) :
    (db.sampleAndEvict now rss order draw).view = db.view ∨
      ∃ k ∈ (order.take db.maxMemorySampleSize).map Sigma.fst, 0 < db.maxMemorySampleSize ∧
        (db.sampleAndEvict now rss order draw).view = Function.update db.view k none := by
  unfold Db.sampleAndEvict
  split_ifs
  · exact .inl rfl
  · exact .inl rfl
  · split
    · next k hk =>
      obtain ⟨hlt, h | h⟩ := sampleLoop_mem hk
      · cases h
      · refine .inr ⟨k, ?_, by omega, funext fun k' => ?_⟩
        · exact List.map_subset _ (List.take_subset_take_left _ (by omega)) h
        · by_cases hk' : k' = k
          · subst hk'; simp [Db.view, AList.lookup_erase]
          · simp [Db.view, AList.lookup_erase_ne hk', hk']
    · exact .inl rfl

/-- with a bound of 0 the loop never reaches it, and picks nothing -/
theorem sampleLoop_bound_zero {evictor : Evictor} {draw : ℕ → Bool} {order : List (Σ _ : String, Value)} :
    ∀ {samples : ℕ} {picked : Option String × ℕ}, sampleLoop evictor 0 draw samples picked order = none := by
  induction order with
  | nil => intros; rfl
  | cons entry rest ih =>
    intro samples picked
    unfold sampleLoop
    exact (if_neg (Nat.succ_ne_zero samples)).trans ih

/-- an LRU turn of the loop takes the entry when its access time is no later than the oldest seen; it reads no draw -/
theorem sampleStep_lru (draw : Bool) (entry : Σ _ : String, Value) (picked : Option String × ℕ) :
    sampleStep .lru draw entry picked =
      if entry.2.lastAccessed ≤ picked.2 then (some entry.1, entry.2.lastAccessed) else picked := by
  simp [sampleStep]

/-- under LRU the loop is a fold of its turns over the entries it samples -/
theorem sampleLoop_lru {bound : ℕ} {draw : ℕ → Bool} {order : List (Σ _ : String, Value)} :
    ∀ {samples : ℕ} {picked : Option String × ℕ}, samples < bound → bound - samples ≤ order.length →
      sampleLoop .lru bound draw samples picked order =
        ((order.take (bound - samples)).foldl (fun p e => sampleStep .lru false e p) picked).1 := by
  induction order with
  | nil => intro samples _ hs hb; simp at hb; omega
  | cons entry rest ih =>
    intro samples picked hs hb
    unfold sampleLoop
    rw [show bound - samples = bound - (samples + 1) + 1 by omega, List.take_succ_cons, List.foldl_cons,
      show sampleStep .lru (draw samples) entry picked = sampleStep .lru false entry picked by simp [sampleStep_lru]]
    dsimp only
    split_ifs with hb'
    · rw [show bound - (samples + 1) = 0 by omega]; rfl
    · exact ih (by omega) (by simp at hb; omega)

theorem getElem?_concat_cases {α : Type} {l : List α} {a e : α} {i : ℕ} (h : (l ++ [a])[i]? = some e) :
    (i < l.length ∧ l[i]? = some e) ∨ (i = l.length ∧ e = a) := by
  rcases Nat.lt_or_ge i l.length with hi | hi
  · exact .inl ⟨hi, by rwa [List.getElem?_append_left hi] at h⟩
  · rw [List.getElem?_append_right hi] at h
    rcases Nat.lt_or_ge (i - l.length) 1 with h1 | h1
    · rw [show i - l.length = 0 by omega] at h
      exact .inr ⟨by omega, (Option.some.inj h).symm⟩
    · simp [List.getElem?_eq_none (show [a].length ≤ i - l.length by simpa using h1)] at h

/-- an LRU fold from the start `t0` keeps what it had when every access time is later than `t0` -/
theorem foldl_lru_none {l : List (Σ _ : String, Value)} {t0 : ℕ} (ht : ∀ e ∈ l, t0 < e.2.lastAccessed)
    (x : Option String) : l.foldl (fun p e => sampleStep .lru false e p) (x, t0) = (x, t0) := by
  induction l with
  | nil => rfl
  | cons a l ih =>
    rw [List.foldl_cons, sampleStep_lru, if_neg (Nat.not_le.2 (ht a (List.mem_cons_self a l)))]
    exact ih fun e he => ht e (List.mem_cons_of_mem a he)

/-- an LRU fold from the start `t0` over entries one of which has an access time of at most `t0` ends at the last
entry whose access time is the least -/
theorem foldl_lru_last_min {l : List (Σ _ : String, Value)} {t0 : ℕ} (he : ∃ e ∈ l, e.2.lastAccessed ≤ t0)
    (x : Option String) :
    ∃ (j : ℕ) (e : Σ _ : String, Value), l[j]? = some e ∧
      l.foldl (fun p e => sampleStep .lru false e p) (x, t0) = (some e.1, e.2.lastAccessed) ∧
      ∀ i e', l[i]? = some e' →
        e.2.lastAccessed ≤ e'.2.lastAccessed ∧ (j < i → e.2.lastAccessed < e'.2.lastAccessed) := by
  induction l using List.reverseRecOn with
  | nil => simp at he
  | append_singleton l a ih =>
    rw [List.foldl_append, List.foldl_cons, List.foldl_nil, sampleStep_lru]
    by_cases hl : ∃ e ∈ l, e.2.lastAccessed ≤ t0
    · obtain ⟨j, e, hj, hf, hmin⟩ := ih hl
      have hjl : j < l.length := (List.getElem?_eq_some_iff.1 hj).1
      rw [hf]
      by_cases ha : a.2.lastAccessed ≤ e.2.lastAccessed
      · refine ⟨l.length, a, by simp, by simp [ha], fun i e' h => ?_⟩
        rcases getElem?_concat_cases h with ⟨hi, h⟩ | ⟨rfl, rfl⟩
        · exact ⟨le_trans ha (hmin i e' h).1, fun h' => absurd h' (by omega)⟩
        · exact ⟨le_refl _, fun h' => absurd h' (by omega)⟩
      · refine ⟨j, e, by rw [List.getElem?_append_left hjl, hj], by simp [ha], fun i e' h => ?_⟩
        rcases getElem?_concat_cases h with ⟨hi, h⟩ | ⟨rfl, rfl⟩
        · exact hmin i e' h
        · exact ⟨by omega, fun _ => by omega⟩
    · push_neg at hl
      have ha : a.2.lastAccessed ≤ t0 := by
        obtain ⟨e, he, hle⟩ := he
        rcases List.mem_append.1 he with he | he
        · exact absurd hle (Nat.not_le.2 (hl e he))
        · exact List.mem_singleton.1 he ▸ hle
      rw [foldl_lru_none hl]
      refine ⟨l.length, a, by simp, by simp [ha], fun i e' h => ?_⟩
      rcases getElem?_concat_cases h with ⟨hi, h⟩ | ⟨rfl, rfl⟩
      · have := hl e' (List.getElem?_mem h)
        exact ⟨by omega, fun h' => absurd h' (by omega)⟩
      · exact ⟨le_refl _, fun h' => absurd h' (by omega)⟩

/-- a key among the entries iterated is a key of the store -/
theorem mem_store_of_perm {db : Db} {order : List (Σ _ : String, Value)} (ho : order.Perm db.store.entries)
    {k : String} (hk : k ∈ order.map Sigma.fst) : k ∈ db.store :=
  AList.mem_keys.1 ((ho.map Sigma.fst).subset hk)

/-- a pass leaves the `Db` as it was, or removes from the store one key among the first `min(s, n)` it iterates
over, and changes nothing else -/
theorem Db.sampleAndEvict_erase (db : Db) (now rss : ℕ) {order : List (Σ _ : String, Value)} (draw : ℕ → Bool)
    (ho : order.Perm db.store.entries) :
    db.sampleAndEvict now rss order draw = db ∨
      ∃ k ∈ (order.take (min db.maxMemorySampleSize db.store.entries.length)).map Sigma.fst, k ∈ db.store ∧
        db.sampleAndEvict now rss order draw = { db with store := db.store.erase k } := by
  unfold Db.sampleAndEvict
  split_ifs
  · exact .inl rfl
  · exact .inl rfl
  · split
    · next k hk =>
      obtain ⟨-, h | h⟩ := sampleLoop_mem hk
      · cases h
      · rw [Nat.sub_zero] at h
        exact .inr ⟨k, h, mem_store_of_perm ho (List.map_subset _ (List.take_subset _ _) h), rfl⟩
    · exact .inl rfl

/-- an LRU pass past its guards (not shut down, the resident size at least `server_max_memory`), iterating in any
order over the store with `m = min(s, n)`: when one of the first `m` entries was last accessed no later than the
pass's start, it removes the key of the last of them whose access time is the least; when none was, it removes
nothing -/
theorem Db.sampleAndEvict_lru (db : Db) {now rss : ℕ} {order : List (Σ _ : String, Value)} (draw : ℕ → Bool)
    (ho : order.Perm db.store.entries) (hl : db.evictor = .lru) (hsd : db.shutdown = false)
    (hr : db.serverMaxMemory ≤ rss) :
    ((∃ e ∈ order.take (min db.maxMemorySampleSize db.store.entries.length), e.2.lastAccessed ≤ now) →
      ∃ (j : ℕ) (e : Σ _ : String, Value), j < min db.maxMemorySampleSize db.store.entries.length ∧
        order[j]? = some e ∧ db.sampleAndEvict now rss order draw = { db with store := db.store.erase e.1 } ∧
        ∀ i e', i < min db.maxMemorySampleSize db.store.entries.length → order[i]? = some e' →
          e.2.lastAccessed ≤ e'.2.lastAccessed ∧ (j < i → e.2.lastAccessed < e'.2.lastAccessed)) ∧
    ((∀ e ∈ order.take (min db.maxMemorySampleSize db.store.entries.length), now < e.2.lastAccessed) →
      db.sampleAndEvict now rss order draw = db) := by
  have hpass : db.sampleAndEvict now rss order draw =
      match sampleLoop .lru (min db.maxMemorySampleSize db.store.entries.length) draw 0 (none, now) order with
      | some key => { db with store := db.store.erase key }
      | none => db := by
    unfold Db.sampleAndEvict
    rw [hsd, if_neg (by simp), if_neg (by omega), hl]
  rw [hpass]
  generalize hm : min db.maxMemorySampleSize db.store.entries.length = m
  rcases Nat.eq_zero_or_pos m with rfl | hm0
  · exact ⟨fun ⟨e, he, _⟩ => by simp at he, fun _ => by rw [sampleLoop_bound_zero]⟩
  have hmo : m ≤ order.length := by rw [← hm, ho.length_eq]; exact min_le_right _ _
  rw [sampleLoop_lru hm0 (by omega), Nat.sub_zero]
  refine ⟨fun he => ?_, fun ht => by rw [foldl_lru_none ht]⟩
  obtain ⟨j, e, hj, hf, hmin⟩ := foldl_lru_last_min he none
  have hjm : j < m := by
    have := (List.getElem?_eq_some_iff.1 hj).1
    simp only [List.length_take] at this; omega
  rw [List.getElem?_take_of_lt hjm] at hj
  exact ⟨j, e, hjm, hj, by rw [hf], fun i e' hi h => hmin i e' (by rwa [List.getElem?_take_of_lt hi])⟩

/-- **An eviction pass.** Iterating over the store's `n` entries in any order, with sample size `s` and
`m = min(s, n)`, a pass leaves the `Db` as it was or removes one key among the first `m` entries, and changes no other
entry's data or access time. Under LRU, when the `Db` is not shut down, the resident size is at least
`server_max_memory`, `s ≥ 1`, `n ≥ 1` and no access time is later than the pass's start, it removes exactly one key:
that of the last of the first `m` entries whose access time is the least among them. When the `Db` is shut down or
the resident size is below `server_max_memory`, the pass returns at its guard and changes nothing -/
theorem Db.sampleAndEvict_removes (db : Db) (now rss : ℕ) (order : List (Σ _ : String, Value)) (draw : ℕ → Bool)
    (ho : order.Perm db.store.entries) :
    (db.sampleAndEvict now rss order draw = db ∨
      ∃ k ∈ (order.take (min db.maxMemorySampleSize db.store.entries.length)).map Sigma.fst, k ∈ db.store ∧
        db.sampleAndEvict now rss order draw = { db with store := db.store.erase k }) ∧
    (db.evictor = .lru → db.shutdown = false → db.serverMaxMemory ≤ rss → 0 < db.maxMemorySampleSize →
      0 < db.store.entries.length → (∀ e ∈ order, e.2.lastAccessed ≤ now) →
      ∃ (j : ℕ) (e : Σ _ : String, Value), j < min db.maxMemorySampleSize db.store.entries.length ∧
        order[j]? = some e ∧ e.1 ∈ db.store ∧
        db.sampleAndEvict now rss order draw = { db with store := db.store.erase e.1 } ∧
        ∀ i e', i < min db.maxMemorySampleSize db.store.entries.length → order[i]? = some e' →
          e.2.lastAccessed ≤ e'.2.lastAccessed ∧ (j < i → e.2.lastAccessed < e'.2.lastAccessed)) ∧
    (db.shutdown = true ∨ rss < db.serverMaxMemory → db.sampleAndEvict now rss order draw = db) := by
  refine ⟨db.sampleAndEvict_erase now rss draw ho, fun hl hsd hr hs hn ht => ?_, fun hg => ?_⟩
  · have hne : order.take (min db.maxMemorySampleSize db.store.entries.length) ≠ [] :=
      List.ne_nil_of_length_pos (by rw [List.length_take, ho.length_eq]; exact lt_min (lt_min hs hn) hn)
    obtain ⟨e₀, he₀⟩ := List.exists_mem_of_ne_nil _ hne
    obtain ⟨j, e, hjm, hj, hpass, hmin⟩ :=
      (db.sampleAndEvict_lru draw ho hl hsd hr).1 ⟨e₀, he₀, ht e₀ (List.mem_of_mem_take he₀)⟩
    exact ⟨j, e, hjm, hj, mem_store_of_perm ho (List.mem_map_of_mem _ (List.getElem?_mem hj)), hpass, hmin⟩
  · unfold Db.sampleAndEvict
    rcases hg with hsd | hr
    · rw [if_pos hsd]
    · by_cases hsd : db.shutdown
      · rw [if_pos hsd]
      · rw [if_neg hsd, if_pos hr]

/-- a store of two keys, read at times 3 and 1, with sample size 3 and a memory cap of 10 -/
def lruPair : Db := ⟨((∅ : Store).insert "a" ⟨[1], 3⟩).insert "b" ⟨[2], 1⟩, false, .lru, 10, 3⟩

/-- at the cap, the LRU pass removes the key read at time 1 -/
theorem lru_pass_removes_oldest :
    ∃ e ∈ lruPair.store.entries, e.2.lastAccessed = 1 ∧
      lruPair.sampleAndEvict 5 10 lruPair.store.entries (fun _ => false) =
        { lruPair with store := lruPair.store.erase e.1 } := by
  obtain ⟨j, e, -, hj, -, he, hmin⟩ :=
    (Db.sampleAndEvict_removes lruPair 5 10 _ (fun _ => false) (List.Perm.refl _)).2.1 rfl rfl (by decide) (by decide)
      (by decide) (by decide)
  have hle := (hmin 0 _ (by decide) rfl).1
  have hmem := List.getElem?_mem hj
  refine ⟨e, hmem, ?_, he⟩
  simp only [lruPair] at hmem hle
  rcases List.mem_cons.1 hmem with rfl | hmem
  · rfl
  · rcases List.mem_singleton.1 hmem with rfl
    exact absurd hle (by decide)

/-- under the cap the LRU pass returns at its guard and removes nothing, though the sample size and the store are not
empty and no access time is later than its start -/
theorem lru_pass_under_cap :
    lruPair.evictor = .lru ∧ 0 < lruPair.maxMemorySampleSize ∧ 0 < lruPair.store.entries.length ∧
      (∀ e ∈ lruPair.store.entries, e.2.lastAccessed ≤ 5) ∧
      lruPair.sampleAndEvict 5 0 lruPair.store.entries (fun _ => false) = lruPair :=
  ⟨rfl, by decide, by decide, by decide, rfl⟩

/-! ## The keyspace manager -/

/-- `KeyspaceManager`: the keyspaces by name (`DashMap<String, Keyspace>`) -/
structure KeyspaceManager where
  serverMaxMemory : ℕ
  keyspaces : AList fun _ : String => Db

/-- `KeyspaceManager::new` -/
def KeyspaceManager.new (serverMaxMemory : ℕ) : KeyspaceManager := ⟨serverMaxMemory, ∅⟩

/-- `KeyspaceManager::with_keyspace`: the closure runs on the keyspace while its `DashMap` entry is held -/
def KeyspaceManager.withKeyspace {α : Type} (m : KeyspaceManager) (keyspace : String) (f : Db → Db × α) :
    KeyspaceManager × Except String α :=
  match m.keyspaces.lookup keyspace with
  | some db => ({ m with keyspaces := m.keyspaces.insert keyspace (f db).1 }, .ok (f db).2)
  | none => (m, .error ("ERR keyspace '" ++ keyspace ++ "' does not exist"))

/-- `self.keyspaces.contains_key(&name)`, the first step of `KeyspaceManager::create` -/
def KeyspaceManager.containsKey (m : KeyspaceManager) (name : String) : Bool := decide (name ∈ m.keyspaces)

/-- `Keyspace::new(..)` and `self.keyspaces.insert(name, keyspace)`, the second step of `KeyspaceManager::create`:
a keyspace already under the name is replaced -/
def KeyspaceManager.insert (m : KeyspaceManager) (name : String) (evictor : Evictor) (maxMemorySampleSize : ℕ) :
    KeyspaceManager :=
  { m with keyspaces := m.keyspaces.insert name (Db.new evictor m.serverMaxMemory maxMemorySampleSize) }

/-- `KeyspaceManager::create`, its two steps run by one handler with no other in between -/
def KeyspaceManager.create (m : KeyspaceManager) (name : String) (evictor : Evictor) (maxMemorySampleSize : ℕ) :
    KeyspaceManager × UInt8 :=
  if m.containsKey name then (m, 0) else (m.insert name evictor maxMemorySampleSize, 1)

/-- a request on a keyspace that does not exist changes nothing and names the keyspace -/
theorem KeyspaceManager.withKeyspace_none {α : Type} {m : KeyspaceManager} {keyspace : String}
    (h : m.keyspaces.lookup keyspace = none) (f : Db → Db × α) :
    m.withKeyspace keyspace f = (m, .error ("ERR keyspace '" ++ keyspace ++ "' does not exist")) := by
  simp [KeyspaceManager.withKeyspace, h]

theorem KeyspaceManager.withKeyspace_some {α : Type} {m : KeyspaceManager} {keyspace : String} {db : Db}
    (h : m.keyspaces.lookup keyspace = some db) (f : Db → Db × α) :
    m.withKeyspace keyspace f = ({ m with keyspaces := m.keyspaces.insert keyspace (f db).1 }, .ok (f db).2) := by
  simp [KeyspaceManager.withKeyspace, h]

end Segment
