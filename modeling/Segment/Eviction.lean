/-
The evictor passes (`keyspace.rs`: `sample_and_evict`, run by `start_background_max_memory_evictor`): a RANDOM pass,
and an LRU pass in the reachable states of the concurrent model of `Segment.Interleaving`.

A RANDOM pass keeps, of the entries it samples, the last whose draw (`gen::<f32>() < 0.5`) came out true; the source's
comment says when no draw does, the pass removes nothing. An LRU pass keeps the last entry whose access time is no
later than the least seen so far, starting from the pass's own `Instant::now()`, which it reads before it takes the
store mutex: it removes a key only when an entry it samples was accessed no later than that start, and a GET or SET
run between its two steps stamps a later access time on the key it touches.

Results:
- `sampleLoop_random`, `Db.sampleAndEvict_random`: a RANDOM pass past its guards (not shut down, the resident size at
  least `server_max_memory`) removes the key of the last of the first `min(s, n)` entries whose draw came out true,
  and removes nothing when no draw did;
- `Workers.run_live`: in every run, whatever the interleaving of the handlers' steps and the evictors' passes, no
  keyspace is shut down and each carries the server's memory cap;
- `Workers.evict_lru`: so in every state a run from a fresh server reaches, the store step of a pass of an LRU
  keyspace's evictor that read a resident size of at least the server's `max_memory` removes exactly one key when an
  entry it samples was accessed no later than the pass's start, one whose last access is the oldest among the
  sampled entries, and removes nothing when each was accessed after the start.
-/
import Segment.Visibility
import Segment.Responses

namespace Segment

/-! ## A RANDOM pass -/

/-- the key a RANDOM pass picks among the entries it samples, the `i`-th of them with the draw `draw i`: that of the
last whose draw came out true -/
def randomPick (draw : ℕ → Bool) (sample : List (Σ _ : String, Value)) : Option String :=
  (sample.enum.filterMap fun ie => if draw ie.1 then some ie.2.1 else none).getLast?

/-- under RANDOM the loop keeps, of the entries it samples before the bound, the last whose draw came out true, and
otherwise what it had picked before -/
theorem sampleLoop_random {bound : ℕ} {draw : ℕ → Bool} {order : List (Σ _ : String, Value)} :
    ∀ {samples : ℕ} {picked : Option String × ℕ}, samples < bound → bound - samples ≤ order.length →
      sampleLoop .random bound draw samples picked order =
        ((((order.take (bound - samples)).enumFrom samples).filterMap
          fun ie => if draw ie.1 then some ie.2.1 else none).getLast?).or picked.1 := by
  induction order with
  | nil => intro samples _ hs hb; simp at hb; omega
  | cons entry rest ih =>
    intro samples picked hs hb
    unfold sampleLoop
    rw [show bound - samples = bound - (samples + 1) + 1 by omega, List.take_succ_cons, List.enumFrom_cons,
      List.filterMap_cons]
    simp only [sampleStep, if_true]
    by_cases hb' : samples + 1 = bound
    · rw [if_pos hb', show bound - (samples + 1) = 0 by omega]
      cases draw samples <;> rfl
    · rw [if_neg hb', ih (by omega) (by simp at hb; omega)]
      cases draw samples
      · rfl
      · simp only [if_true, List.getLast?_cons]
        cases (((rest.take (bound - (samples + 1))).enumFrom (samples + 1)).filterMap
          fun ie => if draw ie.1 then some ie.2.1 else none).getLast? <;> rfl

/-- **A RANDOM pass.** Iterating over the store's `n` entries in any order, with sample size `s` and `m = min(s, n)`,
a RANDOM pass leaves the `Db` as it was when it is shut down or the resident size is below `server_max_memory`;
otherwise it removes the key of the last of the first `m` entries whose draw came out true, and nothing when none
did -/
theorem Db.sampleAndEvict_random (db : Db) (now rss : ℕ) (order : List (Σ _ : String, Value)) (draw : ℕ → Bool)
    (hr : db.evictor = .random) (ho : order.Perm db.store.entries) :
    db.sampleAndEvict now rss order draw =
      if db.shutdown ∨ rss < db.serverMaxMemory then db
      else
        match randomPick draw (order.take (min db.maxMemorySampleSize db.store.entries.length)) with
        | some key => { db with store := db.store.erase key }
        | none => db := by
  have hlen : db.store.entries.length = order.length := ho.length_eq.symm
  have hpick : sampleLoop db.evictor (min db.maxMemorySampleSize db.store.entries.length) draw 0 (none, now) order =
      randomPick draw (order.take (min db.maxMemorySampleSize db.store.entries.length)) := by
    rw [hr]
    rcases Nat.eq_zero_or_pos (min db.maxMemorySampleSize db.store.entries.length) with h0 | hpos
    · rw [h0, sampleLoop_bound_zero]; rfl
    · rw [sampleLoop_random hpos (by rw [← hlen]; exact Nat.sub_le_of_le_add (min_le_right _ _)), Nat.sub_zero,
        Option.or_none]
      rfl
  unfold Db.sampleAndEvict
  rw [hpick]
  by_cases hsd : db.shutdown
  · simp [hsd]
  · by_cases hc : rss < db.serverMaxMemory
    · simp [hc]
    · exact ((if_neg hsd).trans (if_neg hc)).trans
        (if_neg (by simp [hsd, hc] : ¬(db.shutdown = true ∨ rss < db.serverMaxMemory))).symm

/-- a RANDOM keyspace holding `a`, `b` and `c`, with sample size 3 and a memory cap of 10 -/
def randomTrio : Db :=
  ⟨(((∅ : Store).insert "a" ⟨[1], 0⟩).insert "b" ⟨[2], 1⟩).insert "c" ⟨[3], 2⟩, false, .random, 10, 3⟩

/-- at the cap, with only the first draw true, the pass removes the first key it iterates over -/
theorem random_pass_first_draw :
    randomTrio.sampleAndEvict 5 10 randomTrio.store.entries (fun i => i == 0) =
      { randomTrio with store := randomTrio.store.erase "c" } :=
  (Db.sampleAndEvict_random randomTrio 5 10 _ _ rfl (List.Perm.refl _)).trans rfl

/-! ## Keyspaces in every reachable state -/

/-- a keyspace's `Db` as every reachable state has it: not shut down, and with the server's memory cap -/
structure Db.Live (db : Db) (serverMaxMemory : ℕ) : Prop where
  running : db.shutdown = false
  cap : db.serverMaxMemory = serverMaxMemory

section Live

variable {db : Db} {cap : ℕ}

theorem Db.Live.store (h : db.Live cap) (store : Store) : ({ db with store } : Db).Live cap :=
  ⟨h.running, h.cap⟩

theorem Db.live_new (evictor : Evictor) (maxMemorySampleSize : ℕ) : (Db.new evictor cap maxMemorySampleSize).Live cap :=
  ⟨rfl, rfl⟩

theorem Db.Live.get (h : db.Live cap) (now : ℕ) (key : String) : (db.get now key).1.Live cap := by
  unfold Db.get
  split
  · exact h.store _
  · exact h

theorem Db.Live.del (h : db.Live cap) (key : String) : (db.del key).1.Live cap := by
  simp only [Db.del, AList.extract_eq_lookup_erase]
  exact h.store _

theorem Db.Live.sampleAndEvict (h : db.Live cap) (now rss : ℕ) (order : List (Σ _ : String, Value))
    (draw : ℕ → Bool) : (db.sampleAndEvict now rss order draw).Live cap := by
  unfold Db.sampleAndEvict
  split_ifs
  · exact h
  · exact h
  · split
    · exact h.store _
    · exact h

end Live

/-- every keyspace of the manager is live, with the manager's memory cap -/
def KeyspaceManager.Live (m : KeyspaceManager) : Prop :=
  ∀ name db, m.keyspaces.lookup name = some db → db.Live m.serverMaxMemory

section ManagerLive

variable {m : KeyspaceManager}

theorem KeyspaceManager.Live.insert (h : m.Live) (name : String) {db : Db} (hdb : db.Live m.serverMaxMemory) :
    ({ m with keyspaces := m.keyspaces.insert name db } : KeyspaceManager).Live := by
  intro name' db' h'
  by_cases hn : name' = name
  · subst hn
    simp only [AList.lookup_insert, Option.some.injEq] at h'
    exact h' ▸ hdb
  · rw [AList.lookup_insert_ne hn] at h'
    exact h _ _ h'

theorem KeyspaceManager.Live.withKeyspace {α : Type} (h : m.Live) (keyspace : String) {f : Db → Db × α}
    (hf : ∀ db, db.Live m.serverMaxMemory → (f db).1.Live m.serverMaxMemory) :
    (m.withKeyspace keyspace f).1.Live ∧ (m.withKeyspace keyspace f).1.serverMaxMemory = m.serverMaxMemory := by
  cases hdb : m.keyspaces.lookup keyspace with
  | none => rw [KeyspaceManager.withKeyspace_none hdb]; exact ⟨h, rfl⟩
  | some db => rw [KeyspaceManager.withKeyspace_some hdb]; exact ⟨h.insert _ (hf db (h _ _ hdb)), rfl⟩

/-- a command keeps the manager live, and keeps its memory cap -/
theorem KeyspaceManager.Live.exec (h : m.Live) (cmd : Command) (now : ℕ) :
    (exec cmd m now).1.Live ∧ (exec cmd m now).1.serverMaxMemory = m.serverMaxMemory := by
  cases cmd with
  | get c =>
    show (c.exec m now).1.Live ∧ (c.exec m now).1.serverMaxMemory = _
    rw [Get.exec_fst]
    exact h.withKeyspace _ fun db hdb => hdb.get now c.key
  | set c =>
    show (c.exec m now).1.Live ∧ (c.exec m now).1.serverMaxMemory = _
    rw [Set.exec, execCount_fst]
    exact h.withKeyspace _ fun db hdb => hdb.store _
  | del c =>
    show (c.exec m).1.Live ∧ (c.exec m).1.serverMaxMemory = _
    rw [Del.exec, execCount_fst]
    exact h.withKeyspace _ fun db hdb => hdb.del c.key
  | create c =>
    show (m.create c.keyspace c.evictor (c.maxMemorySampleSize.getD 0)).1.Live ∧
      (m.create c.keyspace c.evictor (c.maxMemorySampleSize.getD 0)).1.serverMaxMemory = _
    unfold KeyspaceManager.create
    split
    · exact ⟨h, rfl⟩
    · exact ⟨h.insert _ (Db.live_new _ _), rfl⟩

end ManagerLive

section Runs

variable {s s' : Workers}

/-- every step keeps the manager live, and keeps its memory cap -/
theorem Workers.step_live {a : Action} (hi : s.manager.Live) (h : s.step a = some s') :
    s'.manager.Live ∧ s'.manager.serverMaxMemory = s.manager.serverMaxMemory := by
  rcases Workers.step_cases h with ⟨-, cmd, -, -, -, rfl⟩ | ⟨-, -, -, -, -, rfl⟩ | ⟨-, -, -, -, -, rfl⟩ |
    ⟨-, -, -, -, rfl⟩ | ⟨-, -, -, -, -, -, -, -, rfl⟩ | ⟨name, -, -, p, db, -, -, hdb, -, rfl⟩
  · exact hi.exec cmd s.clock
  · exact ⟨hi, rfl⟩
  · exact ⟨hi, rfl⟩
  · exact ⟨hi.insert _ (Db.live_new _ _), rfl⟩
  · exact ⟨hi, rfl⟩
  · exact ⟨hi.insert _ ((hi name db hdb).sampleAndEvict _ _ _ _), rfl⟩

/-- **Keyspaces stay live.** In every run, whatever the interleaving of the handlers' steps and the evictors' passes,
no keyspace of the manager is shut down, and each carries the manager's memory cap, which does not change -/
theorem Workers.run_live {as : List Action} (hi : s.manager.Live) (h : s.run as = some s') :
    s'.manager.Live ∧ s'.manager.serverMaxMemory = s.manager.serverMaxMemory := by
  induction as generalizing s with
  | nil => cases h; exact ⟨hi, rfl⟩
  | cons a as ih =>
    obtain ⟨s₁, h₁, h⟩ := Option.bind_eq_some.1 h
    obtain ⟨hi₁, hc₁⟩ := Workers.step_live hi h₁
    obtain ⟨hi', hc'⟩ := ih hi₁ h
    exact ⟨hi', hc'.trans hc₁⟩

theorem Workers.live_init (serverMaxMemory : ℕ) : (Workers.init serverMaxMemory).manager.Live :=
  fun _ _ h => by simp [Workers.init, KeyspaceManager.new] at h

end Runs

/-! ## An LRU pass in every reachable state -/

/-- **An LRU pass in every reachable state.** In every state a run from a fresh server with memory cap `max_memory`
reaches, whatever the interleaving of the handlers' steps and the evictors' passes: let the evictor of an LRU keyspace
have started a pass that read a resident size of at least `max_memory` and its starting instant `start`. Iterating over
the store in any order, the pass's store step removes exactly one key when one of the first `min(s, n)` entries was
last accessed no later than `start`: that of an entry among them whose last access is the oldest of theirs. It removes
nothing when each of them was accessed after `start`, as a GET or SET run between the pass's two steps leaves the key
it touches -/
theorem Workers.evict_lru {serverMaxMemory : ℕ} {as : List Action} {s : Workers}
    (hrun : (Workers.init serverMaxMemory).run as = some s) {n : String} {p : EvictorPass} {db : Db}
    (hp : s.passes.find? (·.keyspace = n) = some p) (hdb : s.manager.keyspaces.lookup n = some db)
    (hl : db.evictor = .lru) (hr : serverMaxMemory ≤ p.rss) {order : List (Σ _ : String, Value)}
    (ho : order.Perm db.store.entries) (draw : ℕ → Bool) :
    ((∃ e ∈ order.take (min db.maxMemorySampleSize db.store.entries.length), e.2.lastAccessed ≤ p.start) →
      ∃ e ∈ order.take (min db.maxMemorySampleSize db.store.entries.length),
        s.step (.evict n order draw) = some { s with
          manager := { s.manager with
            keyspaces := s.manager.keyspaces.insert n { db with store := db.store.erase e.1 } }
          passes := s.passes.filter (·.keyspace ≠ n) } ∧
        ∀ e' ∈ order.take (min db.maxMemorySampleSize db.store.entries.length),
          e.2.lastAccessed ≤ e'.2.lastAccessed) ∧
    ((∀ e ∈ order.take (min db.maxMemorySampleSize db.store.entries.length), p.start < e.2.lastAccessed) →
      s.step (.evict n order draw) = some { s with
        manager := { s.manager with keyspaces := s.manager.keyspaces.insert n db }
        passes := s.passes.filter (·.keyspace ≠ n) }) := by
  obtain ⟨hi, hcap⟩ := Workers.run_live (Workers.live_init serverMaxMemory) hrun
  have hlive := hi n db hdb
  have hstep : s.step (.evict n order draw) = _ := Workers.step_evict hp hdb (by rw [hl]; decide)
  have hr' : db.serverMaxMemory ≤ p.rss := by rw [hlive.cap, hcap]; exact hr
  obtain ⟨h1, h2⟩ := db.sampleAndEvict_lru draw ho hl hlive.running hr'
  refine ⟨fun he => ?_, fun ht => by rw [hstep, h2 ht]⟩
  obtain ⟨j, e, hjm, hj, hpass, hmin⟩ := h1 he
  refine ⟨e, List.getElem?_mem (by rwa [List.getElem?_take_of_lt hjm]), by rw [hstep, hpass], fun e' he' => ?_⟩
  obtain ⟨i, hi'⟩ := List.mem_iff_getElem?.1 he'
  have him : i < min db.maxMemorySampleSize db.store.entries.length := by
    have := (List.getElem?_eq_some_iff.1 hi').1
    simp only [List.length_take] at this
    omega
  exact (hmin i e' him (by rwa [List.getElem?_take_of_lt him] at hi')).1

/-- a fresh server: handler 1 creates the LRU keyspace `ks` and sets `a`, handler 2 sets `b`, the evictor of `ks`
starts a pass, and handler 1 reads `a` before the pass takes the store mutex -/
def lruRun : List Action :=
  [.request 1 (.create ⟨"ks", .lru, some 3⟩), .insert 1, .request 1 (.set ⟨"a", [1], "ks"⟩),
    .request 2 (.set ⟨"b", [2], "ks"⟩), .startPass "ks" 0, .request 1 (.get ⟨"a", "ks"⟩)]

/-- after that run `ks` is an LRU keyspace whose evictor has started a pass at resident size 0, so the pass's store
step, iterating in the store's own order, removes the key read longest ago when one was read before the start -/
theorem lru_pass_after_run :
    ∃ s db p, (Workers.init 0).run lruRun = some s ∧ s.manager.keyspaces.lookup "ks" = some db ∧
      s.passes.find? (·.keyspace = "ks") = some p ∧
      ((∃ e ∈ db.store.entries.take (min db.maxMemorySampleSize db.store.entries.length),
          e.2.lastAccessed ≤ p.start) →
        ∃ e ∈ db.store.entries.take (min db.maxMemorySampleSize db.store.entries.length),
          s.step (.evict "ks" db.store.entries fun _ => false) = some { s with
            manager := { s.manager with
              keyspaces := s.manager.keyspaces.insert "ks" { db with store := db.store.erase e.1 } }
            passes := s.passes.filter (·.keyspace ≠ "ks") } ∧
          ∀ e' ∈ db.store.entries.take (min db.maxMemorySampleSize db.store.entries.length),
            e.2.lastAccessed ≤ e'.2.lastAccessed) ∧
      ((∀ e ∈ db.store.entries.take (min db.maxMemorySampleSize db.store.entries.length),
          p.start < e.2.lastAccessed) →
        s.step (.evict "ks" db.store.entries fun _ => false) = some { s with
          manager := { s.manager with keyspaces := s.manager.keyspaces.insert "ks" db }
          passes := s.passes.filter (·.keyspace ≠ "ks") }) :=
  ⟨_, _, _, rfl, rfl, rfl, @Workers.evict_lru 0 lruRun _ rfl "ks" _ _ rfl rfl rfl le_rfl _ (List.Perm.refl _) _⟩

end Segment
