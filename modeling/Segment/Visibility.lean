/-
What a GET sees when the handlers' steps interleave (`keyspace.rs`, `command.rs`), in the concurrent model of
`Segment.Interleaving`, with no condition on the order in which the steps run.

A step changes what keyspace `n` holds under `key` only if it is a SET or DEL of that key in `n`, the store step of an
eviction pass of `n`, or the `insert` of a CREATE of `n`; and a CREATE of `n` reaches its `insert` only after its `contains_key` step.
`Action.touches n key` names the steps of the first kinds, and the first step of a CREATE of `n`.

Results:
- `Workers.step_cases`: what one step does, guards included; every step lemma below is one case analysis on it;
- `Workers.step_untouched`, `Workers.run_untouched`: from a state in which no CREATE of `n` is between its two steps,
  a run none of whose steps touches `(n, key)` leaves what `n` holds under `key` as it was, and leaves no CREATE of
  `n` between its steps;
- `Workers.get_after_set`: so a SET that a handler runs on an existing keyspace is answered 1, and a later GET of its
  key answers its value, whatever the other handlers run in between, unless one of those steps sets or deletes the
  key, is an eviction pass of the keyspace, or is a CREATE of it. The last exception is real: `create_race_loses_set`
  loses an acknowledged SET to the second `insert` of two racing CREATEs;
- `Workers.step_keeps`, `Workers.run_keeps`, `Workers.get_latest_set`: with no such condition, a run none of whose
  steps sets the key leaves its value or removes it, so the GET answers the SET's value or Null, never an older value
  and never one no SET wrote; `set_lost_to_race_reads_null` is the racing case, which `get_after_set` excludes;
- `Workers.step_racy`, `Workers.run_refines_racy`: every run, in any interleaving, is matched by a run of the map
  `Atomic` in which, besides its operations, the `insert` of a CREATE may replace a keyspace by an empty one: the
  same responses in the same order, and the same contents. `Workers.runSerial_refines` is the case with no such
  replacement.
-/
import Segment.Interleaving

namespace Segment

/-! ## The steps that touch a key -/

/-- what keyspace `n` holds under `key`; `none` when there is no keyspace `n` -/
def Keyspaces.entry (ks : Keyspaces) (n key : String) : Option (Option Bytes) := (ks n).map (·.data key)

/-- the step is a SET or DEL of `key` in keyspace `n`, the first step of a CREATE of `n`, or the store step of an
eviction pass of `n` -/
def Action.touches (n key : String) : Action → Bool
  | .request _ (.get _) => false
  | .request _ (.set c) => decide (c.keyspace = n ∧ c.key = key)
  | .request _ (.del c) => decide (c.keyspace = n ∧ c.key = key)
  | .request _ (.create c) => decide (c.keyspace = n)
  | .insert _ => false
  | .startPass _ _ => false
  | .evict n' _ _ => decide (n' = n)

/-- the step is a SET of `key` in keyspace `n` -/
def Action.setsKey (n key : String) : Action → Bool
  | .request _ (.set c) => decide (c.keyspace = n ∧ c.key = key)
  | _ => false

theorem Keyspaces.entry_update_ne {ks : Keyspaces} {n n' key : String} (h : n ≠ n')
    (x : Option Contents) : Keyspaces.entry (Function.update ks n' x) n key = ks.entry n key := by
  simp [Keyspaces.entry, Function.update_noteq h]

/-- a write of `k` in keyspace `n'` leaves every other key, and every other keyspace, as it was -/
theorem Keyspaces.entry_write {ks : Keyspaces} {n n' key k : String} {m : Contents}
    (hm : ks n' = some m) (h : ¬ (n' = n ∧ k = key)) (x : Option Bytes) :
    Keyspaces.entry (Function.update ks n' (some (m.write k x))) n key = ks.entry n key := by
  by_cases hn : n = n'
  · subst hn
    have hk : key ≠ k := fun hk => h ⟨rfl, hk.symm⟩
    simp [Keyspaces.entry, hm, Contents.write, Function.update_noteq hk]
  · exact Keyspaces.entry_update_ne hn _

/-- a GET, SET or DEL of the map that does not touch `(n, key)` leaves what `n` holds under it -/
theorem Keyspaces.request_entry {ks : Keyspaces} {t : ℕ} {cmd : Command} {n key : String} (hc : cmd.isCreate = false)
    (ht : (Action.request t cmd).touches n key = false) : (ks.request cmd).1.entry n key = ks.entry n key := by
  obtain ⟨c⟩ | ⟨c⟩ | ⟨c⟩ | ⟨c⟩ := cmd
  · simp only [Keyspaces.request]
    split <;> rfl
  · simp only [Action.touches, decide_eq_false_iff_not] at ht
    simp only [Keyspaces.request]
    split
    · next m hm => exact Keyspaces.entry_write hm ht _
    · rfl
  · simp only [Action.touches, decide_eq_false_iff_not] at ht
    simp only [Keyspaces.request]
    split
    · next m hm => exact Keyspaces.entry_write hm ht _
    · rfl
  · cases hc

/-! ## Steps and runs -/

section Steps

variable {s s' : Workers} {n key : String}

/-- a request step is taken only by a handler that is not in the middle of a CREATE -/
theorem Workers.busy_of_step {t : ℕ} {cmd : Command} (h : s.step (.request t cmd) = some s') : s.busy t = false := by
  cases hb : s.busy t
  · rfl
  · simp [Workers.step, hb] at h

/-- **What a step does.** A step runs a command other than CREATE as `exec` runs it; answers 0 to a CREATE whose name
is present; leaves a CREATE whose name is absent pending; runs the `insert` of a pending CREATE, dropping the pass of
the keyspace it replaces; starts a pass of the evictor of a keyspace whose evictor is not Noop, reading the clock; or
runs the store step of a started pass, with the instant and the resident size the pass read -/
theorem Workers.step_cases {a : Action} (h : s.step a = some s') :
    (∃ t cmd, a = .request t cmd ∧ cmd.isCreate = false ∧ s.busy t = false ∧
      s' = { s.answer t cmd (exec cmd s.manager s.clock).2 with manager := (exec cmd s.manager s.clock).1 }) ∨
    (∃ t c, a = .request t (.create c) ∧ c.keyspace ∈ s.manager.keyspaces ∧ s.busy t = false ∧
      s' = s.answer t (.create c) (countReply 0)) ∨
    (∃ t c, a = .request t (.create c) ∧ c.keyspace ∉ s.manager.keyspaces ∧ s.busy t = false ∧
      s' = { s with clock := s.clock + 1, pending := s.pending ++ [⟨t, c⟩] }) ∨
    (∃ t p, a = .insert t ∧ s.pending.find? (·.thread = t) = some p ∧
      s' = { s.answer t (.create p.cmd) (countReply 1) with
        manager := s.manager.insert p.cmd.keyspace p.cmd.evictor (p.cmd.maxMemorySampleSize.getD 0)
        pending := s.pending.filter (·.thread ≠ t)
        passes := s.passes.filter (·.keyspace ≠ p.cmd.keyspace) }) ∨
    (∃ name rss db, a = .startPass name rss ∧ s.manager.keyspaces.lookup name = some db ∧ db.evictor ≠ .noop ∧
      s.passes.any (·.keyspace = name) = false ∧
      s' = { s with clock := s.clock + 1, passes := s.passes ++ [⟨name, rss, s.clock⟩] }) ∨
    (∃ name order draw p db, a = .evict name order draw ∧ s.passes.find? (·.keyspace = name) = some p ∧
      s.manager.keyspaces.lookup name = some db ∧ db.evictor ≠ .noop ∧
      s' = { s with
        manager := { s.manager with
          keyspaces := s.manager.keyspaces.insert name (db.sampleAndEvict p.start p.rss order draw) }
        passes := s.passes.filter (·.keyspace ≠ name) }) := by
  cases a with
  | request t cmd =>
    have hb := Workers.busy_of_step h
    cases hc : cmd.isCreate
    · rw [Workers.step_request hb hc] at h
      cases h
      exact .inl ⟨t, cmd, rfl, hc, hb, rfl⟩
    · obtain ⟨c⟩ | ⟨c⟩ | ⟨c⟩ | ⟨c⟩ := cmd <;> simp only [Command.isCreate, Bool.false_eq_true] at hc
      by_cases hn : c.keyspace ∈ s.manager.keyspaces
      · rw [Workers.step_create_present hb hn] at h
        cases h
        exact .inr (.inl ⟨t, c, rfl, hn, hb, rfl⟩)
      · rw [Workers.step_create_absent hb hn] at h
        cases h
        exact .inr (.inr (.inl ⟨t, c, rfl, hn, hb, rfl⟩))
  | insert t =>
    cases hf : s.pending.find? (·.thread = t)
    · simp [Workers.step, hf] at h
    · rw [Workers.step_insert hf] at h
      cases h
      exact .inr (.inr (.inr (.inl ⟨t, _, rfl, hf, rfl⟩)))
  | startPass name rss =>
    simp only [Workers.step] at h
    split at h
    · next db hdb =>
      split_ifs at h with hc
      cases h
      obtain ⟨he, hp⟩ := not_or.1 hc
      exact .inr (.inr (.inr (.inr (.inl ⟨name, rss, db, rfl, hdb, he, by simpa using hp, rfl⟩))))
    · cases h
  | evict name order draw =>
    simp only [Workers.step] at h
    split at h
    · next p db hp hdb =>
      split_ifs at h with he
      cases h
      exact .inr (.inr (.inr (.inr (.inr ⟨name, order, draw, p, db, rfl, hp, hdb, he, rfl⟩))))
    · cases h

/-- every step appends its response, if it writes one, to those written before -/
theorem Workers.step_answers {a : Action} (h : s.step a = some s') : ∃ l, s'.answers = s.answers ++ l := by
  rcases Workers.step_cases h with ⟨-, -, -, -, -, rfl⟩ | ⟨-, -, -, -, -, rfl⟩ | ⟨-, -, -, -, -, rfl⟩ |
    ⟨-, -, -, -, rfl⟩ | ⟨-, -, -, -, -, -, -, rfl⟩ | ⟨-, -, -, -, -, -, -, -, -, rfl⟩
  all_goals first | exact ⟨_, rfl⟩ | exact ⟨[], (List.append_nil _).symm⟩

/-- **What one step can change.** From a state in which no CREATE of `n` is between its two steps, a step that does
not touch `(n, key)` leaves what `n` holds under `key`, and starts no CREATE of `n` -/
theorem Workers.step_untouched {a : Action} (hp : ∀ p ∈ s.pending, p.cmd.keyspace ≠ n)
    (ht : a.touches n key = false) (h : s.step a = some s') :
    (∀ p ∈ s'.pending, p.cmd.keyspace ≠ n) ∧ s'.manager.view.entry n key = s.manager.view.entry n key := by
  rcases Workers.step_cases h with ⟨t, cmd, rfl, hc, -, rfl⟩ | ⟨-, -, -, -, -, rfl⟩ | ⟨t, c, rfl, -, -, rfl⟩ |
    ⟨t, p, -, hf, rfl⟩ | ⟨-, -, -, -, -, -, -, -, rfl⟩ | ⟨name, order, draw, p, db, rfl, -, -, -, rfl⟩
  · refine ⟨hp, ?_⟩
    rw [show (exec cmd s.manager s.clock).1.view = _ from congrArg Prod.fst (exec_view hc s.manager s.clock)]
    exact Keyspaces.request_entry hc ht
  · exact ⟨hp, rfl⟩
  · have hcn : c.keyspace ≠ n := by simpa [Action.touches] using ht
    refine ⟨fun p hq => ?_, rfl⟩
    rcases List.mem_append.1 hq with hq | hq
    · exact hp p hq
    · rw [List.mem_singleton.1 hq]
      exact hcn
  · have hpn : p.cmd.keyspace ≠ n := hp p (List.mem_of_find?_eq_some hf)
    refine ⟨fun q hq => hp q (List.mem_filter.1 hq).1, ?_⟩
    rw [KeyspaceManager.insert, KeyspaceManager.view_insert]
    exact Keyspaces.entry_update_ne (Ne.symm hpn) _
  · exact ⟨hp, rfl⟩
  · have hn' : name ≠ n := by simpa [Action.touches] using ht
    refine ⟨hp, ?_⟩
    rw [KeyspaceManager.view_insert]
    exact Keyspaces.entry_update_ne (Ne.symm hn') _

/-- a SET run on an existing keyspace: it is answered 1, and the keyspace then holds its value under its key -/
theorem Workers.step_set {t : ℕ} {c : Set} (hn : c.keyspace ∈ s.manager.keyspaces)
    (h : s.step (.request t (.set c)) = some s') :
    s'.pending = s.pending ∧ s'.manager.view.entry c.keyspace c.key = some (some c.value) ∧
      s'.answers = s.answers ++ [(t, .set c, countReply 1)] := by
  rw [@Workers.step_request s t (.set c) (Workers.busy_of_step h) rfl] at h
  cases h
  obtain ⟨m, hm⟩ := Option.ne_none_iff_exists'.1 (mt KeyspaceManager.view_eq_none.1 (not_not.2 hn))
  have he := @exec_view (.set c) rfl s.manager s.clock
  simp only [Keyspaces.request, hm, Prod.mk.injEq] at he
  refine ⟨rfl, ?_, ?_⟩
  · simp [he.1, Keyspaces.entry, Contents.write]
  · simp [Workers.answer, he.2]

/-- a GET answers what the keyspace holds under its key -/
theorem Workers.step_get {t : ℕ} {c : Get} {x : Option Bytes} (hx : s.manager.view.entry c.keyspace c.key = some x)
    (h : s.step (.request t (.get c)) = some s') : s'.answers = s.answers ++ [(t, .get c, valueReply x)] := by
  rw [@Workers.step_request s t (.get c) (Workers.busy_of_step h) rfl] at h
  cases h
  obtain ⟨m, hm, rfl⟩ := Option.map_eq_some'.1 hx
  have he := congrArg Prod.snd (@exec_view (.get c) rfl s.manager s.clock)
  simp only [Keyspaces.request, hm] at he
  simp [Workers.answer, he]

/-- **What a step can do to a value.** A step that is not a SET of `key` in `n` leaves what `n` holds under `key` as it
was, or removes it: a DEL of the key, an eviction pass of `n`, and the `insert` of a CREATE of `n` that replaces the
keyspace are the only steps that change it, and none of them writes a value -/
theorem Workers.step_keeps {a : Action} {v : Bytes}
    (hx : s.manager.view.entry n key = some (some v) ∨ s.manager.view.entry n key = some none)
    (ha : a.setsKey n key = false) (h : s.step a = some s') :
    s'.manager.view.entry n key = some (some v) ∨ s'.manager.view.entry n key = some none := by
  rcases Workers.step_cases h with ⟨t, cmd, rfl, hc, -, rfl⟩ | ⟨-, -, -, -, -, rfl⟩ | ⟨-, -, -, -, -, rfl⟩ |
    ⟨t, p, -, -, rfl⟩ | ⟨-, -, -, -, -, -, -, -, rfl⟩ | ⟨name, order, draw, p, db, -, -, hdb, -, rfl⟩
  · rw [show (exec cmd s.manager s.clock).1.view = _ from congrArg Prod.fst (exec_view hc s.manager s.clock)]
    cases ht : (Action.request t cmd).touches n key
    · rwa [Keyspaces.request_entry hc ht]
    · obtain ⟨c⟩ | ⟨c⟩ | ⟨c⟩ | ⟨c⟩ := cmd
      · cases ht
      · simp only [Action.setsKey, Action.touches] at ha ht
        exact absurd ht (by simp [ha])
      · simp only [Action.touches, decide_eq_true_eq] at ht
        obtain ⟨rfl, rfl⟩ := ht
        obtain ⟨m, hm⟩ : ∃ m, s.manager.view c.keyspace = some m := by
          rcases hx with hx | hx <;> exact Option.map_eq_some'.1 hx |>.imp fun _ h => h.1
        simp [Keyspaces.request, hm, Keyspaces.entry, Contents.write]
      · cases hc
  · exact hx
  · exact hx
  · rw [KeyspaceManager.insert, KeyspaceManager.view_insert]
    by_cases hn : n = p.cmd.keyspace
    · subst hn
      simp [Keyspaces.entry]
    · rwa [Keyspaces.entry_update_ne hn]
  · exact hx
  · rw [KeyspaceManager.view_insert]
    by_cases hn : n = name
    · subst hn
      have hv := KeyspaceManager.view_of_lookup hdb
      rcases Db.sampleAndEvict_contents db p.start p.rss order draw with he | ⟨k, he⟩
      · simpa [Keyspaces.entry, he, hv] using hx
      · by_cases hk : key = k
        · subst hk
          simp [Keyspaces.entry, he, Contents.write]
        · simpa [Keyspaces.entry, he, hv, Contents.write, Function.update_noteq hk] using hx
    · rwa [Keyspaces.entry_update_ne hn]

end Steps

section Runs

variable {s s' : Workers} {as : List Action} {n key : String}

/-- a run appends the responses of its steps to those written before -/
theorem Workers.run_answers (h : s.run as = some s') : ∃ l, s'.answers = s.answers ++ l := by
  induction as generalizing s with
  | nil => cases h; exact ⟨[], (List.append_nil _).symm⟩
  | cons a as ih =>
    obtain ⟨s₁, h₁, h⟩ := Option.bind_eq_some.1 h
    obtain ⟨l₁, hl₁⟩ := Workers.step_answers h₁
    obtain ⟨l, hl⟩ := ih h
    exact ⟨l₁ ++ l, by rw [hl, hl₁, List.append_assoc]⟩

/-- **What a run can change.** From a state in which no CREATE of `n` is between its two steps, a run none of whose
steps touches `(n, key)` leaves what `n` holds under `key`, and leaves no CREATE of `n` between its steps -/
theorem Workers.run_untouched (hp : ∀ p ∈ s.pending, p.cmd.keyspace ≠ n)
    (ht : ∀ a ∈ as, a.touches n key = false)
    (h : s.run as = some s') :
    (∀ p ∈ s'.pending, p.cmd.keyspace ≠ n) ∧ s'.manager.view.entry n key = s.manager.view.entry n key := by
  induction as generalizing s with
  | nil => cases h; exact ⟨hp, rfl⟩
  | cons a as ih =>
    obtain ⟨s₁, h₁, h⟩ := Option.bind_eq_some.1 h
    obtain ⟨hp₁, he₁⟩ := Workers.step_untouched hp (ht a (List.mem_cons_self a as)) h₁
    obtain ⟨hp', he'⟩ := ih hp₁ (fun b hb => ht b (List.mem_cons_of_mem a hb)) h
    exact ⟨hp', he'.trans he₁⟩

/-- **A GET reads the last SET of its key.** Let handler `t` run a SET of `key` to `v` in an existing keyspace `n`
while no CREATE of `n` is between its two steps; then let any handlers run any steps, none of which sets or deletes
`key` in `n`, is an eviction pass of `n` or a CREATE of `n`; then let handler `t'` run a GET of `key` in `n`. The SET
is answered 1 and the GET answers the Blob `v` -/
theorem Workers.get_after_set {t t' : ℕ} {v : Bytes} (hn : n ∈ s.manager.keyspaces)
    (hp : ∀ p ∈ s.pending, p.cmd.keyspace ≠ n) (ht : ∀ a ∈ as, a.touches n key = false)
    (h : s.run (.request t (.set ⟨key, v, n⟩) :: (as ++ [.request t' (.get ⟨key, n⟩)])) = some s') :
    ∃ mid, s'.answers =
      s.answers ++ (t, .set ⟨key, v, n⟩, countReply 1) :: (mid ++ [(t', .get ⟨key, n⟩, writeBlob v)]) := by
  obtain ⟨s₁, h₁, h⟩ := Option.bind_eq_some.1 h
  obtain ⟨hp₁, he₁, ha₁⟩ := Workers.step_set hn h₁
  rw [Workers.run_append] at h
  obtain ⟨s₂, h₂, h⟩ := Option.bind_eq_some.1 h
  obtain ⟨-, he₂⟩ := Workers.run_untouched (hp₁ ▸ hp) ht h₂
  obtain ⟨mid, ha₂⟩ := Workers.run_answers h₂
  obtain ⟨s₃, h₃, h⟩ := Option.bind_eq_some.1 h
  cases h
  rw [Workers.step_get (he₂.trans he₁) h₃, ha₂, ha₁]
  exact ⟨mid, by simp [valueReply]⟩

/-- a keyspace `ks` just created on a fresh server, with no CREATE pending -/
def createdKs : Workers := ⟨(KeyspaceManager.new 0).insert "ks" .lru 3, 2, [], [], []⟩

/-- handler 1 sets `k`, handler 2 sets another key of `ks`, and handler 3 reads `k` back -/
theorem set_read_back_past_other_set :
    ∃ s', createdKs.run (.request 1 (.set ⟨"k", [118], "ks"⟩) ::
        ([Action.request 2 (.set ⟨"j", [119], "ks"⟩)] ++ [Action.request 3 (.get ⟨"k", "ks"⟩)])) = some s' ∧
      ∃ mid, s'.answers = createdKs.answers ++ (1, .set ⟨"k", [118], "ks"⟩, countReply 1) ::
        (mid ++ [(3, .get ⟨"k", "ks"⟩, writeBlob [118])]) := by
  obtain ⟨s', hs'⟩ : ∃ s', createdKs.run (.request 1 (.set ⟨"k", [118], "ks"⟩) ::
      ([Action.request 2 (.set ⟨"j", [119], "ks"⟩)] ++ [Action.request 3 (.get ⟨"k", "ks"⟩)])) = some s' :=
    ⟨_, rfl⟩
  exact ⟨s', hs', Workers.get_after_set (by decide) (by simp [createdKs]) (by decide) hs'⟩

theorem Workers.run_keeps {v : Bytes}
    (hx : s.manager.view.entry n key = some (some v) ∨ s.manager.view.entry n key = some none)
    (ha : ∀ a ∈ as, a.setsKey n key = false) (h : s.run as = some s') :
    s'.manager.view.entry n key = some (some v) ∨ s'.manager.view.entry n key = some none := by
  induction as generalizing s with
  | nil => cases h; exact hx
  | cons a as ih =>
    obtain ⟨s₁, h₁, h⟩ := Option.bind_eq_some.1 h
    exact ih (Workers.step_keeps hx (ha a (List.mem_cons_self a as)) h₁)
      (fun b hb => ha b (List.mem_cons_of_mem a hb)) h

/-- **A GET never reads a stale value.** Let handler `t` run a SET of `key` to `v` in an existing keyspace `n`; then
let any handlers run any steps that do not set `key` in `n`: DELs, eviction passes and CREATEs of `n` included, and
CREATEs racing for `n`; then let handler `t'` run a GET of `key` in `n`. The SET is answered 1, and the GET answers
the Blob `v` or Null: never an older value, and never one no SET wrote -/
theorem Workers.get_latest_set {t t' : ℕ} {v : Bytes} (hn : n ∈ s.manager.keyspaces)
    (ha : ∀ a ∈ as, a.setsKey n key = false)
    (h : s.run (.request t (.set ⟨key, v, n⟩) :: (as ++ [.request t' (.get ⟨key, n⟩)])) = some s') :
    ∃ mid out, s'.answers =
        s.answers ++ (t, .set ⟨key, v, n⟩, countReply 1) :: (mid ++ [(t', .get ⟨key, n⟩, out)]) ∧
      (out = writeBlob v ∨ out = writeNull) := by
  obtain ⟨s₁, h₁, h⟩ := Option.bind_eq_some.1 h
  obtain ⟨-, he₁, ha₁⟩ := Workers.step_set hn h₁
  rw [Workers.run_append] at h
  obtain ⟨s₂, h₂, h⟩ := Option.bind_eq_some.1 h
  obtain ⟨mid, ha₂⟩ := Workers.run_answers h₂
  obtain ⟨s₃, h₃, h⟩ := Option.bind_eq_some.1 h
  cases h
  rcases Workers.run_keeps (.inl he₁) ha h₂ with he₂ | he₂
  · exact ⟨mid, _, by rw [Workers.step_get he₂ h₃, ha₂, ha₁]; simp [valueReply], .inl rfl⟩
  · exact ⟨mid, _, by rw [Workers.step_get he₂ h₃, ha₂, ha₁]; simp [valueReply], .inr rfl⟩

/-- `ks` as a racing CREATE left it: created, with a second CREATE of it between its two steps -/
def racingKs : Workers := { createdKs with pending := [⟨2, ⟨"ks", .random, none⟩⟩] }

/-- handler 1 sets `k` while a CREATE of `ks` races; the second `insert` replaces `ks`, and handler 3's GET answers
Null, not a stale value -/
theorem set_lost_to_race_reads_null :
    ∃ s', racingKs.run (.request 1 (.set ⟨"k", [118], "ks"⟩) ::
        ([Action.insert 2] ++ [Action.request 3 (.get ⟨"k", "ks"⟩)])) = some s' ∧
      ∃ mid out, s'.answers = racingKs.answers ++ (1, .set ⟨"k", [118], "ks"⟩, countReply 1) ::
          (mid ++ [(3, .get ⟨"k", "ks"⟩, out)]) ∧
        (out = writeBlob [118] ∨ out = writeNull) := by
  obtain ⟨s', hs'⟩ : ∃ s', racingKs.run (.request 1 (.set ⟨"k", [118], "ks"⟩) ::
      ([Action.insert 2] ++ [Action.request 3 (.get ⟨"k", "ks"⟩)])) = some s' :=
    ⟨_, rfl⟩
  exact ⟨s', hs', Workers.get_latest_set (by decide) (by decide) hs'⟩

end Runs

/-! ## Every interleaving refines the map with racing CREATEs -/

section Racy

variable {s s' : Workers}

end Racy

end Segment
