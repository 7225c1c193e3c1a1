/-
The keyspace manager under concurrent handlers (`keyspace.rs`, `command.rs`): the atomic steps of `command::exec` as
several connection handlers run them at once, together with the keyspaces' evictor tasks.

`Workers` is the state the handler threads and the evictor tasks share: the `KeyspaceManager`, the clock
`Instant::now()` reads, the CREATEs that are between their two steps, the evictor passes that have read their
starting instant and not yet taken the store mutex, and the responses written so far, each with its handler and its
command. The steps (`Workers.step`) are the DashMap calls and the store-mutex critical sections:
- a GET, SET or DEL is one step: `with_keyspace` holds the DashMap entry (`get_mut`) while its closure runs, and the
  closure takes the store mutex;
- a CREATE is two: `contains_key`, then (when it answered false) `Keyspace::new` and `insert`. Nothing shared is
  touched between them: the evictor task that `start_evictor` spawns works on the new `Db`, which no one else
  reaches before the `insert`;
- a pass of a keyspace's evictor task (`sample_and_evict`) is two: it reads the resident size and its starting
  instant `Instant::now()` before it takes the store mutex, and runs its loop under the mutex. Other handlers' steps
  may run between the two, and a GET or SET among them stamps an access time later than the pass's start. Only a
  keyspace whose evictor is not `Noop` has an evictor task. A keyspace that an `insert` replaces is dropped, its `Db`
  shut down, and its evictor's pass reaches nothing any request sees, so the pass is dropped with it.

Results:
- `Workers.step_request`, `Workers.step_create_absent`, `Workers.step_create_present`, `Workers.step_insert`,
  `Workers.step_startPass`, `Workers.step_evict`: what each kind of step does;
- `create_race_loses_set`: two CREATEs of one name whose `contains_key` calls both run before either `insert` both
  answer 1, and the second `insert` replaces the keyspace the first one made: a SET acknowledged with 1 in between is
  lost, and a later GET answers Null;
- `exec_view`: a GET, SET or DEL changes the keyspaces' contents and answers as the operation of `Atomic` does: a map
  from names to keyspaces, each with its evictor and a map from keys to values, whose operations are atomic and whose
  evictions remove keys only from keyspaces that have an evictor;
- `Workers.runSerial_refines`: when no CREATE of a name starts while another CREATE of it is between its two steps,
  the system refines `Atomic`: its responses are those of the map, in the same order, and its keyspaces' contents are
  the map's;
- `Atomic.run_create_once`, `Workers.runSerial_create_once`: in the map a name is created at most once, so with
  serial CREATEs at most one CREATE of a name answers 1.
-/
import Segment.Handler

namespace Segment

/-! ## Model -/

/-- a CREATE whose `contains_key` answered false, with its `insert` still to come -/
structure PendingCreate where
  thread : ℕ
  cmd : Create

/-- a pass of the evictor task of `keyspace` that has read the resident size `rss` (`get_rss`) and its starting
instant `start` (`Instant::now()`), and has still to take the store mutex -/
structure EvictorPass where
  keyspace : String
  rss : ℕ
  start : ℕ

/-- the shared state of the handlers and the evictor tasks: the keyspace manager, the clock, the CREATEs between their
two steps, the evictor passes between their two steps, and the responses written so far (handler, command, bytes) in
the order they were written -/
structure Workers where
  manager : KeyspaceManager
  clock : ℕ
  pending : List PendingCreate
  passes : List EvictorPass
  answers : List (ℕ × Command × Bytes)

/-- one atomic step -/
inductive Action where
  /-- handler `thread` starts running `cmd`: the whole command, or the `contains_key` of a CREATE -/
  | request (thread : ℕ) (cmd : Command)
  /-- handler `thread`, in the middle of a CREATE, runs `Keyspace::new` and `insert` -/
  | insert (thread : ℕ)
  /-- the evictor task of `keyspace` starts a pass: `is_shutdown`, `get_rss` answering `rss`, and `Instant::now()` -/
  | startPass (keyspace : String) (rss : ℕ)
  /-- that pass takes the store mutex and runs its loop over the store in the order `order`, with the draws `draw` -/
  | evict (keyspace : String) (order : List (Σ _ : String, Value)) (draw : ℕ → Bool)

/-- CREATE, the one command that is two steps -/
def Command.isCreate : Command → Bool
  | .create _ => true
  | _ => false

/-- the fresh system `server::start` sets up -/
def Workers.init (serverMaxMemory : ℕ) : Workers := ⟨KeyspaceManager.new serverMaxMemory, 0, [], [], []⟩

/-- handler `thread` is in the middle of a CREATE -/
def Workers.busy (s : Workers) (thread : ℕ) : Bool := s.pending.any (·.thread = thread)

/-- handler `thread` writes `out` for `cmd`; the clock moves on -/
def Workers.answer (s : Workers) (thread : ℕ) (cmd : Command) (out : Bytes) : Workers :=
  { s with clock := s.clock + 1, answers := s.answers ++ [(thread, cmd, out)] }

/-- the response of a count: `write_integer(n as i64)` -/
def countReply (n : UInt8) : Bytes := writeInteger (I64.ofByte n)

/-- one atomic step; `none` when the step cannot be taken: the handler is busy or has no CREATE to finish, or the
keyspace has no evictor task (it does not exist, or its evictor is `Noop`), already has a pass started, or has none to
finish -/
def Workers.step (s : Workers) : Action → Option Workers
  | .request t cmd =>
    if s.busy t then none
    else
      match cmd with
      | .create c =>
        if s.manager.containsKey c.keyspace then some (s.answer t cmd (countReply 0))
        else some { s with clock := s.clock + 1, pending := s.pending ++ [⟨t, c⟩] }
      | cmd =>
        let (m, out) := exec cmd s.manager s.clock
        some { s.answer t cmd out with manager := m }
  | .insert t =>
    match s.pending.find? (·.thread = t) with
    | some p =>
      some { s.answer t (.create p.cmd) (countReply 1) with
        manager := s.manager.insert p.cmd.keyspace p.cmd.evictor (p.cmd.maxMemorySampleSize.getD 0)
        pending := s.pending.filter (·.thread ≠ t)
        passes := s.passes.filter (·.keyspace ≠ p.cmd.keyspace) }
    | none => none
  | .startPass n rss =>
    match s.manager.keyspaces.lookup n with
    | some db =>
      if db.evictor = .noop ∨ s.passes.any (·.keyspace = n) then none
      else some { s with clock := s.clock + 1, passes := s.passes ++ [⟨n, rss, s.clock⟩] }
    | none => none
  | .evict n order draw =>
    match s.passes.find? (·.keyspace = n), s.manager.keyspaces.lookup n with
    | some p, some db =>
      if db.evictor = .noop then none
      else
        some { s with
          manager := { s.manager with
            keyspaces := s.manager.keyspaces.insert n (db.sampleAndEvict p.start p.rss order draw) }
          passes := s.passes.filter (·.keyspace ≠ n) }
    | _, _ => none

/-- a run: the steps one after another, `none` as soon as one cannot be taken -/
def Workers.run (s : Workers) : List Action → Option Workers
  | [] => some s
  | a :: as => (s.step a).bind (·.run as)

@[simp] theorem Workers.run_nil (s : Workers) : s.run [] = some s := rfl

@[simp] theorem Workers.run_cons (s : Workers) (a : Action) (as : List Action) :
    s.run (a :: as) = (s.step a).bind (·.run as) := rfl

theorem Workers.run_append (s : Workers) (as bs : List Action) : s.run (as ++ bs) = (s.run as).bind (·.run bs) := by
  induction as generalizing s with
  | nil => rfl
  | cons a as ih => simp only [List.cons_append, Workers.run_cons, ih, Option.bind_assoc]

/-! ## The steps -/

section Steps

variable {s : Workers} {t : ℕ}

theorem Workers.step_request {cmd : Command} (hb : s.busy t = false) (hc : cmd.isCreate = false) :
    s.step (.request t cmd) =
      some { s.answer t cmd (exec cmd s.manager s.clock).2 with manager := (exec cmd s.manager s.clock).1 } := by
  cases cmd <;> simp_all [Workers.step, Command.isCreate]

theorem Workers.step_create_absent {c : Create} (hb : s.busy t = false) (hn : c.keyspace ∉ s.manager.keyspaces) :
    s.step (.request t (.create c)) = some { s with clock := s.clock + 1, pending := s.pending ++ [⟨t, c⟩] } := by
  simp [Workers.step, hb, KeyspaceManager.containsKey, hn]

theorem Workers.step_create_present {c : Create} (hb : s.busy t = false) (hn : c.keyspace ∈ s.manager.keyspaces) :
    s.step (.request t (.create c)) = some (s.answer t (.create c) (countReply 0)) := by
  simp [Workers.step, hb, KeyspaceManager.containsKey, hn]

theorem Workers.step_insert {p : PendingCreate} (hp : s.pending.find? (·.thread = t) = some p) :
    s.step (.insert t) = some { s.answer t (.create p.cmd) (countReply 1) with
      manager := s.manager.insert p.cmd.keyspace p.cmd.evictor (p.cmd.maxMemorySampleSize.getD 0)
      pending := s.pending.filter (·.thread ≠ t)
      passes := s.passes.filter (·.keyspace ≠ p.cmd.keyspace) } := by
  simp [Workers.step, hp]

theorem Workers.step_startPass {n : String} {rss : ℕ} {db : Db} (hdb : s.manager.keyspaces.lookup n = some db)
    (he : db.evictor ≠ .noop) (hp : s.passes.any (·.keyspace = n) = false) :
    s.step (.startPass n rss) = some { s with clock := s.clock + 1, passes := s.passes ++ [⟨n, rss, s.clock⟩] } := by
  simp [Workers.step, hdb, he, hp]

theorem Workers.step_evict {n : String} {order : List (Σ _ : String, Value)} {draw : ℕ → Bool} {p : EvictorPass}
    {db : Db} (hp : s.passes.find? (·.keyspace = n) = some p) (hdb : s.manager.keyspaces.lookup n = some db)
    (he : db.evictor ≠ .noop) :
    s.step (.evict n order draw) = some { s with
      manager := { s.manager with
        keyspaces := s.manager.keyspaces.insert n (db.sampleAndEvict p.start p.rss order draw) }
      passes := s.passes.filter (·.keyspace ≠ n) } := by
  simp [Workers.step, hp, hdb, he]

/-- a handler that is not in the middle of a CREATE can always start a command -/
theorem Workers.step_request_isSome (hb : s.busy t = false) (cmd : Command) : (s.step (.request t cmd)).isSome := by
  cases hc : cmd.isCreate
  · simp [Workers.step_request hb hc]
  · obtain ⟨c⟩ | ⟨c⟩ | ⟨c⟩ | ⟨c⟩ := cmd <;> simp only [Command.isCreate, Bool.false_eq_true] at hc
    by_cases hn : c.keyspace ∈ s.manager.keyspaces
    · simp [Workers.step_create_present hb hn]
    · simp [Workers.step_create_absent hb hn]

/-- a handler in the middle of a CREATE can always run its `insert`, and is then no longer in the middle of one -/
theorem Workers.step_insert_busy (hb : s.busy t = true) : ∃ w, s.step (.insert t) = some w ∧ w.busy t = false := by
  obtain ⟨p, hp⟩ := Option.isSome_iff_exists.1 (List.find?_isSome.2 (List.any_eq_true.1 hb))
  refine ⟨_, Workers.step_insert hp, ?_⟩
  simp [Workers.busy]

end Steps

/-! ## Two CREATEs of one name -/

/-- **Two CREATEs of one name race.** From any state with no CREATE pending and the name absent: handlers `t₁` and
`t₂` run the `contains_key` of a CREATE of the name one after the other, `t₁` runs its `insert`, a SET of a key in the
name is acknowledged with 1, `t₂` runs its `insert`, and a GET of the key follows. Both CREATEs answer 1, and the GET
answers Null: the second `insert` replaced the keyspace holding the SET by an empty one. -/
theorem create_race_loses_set {s : Workers} {t₁ t₂ t₃ : ℕ} {c₁ c₂ : Create} {key : String} {value : Bytes}
    (hp : s.pending = []) (hn : c₁.keyspace ∉ s.manager.keyspaces) (hk : c₂.keyspace = c₁.keyspace)
    (h12 : t₁ ≠ t₂) (h32 : t₃ ≠ t₂) :
    (s.run [.request t₁ (.create c₁), .request t₂ (.create c₂), .insert t₁,
      .request t₃ (.set ⟨key, value, c₁.keyspace⟩), .insert t₂, .request t₃ (.get ⟨key, c₁.keyspace⟩)]).map
        Workers.answers =
      some (s.answers ++ [(t₁, .create c₁, countReply 1), (t₃, .set ⟨key, value, c₁.keyspace⟩, countReply 1),
        (t₂, .create c₂, countReply 1), (t₃, .get ⟨key, c₁.keyspace⟩, writeNull)]) := by
  simp [Workers.step, Workers.busy, Workers.answer, hp, KeyspaceManager.containsKey, hn, hk, h12, h12.symm, h32,
    h32.symm, KeyspaceManager.insert, exec, Set.exec, Get.exec, execCount, KeyspaceManager.withKeyspace, Db.set,
    Db.get, Db.new, countReply]

/-- from a fresh server: two CREATEs of `ks` both answer 1, and the GET of `k` after `SET ks k` answers Null -/
theorem create_race_on_fresh_server :
    ((Workers.init 0).run [.request 1 (.create ⟨"ks", .lru, none⟩), .request 2 (.create ⟨"ks", .random, none⟩),
      .insert 1, .request 3 (.set ⟨"k", [118], "ks"⟩), .insert 2, .request 3 (.get ⟨"k", "ks"⟩)]).map Workers.answers =
      some [(1, .create ⟨"ks", .lru, none⟩, countReply 1), (3, .set ⟨"k", [118], "ks"⟩, countReply 1),
        (2, .create ⟨"ks", .random, none⟩, countReply 1), (3, .get ⟨"k", "ks"⟩, writeNull)] :=
  create_race_loses_set rfl (by simp [Workers.init, KeyspaceManager.new]) rfl (by decide) (by decide)

/-! ## What the keyspaces are for -/

/-- a keyspace as a map: its evictor, and the value under each key -/
structure Contents where
  evictor : Evictor
  data : String → Option Bytes

/-- the keyspaces as a map: each name is absent, or names a keyspace -/
abbrev Keyspaces := String → Option Contents

/-- the keyspace with `v` under `key` (`none` removes the key) -/
def Contents.write (c : Contents) (key : String) (v : Option Bytes) : Contents :=
  { c with data := Function.update c.data key v }

/-- the response to a request on a keyspace that does not exist -/
def missingReply (keyspace : String) : Bytes :=
  writeError ("ERREXEC " ++ ("ERR keyspace '" ++ keyspace ++ "' does not exist"))

/-- the response to a GET -/
def valueReply : Option Bytes → Bytes
  | some value => writeBlob value
  | none => writeNull

/-- a request on the map, as one atomic step: the map after it, and the response -/
def Keyspaces.request (ks : Keyspaces) : Command → Keyspaces × Bytes
  | .create c =>
    match ks c.keyspace with
    | some _ => (ks, countReply 0)
    | none => (Function.update ks c.keyspace (some ⟨c.evictor, fun _ => none⟩), countReply 1)
  | .set c =>
    match ks c.keyspace with
    | some m => (Function.update ks c.keyspace (some (m.write c.key (some c.value))), countReply 1)
    | none => (ks, missingReply c.keyspace)
  | .get c =>
    match ks c.keyspace with
    | some m => (ks, valueReply (m.data c.key))
    | none => (ks, missingReply c.keyspace)
  | .del c =>
    match ks c.keyspace with
    | some m =>
      (Function.update ks c.keyspace (some (m.write c.key none)), countReply (if (m.data c.key).isSome then 1 else 0))
    | none => (ks, missingReply c.keyspace)

/-- an eviction that removes `key` from `keyspace`: only a keyspace whose evictor is not `Noop` loses keys so -/
def Keyspaces.evict (ks : Keyspaces) (keyspace key : String) : Keyspaces :=
  match ks keyspace with
  | some m => if m.evictor = .noop then ks else Function.update ks keyspace (some (m.write key none))
  | none => ks

/-- an operation on the map: a request of a handler, or an eviction -/
inductive Op where
  | request (thread : ℕ) (cmd : Command)
  | evict (keyspace key : String)

/-- the map, and the responses written so far -/
structure Atomic where
  keyspaces : Keyspaces
  answers : List (ℕ × Command × Bytes)

/-- one operation on the map -/
def Atomic.step (σ : Atomic) : Op → Atomic
  | .request t cmd => ⟨(σ.keyspaces.request cmd).1, σ.answers ++ [(t, cmd, (σ.keyspaces.request cmd).2)]⟩
  | .evict n k => { σ with keyspaces := σ.keyspaces.evict n k }

/-- operations one after another -/
def Atomic.run (σ : Atomic) (ops : List Op) : Atomic := ops.foldl Atomic.step σ

theorem Atomic.run_append (σ : Atomic) (ops₁ ops₂ : List Op) : σ.run (ops₁ ++ ops₂) = (σ.run ops₁).run ops₂ :=
  List.foldl_append _ _ _ _

/-- no request but CREATE, and no eviction, makes a name present or absent -/
theorem Keyspaces.request_isSome {ks : Keyspaces} {cmd : Command} (hc : cmd.isCreate = false) (n : String) :
    ((ks.request cmd).1 n).isSome = (ks n).isSome := by
  obtain ⟨c⟩ | ⟨c⟩ | ⟨c⟩ | ⟨c⟩ := cmd <;> simp only [Command.isCreate] at hc <;>
    · simp only [Keyspaces.request]
      split <;> simp_all [Function.update_apply, apply_ite]

theorem Keyspaces.evict_isSome (ks : Keyspaces) (keyspace key n : String) :
    ((ks.evict keyspace key) n).isSome = (ks n).isSome := by
  rcases h : ks keyspace with _ | m
  · simp [Keyspaces.evict, h]
  · by_cases he : m.evictor = .noop
    · simp [Keyspaces.evict, h, he]
    · by_cases hn : n = keyspace <;> simp_all [Keyspaces.evict, Function.update_apply]

/-! ## Serial CREATEs refine the map -/

/-- what a keyspace holds for reads: its evictor, and its store's data (access times are the evictor's business) -/
def Db.contents (db : Db) : Contents := ⟨db.evictor, db.view⟩

/-- what a manager's keyspaces hold for reads -/
def KeyspaceManager.view (m : KeyspaceManager) : Keyspaces := fun n => (m.keyspaces.lookup n).map Db.contents

/-- the system seen as the map: its keyspaces' contents and its responses -/
def Workers.abs (s : Workers) : Atomic := ⟨s.manager.view, s.answers⟩

theorem Db.contents_set (db : Db) (now : ℕ) (key : String) (value : Bytes) :
    (db.set now key value).1.contents = db.contents.write key (some value) := by
  simp only [Db.contents, Contents.write, Db.view_set]
  rfl

theorem Db.contents_get (db : Db) (now : ℕ) (key : String) :
    (db.get now key).1.contents = db.contents ∧ (db.get now key).2 = db.contents.data key := by
  refine ⟨?_, (db.get_view now key).1⟩
  simp only [Db.contents, (db.get_view now key).2, Contents.mk.injEq, and_true]
  unfold Db.get
  split <;> rfl

theorem Db.contents_del (db : Db) (key : String) :
    (db.del key).1.contents = db.contents.write key none ∧
      (db.del key).2 = if (db.contents.data key).isSome then 1 else 0 := by
  refine ⟨?_, (db.view_del key).2⟩
  simp only [Db.contents, Contents.write, (db.view_del key).1, Contents.mk.injEq, and_true]
  simp [Db.del]

/-- an eviction pass keeps a keyspace's contents, or removes one key from them -/
theorem Db.sampleAndEvict_contents (db : Db) (now rss : ℕ) (order : List (Σ _ : String, Value)) (draw : ℕ → Bool) :
    (db.sampleAndEvict now rss order draw).contents = db.contents ∨
      ∃ k, (db.sampleAndEvict now rss order draw).contents = db.contents.write k none := by
  have he : (db.sampleAndEvict now rss order draw).evictor = db.evictor := by
    unfold Db.sampleAndEvict
    split_ifs
    · rfl
    · rfl
    · split <;> rfl
  rcases db.sampleAndEvict_view now rss order draw with hv | ⟨k, -, -, hv⟩
  · exact .inl (by simp only [Db.contents, he, hv])
  · exact .inr ⟨k, by simp only [Db.contents, Contents.write, he, hv]⟩

@[simp] theorem Db.contents_new (evictor : Evictor) (serverMaxMemory maxMemorySampleSize : ℕ) :
    (Db.new evictor serverMaxMemory maxMemorySampleSize).contents = ⟨evictor, fun _ => none⟩ := by
  refine congrArg _ (funext fun k => ?_)
  simp [Db.view, Db.new]

theorem KeyspaceManager.view_eq_none {m : KeyspaceManager} {n : String} : m.view n = none ↔ n ∉ m.keyspaces := by
  simp [KeyspaceManager.view, AList.lookup_eq_none]

theorem KeyspaceManager.view_insert (m : KeyspaceManager) (n : String) (db : Db) :
    ({ m with keyspaces := m.keyspaces.insert n db } : KeyspaceManager).view =
      Function.update m.view n (some db.contents) := by
  funext k
  by_cases hk : k = n
  · subst hk; simp [KeyspaceManager.view]
  · simp [KeyspaceManager.view, AList.lookup_insert_ne hk, hk]

theorem KeyspaceManager.view_of_lookup {m : KeyspaceManager} {n : String} {db : Db}
    (h : m.keyspaces.lookup n = some db) : m.view n = some db.contents := by
  simp [KeyspaceManager.view, h]

theorem KeyspaceManager.view_of_lookup_none {m : KeyspaceManager} {n : String} (h : m.keyspaces.lookup n = none) :
    m.view n = none := by
  simp [KeyspaceManager.view, h]

/-- the store step of an eviction pass of keyspace `n`, whose evictor is not `Noop`, is the map's eviction of the
key it removes, or leaves the map as it was -/
theorem KeyspaceManager.view_sampleAndEvict {m : KeyspaceManager} {n : String} {db : Db}
    (hdb : m.keyspaces.lookup n = some db) (he : db.evictor ≠ .noop) (now rss : ℕ)
    (order : List (Σ _ : String, Value)) (draw : ℕ → Bool) :
    ({ m with keyspaces := m.keyspaces.insert n (db.sampleAndEvict now rss order draw) } : KeyspaceManager).view =
        m.view ∨
      ∃ k, ({ m with keyspaces := m.keyspaces.insert n (db.sampleAndEvict now rss order draw) } :
        KeyspaceManager).view = m.view.evict n k := by
  have hn := KeyspaceManager.view_of_lookup hdb
  rw [KeyspaceManager.view_insert]
  rcases db.sampleAndEvict_contents now rss order draw with hc | ⟨k, hc⟩
  · exact .inl (by rw [hc, ← hn, Function.update_eq_self])
  · exact .inr ⟨k, by rw [hc, Keyspaces.evict, hn]; simp [he, Db.contents]⟩

/-- **`exec` is the map's request.** A GET, SET or DEL, run as one step, changes the contents of the keyspaces and
answers as the map's atomic request does -/
theorem exec_view {cmd : Command} (hc : cmd.isCreate = false) (m : KeyspaceManager) (now : ℕ) :
    ((exec cmd m now).1.view, (exec cmd m now).2) = m.view.request cmd := by
  obtain ⟨c⟩ | ⟨c⟩ | ⟨c⟩ | ⟨c⟩ := cmd <;> simp [Command.isCreate] at hc <;>
    rcases h : m.keyspaces.lookup c.keyspace with _ | db
  case get.none | set.none | del.none =>
    simp [exec, Get.exec, Set.exec, Del.exec, execCount, KeyspaceManager.withKeyspace_none h, Keyspaces.request,
      KeyspaceManager.view_of_lookup_none h, missingReply]
  all_goals simp only [exec, Get.exec, Set.exec, Del.exec, execCount, KeyspaceManager.withKeyspace_some h,
    Keyspaces.request, KeyspaceManager.view_of_lookup h, KeyspaceManager.view_insert]
  case get.some =>
    obtain ⟨h1, h2⟩ := Db.contents_get db now c.key
    rw [h2]
    cases db.contents.data c.key <;>
      simp only [KeyspaceManager.view_insert, h1, ← KeyspaceManager.view_of_lookup h, Function.update_eq_self,
        valueReply]
  case set.some => rw [Db.contents_set]; rfl
  case del.some => rw [(Db.contents_del db c.key).1, (Db.contents_del db c.key).2]; rfl

/-- a step that keeps CREATE atomic: no CREATE of a name starts while another CREATE of it is between its two steps -/
def Workers.serial (s : Workers) : Action → Bool
  | .request _ (.create c) => s.pending.all (·.cmd.keyspace ≠ c.keyspace)
  | _ => true

/-- a run all of whose steps keep CREATE atomic -/
def Workers.runSerial (s : Workers) : List Action → Option Workers
  | [] => some s
  | a :: as => if s.serial a then (s.step a).bind (·.runSerial as) else none

/-- the invariant of such runs: the name of every pending CREATE is absent, and no two pending CREATEs share a name -/
structure Workers.Inv (s : Workers) : Prop where
  absent : ∀ p ∈ s.pending, s.manager.view p.cmd.keyspace = none
  nodup : (s.pending.map (·.cmd.keyspace)).Nodup

theorem Workers.Inv.init (serverMaxMemory : ℕ) : (Workers.init serverMaxMemory).Inv :=
  ⟨by simp [Workers.init], by simp [Workers.init]⟩

/-- a step that keeps the pending CREATEs and makes no name present or absent keeps the invariant -/
theorem Workers.Inv.of_isSome {s s' : Workers} (hi : s.Inv) (hp : s'.pending = s.pending)
    (hv : ∀ n, (s'.manager.view n).isSome = (s.manager.view n).isSome) : s'.Inv := by
  refine ⟨fun p h => ?_, hp ▸ hi.nodup⟩
  rw [hp] at h
  rw [← Option.not_isSome_iff_eq_none, hv, Option.not_isSome_iff_eq_none]
  exact hi.absent p h

section Refinement

variable {s s' : Workers}

theorem Workers.step_request_refines {t : ℕ} {cmd : Command} (hi : s.Inv) (hs : s.serial (.request t cmd) = true)
    (h : s.step (.request t cmd) = some s') : s'.Inv ∧ ∃ ops, s.abs.run ops = s'.abs := by
  cases hb : s.busy t
  case true => simp [Workers.step, hb] at h
  cases hc : cmd.isCreate
  case false =>
    rw [Workers.step_request hb hc] at h
    cases h
    have he := exec_view hc s.manager s.clock
    refine ⟨hi.of_isSome rfl fun n => ?_, [.request t cmd], ?_⟩
    · rw [show (exec cmd s.manager s.clock).1.view = _ from congrArg Prod.fst he, Keyspaces.request_isSome hc]
    · simp [Atomic.run, Atomic.step, Workers.abs, Workers.answer, ← he]
  obtain ⟨c⟩ | ⟨c⟩ | ⟨c⟩ | ⟨c⟩ := cmd <;> simp [Command.isCreate] at hc
  by_cases hn : c.keyspace ∈ s.manager.keyspaces
  · rw [Workers.step_create_present hb hn] at h
    cases h
    obtain ⟨db, hdb⟩ := Option.ne_none_iff_exists'.1 (mt KeyspaceManager.view_eq_none.1 (not_not.2 hn))
    exact ⟨hi.of_isSome rfl fun _ => rfl, [.request t (.create c)],
      by simp [Atomic.run, Atomic.step, Workers.abs, Workers.answer, Keyspaces.request, hdb]⟩
  · rw [Workers.step_create_absent hb hn] at h
    cases h
    refine ⟨⟨fun p hp => ?_, ?_⟩, [], rfl⟩
    · simp only [List.mem_append, List.mem_singleton] at hp
      obtain hp | rfl := hp
      · exact hi.absent p hp
      · exact KeyspaceManager.view_eq_none.2 hn
    · simp only [Workers.serial, List.all_eq_true, decide_eq_true_eq] at hs
      simpa [List.nodup_append, hi.nodup] using hs

theorem Workers.step_insert_refines {t : ℕ} (hi : s.Inv) (h : s.step (.insert t) = some s') :
    s'.Inv ∧ ∃ ops, s.abs.run ops = s'.abs := by
  cases hf : s.pending.find? (·.thread = t)
  case none => simp [Workers.step, hf] at h
  case some p =>
  rw [Workers.step_insert hf] at h
  cases h
  have hp : p ∈ s.pending := List.mem_of_find?_eq_some hf
  have hpt : p.thread = t := by simpa using List.find?_some hf
  have hv : s.manager.view p.cmd.keyspace = none := hi.absent p hp
  refine ⟨⟨fun q hq => ?_, ?_⟩, [.request t (.create p.cmd)], ?_⟩
  · obtain ⟨hq, hqt⟩ := List.mem_filter.1 hq
    have hne : q.cmd.keyspace ≠ p.cmd.keyspace := fun he => by
      have := List.inj_on_of_nodup_map hi.nodup hq hp he
      simp_all
    simpa [KeyspaceManager.insert, KeyspaceManager.view_insert, hne] using hi.absent q hq
  · exact hi.nodup.sublist ((List.filter_sublist _).map _)
  · simp [Atomic.run, Atomic.step, Workers.abs, Workers.answer, Keyspaces.request, hv, KeyspaceManager.insert,
      KeyspaceManager.view_insert]

theorem Workers.step_startPass_refines {n : String} {rss : ℕ} (hi : s.Inv) (h : s.step (.startPass n rss) = some s') :
    s'.Inv ∧ ∃ ops, s.abs.run ops = s'.abs := by
  simp only [Workers.step] at h
  split at h
  · split_ifs at h
    cases h
    exact ⟨hi.of_isSome rfl fun _ => rfl, [], rfl⟩
  · cases h

theorem Workers.step_evict_refines {n : String} {order : List (Σ _ : String, Value)} {draw : ℕ → Bool} (hi : s.Inv)
    (h : s.step (.evict n order draw) = some s') : s'.Inv ∧ ∃ ops, s.abs.run ops = s'.abs := by
  simp only [Workers.step] at h
  split at h
  · next p db hp hdb =>
    split_ifs at h with he
    cases h
    rcases KeyspaceManager.view_sampleAndEvict hdb he p.start p.rss order draw with hv | ⟨k, hv⟩
    · exact ⟨hi.of_isSome rfl fun m => by simp only [hv], [], by simp [Atomic.run, Workers.abs, hv]⟩
    · exact ⟨hi.of_isSome rfl fun m => by simp only [hv, Keyspaces.evict_isSome], [.evict n k],
        by simp [Atomic.run, Atomic.step, Workers.abs, hv]⟩
  · cases h

/-- every step that keeps CREATE atomic keeps the invariant, and is matched by at most one operation on the map -/
theorem Workers.step_refines {a : Action} (hi : s.Inv) (hs : s.serial a = true) (h : s.step a = some s') :
    s'.Inv ∧ ∃ ops, s.abs.run ops = s'.abs := by
  cases a with
  | request t cmd => exact Workers.step_request_refines hi hs h
  | insert t => exact Workers.step_insert_refines hi h
  | startPass n rss => exact Workers.step_startPass_refines hi h
  | evict n order draw => exact Workers.step_evict_refines hi h

/-- **Serial CREATEs refine the map.** Every run from a state with the invariant in which no CREATE of a name starts
while another CREATE of it is between its two steps is matched by a run of the map: the same responses, in the same
order, and the same contents of the keyspaces -/
theorem Workers.runSerial_refines {as : List Action} (hi : s.Inv) (h : s.runSerial as = some s') :
    s'.Inv ∧ ∃ ops, s.abs.run ops = s'.abs := by
  induction as generalizing s with
  | nil => cases h; exact ⟨hi, [], rfl⟩
  | cons a as ih =>
    simp only [Workers.runSerial] at h
    split_ifs at h with hs
    obtain ⟨s₁, h₁, h⟩ := Option.bind_eq_some.1 h
    obtain ⟨hi₁, ops₁, hr₁⟩ := Workers.step_refines hi hs h₁
    obtain ⟨hi', ops₂, hr₂⟩ := ih hi₁ h
    exact ⟨hi', ops₁ ++ ops₂, by rw [Atomic.run_append, hr₁, hr₂]⟩

end Refinement

/-! ## What the map guarantees -/

/-- a response saying that a CREATE of `name` made the keyspace -/
def createdOne (name : String) (a : ℕ × Command × Bytes) : Bool :=
  match a.2.1 with
  | .create c => c.keyspace = name && a.2.2 = countReply 1
  | _ => false

/-- the CREATEs of `name` that answered 1, and one more while `name` is absent -/
def Atomic.creations (σ : Atomic) (name : String) : ℕ :=
  σ.answers.countP (createdOne name) + if (σ.keyspaces name).isSome then 0 else 1

theorem countReply_zero_ne_one : countReply 0 ≠ countReply 1 := by
  simp [countReply, writeInteger, I64.ofByte, I64.toBytes, decimal, digitByte]

theorem Atomic.creations_step (σ : Atomic) (o : Op) (name : String) : (σ.step o).creations name = σ.creations name := by
  cases o with
  | evict n k => simp [Atomic.step, Atomic.creations, Keyspaces.evict_isSome]
  | request t cmd =>
    cases hc : cmd.isCreate
    case false =>
      have : createdOne name (t, cmd, (σ.keyspaces.request cmd).2) = false := by
        cases cmd <;> simp_all [Command.isCreate, createdOne]
      simp [Atomic.step, Atomic.creations, List.countP_append, Keyspaces.request_isSome hc, this]
    obtain ⟨c⟩ | ⟨c⟩ | ⟨c⟩ | ⟨c⟩ := cmd <;> simp [Command.isCreate] at hc
    by_cases hn : c.keyspace = name
    · subst hn
      cases h : σ.keyspaces c.keyspace <;>
        simp [Atomic.step, Atomic.creations, Keyspaces.request, h, createdOne, List.countP_append,
          countReply_zero_ne_one]
    · cases h : σ.keyspaces c.keyspace <;>
        simp [Atomic.step, Atomic.creations, Keyspaces.request, h, createdOne, List.countP_append, hn, Ne.symm hn]

theorem Atomic.creations_run (σ : Atomic) (ops : List Op) (name : String) :
    (σ.run ops).creations name = σ.creations name := by
  induction ops generalizing σ with
  | nil => rfl
  | cons o ops ih => exact (ih (σ.step o)).trans (σ.creations_step o name)

/-- **In the map a name is created once.** In every run of the map from no keyspaces, at most one CREATE of a name
answers 1 -/
theorem Atomic.run_create_once (ops : List Op) (name : String) :
    ((⟨fun _ => none, []⟩ : Atomic).run ops).answers.countP (createdOne name) ≤ 1 := by
  have h := Atomic.creations_run ⟨fun _ => none, []⟩ ops name
  simp [Atomic.creations] at h
  omega

/-! ## Serial CREATEs keep the map's guarantees -/

theorem Workers.abs_init (serverMaxMemory : ℕ) : (Workers.init serverMaxMemory).abs = ⟨fun _ => none, []⟩ := rfl

/-- **Serial CREATEs create a name once.** In every run from a fresh server in which no CREATE of a name starts while
another CREATE of it is between its two steps, at most one CREATE of each name answers 1 -/
theorem Workers.runSerial_create_once (serverMaxMemory : ℕ) (as : List Action) (name : String) :
    (((Workers.init serverMaxMemory).runSerial as).map fun s' => s'.answers.countP (createdOne name)).getD 0 ≤ 1 := by
  cases h : (Workers.init serverMaxMemory).runSerial as with
  | none => simp
  | some s' =>
    obtain ⟨-, ops, hr⟩ := Workers.runSerial_refines (Workers.Inv.init serverMaxMemory) h
    have := Atomic.run_create_once ops name
    rw [← Workers.abs_init serverMaxMemory, hr] at this
    exact this

end Segment
