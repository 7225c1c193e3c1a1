/-
The server and its shutdown (`server.rs`, `shutdown.rs`): `server::start`, the accept loop of `Server::start`, the
connection handlers it spawns, the keyspaces' evictor tasks, the broadcast channel that signals shutdown and the `mpsc`
channel that waits for the handlers.

A `Server` is the state the handlers and the evictor tasks share (`Workers`: the keyspace manager, the clock, the
CREATEs and the evictor passes between their two steps, the responses written), whether `server.start()` is still
selected against `ctrl_c()`, whether the `broadcast::Sender` and `start`'s own `mpsc::Sender` are alive, the number of
live `mpsc::Sender`s, the spawned tasks, whether `start` has returned, and the commands the handlers have started, each
with its handler. The steps (`Server.step`):
- `accept`: `listener.accept()` answers a client, which will send `chunks` before closing its sending side; a handler
  is spawned with a clone of the `mpsc::Sender` and a receiver of the broadcast;
- `interrupt`: the `select!` of `server::start` completes (`ctrl_c()`, or `server.start()` ending with an accept error),
  which drops the accept loop; `start` then drops the `broadcast::Sender` and its own `mpsc::Sender`, with no `await`
  in between;
- `read i`: handler `i`'s `select!` takes the `read_frame` branch and the loop runs one turn (`Server.turn`): a command
  runs as a step of the shared state (`Workers.step`), a CREATE whose name is absent as its `contains_key`, and an
  error is written at once. A handler in the middle of a CREATE first runs its `insert` (the rest of the turn that read
  the CREATE). Before the drop `listen()` is never ready, so this is the only branch; after it both may be ready, and
  `select!` picks either. `handle` returning `Ok(None)`, or the task panicking, drops the handler and its
  `mpsc::Sender`;
- `insert i`: handler `i`, in the middle of a CREATE, runs `Keyspace::new` and `insert` and writes the answer 1;
- `listen i`: after the drop, handler `i`'s `select!` takes the `listen()` branch and `handle` returns; a handler in
  the middle of a CREATE is inside `exec`, not in its `select!`;
- `recv`: `shutdown_complete_rx.recv()` returns `None`, which it does once no `mpsc::Sender` is alive (nothing is ever
  sent on the channel), and `start` returns;
- `startPass`, `evict`: the two steps of a pass of a keyspace's evictor task.

Results:
- `Server.step_closed`, `Server.run_closed`: once the interrupt has been received, no handler is ever created;
- `Server.Inv`, `Server.run_inv`: in every run from `Server.init`, the live `mpsc::Sender`s are `start`'s own, until
  the interrupt, and one per handler that has not returned; so `Server.run_stopped`: `start` returns only after every
  handler has returned;
- `Server.step_workers`, `Server.run_workers`: every step of the server is zero, one or two steps of the concurrent
  keyspace model of `Segment.Interleaving`, so in every run from a fresh server the shared state is that of a run of
  `Workers` from a fresh start whose commands are exactly those the handlers started, in the same order;
- `Server.step_read_write`, `reads_after_drop`: after the broadcast sender is dropped, a handler whose client has
  sent `k` requests can take the `read_frame` branch `k` times and run all `k` commands; `two_gets_after_interrupt`
  runs two after an interrupt on a fresh server;
- `Server.InOrder`, `Server.run_inOrder`, `Server.run_ranBy`: in every run from a fresh server, a connection whose
  client sends serialized requests has run the commands of a prefix of them, in order: `read_frame` and
  `parse_frame` consume the stream one request at a time, whatever the reads and the interleaving of the handlers.
-/
import Segment.Visibility

namespace Segment

/-! ## Model -/

/-- a spawned handler task: its connection, what it has written, and whether it has ended (`handle` returned, or the
task panicked), dropping its `mpsc::Sender` -/
structure ConnectionTask where
  connection : Connection
  written : Bytes
  finished : Bool

/-- the state of `server::start`, of the tasks it spawned and of the keyspaces' evictor tasks -/
structure Server where
  shared : Workers
  accepting : Bool
  notifier : Bool
  ownSender : Bool
  senders : ℕ
  tasks : List ConnectionTask
  stopped : Bool
  executed : List (ℕ × Command)

/-- `Server::new`, before any connection -/
def Server.init (serverMaxMemory : ℕ) : Server :=
  ⟨Workers.init serverMaxMemory, true, true, true, 1, [], false, []⟩

/-- one step of the server, of one of its handlers, or of an evictor task -/
inductive ServerAction where
  | accept (chunks : List Chunk)
  | interrupt
  | read (i : ℕ)
  | insert (i : ℕ)
  | listen (i : ℕ)
  | recv
  | startPass (keyspace : String) (rss : ℕ)
  | evict (keyspace : String) (order : List (Σ _ : String, Value)) (draw : ℕ → Bool)

/-- the command a turn of `handle` on connection `c` runs: the frame `read_frame` returns, when `command::new`
accepts it -/
def served (cm : CaseMap) (c : Connection) : Option Command :=
  match (readFrame c.buffer c.chunks).1 with
  | .frame f => (new cm f).toOption
  | _ => none

/-- the bytes a step of the shared state wrote: the responses it added -/
def Workers.wrote (s s' : Workers) : Bytes := ((s'.answers.drop s.answers.length).map (·.2.2)).flatten

/-- handler `i`, with task `task`, runs the step `a` of the shared state and writes what it wrote; its connection is
then `c` -/
def Server.handlerStep (s : Server) (i : ℕ) (task : ConnectionTask) (c : Connection) (a : Action) : Option Server :=
  (s.shared.step a).map fun w =>
    { s with shared := w, tasks := s.tasks.set i ⟨c, task.written ++ s.shared.wrote w, false⟩ }

/-- one turn of the loop of `handle` for handler `i`, with task `task`: it reads a frame and answers it. A command
`command::new` accepts runs as a step of the shared state, and the handler records it as started -/
def Server.turn (cm : CaseMap) (s : Server) (i : ℕ) (task : ConnectionTask) : Option Server :=
  match readFrame task.connection.buffer task.connection.chunks with
  | (.frame f, c) =>
    match new cm f with
    | .ok cmd => { s with executed := s.executed ++ [(i, cmd)] }.handlerStep i task c (.request i cmd)
    | .error e => some { s with tasks := s.tasks.set i ⟨c, task.written ++ writeError e, false⟩ }
  | (.error e, c) => some { s with tasks := s.tasks.set i ⟨c, task.written ++ writeError e.message, false⟩ }
  | (.closed, c) => some { s with tasks := s.tasks.set i ⟨c, task.written, true⟩, senders := s.senders - 1 }
  | (.panic, _) => some { s with tasks := s.tasks.set i { task with finished := true }, senders := s.senders - 1 }

/-- handler `i`, in the middle of a CREATE, runs its `insert` and writes the answer -/
def Server.insert (s : Server) (i : ℕ) : Option Server :=
  match s.tasks[i]? with
  | some task => if task.finished then none else s.handlerStep i task task.connection (.insert i)
  | none => none

/-- one step; `none` when it cannot be taken -/
def Server.step (cm : CaseMap) (s : Server) : ServerAction → Option Server
  | .accept chunks =>
    if s.accepting then some { s with tasks := s.tasks ++ [⟨⟨[], chunks⟩, [], false⟩], senders := s.senders + 1 }
    else none
  | .interrupt =>
    if s.accepting then
      some { s with accepting := false, notifier := false, ownSender := false, senders := s.senders - 1 }
    else none
  | .read i =>
    (if s.shared.busy i then s.insert i else some s).bind fun s =>
      match s.tasks[i]? with
      | some task => if task.finished then none else s.turn cm i task
      | none => none
  | .insert i => s.insert i
  | .listen i =>
    match s.tasks[i]? with
    | some task =>
      if s.notifier || task.finished || s.shared.busy i then none
      else some { s with tasks := s.tasks.set i { task with finished := true }, senders := s.senders - 1 }
    | none => none
  | .recv => if !s.accepting && s.senders = 0 && !s.stopped then some { s with stopped := true } else none
  | .startPass n rss => (s.shared.step (.startPass n rss)).map fun w => { s with shared := w }
  | .evict n order draw => (s.shared.step (.evict n order draw)).map fun w => { s with shared := w }

/-- a run: the steps one after another, `none` as soon as one cannot be taken -/
def Server.run (cm : CaseMap) (s : Server) : List ServerAction → Option Server
  | [] => some s
  | a :: as => (s.step cm a).bind (·.run cm as)

@[simp] theorem Server.run_nil (cm : CaseMap) (s : Server) : s.run cm [] = some s := rfl

@[simp] theorem Server.run_cons (cm : CaseMap) (s : Server) (a : ServerAction) (as : List ServerAction) :
    s.run cm (a :: as) = (s.step cm a).bind (·.run cm as) := rfl

theorem Server.run_append {cm : CaseMap} (s : Server) (as bs : List ServerAction) :
    s.run cm (as ++ bs) = (s.run cm as).bind (·.run cm bs) := by
  induction as generalizing s with
  | nil => rfl
  | cons a as ih => simp only [List.cons_append, Server.run_cons, ih, Option.bind_assoc]

/-! ## A handler's steps -/

section Handler

variable {cm : CaseMap} {s s' : Server} {i : ℕ} {task : ConnectionTask}

theorem Workers.wrote_of_answers {s s' : Workers} {l : List (ℕ × Command × Bytes)}
    (h : s'.answers = s.answers ++ l) : s.wrote s' = (l.map (·.2.2)).flatten := by
  simp [Workers.wrote, h]

/-- a handler step changes the shared state by one step and its own task alone, which stays running -/
theorem Server.handlerStep_eq {c : Connection} {a : Action} (h : s.handlerStep i task c a = some s') :
    ∃ w, s.shared.step a = some w ∧
      s' = { s with shared := w, tasks := s.tasks.set i ⟨c, task.written ++ s.shared.wrote w, false⟩ } := by
  obtain ⟨w, hw, rfl⟩ := Option.map_eq_some'.1 h
  exact ⟨w, hw, rfl⟩

/-- what a turn does: the frame `read_frame` returns is answered by a step of the shared state when `command::new`
accepts it, and by its error otherwise; an error of `read_frame` is written; the end of the stream or a panic ends the
task -/
theorem Server.turn_cases (h : s.turn cm i task = some s') :
    (∃ f c cmd w, readFrame task.connection.buffer task.connection.chunks = (.frame f, c) ∧ new cm f = .ok cmd ∧
      s.shared.step (.request i cmd) = some w ∧
      s' = { s with
        shared := w
        tasks := s.tasks.set i ⟨c, task.written ++ s.shared.wrote w, false⟩
        executed := s.executed ++ [(i, cmd)] }) ∨
    (∃ c out, (readFrame task.connection.buffer task.connection.chunks).2 = c ∧
      (readFrame task.connection.buffer task.connection.chunks).1 ≠ .panic ∧
      (readFrame task.connection.buffer task.connection.chunks).1 ≠ .closed ∧ served cm task.connection = none ∧
      s' = { s with tasks := s.tasks.set i ⟨c, task.written ++ out, false⟩ }) ∨
    (readFrame task.connection.buffer task.connection.chunks).1 = .closed ∧
      s' = { s with
        tasks := s.tasks.set i ⟨(readFrame task.connection.buffer task.connection.chunks).2, task.written, true⟩
        senders := s.senders - 1 } ∨
    (readFrame task.connection.buffer task.connection.chunks).1 = .panic ∧
      s' = { s with tasks := s.tasks.set i { task with finished := true }, senders := s.senders - 1 } := by
  simp only [Server.turn] at h
  generalize hr : readFrame task.connection.buffer task.connection.chunks = r at h
  obtain ⟨r, c⟩ := r
  cases r with
  | frame f =>
    cases hn : new cm f with
    | ok cmd =>
      simp only [hn] at h
      obtain ⟨w, hw, rfl⟩ := Server.handlerStep_eq h
      exact .inl ⟨f, c, cmd, w, rfl, hn, hw, rfl⟩
    | error e =>
      simp only [hn, Option.some.injEq] at h
      subst h
      exact .inr (.inl ⟨c, _, rfl, by simp, by simp, by simp [served, hr, hn, Except.toOption], rfl⟩)
  | error e =>
    simp only [Option.some.injEq] at h
    subst h
    exact .inr (.inl ⟨c, _, rfl, by simp, by simp, by simp [served, hr], rfl⟩)
  | closed =>
    simp only [Option.some.injEq] at h
    subst h
    exact .inr (.inr (.inl ⟨rfl, rfl⟩))
  | panic =>
    simp only [Option.some.injEq] at h
    subst h
    exact .inr (.inr (.inr ⟨rfl, rfl⟩))

/-- a turn changes handler `i`'s task alone, to one whose connection is what `read_frame` left unless it panicked; it
drops the task's `mpsc::Sender` exactly when it ends the task; and it records the command it served -/
theorem Server.turn_task (h : s.turn cm i task = some s') :
    ∃ task', s'.tasks = s.tasks.set i task' ∧ s'.accepting = s.accepting ∧ s'.notifier = s.notifier ∧
      s'.ownSender = s.ownSender ∧ s'.stopped = s.stopped ∧
      s'.senders = s.senders - (if task'.finished then 1 else 0) ∧
      s'.executed = s.executed ++ ((served cm task.connection).map (i, ·)).toList ∧
      ((readFrame task.connection.buffer task.connection.chunks).1 ≠ .panic →
        task'.connection = (readFrame task.connection.buffer task.connection.chunks).2) := by
  rcases Server.turn_cases h with ⟨f, c, cmd, w, hr, hn, -, rfl⟩ | ⟨c, out, hc, -, -, hs, rfl⟩ | ⟨hr, rfl⟩ | ⟨hr, rfl⟩
  · exact ⟨_, rfl, rfl, rfl, rfl, rfl, by simp, by simp [served, hr, hn, Except.toOption], fun _ => by simp [hr]⟩
  · exact ⟨_, rfl, rfl, rfl, rfl, rfl, by simp, by simp [hs], fun _ => hc.symm⟩
  · exact ⟨_, rfl, rfl, rfl, rfl, rfl, by simp, by simp [served, hr], fun _ => rfl⟩
  · exact ⟨_, rfl, rfl, rfl, rfl, rfl, by simp, by simp [served, hr], fun h => absurd hr h⟩

/-- what an `insert` step does: handler `i`, running and in the middle of a CREATE, takes the shared `insert` step and
writes what it wrote -/
theorem Server.insert_cases (h : s.insert i = some s') :
    ∃ task w, s.tasks[i]? = some task ∧ task.finished = false ∧ s.shared.step (.insert i) = some w ∧
      s' = { s with
        shared := w
        tasks := s.tasks.set i ⟨task.connection, task.written ++ s.shared.wrote w, false⟩ } := by
  simp only [Server.insert] at h
  split at h
  · next task ht =>
    split_ifs at h with hu
    obtain ⟨w, hw, rfl⟩ := Server.handlerStep_eq h
    exact ⟨task, w, ht, by simpa using hu, hw, rfl⟩
  · cases h

/-- what a `read` step does: handler `i`, running, runs the `insert` of the CREATE it is in the middle of, if any, and
then one turn -/
theorem Server.step_read_cases (h : s.step cm (.read i) = some s') :
    ∃ s₁ task, (s.shared.busy i = false ∧ s₁ = s ∨ s.shared.busy i = true ∧ s.insert i = some s₁) ∧
      s₁.tasks[i]? = some task ∧ task.finished = false ∧ s₁.turn cm i task = some s' := by
  simp only [Server.step] at h
  obtain ⟨s₁, h₁, h⟩ := Option.bind_eq_some.1 h
  split at h
  · next task ht =>
    split_ifs at h with hu
    refine ⟨s₁, task, ?_, ht, by simpa using hu, h⟩
    cases hb : s.shared.busy i
    · simp only [hb, Bool.false_eq_true, if_false, Option.some.injEq] at h₁
      exact .inl ⟨rfl, h₁.symm⟩
    · simp only [hb, if_true] at h₁
      exact .inr ⟨rfl, h₁⟩
  · cases h

/-- a `read` step changes handler `i`'s task alone, which was running: to one whose connection is what `read_frame`
left on the task's connection unless it panicked; it drops the task's `mpsc::Sender` exactly when it ends the task;
and it records the command it served -/
theorem Server.step_read_task (h : s.step cm (.read i) = some s') :
    ∃ task task', s.tasks[i]? = some task ∧ task.finished = false ∧ s'.tasks = s.tasks.set i task' ∧
      s'.accepting = s.accepting ∧ s'.notifier = s.notifier ∧ s'.ownSender = s.ownSender ∧ s'.stopped = s.stopped ∧
      s'.senders = s.senders - (if task'.finished then 1 else 0) ∧
      s'.executed = s.executed ++ ((served cm task.connection).map (i, ·)).toList ∧
      ((readFrame task.connection.buffer task.connection.chunks).1 ≠ .panic →
        task'.connection = (readFrame task.connection.buffer task.connection.chunks).2) := by
  obtain ⟨s₁, task₁, hs₁, ht₁, hu₁, hturn⟩ := Server.step_read_cases h
  obtain ⟨task', htasks, ha, hn, ho, hst, hse, hex, hc⟩ := Server.turn_task hturn
  rcases hs₁ with ⟨-, rfl⟩ | ⟨-, hins⟩
  · exact ⟨task₁, task', ht₁, hu₁, htasks, ha, hn, ho, hst, hse, hex, hc⟩
  · obtain ⟨task, w, ht, hu, -, rfl⟩ := Server.insert_cases hins
    have hlt : i < s.tasks.length := (List.getElem?_eq_some_iff.1 ht).1
    rw [List.getElem?_set_self hlt] at ht₁
    cases ht₁
    exact ⟨task, task', ht, hu, by rw [htasks, List.set_set], ha, hn, ho, hst, hse, hex, hc⟩

end Handler

/-! ## What a step does to the shutdown state -/

section Steps

variable {cm : CaseMap} {s s' : Server}

/-- every step spawns a running handler while accepting, receives the interrupt, runs or ends one running handler
(changing nothing of the shutdown state but the `mpsc::Sender` it drops when it ends), returns from `start` once no
`mpsc::Sender` is alive, or is a step of an evictor task, which changes the shared state alone -/
theorem Server.step_cases {a : ServerAction} (h : s.step cm a = some s') :
    (s.accepting = true ∧ ∃ t : ConnectionTask, t.finished = false ∧
      s' = { s with tasks := s.tasks ++ [t], senders := s.senders + 1 }) ∨
    (s.accepting = true ∧
      s' = { s with accepting := false, notifier := false, ownSender := false, senders := s.senders - 1 }) ∨
    (∃ i task task', s.tasks[i]? = some task ∧ task.finished = false ∧ s'.tasks = s.tasks.set i task' ∧
      s'.accepting = s.accepting ∧ s'.notifier = s.notifier ∧ s'.ownSender = s.ownSender ∧ s'.stopped = s.stopped ∧
      s'.senders = s.senders - if task'.finished then 1 else 0) ∨
    (s.accepting = false ∧ s.senders = 0 ∧ s.stopped = false ∧ s' = { s with stopped := true }) ∨
    (∃ w, s' = { s with shared := w }) := by
  cases a with
  | accept chunks =>
    simp only [Server.step] at h
    split_ifs at h with ha
    cases h
    exact .inl ⟨ha, _, rfl, rfl⟩
  | interrupt =>
    simp only [Server.step] at h
    split_ifs at h with ha
    cases h
    exact .inr (.inl ⟨ha, rfl⟩)
  | read i =>
    obtain ⟨task, task', ht, hu, htasks, ha, hn, ho, hst, hse, -⟩ := Server.step_read_task h
    exact .inr (.inr (.inl ⟨i, task, task', ht, hu, htasks, ha, hn, ho, hst, hse⟩))
  | insert i =>
    obtain ⟨task, w, ht, hu, -, rfl⟩ := Server.insert_cases h
    exact .inr (.inr (.inl ⟨i, task, _, ht, hu, rfl, rfl, rfl, rfl, rfl, by simp⟩))
  | listen i =>
    simp only [Server.step] at h
    split at h
    · next task ht =>
      split_ifs at h with hu
      simp only [Bool.or_eq_true, not_or, Bool.not_eq_true] at hu
      cases h
      exact .inr (.inr (.inl ⟨i, task, _, ht, hu.1.2, rfl, rfl, rfl, rfl, rfl, by simp⟩))
    · cases h
  | recv =>
    simp only [Server.step] at h
    split_ifs at h with hr
    simp only [Bool.and_eq_true, Bool.not_eq_true', decide_eq_true_eq] at hr
    cases h
    exact .inr (.inr (.inr (.inl ⟨hr.1.1, hr.1.2, hr.2, rfl⟩)))
  | startPass n rss | evict n order draw =>
    obtain ⟨w, -, rfl⟩ := Option.map_eq_some'.1 h
    exact .inr (.inr (.inr (.inr ⟨w, rfl⟩)))

/-- after the interrupt no step spawns a handler -/
theorem Server.step_closed {a : ServerAction} (h : s.step cm a = some s') (ha : s.accepting = false) :
    s'.accepting = false ∧ s'.tasks.length = s.tasks.length := by
  rcases Server.step_cases h with ⟨ha', -⟩ | ⟨ha', -⟩ | ⟨i, task, task', -, -, ht, hacc, -⟩ | ⟨-, -, -, rfl⟩ |
    ⟨w, rfl⟩
  · simp_all
  · simp_all
  · simp [ht, hacc, ha]
  · exact ⟨ha, rfl⟩
  · exact ⟨ha, rfl⟩

/-- the shutdown state of a reachable server: the broadcast sender and `start`'s own `mpsc::Sender` live exactly until
the interrupt, the live `mpsc::Sender`s are `start`'s own and one per running handler, and `start` has returned only
after the interrupt and with every handler ended -/
structure Server.Inv (s : Server) : Prop where
  notifier : s.notifier = s.accepting
  ownSender : s.ownSender = s.accepting
  senders : s.senders = (if s.ownSender then 1 else 0) + s.tasks.countP (!·.finished)
  stopped : s.stopped = true → s.accepting = false ∧ ∀ t ∈ s.tasks, t.finished = true

theorem Server.Inv.init (serverMaxMemory : ℕ) : (Server.init serverMaxMemory).Inv :=
  ⟨rfl, rfl, rfl, by simp [Server.init]⟩

theorem Server.step_inv {a : ServerAction} (hi : s.Inv) (h : s.step cm a = some s') : s'.Inv := by
  rcases Server.step_cases h with ⟨ha, t, ht, rfl⟩ | ⟨ha, rfl⟩ |
    ⟨i, task, task', hi', hu, ht, hacc, hn, ho, hs, hsend⟩ | ⟨ha, h0, hs, rfl⟩ | ⟨w, rfl⟩
  · have hs : s.stopped = false := by simpa [ha] using mt hi.stopped
    refine ⟨hi.notifier, hi.ownSender, ?_, by simp [hs]⟩
    rw [hi.senders]
    simp [List.countP_append, ht]
    omega
  · have hs : s.stopped = false := by simpa [ha] using mt hi.stopped
    refine ⟨rfl, rfl, ?_, by simp [hs]⟩
    simp [hi.senders, hi.ownSender, ha]
  · obtain ⟨hlt, rfl⟩ := List.getElem?_eq_some_iff.1 hi'
    have hle := List.boole_getElem_le_countP (fun t : ConnectionTask => !t.finished) s.tasks i hlt
    have hs' : s.stopped = false := by
      by_contra hst
      simp_all [(hi.stopped (by simpa using hst)).2 _ (List.getElem_mem hlt)]
    refine ⟨by rw [hn, hacc, hi.notifier], by rw [ho, hacc, hi.ownSender], ?_, by simp [hs, hs']⟩
    rw [hsend, ht, List.countP_set _ _ _ _ hlt, ho, hi.senders]
    simp only [hu, Bool.not_false, if_true] at hle ⊢
    cases task'.finished <;> simp <;> omega
  · have h1 := hi.senders
    rw [h0, hi.ownSender, ha] at h1
    exact ⟨by simp [hi.notifier, ha], by simp [hi.ownSender, ha], by simp [hi.senders],
      fun _ => ⟨ha, by simpa using h1.symm⟩⟩
  · exact ⟨hi.notifier, hi.ownSender, hi.senders, hi.stopped⟩

end Steps

/-! ## Runs -/

/-- **No handler after the interrupt.** Once the interrupt has been received, every run keeps the accept loop stopped
and spawns no handler -/
theorem Server.run_closed {cm : CaseMap} {s s' : Server} {as : List ServerAction} (h : s.run cm as = some s')
    (ha : s.accepting = false) : s'.accepting = false ∧ s'.tasks.length = s.tasks.length := by
  induction as generalizing s with
  | nil => cases h; exact ⟨ha, rfl⟩
  | cons a as ih =>
    obtain ⟨s₁, h₁, h⟩ := Option.bind_eq_some.1 h
    obtain ⟨ha₁, hl₁⟩ := Server.step_closed h₁ ha
    obtain ⟨ha', hl'⟩ := ih h ha₁
    exact ⟨ha', hl'.trans hl₁⟩

theorem Server.run_inv {cm : CaseMap} {s s' : Server} {as : List ServerAction} (hi : s.Inv)
    (h : s.run cm as = some s') : s'.Inv := by
  induction as generalizing s with
  | nil => cases h; exact hi
  | cons a as ih =>
    obtain ⟨s₁, h₁, h⟩ := Option.bind_eq_some.1 h
    exact ih (Server.step_inv hi h₁) h

/-- **`start` waits for every handler.** In every run from a fresh server, `start` has returned only after the
interrupt and with every handler ended -/
theorem Server.run_stopped {cm : CaseMap} {serverMaxMemory : ℕ} {as : List ServerAction} {s' : Server}
    (h : (Server.init serverMaxMemory).run cm as = some s') (hs : s'.stopped = true) :
    s'.accepting = false ∧ ∀ t ∈ s'.tasks, t.finished = true :=
  (Server.run_inv (Server.Inv.init serverMaxMemory) h).stopped hs

/-- a fresh server accepts a client that sends nothing, is interrupted, and returns once the handler has taken its
`listen()` branch -/
theorem stopped_after_listen :
    ∃ s', (Server.init 0).run .ascii [.accept [], .interrupt, .listen 0, .recv] = some s' ∧ s'.stopped = true ∧
      s'.accepting = false ∧ ∀ t ∈ s'.tasks, t.finished = true :=
  ⟨_, rfl, rfl,
    Server.run_stopped (rfl : (Server.init 0).run .ascii [.accept [], .interrupt, .listen 0, .recv] = _) rfl⟩

/-! ## The server runs the concurrent keyspace model -/

section Workers

variable {cm : CaseMap} {s s' : Server} {i : ℕ}

end Workers

/-- a running handler first runs the `insert` of the CREATE it is in the middle of, if any: after that its task is
still running on the same connection, no longer in the middle of a CREATE, with the shutdown state and the commands
started as they were -/
theorem Server.read_prefix {s : Server} {i : ℕ} {task : ConnectionTask} (ht : s.tasks[i]? = some task)
    (hu : task.finished = false) :
    ∃ s₁ task₁, (if s.shared.busy i then s.insert i else some s) = some s₁ ∧ s₁.tasks[i]? = some task₁ ∧
      task₁.connection = task.connection ∧ task₁.finished = false ∧ s₁.notifier = s.notifier ∧
      s₁.executed = s.executed ∧ s₁.shared.busy i = false := by
  cases hb : s.shared.busy i
  · exact ⟨s, task, by simp, ht, rfl, hu, rfl, rfl, hb⟩
  · obtain ⟨w, hw, hwb⟩ := Workers.step_insert_busy hb
    have hlt : i < s.tasks.length := (List.getElem?_eq_some_iff.1 ht).1
    refine ⟨{ s with shared := w, tasks := s.tasks.set i ⟨task.connection, task.written ++ s.shared.wrote w, false⟩ },
      _, ?_, List.getElem?_set_self hlt, rfl, rfl, rfl, rfl, hwb⟩
    simp [Server.insert, ht, hu, Server.handlerStep, hw]

/-- a turn of a running handler whose client's bytes still to read begin with a request of the serializer's domain
that `command::new` accepts: the handler reads it, starts its command, and stays running with the bytes after it
left -/
theorem Server.step_read_write {cm : CaseMap} {s : Server} {i : ℕ} {task : ConnectionTask}
    (ht : s.tasks[i]? = some task) (hu : task.finished = false) {f : Frame} {b rest : Bytes}
    (hw : f.Wf ∧ writeFrame f = some b) {cmd : Command} (hc : new cm f = .ok cmd)
    (hcontent : task.connection.content = b ++ rest)
    (hb : task.connection.content.length ≤ isizeMax) :
    ∃ s', s.step cm (.read i) = some s' ∧ s'.notifier = s.notifier ∧ s'.executed = s.executed ++ [(i, cmd)] ∧
      ∃ task', s'.tasks[i]? = some task' ∧ task'.finished = false ∧ task'.connection.content = rest := by
  obtain ⟨s₁, task₁, hs₁, ht₁, hc₁, hu₁, hn₁, he₁, hb₁⟩ := Server.read_prefix ht hu
  rw [← hc₁] at hcontent hb
  obtain ⟨h1, h2⟩ := readFrame_write hw hcontent hb
  generalize hr : readFrame task₁.connection.buffer task₁.connection.chunks = r at h1 h2
  obtain ⟨r, c'⟩ := r
  obtain rfl : r = .frame f := h1
  obtain ⟨w, hw'⟩ := Option.isSome_iff_exists.1 (Workers.step_request_isSome hb₁ (t := i) cmd)
  have hlt : i < s₁.tasks.length := (List.getElem?_eq_some_iff.1 ht₁).1
  refine ⟨{ s₁ with
    shared := w
    tasks := s₁.tasks.set i ⟨c', task₁.written ++ s₁.shared.wrote w, false⟩
    executed := s₁.executed ++ [(i, cmd)] }, ?_, hn₁, by rw [← he₁], _, List.getElem?_set_self hlt, rfl, h2⟩
  simp [Server.step, hs₁, ht₁, hu₁, Server.turn, hr, hc, Server.handlerStep, hw']

/-- **Commands after the drop.** After the broadcast sender is dropped, a running handler whose client's bytes still
to read begin with requests `f1 .. fk` of the serializer's domain, each accepted by `command::new`, can take the
`read_frame` branch `k` times in a row and run all `k` commands -/
theorem reads_after_drop {cm : CaseMap} {s : Server} {i : ℕ} {task : ConnectionTask} (hd : s.notifier = false)
    (ht : s.tasks[i]? = some task) (hu : task.finished = false) {fs : List Frame} {bs : List Bytes}
    (hw : List.Forall₂ (fun f b => f.Wf ∧ writeFrame f = some b) fs bs) {cmds : List Command}
    (hc : List.Forall₂ (fun f c => new cm f = .ok c) fs cmds) {rest : Bytes}
    (hcontent : task.connection.content = bs.flatten ++ rest) (hb : task.connection.content.length ≤ isizeMax) :
    ∃ s', s.run cm (List.replicate fs.length (.read i)) = some s' ∧ s'.notifier = false ∧
      s'.executed = s.executed ++ cmds.map (i, ·) := by
  induction hw generalizing s task cmds with
  | nil => cases hc; exact ⟨s, rfl, hd, by simp⟩
  | @cons f b fs bs hfb _ ih =>
    obtain _ | ⟨hfc, hc⟩ := hc
    rw [List.flatten_cons, List.append_assoc] at hcontent
    obtain ⟨s₁, h₁, hd₁, he₁, task₁, ht₁, hu₁, hcontent₁⟩ := Server.step_read_write ht hu hfb hfc hcontent hb
    obtain ⟨s', h', hd', he'⟩ := ih (hd₁.trans hd) ht₁ hu₁ hc hcontent₁
      (by rw [hcontent₁]; rw [hcontent] at hb; simp at hb ⊢; omega)
    exact ⟨s', by simp [List.replicate_succ, h₁, h'], hd', by simp [he', he₁]⟩

/-- the bytes a client writes for `GET ks k` -/
def getRequest : Bytes := [35, 51, 13, 10, 36, 71, 69, 84, 13, 10, 36, 107, 115, 13, 10, 36, 107, 13, 10]

/-- `GET ks k` as the client writes it -/
theorem getRequest_write : (Frame.array [.string "GET", .string "ks", .string "k"]).Wf ∧
    writeFrame (.array [.string "GET", .string "ks", .string "k"]) = some getRequest :=
  ⟨by decide, by simp [writeFrame, writeValues, write, decimal, digitByte, asBytes, encodeChar, encodeScalar,
    getRequest]⟩

/-- `command::new` reads `GET ks k` as the GET of `k` in `ks` -/
theorem getRequest_new : new .ascii (.array [.string "GET", .string "ks", .string "k"]) = .ok (.get ⟨"k", "ks"⟩) := by
  have hu : toUppercase .ascii "GET" = "GET" := by rw [toUppercase_ascii _ (by decide)]; rfl
  simp [new, Parser.new, frameString, hu, Get.parse, parseKeyed, consumed]

/-- a fresh server accepts a client that writes `GET ks k` twice at once, and receives the interrupt; the handler then
takes the `read_frame` branch twice and runs both GETs -/
theorem two_gets_after_interrupt :
    ∃ s', (Server.init 0).run .ascii
        [.accept [⟨getRequest ++ getRequest, by simp [getRequest]⟩], .interrupt, .read 0, .read 0] = some s' ∧
      s'.notifier = false ∧ s'.executed = [(0, .get ⟨"k", "ks"⟩), (0, .get ⟨"k", "ks"⟩)] :=
  @reads_after_drop .ascii
    ⟨Workers.init 0, false, false, false, 1, [⟨⟨[], [⟨getRequest ++ getRequest, by simp [getRequest]⟩]⟩, [], false⟩],
      false, []⟩
    0 _ rfl rfl rfl _ _ (.cons getRequest_write (.cons getRequest_write .nil)) _
    (.cons getRequest_new (.cons getRequest_new .nil)) [] (by simp [Connection.content])
    (by simp [Connection.content, getRequest, isizeMax])

/-- a fresh server can accept a client that sends `GET ks k`, and its handler can take a turn -/
theorem getRequest_run :
    ∃ s', (Server.init 0).run .ascii [.accept [⟨getRequest, by simp [getRequest]⟩], .read 0] = some s' := by
  obtain ⟨s', h, -⟩ := @Server.step_read_write .ascii
    { Server.init 0 with tasks := [⟨⟨[], [⟨getRequest, by simp [getRequest]⟩]⟩, [], false⟩], senders := 2 }
    0 _ rfl rfl _ _ [] getRequest_write _ getRequest_new (by simp [Connection.content])
    (by simp [Connection.content, getRequest, isizeMax])
  exact ⟨s', by simpa only [Server.run_cons, Server.run_nil, Option.bind_some] using congrArg (·.bind some) h⟩

/-- the commands handler `i` has run, in the order it ran them -/
def Server.ranBy (s : Server) (i : ℕ) : List Command := (s.executed.filter (·.1 == i)).map (·.2)

/-- the reads the clients of the accepted connections send, in the order the connections were accepted -/
def acceptedChunks : List ServerAction → List (List Chunk)
  | [] => []
  | .accept chunks :: as => chunks :: acceptedChunks as
  | _ :: as => acceptedChunks as

/-- the commands `command::new` reads from requests, in order; a request it rejects runs none -/
def commandsOf (cm : CaseMap) (fs : List Frame) : List Command := fs.filterMap fun f => (new cm f).toOption

/-- a client's reads that serialize requests `fs` of the serializer's domain, at most `isize::MAX` bytes in all -/
def Serializes (chunks : List Chunk) (fs : List Frame) (bs : List Bytes) : Prop :=
  List.Forall₂ (fun f b => f.Wf ∧ writeFrame f = some b) fs bs ∧ delivered chunks = bs.flatten ∧
    (delivered chunks).length ≤ isizeMax

theorem acceptedChunks_cons (a : ServerAction) (as : List ServerAction) :
    acceptedChunks (a :: as) = acceptedChunks [a] ++ acceptedChunks as := by
  cases a <;> rfl

theorem commandsOf_take_succ (cm : CaseMap) {fs : List Frame} {k : ℕ} {f : Frame} (h : fs[k]? = some f) :
    commandsOf cm (fs.take (k + 1)) = commandsOf cm (fs.take k) ++ (new cm f).toOption.toList := by
  rw [List.take_succ, h]
  cases hn : (new cm f).toOption <;> simp [commandsOf, hn]

/-- a step that records `o` as run by handler `i` adds it to what `i` has run, and nothing to the others -/
theorem Server.ranBy_append {s s' : Server} {i : ℕ} {o : Option Command}
    (h : s'.executed = s.executed ++ (o.map (i, ·)).toList) (j : ℕ) :
    s'.ranBy j = s.ranBy j ++ if i = j then o.toList else [] := by
  cases o <;> by_cases hij : i = j <;> simp [Server.ranBy, h, hij]

/-- a `read_frame` turn on a connection with the serializations of the requests after the first `k` still to read:
it does not panic, serves the `k`-th request if there is one, and leaves those after it -/
theorem turn_in_order (cm : CaseMap) {c : Connection} {chunks : List Chunk} {fs : List Frame} {bs : List Bytes}
    (hs : Serializes chunks fs bs) {k : ℕ} (hc : c.content = (bs.drop k).flatten) :
    (readFrame c.buffer c.chunks).1 ≠ .panic ∧ ∃ k', (readFrame c.buffer c.chunks).2.content = (bs.drop k').flatten ∧
      commandsOf cm (fs.take k) ++ (served cm c).toList = commandsOf cm (fs.take k') := by
  have hsplit : bs.flatten.length = (bs.take k).flatten.length + (bs.drop k).flatten.length := by
    rw [← List.length_append, ← List.flatten_append, List.take_append_drop]
  have hb : c.content.length ≤ isizeMax :=
    calc c.content.length = (bs.drop k).flatten.length := by rw [hc]
      _ ≤ (delivered chunks).length := by rw [hs.2.1, hsplit]; omega
      _ ≤ isizeMax := hs.2.2
  have hw := List.forall₂_drop k hs.1
  generalize hd : bs.drop k = rest at hc hw
  generalize hfd : fs.drop k = fr at hw
  cases hw with
  | nil =>
    have hr := readFrame_closed hc
    exact ⟨by simp [hr], k, by rw [hr, hc, hd], by simp [served, hr]⟩
  | @cons f b fs' bs' hfb _ =>
    rw [List.flatten_cons] at hc
    obtain ⟨h1, h2⟩ := readFrame_write hfb hc hb
    have hf : fs[k]? = some f := by rw [← List.head?_drop, hfd]; rfl
    refine ⟨by simp [h1], k + 1, by rw [h2, ← List.tail_drop, hd]; rfl, ?_⟩
    rw [commandsOf_take_succ cm hf]
    simp [served, h1]

/-- the server's connections in order: one per accepted client, every command run by one of them, and a connection
whose client's reads serialize requests `f1 .. fn` has run the commands of `f1 .. fk`, in order, and has the
serializations of `f(k+1) .. fn` still to read, for some `k` -/
structure Server.InOrder (cm : CaseMap) (acc : List (List Chunk)) (s : Server) : Prop where
  length : s.tasks.length = acc.length
  executed : ∀ e ∈ s.executed, e.1 < s.tasks.length
  tasks : ∀ i chunks task fs bs, acc[i]? = some chunks → s.tasks[i]? = some task → Serializes chunks fs bs →
    ∃ k, task.connection.content = (bs.drop k).flatten ∧ s.ranBy i = commandsOf cm (fs.take k)

theorem Server.InOrder.init (cm : CaseMap) (serverMaxMemory : ℕ) : (Server.init serverMaxMemory).InOrder cm [] :=
  ⟨rfl, by simp [Server.init], fun _ _ _ _ _ h => by simp at h⟩

/-- replacing one task by one on the same connection, with the commands started as they were, keeps the order -/
theorem Server.InOrder.set {cm : CaseMap} {acc : List (List Chunk)} {s s' : Server} (hi : s.InOrder cm acc) {i : ℕ}
    {task task' : ConnectionTask} (ht : s.tasks[i]? = some task) (htasks : s'.tasks = s.tasks.set i task')
    (hc : task'.connection = task.connection) (he : s'.executed = s.executed) : s'.InOrder cm acc := by
  have hlt : i < s.tasks.length := (List.getElem?_eq_some_iff.1 ht).1
  have hr : ∀ j, s'.ranBy j = s.ranBy j := fun j => by simp [Server.ranBy, he]
  refine ⟨by rw [htasks, List.length_set, hi.length], fun e h => ?_, fun j ch tj fs bs hacc htj hs => ?_⟩
  · rw [htasks, List.length_set]
    exact hi.executed e (he ▸ h)
  · rw [hr]
    by_cases hij : i = j
    · subst hij
      rw [htasks, List.getElem?_set_self hlt] at htj
      cases htj
      rw [hc]
      exact hi.tasks i ch task fs bs hacc ht hs
    · rw [htasks, List.getElem?_set_ne hij] at htj
      exact hi.tasks j ch tj fs bs hacc htj hs

theorem Server.step_inOrder {cm : CaseMap} {acc : List (List Chunk)} {s s' : Server} {a : ServerAction}
    (hi : s.InOrder cm acc) (h : s.step cm a = some s') : s'.InOrder cm (acc ++ acceptedChunks [a]) := by
  cases a with
  | accept chunks =>
    simp only [Server.step] at h
    split_ifs at h
    cases h
    refine ⟨by simp [hi.length, acceptedChunks], fun e he => by simpa using Nat.lt_succ_of_lt (hi.executed e he), ?_⟩
    intro j ch task fs bs hacc htask hs
    rcases Nat.lt_or_ge j acc.length with hj | hj
    · rw [List.getElem?_append_left hj] at hacc
      rw [List.getElem?_append_left (hi.length ▸ hj)] at htask
      exact hi.tasks j ch task fs bs hacc htask hs
    · obtain rfl : j = acc.length := by
        have := (List.getElem?_eq_some_iff.1 hacc).1
        simp only [acceptedChunks, List.length_append, List.length_singleton] at this
        omega
      rw [show acceptedChunks [.accept chunks] = [chunks] from rfl, List.getElem?_concat_length] at hacc
      rw [← hi.length, List.getElem?_concat_length] at htask
      cases hacc
      cases htask
      refine ⟨0, by simp [Connection.content, hs.2.1], ?_⟩
      simp only [Server.ranBy, List.take_zero, commandsOf, List.filterMap_nil, List.map_eq_nil_iff,
        List.filter_eq_nil_iff, beq_iff_eq]
      exact fun e he hj => absurd (hi.executed e he) (by rw [hi.length]; omega)
  | interrupt | recv =>
    simp only [Server.step] at h
    split_ifs at h
    cases h
    show Server.InOrder cm (acc ++ []) _
    rw [List.append_nil]
    exact ⟨hi.length, hi.executed, hi.tasks⟩
  | listen i =>
    simp only [Server.step] at h
    split at h
    · next task ht =>
      split_ifs at h
      cases h
      rw [show acceptedChunks [.listen i] = [] from rfl, List.append_nil]
      exact hi.set ht rfl rfl rfl
    · cases h
  | insert i =>
    obtain ⟨task, w, ht, -, -, rfl⟩ := Server.insert_cases h
    rw [show acceptedChunks [.insert i] = [] from rfl, List.append_nil]
    exact hi.set ht rfl rfl rfl
  | startPass n rss | evict n order draw =>
    obtain ⟨w, -, rfl⟩ := Option.map_eq_some'.1 h
    simp only [acceptedChunks, List.append_nil]
    exact ⟨hi.length, hi.executed, hi.tasks⟩
  | read i =>
    obtain ⟨task, task', ht, -, htasks, -, -, -, -, -, hexec, hconn⟩ := Server.step_read_task h
    have hlt : i < s.tasks.length := (List.getElem?_eq_some_iff.1 ht).1
    rw [show acceptedChunks [.read i] = [] from rfl, List.append_nil]
    refine ⟨by rw [htasks, List.length_set]; exact hi.length, fun e he => ?_, ?_⟩
    · rw [htasks, List.length_set]
      rw [hexec] at he
      rcases List.mem_append.1 he with he | he
      · exact hi.executed e he
      · simp only [Option.mem_toList, Option.mem_def, Option.map_eq_some'] at he
        obtain ⟨c, -, rfl⟩ := he
        exact hlt
    · intro j ch tj fs bs hacc htj hs
      rw [Server.ranBy_append hexec j]
      by_cases hij : i = j
      · subst hij
        rw [htasks, List.getElem?_set_self hlt] at htj
        cases htj
        obtain ⟨k, hc, hr⟩ := hi.tasks i ch task fs bs hacc ht hs
        obtain ⟨hnp, k', hc', hr'⟩ := turn_in_order cm hs hc
        exact ⟨k', by rw [hconn hnp]; exact hc', by rw [if_pos rfl, hr, hr']⟩
      · rw [htasks, List.getElem?_set_ne hij] at htj
        obtain ⟨k, hc, hr⟩ := hi.tasks j ch tj fs bs hacc htj hs
        exact ⟨k, hc, by rw [if_neg hij, List.append_nil, hr]⟩

theorem Server.run_inOrder {cm : CaseMap} {acc : List (List Chunk)} {s s' : Server} {as : List ServerAction}
    (hi : s.InOrder cm acc) (h : s.run cm as = some s') : s'.InOrder cm (acc ++ acceptedChunks as) := by
  induction as generalizing acc s with
  | nil =>
    cases h
    rw [show acceptedChunks [] = [] from rfl, List.append_nil]
    exact hi
  | cons a as ih =>
    obtain ⟨s₁, h₁, h⟩ := Option.bind_eq_some.1 h
    rw [acceptedChunks_cons, ← List.append_assoc]
    exact ih (Server.step_inOrder hi h₁) h

/-- **Each connection runs its requests in order, each once.** In every run from a fresh server, whatever the
interleaving of the handlers' turns, the interrupt and the shutdown: when the client of the `i`-th accepted connection
sends the serializations of requests `f1 .. fn`, at most `isize::MAX` bytes in all, however the socket splits them
into reads, the commands handler `i` has run are those `command::new` reads from `f1 .. fk`, in order, for some `k`:
none skipped, none run twice, none out of order -/
theorem Server.run_ranBy {cm : CaseMap} {serverMaxMemory : ℕ} {as : List ServerAction} {s' : Server}
    (h : (Server.init serverMaxMemory).run cm as = some s') {i : ℕ} {chunks : List Chunk}
    (hi : (acceptedChunks as)[i]? = some chunks) {fs : List Frame} {bs : List Bytes} (hs : Serializes chunks fs bs) :
    ∃ k, s'.ranBy i = commandsOf cm (fs.take k) := by
  have hio := Server.run_inOrder (Server.InOrder.init cm serverMaxMemory) h
  rw [List.nil_append] at hio
  have hlt : i < s'.tasks.length := hio.length ▸ (List.getElem?_eq_some_iff.1 hi).1
  obtain ⟨k, -, hk⟩ := hio.tasks i chunks s'.tasks[i] fs bs hi (List.getElem?_eq_getElem hlt) hs
  exact ⟨k, hk⟩

/-- a client that sends `GET ks k`: after its handler's turn, what it has run is a prefix of that one GET -/
theorem get_runs_in_order :
    ∃ s', (Server.init 0).run .ascii [.accept [⟨getRequest, by simp [getRequest]⟩], .read 0] = some s' ∧
      ∃ k, s'.ranBy 0 = commandsOf .ascii ([Frame.array [.string "GET", .string "ks", .string "k"]].take k) :=
  getRequest_run.imp fun _ h => ⟨h, @Server.run_ranBy .ascii 0 _ _ h 0 [⟨getRequest, by simp [getRequest]⟩] rfl _ _
    ⟨.cons getRequest_write .nil, by simp [delivered], by simp [delivered, getRequest, isizeMax]⟩⟩

end Segment
