/-
The connection handler (`server.rs`, `command.rs`): `ConnectionHandler::handle` and the `exec` of each command.

A `Handler` is its connection, the keyspace manager, the clock `Instant::now()` reads, and the bytes it has written
to its socket; every write succeeds, so `exec` and `write_error` never return an error. This module runs one handler
with no shutdown signalled; `Segment.Server` adds the shutdown listener and the other handlers.

One turn of the loop of `handle` reads a frame, then answers it with one writer call: `respond` is that answer. An
error of `read_frame` is answered with its text and the loop goes on; `Ok(None)` ends it; a panic ends the task.

Results:
- `parse_writeError_crlf`: an error text with a CR-LF pair in it is read back by `parse` only up to the pair;
- `get_crlf_keyspace`: a GET whose keyspace is the two bytes CR-LF (a Blob `parse` reads from the wire) is answered
  with an error that `parse` reads as a frame ending 18 bytes before the response does;
- `Handler.turn_reset`, `Handler.run_reset`: at the end of the stream with part of a frame buffered, every turn writes
  `connection reset by peer` and leaves everything else as it was, so `handle` never returns;
- `handle_partial_frame`: after the one byte `$` and the end of the stream, `handle` is still running after any number
  of turns, having written one error per turn;
- `Handler.turn_write`, `Handler.run_written`: when the bytes still to come are the serializations of frames
  `f1 .. fn` and then the end of the stream, `handle` answers `f1 .. fn` one a turn, each with what `respond` writes
  for it (`respondAll`), and returns in turn `n + 1`.
-/
import Segment.Connection
import Segment.Command

namespace Segment

/-! ## Commands run -/

/-- `u8 as i64` -/
def I64.ofByte (r : UInt8) : I64 :=
  ⟨r.toNat, by omega, by have := UInt8.toNat_lt_size r; simp only [byte_size] at this; omega⟩

/-- the text `to_string` gives the error `read_frame` returns -/
def ReadError.message : ReadError → String
  | .parse .incompleteFrame => "ERRPROTOCOL Incomplete frame, make sure that the frame is CRLF terminated"
  | .parse .invalidFrame => "ERRPROTOCOL Invalid frame"
  | .reset => "connection reset by peer"

/-- `Get::exec` at time `now`: the manager after it, and the bytes it writes -/
def Get.exec (cmd : Get) (m : KeyspaceManager) (now : ℕ) : KeyspaceManager × Bytes :=
  match m.withKeyspace cmd.keyspace fun db => db.get now cmd.key with
  | (m, .ok (some value)) => (m, writeBlob value)
  | (m, .ok none) => (m, writeNull)
  | (m, .error e) => (m, writeError ("ERREXEC " ++ e))

/-- the body shared by `Set::exec` and `Del::exec`: run `f` on the keyspace and write the count it answers -/
def execCount (m : KeyspaceManager) (keyspace : String) (f : Db → Db × UInt8) : KeyspaceManager × Bytes :=
  match m.withKeyspace keyspace f with
  | (m, .ok response) => (m, writeInteger (I64.ofByte response))
  | (m, .error e) => (m, writeError ("ERREXEC " ++ e))

/-- `Set::exec` at time `now` -/
def Set.exec (cmd : Set) (m : KeyspaceManager) (now : ℕ) : KeyspaceManager × Bytes :=
  execCount m cmd.keyspace fun db => db.set now cmd.key cmd.value

/-- `Del::exec` -/
def Del.exec (cmd : Del) (m : KeyspaceManager) : KeyspaceManager × Bytes :=
  execCount m cmd.keyspace fun db => db.del cmd.key

/-- `Create::exec`: a missing sample size is passed as 0 -/
def Create.exec (cmd : Create) (m : KeyspaceManager) : KeyspaceManager × Bytes :=
  let (m, response) := m.create cmd.keyspace cmd.evictor (cmd.maxMemorySampleSize.getD 0)
  (m, writeInteger (I64.ofByte response))

/-- `command::exec` at time `now` -/
def exec (cmd : Command) (m : KeyspaceManager) (now : ℕ) : KeyspaceManager × Bytes :=
  match cmd with
  | .create cmd => cmd.exec m
  | .set cmd => cmd.exec m now
  | .del cmd => cmd.exec m
  | .get cmd => cmd.exec m now

/-- what `handle` writes for a frame `read_frame` returned: the error of `command::new`, or what `exec` writes -/
def respond (cm : CaseMap) (frame : Frame) (m : KeyspaceManager) (now : ℕ) : KeyspaceManager × Bytes :=
  match new cm frame with
  | .error e => (m, writeError e)
  | .ok cmd => exec cmd m now

/-! ## The loop of `handle` -/

/-- a `ConnectionHandler`, with the clock `Instant::now()` reads and the bytes written to its socket so far -/
structure Handler where
  connection : Connection
  keyspaceManager : KeyspaceManager
  clock : ℕ
  written : Bytes

/-- how one turn of the loop ends: the loop goes on, `handle` returns `Ok(())`, or the task panics -/
inductive Turn where
  | next (h : Handler)
  | done (h : Handler)
  | panic

/-- one turn of the `while` loop of `ConnectionHandler::handle`, with no shutdown signalled -/
def Handler.turn (cm : CaseMap) (h : Handler) : Turn :=
  match readFrame h.connection.buffer h.connection.chunks with
  | (.frame f, connection) =>
    let (m, out) := respond cm f h.keyspaceManager h.clock
    .next ⟨connection, m, h.clock + 1, h.written ++ out⟩
  | (.error e, connection) => .next { h with connection, written := h.written ++ writeError e.message }
  | (.closed, connection) => .done { h with connection }
  | (.panic, _) => .panic

/-- `n` turns of the loop -/
def Handler.run (cm : CaseMap) : ℕ → Handler → Turn
  | 0, h => .next h
  | n + 1, h =>
    match h.turn cm with
    | .next h => Handler.run cm n h
    | t => t

/-! ## Error texts on the wire -/

/-- an error text with a CR-LF pair is read back only up to the pair: `parse` returns a shorter `Error` frame and
leaves the cursor inside what `write_error` wrote -/
theorem parse_writeError_crlf {text rest : String} (ht : LineSafe text) :
    parse (writeError (text ++ "\r\n" ++ rest)) = .ok (.error text) ((asBytes text).length + 3) := by
  have h : writeError (text ++ "\r\n" ++ rest) = (33 :: asBytes text) ++ 13 :: 10 :: (asBytes rest ++ [13, 10]) := by
    simp [writeError, asBytes, encodeChar, encodeScalar]
  rw [h, parse_tag_line (by decide) (asBytes_lineSafe ht), parseBody_error, fromUtf8_asBytes]
  rfl

/-- `#3` `$GET` `*2` CR-LF CR-LF `$k`: a GET whose keyspace is CR-LF. `parse` reads the request from the wire; on an
empty manager `handle` answers with the error `ERREXEC ERR keyspace '` CR-LF `' does not exist`, which `parse` reads
as the frame `Error("ERREXEC ERR keyspace '")` ending 18 bytes before the response does -/
theorem get_crlf_keyspace :
    parse [35, 51, 13, 10, 36, 71, 69, 84, 13, 10, 42, 50, 13, 10, 13, 10, 13, 10, 36, 107, 13, 10] =
      .ok (.array [.string "GET", .blob [13, 10], .string "k"]) 22 ∧
    respond .ascii (.array [.string "GET", .blob [13, 10], .string "k"]) (KeyspaceManager.new 0) 0 =
      (KeyspaceManager.new 0, writeError ("ERREXEC ERR keyspace '" ++ "\r\n" ++ "' does not exist")) ∧
    parse (writeError ("ERREXEC ERR keyspace '" ++ "\r\n" ++ "' does not exist")) =
      .ok (.error "ERREXEC ERR keyspace '") 25 ∧
    (writeError ("ERREXEC ERR keyspace '" ++ "\r\n" ++ "' does not exist")).length = 43 := by
  refine ⟨?_, ?_, parse_writeError_crlf (by decide), by decide⟩
  · simp [parse, getLine, lineEnd?, parseBody, parseArray, atoiUsize, atoiValue, digitsValue, isDigit, usizeMax,
      capacityOverflow, isizeMax, frameSize, fromUtf8, utf8Chars, skip]
  · have hu : toUppercase .ascii "GET" = "GET" := by rw [toUppercase_ascii _ (by decide)]; rfl
    have hk : fromUtf8 [13, 10] = .ok "\r\n" := by simp [fromUtf8, utf8Chars]
    simp [respond, new, Parser.new, frameString, hu, Get.parse, parseKeyed, consumed, hk, Except.mapError, exec,
      Get.exec, KeyspaceManager.withKeyspace, KeyspaceManager.new]

/-! ## The end of the stream in the middle of a frame -/

/-- at the end of the stream with part of a frame buffered, a turn writes `connection reset by peer` and changes
nothing else -/
theorem Handler.turn_reset (cm : CaseMap) {h : Handler} (hi : (parse h.connection.buffer).incomplete = true)
    (hne : h.connection.buffer ≠ []) (hc : h.connection.chunks = []) :
    h.turn cm = .next { h with written := h.written ++ writeError "connection reset by peer" } := by
  obtain ⟨⟨buffer, chunks⟩, m, clock, written⟩ := h
  simp only at hi hne hc
  subst hc
  simp [Handler.turn, readFrame_reset hi hne, ReadError.message]

/-- so `handle` never returns: after `n` more turns it is still running and has written `n` more errors -/
theorem Handler.run_reset (cm : CaseMap) {h : Handler} (hi : (parse h.connection.buffer).incomplete = true)
    (hne : h.connection.buffer ≠ []) (hc : h.connection.chunks = []) (n : ℕ) :
    h.run cm n =
      .next { h with written := h.written ++ (List.replicate n (writeError "connection reset by peer")).flatten } := by
  induction n generalizing h with
  | zero => simp [Handler.run]
  | succ n ih =>
    rw [Handler.run, Handler.turn_reset cm hi hne hc]
    simp only
    rw [@ih { h with written := h.written ++ writeError "connection reset by peer" } hi hne hc]
    simp [List.replicate_succ]

/-- **A stream that ends inside a frame.** The client sends the one byte `$` (the start of a String header) and closes
its sending side: after any number of turns `handle` is still running with the `$` buffered, having written
`connection reset by peer` once a turn -/
theorem handle_partial_frame (cm : CaseMap) (m : KeyspaceManager) (clock n : ℕ) :
    Handler.run cm (n + 1) ⟨⟨[], [⟨[36], List.cons_ne_nil _ _⟩]⟩, m, clock, []⟩ =
      .next ⟨⟨[36], []⟩, m, clock, (List.replicate (n + 1) (writeError "connection reset by peer")).flatten⟩ := by
  have h0 : (parse []).incomplete = true := by simp [parse, getLine, lineEnd?, Parsed.incomplete]
  have hi : (parse [36]).incomplete = true := by simp [parse, getLine, lineEnd?, Parsed.incomplete]
  have hturn : Handler.turn cm ⟨⟨[], [⟨[36], List.cons_ne_nil _ _⟩]⟩, m, clock, []⟩ =
      .next ⟨⟨[36], []⟩, m, clock, writeError "connection reset by peer"⟩ := by
    simp [Handler.turn, readFrame_cons (Polled.answer_eq_none.2 h0), readFrame_reset hi, ReadError.message]
  rw [Handler.run, hturn]
  simp only
  rw [Handler.run_reset cm hi (List.cons_ne_nil _ _) rfl n]
  simp [List.replicate_succ]

/-! ## Streams of whole frames -/

/-- what `handle` writes for the frames `fs`, read one a turn from the manager `m` at time `now`: the response to each
frame in turn, the manager and the clock carried from one turn to the next; and the manager after the last -/
def respondAll (cm : CaseMap) : List Frame → KeyspaceManager → ℕ → KeyspaceManager × Bytes
  | [], m, _ => (m, [])
  | f :: fs, m, now =>
    ((respondAll cm fs (respond cm f m now).1 (now + 1)).1,
      (respond cm f m now).2 ++ (respondAll cm fs (respond cm f m now).1 (now + 1)).2)

/-- a turn on a connection whose bytes still to read begin with the serialization of a frame of the serializer's
domain answers that frame as `respond` does and leaves the bytes after it -/
theorem Handler.turn_write (cm : CaseMap) {h : Handler} {f : Frame} {b rest : Bytes}
    (hw : f.Wf ∧ writeFrame f = some b) (hc : h.connection.content = b ++ rest)
    (hb : h.connection.content.length ≤ isizeMax) :
    ∃ c, h.turn cm = .next ⟨c, (respond cm f h.keyspaceManager h.clock).1, h.clock + 1,
      h.written ++ (respond cm f h.keyspaceManager h.clock).2⟩ ∧ c.content = rest := by
  obtain ⟨h1, h2⟩ := readFrame_write hw hc hb
  generalize hr : readFrame h.connection.buffer h.connection.chunks = r at h1 h2
  obtain ⟨r, c'⟩ := r
  obtain rfl : r = .frame f := h1
  simp only [Handler.turn, hr]
  exact ⟨_, rfl, h2⟩

/-- **Whole frames end `handle`.** When the bytes still to come are the serializations of frames `f1 .. fn` of the
serializer's domain, at most `isize::MAX` bytes in all, followed by the end of the stream, `handle` returns in the turn
after the last, having answered `f1 .. fn` in turn as `respond` does, each on the manager and at the clock the turn
before it left: it writes the responses to `f1 .. fn` and nothing else -/
theorem Handler.run_written (cm : CaseMap) {fs : List Frame} {bs : List Bytes}
    (hw : List.Forall₂ (fun f b => f.Wf ∧ writeFrame f = some b) fs bs) {h : Handler}
    (hc : h.connection.content = bs.flatten) (hb : h.connection.content.length ≤ isizeMax) :
    ∃ h', h.run cm (fs.length + 1) = .done h' ∧
      h'.keyspaceManager = (respondAll cm fs h.keyspaceManager h.clock).1 ∧ h'.clock = h.clock + fs.length ∧
      h'.written = h.written ++ (respondAll cm fs h.keyspaceManager h.clock).2 := by
  induction hw generalizing h with
  | nil =>
    simp only [Handler.run, Handler.turn, readFrame_closed hc]
    exact ⟨_, rfl, rfl, rfl, by simp [respondAll]⟩
  | @cons f b fs bs hfb _ ih =>
    rw [List.flatten_cons] at hc
    obtain ⟨c, ht, hc₁⟩ := Handler.turn_write cm hfb hc hb
    obtain ⟨h', hr, hm, hk, hwr⟩ := ih (h := ⟨c, _, _, _⟩) hc₁ (by rw [hc₁]; rw [hc] at hb; simp at hb ⊢; omega)
    refine ⟨h', by rw [List.length_cons, Handler.run, ht]; exact hr, hm, by rw [hk]; simp; omega, ?_⟩
    rw [hwr]
    simp [respondAll]

/-- a client that sends one Null frame and closes its side: `handle` answers it as `respond` does and returns in the
second turn -/
theorem null_request_returns :
    ∃ h', Handler.run .ascii ([Frame.null].length + 1)
        ⟨⟨[], [⟨[42, 45, 49, 13, 10, 13, 10], by simp⟩]⟩, KeyspaceManager.new 0, 0, []⟩ = .done h' ∧
      h'.keyspaceManager = (respondAll .ascii [Frame.null] (KeyspaceManager.new 0) 0).1 ∧ h'.clock = 0 + 1 ∧
      h'.written = [] ++ (respondAll .ascii [Frame.null] (KeyspaceManager.new 0) 0).2 :=
  Handler.run_written .ascii (.cons (a := Frame.null) ⟨trivial, rfl⟩ .nil) rfl (by simp [Connection.content, isizeMax])

end Segment
