/-
The connection's read path (`connection.rs`): `Connection::parse_frame` and `Connection::read_frame`, over a socket
that delivers a byte stream in reads.

A `Connection` is its `buffer` and what its socket will still deliver: `chunks`, the results of the successive
`read_buf` calls that return data (a `Chunk` holds at least one byte), after which every read returns 0 (the peer has
closed its sending side). Socket errors are not modelled. The buffer is unbounded here; a `BytesMut` cannot hold more
than `isize::MAX` bytes, and the results are stated for what fits in one.

Results:
- `parse_pos_le`: the cursor never moves past the end of the buffer (so `BytesMut::advance` never panics);
- `parse_append`, `parseAt_append`: `parse` is prefix-monotone: once the bytes after the cursor give `Ok` or
  `InvalidFrame`, more bytes after them change neither the answer nor the cursor (a panic stays a panic within
  `isize::MAX` bytes);
- `parse_progress`: `Ok` and `InvalidFrame` move the cursor at least 2 bytes on, so `parse_frame` shrinks the buffer
  on every definite result;
- `readFrame_content`: one call of `read_frame` computes `readSpec` of everything it will see, the buffer followed by
  all the bytes the socket will still deliver, however the socket splits them;
- `readFrame_partition`: the results of successive calls depend on the stream alone, and the serializations of frames
  `f1 .. fn` read back as `f1, .., fn`, then `None`;
- `readFrame_reset`: at the end of the stream with part of a frame buffered, `read_frame` answers
  `connection reset by peer` and leaves the connection as it was;
- `readFrames_invalid_line`: after a line that `parse` rejects on its own, the calls return `InvalidFrame` and then
  what they return on the rest of the stream alone.
-/
import Segment.Codec

namespace Segment

/-! ## Where `parse` leaves the cursor -/

/-- the cursor position a call of `parse` reached (a panic reaches none) -/
def Parsed.pos : Parsed → ℕ
  | .ok _ n => n
  | .err _ n => n
  | .panic => 0

/-- `parse` asked for more bytes: `Err(IncompleteFrame)` -/
def Parsed.incomplete : Parsed → Bool
  | .err .incompleteFrame _ => true
  | _ => false

theorem Parsed.pos_shift_le (k : ℕ) (r : Parsed) : (r.shift k).pos ≤ k + r.pos := by
  cases r <;> simp [Parsed.shift, Parsed.pos]

theorem Parsed.pos_shift {r : Parsed} (hr : r ≠ .panic) (k : ℕ) : (r.shift k).pos = k + r.pos := by
  cases r <;> simp_all [Parsed.shift, Parsed.pos]

@[simp] theorem Parsed.incomplete_shift (k : ℕ) (r : Parsed) : (r.shift k).incomplete = r.incomplete := by
  rcases r with _ | ⟨_ | _, _⟩ | _ <;> rfl

theorem parseBody_pos_le {line rest : Bytes} (ha : ∀ length, (parseArray rest length []).pos ≤ rest.length) :
    (parseBody line rest).pos ≤ rest.length := by
  have hb := parseBody_body line rest
  generalize parseBody line rest = r at hb
  cases hb with
  | null h | blob _ _ h _ => exact h
  | array => exact ha _
  | _ => exact Nat.zero_le _

mutual

/-- `parse` never moves the cursor past the end of the buffer -/
theorem parse_pos_le (s : Bytes) : (parse s).pos ≤ s.length := by
  rcases hg : getLine s with e | ⟨line, n⟩
  · rw [parse_of_getLine_error hg]; exact Nat.zero_le _
  · have hn := (getLine_le hg).2
    rw [parse_of_getLine hg]
    have := @parseBody_pos_le line (s.drop n) fun length => parseArray_pos_le (s.drop n) length []
    have := Parsed.pos_shift_le n (parseBody line (s.drop n))
    simp only [List.length_drop] at *
    omega
termination_by (s.length, 0)
decreasing_by
  obtain ⟨h2, -⟩ := getLine_le hg
  exact .left _ _ (by simp only [List.length_drop]; omega)

theorem parseArray_pos_le (s : Bytes) (k : ℕ) (values : List Frame) : (parseArray s k values).pos ≤ s.length := by
  cases k with
  | zero => rw [parseArray_zero]; exact Nat.zero_le _
  | succ k =>
    rw [parseArray_succ]
    have h1 := parse_pos_le s
    split
    · next n _ h => rw [h] at h1; exact h1
    · next f n _ h =>
      have := Parsed.pos_shift_le n (parseArray (s.drop n) k (values ++ [f]))
      have := parseArray_pos_le (s.drop n) k (values ++ [f])
      rw [h] at h1
      simp only [Parsed.pos, List.length_drop] at *
      omega
    · next e n h => rw [h] at h1; exact h1
    · exact Nat.zero_le _
termination_by (s.length, k + 1)
decreasing_by
  · exact .right _ (by omega)
  · exact lex_of_le_of_lt (by simp) (by omega)

end

/-! ## More bytes do not change a definite answer -/

theorem getLine_append {s line : Bytes} {n : ℕ} (h : getLine s = .ok (line, n)) (t : Bytes) :
    getLine (s ++ t) = .ok (line, n) := by
  obtain ⟨rest, rfl, hl, rfl⟩ := getLine_eq_ok.1 h
  exact getLine_eq_ok.2 ⟨rest ++ t, by simp, hl, rfl⟩

theorem getLine_eq_error {s : Bytes} {e : ParseError} (h : getLine s = .error e) : e = .incompleteFrame := by
  unfold getLine at h; split at h <;> cases h; rfl

theorem length_drop_append_le {s t : Bytes} {N : ℕ} (h : (s ++ t).length ≤ N) (n : ℕ) : (s.drop n ++ t).length ≤ N := by
  simp only [List.length_append, List.length_drop] at h ⊢; omega

theorem parse_ok_pos_le {s : Bytes} {f : Frame} {n : ℕ} (h : parse s = .ok f n) : n ≤ s.length := by
  simpa [h, Parsed.pos] using parse_pos_le s

/-- what a call of `parse` can do: answer `IncompleteFrame` from `get_line` with the cursor where it was, or answer
after `get_line` has consumed a CR-LF terminated line of at least 2 bytes -/
theorem parse_cases (s : Bytes) :
    parse s = .err .incompleteFrame 0 ∨ ∃ line n, getLine s = .ok (line, n) ∧ 2 ≤ n ∧
      parse s = (parseBody line (s.drop n)).shift n := by
  rcases hg : getLine s with e | ⟨line, n⟩
  · rw [parse_of_getLine_error hg, getLine_eq_error hg]; exact .inl rfl
  · exact .inr ⟨line, n, rfl, (getLine_le hg).1, parse_of_getLine hg⟩

/-- an answer other than `IncompleteFrame` moves the cursor at least 2 bytes on, and not past the end -/
theorem parse_definite_pos {s : Bytes} {r : Parsed} (h : parse s = r) (hi : r.incomplete = false)
    (hp : r ≠ .panic) : 2 ≤ r.pos ∧ r.pos ≤ s.length := by
  refine ⟨?_, h ▸ parse_pos_le s⟩
  rcases parse_cases s with h' | ⟨line, n, -, hn, h'⟩
  · rw [h'] at h; subst h; cases hi
  · rw [h'] at h; subst h
    rw [Parsed.pos_shift fun hb => hp (by rw [hb]; rfl)]
    omega

/-- the body of `parse` gives the same definite answer when more bytes follow, given that the array loop does -/
theorem parseBody_append {line rest t : Bytes} (hb : parseBody line rest = .panic → (rest ++ t).length ≤ isizeMax)
    (ha : ∀ length, (parseArray rest length []).incomplete = false →
      (parseArray rest length [] = .panic → (rest ++ t).length ≤ isizeMax) →
        parseArray (rest ++ t) length [] = parseArray rest length [])
    (h : (parseBody line rest).incomplete = false) : parseBody line (rest ++ t) = parseBody line rest := by
  have hlen : rest.length ≤ (rest ++ t).length := by simp
  rcases line with _ | ⟨tag, d⟩
  · simp only [parseBody_nil]
  rcases tag_cases tag with rfl | rfl | rfl | rfl | rfl | htag
  · simp only [parseBody_string]
  · simp only [parseBody_integer]
  · simp only [parseBody_error]
  · by_cases hd : d = [45, 49]
    · subst hd
      simp only [parseBody_null, skip] at h ⊢
      split_ifs at h ⊢ <;> first | rfl | omega | simp [Parsed.incomplete] at h
    · simp only [parseBody_blob hd] at h hb ⊢
      rcases hl : atoiUsize d with _ | length <;> simp only [hl] at h hb ⊢
      · split_ifs at h hb with h1 h2
        · simp [Parsed.incomplete] at h
        · have hb := hb rfl
          have : isizeMax < length := by
            simp only [isizeMax] at hb ⊢; omega
          rw [if_neg (by omega), if_pos (by omega), if_neg h1, if_pos h2]
        · rw [if_neg (by omega), if_neg (by omega), skip, skip, if_neg (by omega), if_neg h1, if_neg h1, if_neg h2,
            List.take_append_of_le_length (by omega)]
  · simp only [parseBody_array] at h hb ⊢
    rcases hl : atoiUsize d with _ | length <;> simp only [hl] at h hb ⊢
    split_ifs at h hb ⊢
    exacts [rfl, ha length h hb]
  · simp only [parseBody_other htag]

mutual

/-- **Prefix monotonicity.** Once `parse` gives a definite answer on the bytes after the cursor, more bytes after them
do not change it. A panic stays a panic within `isize::MAX` bytes, where a Blob length cannot wrap. -/
theorem parse_append {s t : Bytes} (h : (parse s).incomplete = false)
    (hb : parse s = .panic → (s ++ t).length ≤ isizeMax) : parse (s ++ t) = parse s := by
  rcases hg : getLine s with e | ⟨line, n⟩
  · rw [parse_of_getLine_error hg, getLine_eq_error hg] at h; cases h
  · have hn := (getLine_le hg).2
    rw [parse_of_getLine hg, Parsed.incomplete_shift] at h
    have hb' : parseBody line (s.drop n) = .panic → (s.drop n ++ t).length ≤ isizeMax := fun hp =>
      length_drop_append_le (hb (by rw [parse_of_getLine hg, hp]; rfl)) n
    rw [parse_of_getLine hg, parse_of_getLine (getLine_append hg t), List.drop_append_of_le_length hn,
      parseBody_append hb' (fun length => parseArray_append) h]
termination_by (s.length, 0)
decreasing_by
  obtain ⟨h2, -⟩ := getLine_le hg
  exact .left _ _ (by simp only [List.length_drop]; omega)

theorem parseArray_append {s t : Bytes} {k : ℕ} {values : List Frame} (h : (parseArray s k values).incomplete = false)
    (hb : parseArray s k values = .panic → (s ++ t).length ≤ isizeMax) :
    parseArray (s ++ t) k values = parseArray s k values := by
  cases k with
  | zero => simp only [parseArray_zero]
  | succ k =>
    rw [parseArray_succ] at h hb
    have hp : (parse s).incomplete = false := by revert h; split <;> simp_all [Parsed.incomplete]
    have hpb : parse s = .panic → (s ++ t).length ≤ isizeMax := fun hp => hb (by rw [hp])
    rw [parseArray_succ, parseArray_succ, parse_append hp hpb]
    split
    · rfl
    · next f n hna hf =>
      rw [hf] at h hb
      simp only at h hb
      rw [Parsed.incomplete_shift] at h
      rw [List.drop_append_of_le_length (parse_ok_pos_le hf), parseArray_append h fun hp =>
        length_drop_append_le (hb (by rw [hp]; rfl)) n]
    · rfl
    · rfl
termination_by (s.length, k + 1)
decreasing_by
  · exact .right _ (by omega)
  · exact lex_of_le_of_lt (by simp) (by omega)

end

/-- at a cursor position: an answer that is neither `IncompleteFrame` nor a panic stays the same, cursor included,
whatever bytes are appended to the buffer -/
theorem parseAt_append_of {B : Bytes} {p : ℕ} {r : Parsed} (h : parseAt B p = r) (hi : r.incomplete = false)
    (hp : r ≠ .panic) (C : Bytes) : parseAt (B ++ C) p = r := by
  subst h
  rw [parseAt, Parsed.incomplete_shift] at hi
  have hp' : parse (B.drop p) ≠ .panic := fun h' => hp (by rw [parseAt, h']; rfl)
  have hlen : p ≤ B.length := by
    by_contra hlt
    rw [List.drop_eq_nil_of_le (by omega), parse_of_getLine_error (s := []) (e := .incompleteFrame) rfl] at hi
    cases hi
  rw [parseAt, parseAt, List.drop_append_of_le_length hlen, parse_append hi fun h' => absurd h' hp']

/-- **More bytes keep a definite answer.** For every buffer, cursor position and bytes appended to the buffer: when
`parse` returns `Ok(f)` with the cursor at `q`, it returns `Ok(f)` with the cursor at `q` on the longer buffer, and
the same for `InvalidFrame`; only `IncompleteFrame` can change -/
theorem parseAt_append (B C : Bytes) (p q : ℕ) (f : Frame) :
    (parseAt B p = .ok f q → parseAt (B ++ C) p = .ok f q) ∧
      (parseAt B p = .err .invalidFrame q → parseAt (B ++ C) p = .err .invalidFrame q) :=
  ⟨fun h => parseAt_append_of h rfl (by simp) C, fun h => parseAt_append_of h rfl (by simp) C⟩

/-- `$a` CR-LF reads as the String `a`, with the cursor at its end -/
theorem parseAt_string_a : parseAt [36, 97, 13, 10] 0 = .ok (.string "a") 4 := by
  simp [parseAt, parse, getLine, lineEnd?, parseBody, fromUtf8, utf8Chars]

/-- a byte after `$a` CR-LF leaves its reading alone -/
theorem string_a_extended : parseAt ([36, 97, 13, 10] ++ [42]) 0 = .ok (.string "a") 4 :=
  (parseAt_append [36, 97, 13, 10] [42] 0 4 (.string "a")).1 parseAt_string_a

/-! ## The connection -/

/-- one `read_buf` call that does not signal the end of the stream: it appends at least one byte -/
structure Chunk where
  bytes : Bytes
  ne_nil : bytes ≠ []

/-- the bytes a list of reads delivers -/
def delivered (chunks : List Chunk) : Bytes := chunks.flatMap Chunk.bytes

@[simp] theorem delivered_nil : delivered [] = [] := rfl

@[simp] theorem delivered_cons (c : Chunk) (cs : List Chunk) : delivered (c :: cs) = c.bytes ++ delivered cs := rfl

/-- a `Connection`: its read buffer, and the reads its socket will still answer with data; every read after them
returns 0 (the peer has closed its sending side) -/
structure Connection where
  buffer : Bytes
  chunks : List Chunk

/-- everything `read_frame` will see: the buffer, then all the bytes the socket will still deliver -/
def Connection.content (c : Connection) : Bytes := c.buffer ++ delivered c.chunks

/-- what `Connection::parse_frame` returns: `Ok(Some(frame))`, `Ok(None)`, `Err(e)`, or a panic of `parse` -/
inductive Polled where
  | frame (f : Frame)
  | incomplete
  | error (e : ParseError)
  | panic

/-- `Connection::parse_frame`: `parse` from the start of the buffer; on `Ok` and on an error other than
`IncompleteFrame` the buffer advances to the cursor -/
def parseFrame (buffer : Bytes) : Polled × Bytes :=
  match parse buffer with
  | .ok f n => (.frame f, buffer.drop n)
  | .err .incompleteFrame _ => (.incomplete, buffer)
  | .err e n => (.error e, buffer.drop n)
  | .panic => (.panic, buffer)

/-- the error `read_frame` returns: the `ParseError` of `parse_frame`, or `connection reset by peer` -/
inductive ReadError where
  | parse (e : ParseError)
  | reset

/-- how a call of `read_frame` ends: `Ok(Some(frame))`, `Ok(None)`, `Err(e)`, or a panic -/
inductive Read where
  | frame (f : Frame)
  | closed
  | error (e : ReadError)
  | panic

/-- what `read_frame` returns when `parse_frame` gives a definite answer; on `Ok(None)` the loop goes on -/
def Polled.answer : Polled → Option Read
  | .frame f => some (.frame f)
  | .incomplete => none
  | .error e => some (.error (.parse e))
  | .panic => some .panic

/-- `Connection::read_frame`: every turn of the loop returns, or takes one read off the socket -/
def readFrame (buffer : Bytes) (chunks : List Chunk) : Read × Connection :=
  match (parseFrame buffer).1.answer, chunks with
  | some r, chunks => (r, ⟨(parseFrame buffer).2, chunks⟩)
  | none, [] => (if buffer.isEmpty then .closed else .error .reset, ⟨buffer, []⟩)
  | none, c :: cs => readFrame (buffer ++ c.bytes) cs

theorem Polled.answer_eq_none {s : Bytes} : (parseFrame s).1.answer = none ↔ (parse s).incomplete = true := by
  unfold parseFrame; split <;> simp_all [Polled.answer, Parsed.incomplete]

theorem parseFrame_incomplete {s : Bytes} (h : (parse s).incomplete = true) : (parseFrame s).2 = s := by
  unfold parseFrame; split <;> simp_all [Parsed.incomplete]

/-- once `parse_frame` has a definite answer, more bytes in the buffer leave it alone and stay in the buffer -/
theorem parseFrame_append {s t : Bytes} (hb : (s ++ t).length ≤ isizeMax) (h : (parse s).incomplete = false) :
    parseFrame (s ++ t) = ((parseFrame s).1, (parseFrame s).2 ++ t) := by
  unfold parseFrame
  rw [parse_append h fun _ => hb]
  split
  · next hp => rw [List.drop_append_of_le_length (parse_ok_pos_le hp)]
  · rfl
  · next n _ hp => rw [List.drop_append_of_le_length (by simpa [hp, Parsed.pos] using parse_pos_le s)]
  · rfl

/-- **The read path, abstractly.** One call of `read_frame`, as a function of everything it will see: `parse_frame` on
all of it, and when that asks for more bytes, the end of the stream -/
def readSpec (content : Bytes) : Read × Bytes :=
  ((parseFrame content).1.answer.getD (if content.isEmpty then .closed else .error .reset), (parseFrame content).2)

theorem parseFrame_length_le (s : Bytes) : (parseFrame s).2.length ≤ s.length := by
  unfold parseFrame; split <;> simp

/-- **Progress.** `parse` is defined by well-founded recursion on the bytes after the cursor (then the children still
to read), each recursive call following a `get_line` that consumed a CR-LF terminated line; so it always returns or
panics. When it returns `Ok` or `InvalidFrame`, the cursor has moved at least 2 bytes on and stays in the buffer, so
`parse_frame` takes at least 2 bytes off the buffer on every definite result -/
theorem parse_progress (buf : Bytes) (p : ℕ) :
    (∀ f q, parseAt buf p = .ok f q → p + 2 ≤ q ∧ q ≤ buf.length) ∧
      (∀ q, parseAt buf p = .err .invalidFrame q → p + 2 ≤ q ∧ q ≤ buf.length) ∧
      (∀ f, (parseFrame buf).1 = .frame f → (parseFrame buf).2.length + 2 ≤ buf.length) ∧
      (∀ e, (parseFrame buf).1 = .error e → (parseFrame buf).2.length + 2 ≤ buf.length) := by
  have hat : ∀ {r : Parsed}, parseAt buf p = r → r.incomplete = false → r ≠ .panic →
      p + 2 ≤ r.pos ∧ r.pos ≤ buf.length := by
    intro r h hi hp
    subst h
    rw [parseAt, Parsed.incomplete_shift] at hi
    have hp' : parse (buf.drop p) ≠ .panic := fun h' => hp (by rw [parseAt, h']; rfl)
    obtain ⟨h2, hle⟩ := parse_definite_pos rfl hi hp'
    rw [parseAt, Parsed.pos_shift hp']
    simp only [List.length_drop] at hle
    omega
  have hdrop : ∀ {r : Parsed}, parse buf = r → r.incomplete = false → r ≠ .panic →
      (buf.drop r.pos).length + 2 ≤ buf.length := fun h hi hp => by
    have := parse_definite_pos h hi hp
    simp only [List.length_drop]; omega
  refine ⟨fun f q h => hat h rfl (by simp), fun q h => hat h rfl (by simp), fun f h => ?_, fun e h => ?_⟩
  all_goals
    rcases hp : parse buf with ⟨g, n⟩ | ⟨_ | _, n⟩ | _ <;> simp only [parseFrame, hp, reduceCtorEq] at h ⊢
    exact hdrop hp rfl (by simp)

/-- `$a` CR-LF reads as the String `a` with the cursor 4 bytes on, at least 2 and within the buffer -/
theorem string_a_progress :
    parseAt [36, 97, 13, 10] 0 = .ok (.string "a") 4 ∧ 0 + 2 ≤ 4 ∧ 4 ≤ [36, 97, 13, 10].length :=
  ⟨parseAt_string_a, (parse_progress [36, 97, 13, 10] 0).1 (.string "a") 4 parseAt_string_a⟩

/-! ## One call of `read_frame` -/

theorem readFrame_answer {buffer : Bytes} {r : Read} (h : (parseFrame buffer).1.answer = some r) (chunks : List Chunk) :
    readFrame buffer chunks = (r, ⟨(parseFrame buffer).2, chunks⟩) := by
  unfold readFrame; split <;> simp_all

theorem readFrame_nil {buffer : Bytes} (h : (parseFrame buffer).1.answer = none) :
    readFrame buffer [] = (if buffer.isEmpty then .closed else .error .reset, ⟨buffer, []⟩) := by
  unfold readFrame; split <;> simp_all

theorem readFrame_cons {buffer : Bytes} (h : (parseFrame buffer).1.answer = none) (c : Chunk) (cs : List Chunk) :
    readFrame buffer (c :: cs) = readFrame (buffer ++ c.bytes) cs := by
  rw [readFrame.eq_def, h]

/-- one call of `read_frame` computes `readSpec` of what it will see, and leaves what `readSpec` leaves -/
theorem readFrame_content (chunks : List Chunk) {buffer : Bytes} (hb : (buffer ++ delivered chunks).length ≤ isizeMax) :
    ((readFrame buffer chunks).1, (readFrame buffer chunks).2.content) = readSpec (buffer ++ delivered chunks) := by
  rcases ha : (parseFrame buffer).1.answer with _ | r
  · have hi := Polled.answer_eq_none.1 ha
    cases chunks with
    | nil => simp [readFrame_nil ha, readSpec, Connection.content, ha, parseFrame_incomplete hi]
    | cons c cs =>
      rw [readFrame_cons ha, readFrame_content cs (by simpa using hb)]
      simp
  · have hi : (parse buffer).incomplete = false := by simpa [ha] using (Polled.answer_eq_none (s := buffer)).not
    simp [readFrame_answer ha, readSpec, Connection.content, parseFrame_append hb hi, ha]

/-! ## Runs -/

/-- `n` successive calls of a reader; a panic ends the task, so no call follows one -/
def calls {σ : Type} (read : σ → Read × σ) : ℕ → σ → List Read
  | 0, _ => []
  | n + 1, s =>
    match read s with
    | (.panic, _) => [.panic]
    | (r, s') => r :: calls read n s'

/-- `n` successive calls of `read_frame` on a connection -/
def readFrames (n : ℕ) (c : Connection) : List Read := calls (fun c => readFrame c.buffer c.chunks) n c

theorem calls_succ {σ : Type} (read : σ → Read × σ) (n : ℕ) (s : σ) :
    calls read (n + 1) s = match (read s).1 with
      | .panic => [.panic]
      | r => r :: calls read n (read s).2 := by
  rw [calls]; split <;> simp_all

/-- a reader that computes what another computes on an abstraction of its state, and keeps an invariant, gives the
same results over any number of calls -/
theorem calls_simulate {σ τ : Type} {read : σ → Read × σ} {spec : τ → Read × τ} (abs : σ → τ) (inv : σ → Prop)
    (hstep : ∀ s, inv s → ((read s).1, abs (read s).2) = spec (abs s)) (hinv : ∀ s, inv s → inv (read s).2) :
    ∀ n s, inv s → calls read n s = calls spec n (abs s) := by
  intro n
  induction n with
  | zero => intro s _; rfl
  | succ n ih =>
    intro s hs
    obtain ⟨h1, h2⟩ := Prod.ext_iff.1 (hstep s hs)
    rw [calls_succ, calls_succ, ← h1, ← h2, ih _ (hinv s hs)]

theorem readSpec_length_le (content : Bytes) : (readSpec content).2.length ≤ content.length :=
  parseFrame_length_le content

theorem readFrames_readSpec (n : ℕ) (c : Connection) (hc : c.content.length ≤ isizeMax) :
    readFrames n c = calls readSpec n c.content := by
  refine calls_simulate Connection.content (fun c => c.content.length ≤ isizeMax) (fun c hc => ?_) (fun c hc => ?_)
    n c hc
  · exact readFrame_content c.chunks hc
  · have h2 := congrArg Prod.snd (readFrame_content c.chunks hc)
    simp only at h2
    show (readFrame c.buffer c.chunks).2.content.length ≤ isizeMax
    rw [h2]
    exact le_trans (readSpec_length_le _) hc

/-- reading the serialization of a frame of the serializer's domain, abstractly: that frame, and the bytes after it -/
theorem readSpec_write {f : Frame} {b : Bytes} (h : f.Wf ∧ writeFrame f = some b) (rest : Bytes) :
    readSpec (b ++ rest) = (.frame f, rest) := by
  simp [readSpec, parseFrame, parse_writeFrame_append h.1 h.2 rest, Polled.answer]

/-- reading the serializations of frames `f1 .. fn`, abstractly: `f1, .., fn`, then `None` -/
theorem readSpec_written (fs : List Frame) (bs : List Bytes)
    (hw : List.Forall₂ (fun f b => f.Wf ∧ writeFrame f = some b) fs bs) :
    calls readSpec (fs.length + 1) bs.flatten = fs.map Read.frame ++ [.closed] := by
  induction hw with
  | nil => simp [calls, readSpec, parseFrame, parse_of_getLine_error (s := []) rfl, Polled.answer]
  | @cons f b fs bs h _ ih =>
    rw [List.length_cons, calls_succ, List.flatten_cons, readSpec_write h]
    simp [ih]

/-- one call of `read_frame` on a connection whose bytes still to read begin with the serialization of a frame of the
serializer's domain returns that frame and leaves the bytes after it -/
theorem readFrame_write {c : Connection} {f : Frame} {b rest : Bytes} (h : f.Wf ∧ writeFrame f = some b)
    (hc : c.content = b ++ rest) (hb : c.content.length ≤ isizeMax) :
    (readFrame c.buffer c.chunks).1 = .frame f ∧ (readFrame c.buffer c.chunks).2.content = rest := by
  have := readFrame_content c.chunks hb
  rw [← Connection.content, hc, readSpec_write h] at this
  exact Prod.ext_iff.1 this

/-- **Chunking does not matter.** For every byte stream of at most `isize::MAX` bytes and every way the socket splits
it into reads, the results of successive `read_frame` calls on a fresh connection are a function of the stream alone
(`readSpec`, call after call); and when the stream is the serializations of frames `f1 .. fn` of the serializer's
domain, the calls return `f1, .., fn` in order and then `None`. -/
theorem readFrame_partition :
    (∀ S : Bytes, S.length ≤ isizeMax → ∀ P : List Chunk, delivered P = S →
      ∀ n, readFrames n ⟨[], P⟩ = calls readSpec n S) ∧
    (∀ (fs : List Frame) (bs : List Bytes), List.Forall₂ (fun f b => f.Wf ∧ writeFrame f = some b) fs bs →
      bs.flatten.length ≤ isizeMax → ∀ P : List Chunk, delivered P = bs.flatten →
        readFrames (fs.length + 1) ⟨[], P⟩ = fs.map Read.frame ++ [.closed]) := by
  refine ⟨fun S hS P hP n => ?_, fun fs bs hw hS P hP => ?_⟩
  · rw [readFrames_readSpec n _ (by simpa [Connection.content, hP] using hS)]
    simp [Connection.content, hP]
  · rw [readFrames_readSpec _ _ (by simpa [Connection.content, hP] using hS)]
    simpa [Connection.content, hP] using readSpec_written fs bs hw

/-- `*-1` CR-LF CR-LF, split inside its header: `Null`, then `None` -/
theorem null_split_reads :
    readFrames 2 ⟨[], [⟨[42], by simp⟩, ⟨[45, 49, 13, 10, 13, 10], by simp⟩]⟩ = [.frame .null, .closed] :=
  readFrame_partition.2 [.null] [[42, 45, 49, 13, 10, 13, 10]] (.cons ⟨trivial, rfl⟩ .nil) (by simp [isizeMax]) _ rfl

/-- at the end of the stream with nothing buffered, `read_frame` returns `Ok(None)` -/
theorem readFrame_closed {c : Connection} (h : c.content = []) : readFrame c.buffer c.chunks = (.closed, c) := by
  obtain ⟨buffer, chunks⟩ := c
  obtain ⟨rfl, hd⟩ := List.append_eq_nil.1 h
  obtain rfl : chunks = [] := by
    cases chunks with
    | nil => rfl
    | cons c cs => exact absurd (List.append_eq_nil.1 hd).1 c.ne_nil
  rw [readFrame_nil (Polled.answer_eq_none.2 (by rw [parse_of_getLine_error (s := []) rfl]; rfl))]
  rfl

/-- at the end of the stream with part of a frame in the buffer, `read_frame` answers `connection reset by peer` and
leaves the connection as it was -/
theorem readFrame_reset {buffer : Bytes} (hi : (parse buffer).incomplete = true) (hne : buffer ≠ []) :
    readFrame buffer [] = (.error .reset, ⟨buffer, []⟩) := by
  rw [readFrame_nil (Polled.answer_eq_none.2 hi)]
  simp [hne]

/-! ## A malformed line -/

/-- reading a line that `parse` rejects on its own, abstractly: `InvalidFrame`, and the bytes after the line -/
theorem readSpec_invalid_line {line : Bytes} (hl : parse (line ++ [13, 10]) = .err .invalidFrame (line.length + 2))
    (S : Bytes) : readSpec (line ++ [13, 10] ++ S) = (.error (.parse .invalidFrame), S) := by
  have hp : parse (line ++ [13, 10] ++ S) = .err .invalidFrame (line.length + 2) :=
    (parse_append (by rw [hl]; rfl) fun h => absurd (hl.symm.trans h) (by simp)).trans hl
  unfold readSpec parseFrame
  rw [hp]
  exact Prod.ext rfl (List.drop_left' (by simp))

/-- **A malformed line is skipped.** Let `line` be a line that `parse` rejects on its own as `InvalidFrame`, having
read it to its CR-LF. For every stream `S` after it, at most `isize::MAX` bytes in all, and all ways the socket splits
the two streams into reads, successive `read_frame` calls return `InvalidFrame` and then exactly what they return on
`S` alone: `parse_frame` moves the buffer past the line, and nothing of it is read again -/
theorem readFrames_invalid_line {line : Bytes} (hl : parse (line ++ [13, 10]) = .err .invalidFrame (line.length + 2))
    {S : Bytes} (hb : (line ++ [13, 10] ++ S).length ≤ isizeMax) {P Q : List Chunk}
    (hP : delivered P = line ++ [13, 10] ++ S) (hQ : delivered Q = S) (n : ℕ) :
    readFrames (n + 1) ⟨[], P⟩ = .error (.parse .invalidFrame) :: readFrames n ⟨[], Q⟩ := by
  have hS : S.length ≤ isizeMax := le_trans (by simp only [List.length_append]; omega) hb
  rw [readFrames_readSpec _ _ (by simpa [Connection.content, hP] using hb),
    readFrames_readSpec _ _ (by simpa [Connection.content, hQ] using hS)]
  simp only [Connection.content, List.nil_append, hP, hQ]
  rw [calls_succ, readSpec_invalid_line hl]

/-- `h` CR-LF, a line with no frame type, and then nothing: `InvalidFrame`, then `None` -/
theorem unknown_type_skipped :
    parse ([104] ++ [13, 10]) = .err .invalidFrame ([104].length + 2) ∧
      readFrames 2 ⟨[], [⟨[104, 13, 10], by simp⟩]⟩ = .error (.parse .invalidFrame) :: readFrames 1 ⟨[], []⟩ := by
  have hl : parse ([104] ++ [13, 10]) = .err .invalidFrame ([104].length + 2) := by
    simp [parse, getLine, lineEnd?, parseBody]
  exact ⟨hl, readFrames_invalid_line hl (S := []) (P := [⟨[104, 13, 10], by simp⟩]) (Q := []) (by simp [isizeMax])
    rfl rfl 1⟩

end Segment
