/-
The frame codec's reader (`frame.rs`): `Frame`, `ParseError`, `get_line`, `skip`, `parse`.

`parse` reads through a `Cursor<&[u8]>`; what it does depends only on the bytes after the cursor, so the model runs on
that suffix and reports how far the cursor moved (`Parsed`): `ok f n` and `err e n` leave the cursor `n` bytes on, and
`panic` is a panic of the Rust code. `parseAt buf pos` puts the cursor back into absolute positions.

Machine arithmetic follows a release build: `length + 2` in the Blob branch wraps modulo 2^64 (a debug build panics at
the addition instead, for the same lengths), and `cursor.chunk()[..length]` panics when `length` exceeds what is left.
`Vec::with_capacity(length)` panics when `length` frames need more than `isize::MAX` bytes (`capacityOverflow`).

`parse` recurses into array children; it terminates because every call reads a CR-LF terminated line first. The
measure is the number of bytes after the cursor, then the number of children still to read.

Spec lemmas: `parse_of_getLine` for the line, one per branch of the body (`parseBody_string`, `parseBody_integer`,
`parseBody_error`, `parseBody_null`, `parseBody_blob`, `parseBody_array`, `parseBody_other`), and `parseArray_succ`
for one iteration of the children loop.
-/
import Segment.Utf8

namespace Segment

/-- `Frame` -/
inductive Frame where
  | string (data : String)
  | blob (data : Bytes)
  | integer (data : I64)
  | null
  | array (values : List Frame)
  | error (data : String)

/-- `ParseError` -/
inductive ParseError where
  | incompleteFrame
  | invalidFrame
deriving DecidableEq

/-- how a call of `parse` ends: it returns with the cursor `n` bytes on, or it panics -/
inductive Parsed where
  | ok (f : Frame) (n : ℕ)
  | err (e : ParseError) (n : ℕ)
  | panic

/-- the same outcome, `k` bytes further on -/
def Parsed.shift (k : ℕ) : Parsed → Parsed
  | .ok f n => .ok f (k + n)
  | .err e n => .err e (k + n)
  | .panic => .panic

@[simp] theorem Parsed.shift_ok (k : ℕ) (f : Frame) (n : ℕ) : (Parsed.ok f n).shift k = .ok f (k + n) := rfl

@[simp] theorem Parsed.shift_err (k : ℕ) (e : ParseError) (n : ℕ) :
    (Parsed.err e n).shift k = .err e (k + n) := rfl

@[simp] theorem Parsed.shift_panic (k : ℕ) : Parsed.panic.shift k = .panic := rfl

/-- `isize::MAX` on a 64-bit target -/
def isizeMax : ℕ := 2 ^ 63 - 1

/-- `size_of::<Frame>()` on a 64-bit target: the largest variant, `Bytes`, is four words, and the tag needs a word of
its own (the one niche of its `&'static Vtable` cannot tell five other variants apart) -/
def frameSize : ℕ := 40

/-- `Vec::<Frame>::with_capacity(length)` panics: the allocation would pass `isize::MAX` bytes -/
def capacityOverflow (length : ℕ) : Bool := isizeMax < length * frameSize

/-! ## `get_line` and `skip` -/

/-- the loop of `get_line`: the offset of the first CR-LF pair in the bytes after the cursor -/
def lineEnd? : Bytes → Option ℕ
  | 13 :: 10 :: _ => some 0
  | _ :: rest => (lineEnd? rest).map (· + 1)
  | [] => none

/-- `get_line`: the line before the first CR-LF pair, and how far the cursor moves (past the pair) -/
def getLine (s : Bytes) : Except ParseError (Bytes × ℕ) :=
  match lineEnd? s with
  | some i => .ok (s.take i, i + 2)
  | none => .error .incompleteFrame

/-- `skip`: move `n` bytes on, if there are that many -/
def skip (n : ℕ) (s : Bytes) : Except ParseError ℕ :=
  if s.length < n then .error .incompleteFrame else .ok n

theorem lineEnd?_le {s : Bytes} {i : ℕ} (h : lineEnd? s = some i) : i + 2 ≤ s.length := by
  induction s using lineEnd?.induct generalizing i with
  | case1 tail => rw [lineEnd?.eq_1] at h; cases h; simp
  | case2 b rest hne ih =>
    rw [lineEnd?.eq_2 _ _ hne, Option.map_eq_some'] at h
    obtain ⟨j, hj, rfl⟩ := h
    have := ih hj
    simp only [List.length_cons]; omega
  | case3 => cases h

theorem getLine_le {s line : Bytes} {n : ℕ} (h : getLine s = .ok (line, n)) : 2 ≤ n ∧ n ≤ s.length := by
  unfold getLine at h
  split at h
  · cases h; exact ⟨by omega, lineEnd?_le ‹_›⟩
  · cases h

theorem lineEnd?_append_crlf {line : Bytes} (h : ¬ [13, 10] <:+: line) (rest : Bytes) :
    lineEnd? (line ++ 13 :: 10 :: rest) = some line.length := by
  induction line with
  | nil => rfl
  | cons b line ih =>
    rw [pair_infix_cons, not_or] at h
    have hne : ∀ tail, b = 13 → line ++ 13 :: 10 :: rest = 10 :: tail → False := by
      intro tail hb ht
      cases line with
      | nil => simp at ht
      | cons c line => simp only [List.cons_append, List.cons.injEq] at ht; exact h.1 ⟨hb, by simp [ht.1]⟩
    rw [List.cons_append, lineEnd?.eq_2 _ _ hne, ih h.2]; rfl

theorem lineEnd?_spec {s : Bytes} {i : ℕ} (h : lineEnd? s = some i) :
    ¬ [13, 10] <:+: s.take i ∧ s = s.take i ++ 13 :: 10 :: s.drop (i + 2) := by
  induction s using lineEnd?.induct generalizing i with
  | case1 tail => rw [lineEnd?.eq_1] at h; cases h; simp [List.infix_nil]
  | case2 b rest hne ih =>
    rw [lineEnd?.eq_2 _ _ hne, Option.map_eq_some'] at h
    obtain ⟨j, hj, rfl⟩ := h
    obtain ⟨h1, h2⟩ := ih hj
    refine ⟨?_, by rw [List.take_succ_cons, List.drop_succ_cons, List.cons_append, ← h2]⟩
    rw [List.take_succ_cons, pair_infix_cons, not_or]
    refine ⟨fun ⟨hb, hh⟩ => ?_, h1⟩
    cases j with
    | zero => simp at hh
    | succ j =>
      obtain ⟨c, cs, rfl⟩ : ∃ c cs, rest = c :: cs := List.exists_cons_of_ne_nil (by rintro rfl; cases hj)
      simp at hh; exact hne cs hb (by rw [hh])
  | case3 => cases h

/-- `get_line` succeeds exactly on a line without a CR-LF pair followed by one; the cursor moves past the pair -/
theorem getLine_eq_ok {s line : Bytes} {n : ℕ} :
    getLine s = .ok (line, n) ↔ ∃ rest, s = line ++ 13 :: 10 :: rest ∧ ¬ [13, 10] <:+: line ∧ n = line.length + 2 := by
  constructor
  · intro h
    unfold getLine at h
    split at h
    · rename_i i hi
      cases h
      obtain ⟨h1, h2⟩ := lineEnd?_spec hi
      have hl : (s.take i).length = i := List.length_take_of_le (by have := lineEnd?_le hi; omega)
      exact ⟨_, h2, h1, by rw [hl]⟩
    · cases h
  · rintro ⟨rest, rfl, h, rfl⟩
    simp [getLine, lineEnd?_append_crlf h]

theorem lex_of_le_of_lt {a b c d : ℕ} (h1 : a ≤ c) (h2 : b < d) : Prod.Lex (· < ·) (· < ·) (a, b) (c, d) := by
  rcases Nat.lt_or_eq_of_le h1 with h | rfl
  · exact .left _ _ h
  · exact .right _ h2

/-! ## `parse` -/

mutual

/-- `frame::parse`, on the bytes after the cursor -/
def parse (s : Bytes) : Parsed :=
  match _h : getLine s with
  | .error e => .err e 0
  | .ok (line, n) => (parseBody line (s.drop n)).shift n
termination_by (s.length, 0)
decreasing_by
  have := getLine_le _h
  exact .left _ _ (by simp only [List.length_drop]; omega)

/-- the body of `parse` after `get_line` returned `line`; `rest` is what follows the line -/
def parseBody (line rest : Bytes) : Parsed :=
  match line with
  | [] => .err .invalidFrame 0
  | tag :: frameData =>
    match tag with
    | 36 =>
      match fromUtf8 frameData with
      | .ok text => .ok (.string text) 0
      | .error _ => .err .invalidFrame 0
    | 37 =>
      match atoiI64 frameData with
      | some v => .ok (.integer v) 0
      | none => .err .invalidFrame 0
    | 33 =>
      match fromUtf8 frameData with
      | .ok text => .ok (.error text) 0
      | .error _ => .err .invalidFrame 0
    | 42 =>
      if frameData = [45, 49] then
        match skip 2 rest with
        | .ok k => .ok .null k
        | .error e => .err e 0
      else
        match atoiUsize frameData with
        | none => .err .invalidFrame 0
        | some length =>
          if rest.length < (length + 2) % 2 ^ 64 then .err .incompleteFrame 0
          else if rest.length < length then .panic
          else
            match skip ((length + 2) % 2 ^ 64) rest with
            | .ok k => .ok (.blob (rest.take length)) k
            | .error e => .err e 0
    | 35 =>
      match atoiUsize frameData with
      | none => .err .invalidFrame 0
      | some length => if capacityOverflow length then .panic else parseArray rest length []
    | _ => .err .invalidFrame 0
termination_by (rest.length + 1, 0)

/-- the loop `for _ in 0..length` of the `#` branch, from the cursor, with the children read so far -/
def parseArray (s : Bytes) : ℕ → List Frame → Parsed
  | 0, values => .ok (.array values) 0
  | k + 1, values =>
    match parse s with
    | .ok (.array _) n => .err .invalidFrame n
    | .ok f n => (parseArray (s.drop n) k (values ++ [f])).shift n
    | .err e n => .err e n
    | .panic => .panic
termination_by k _ => (s.length, k + 1)
decreasing_by
  · exact .right _ (by omega)
  · exact lex_of_le_of_lt (by simp) (by omega)

end

/-! ## Spec lemmas -/

section Spec

variable {s line rest d : Bytes} {n : ℕ}

theorem parse_of_getLine (h : getLine s = .ok (line, n)) : parse s = (parseBody line (s.drop n)).shift n := by
  rw [parse]; split <;> simp_all

theorem parse_of_getLine_error {e : ParseError} (h : getLine s = .error e) : parse s = .err e 0 := by
  rw [parse]; split <;> simp_all

theorem parseBody_nil : parseBody [] rest = .err .invalidFrame 0 := by rw [parseBody]

theorem parseBody_string : parseBody (36 :: d) rest =
    match fromUtf8 d with
    | .ok text => .ok (.string text) 0
    | .error _ => .err .invalidFrame 0 := by rw [parseBody]

theorem parseBody_integer : parseBody (37 :: d) rest =
    match atoiI64 d with
    | some v => .ok (.integer v) 0
    | none => .err .invalidFrame 0 := by rw [parseBody]

theorem parseBody_error : parseBody (33 :: d) rest =
    match fromUtf8 d with
    | .ok text => .ok (.error text) 0
    | .error _ => .err .invalidFrame 0 := by rw [parseBody]

theorem parseBody_null : parseBody [42, 45, 49] rest =
    match skip 2 rest with
    | .ok k => .ok .null k
    | .error e => .err e 0 := by rw [parseBody]; rfl

theorem parseBody_blob (h : d ≠ [45, 49]) : parseBody (42 :: d) rest =
    match atoiUsize d with
    | none => .err .invalidFrame 0
    | some length =>
      if rest.length < (length + 2) % 2 ^ 64 then .err .incompleteFrame 0
      else if rest.length < length then .panic
      else
        match skip ((length + 2) % 2 ^ 64) rest with
        | .ok k => .ok (.blob (rest.take length)) k
        | .error e => .err e 0 := by rw [parseBody]; simp only [if_neg h]

theorem parseBody_array : parseBody (35 :: d) rest =
    match atoiUsize d with
    | none => .err .invalidFrame 0
    | some length => if capacityOverflow length then .panic else parseArray rest length [] := by
  rw [parseBody]

theorem parseBody_other {tag : UInt8} (h : tag ∉ [36, 37, 33, 42, 35]) :
    parseBody (tag :: d) rest = .err .invalidFrame 0 := by
  rw [parseBody] <;> rintro rfl <;> simp at h

theorem parseArray_zero (values : List Frame) : parseArray s 0 values = .ok (.array values) 0 := by
  rw [parseArray]

theorem parseArray_succ (k : ℕ) (values : List Frame) : parseArray s (k + 1) values =
    match parse s with
    | .ok (.array _) n => .err .invalidFrame n
    | .ok f n => (parseArray (s.drop n) k (values ++ [f])).shift n
    | .err e n => .err e n
    | .panic => .panic := by
  rw [parseArray]

theorem parseArray_succ_ok {f : Frame} (h : parse s = .ok f n) (hf : ∀ vs, f ≠ .array vs) (k : ℕ)
    (values : List Frame) : parseArray s (k + 1) values = (parseArray (s.drop n) k (values ++ [f])).shift n := by
  rw [parseArray_succ, h]
  cases f <;> first | rfl | exact absurd rfl (hf _)

theorem Parsed.shift_eq_ok {k : ℕ} {r : Parsed} {f : Frame} {n : ℕ} :
    r.shift k = .ok f n ↔ ∃ m, r = .ok f m ∧ n = k + m := by
  cases r with
  | ok g m =>
    constructor
    · intro h; cases h; exact ⟨m, rfl, rfl⟩
    · rintro ⟨m', h, rfl⟩; cases h; rfl
  | _ => simp [Parsed.shift]

theorem Parsed.shift_eq_err {k : ℕ} {r : Parsed} {e : ParseError} {n : ℕ} :
    r.shift k = .err e n ↔ ∃ m, r = .err e m ∧ n = k + m := by
  cases r with
  | err g m =>
    constructor
    · intro h; cases h; exact ⟨m, rfl, rfl⟩
    · rintro ⟨m', h, rfl⟩; cases h; rfl
  | _ => simp [Parsed.shift]

theorem Parsed.shift_eq_panic {k : ℕ} {r : Parsed} : r.shift k = .panic ↔ r = .panic := by
  cases r <;> simp [Parsed.shift]

/-- everything the body of `parse` can do with a line and the bytes after it, one constructor per outcome -/
inductive Body : Bytes → Bytes → Parsed → Prop
  | invalid {line rest : Bytes} : Body line rest (.err .invalidFrame 0)
  | string {d rest : Bytes} {t : String} : fromUtf8 d = .ok t → Body (36 :: d) rest (.ok (.string t) 0)
  | integer {d rest : Bytes} {v : I64} : atoiI64 d = some v → Body (37 :: d) rest (.ok (.integer v) 0)
  | error {d rest : Bytes} {t : String} : fromUtf8 d = .ok t → Body (33 :: d) rest (.ok (.error t) 0)
  | null {rest : Bytes} : 2 ≤ rest.length → Body [42, 45, 49] rest (.ok .null 2)
  | nullShort {rest : Bytes} : rest.length < 2 → Body [42, 45, 49] rest (.err .incompleteFrame 0)
  | blob {d rest : Bytes} {length : ℕ} : d ≠ [45, 49] → atoiUsize d = some length →
      (length + 2) % 2 ^ 64 ≤ rest.length → length ≤ rest.length →
      Body (42 :: d) rest (.ok (.blob (rest.take length)) ((length + 2) % 2 ^ 64))
  | blobShort {d rest : Bytes} {length : ℕ} : d ≠ [45, 49] → atoiUsize d = some length →
      rest.length < (length + 2) % 2 ^ 64 → Body (42 :: d) rest (.err .incompleteFrame 0)
  | blobPanic {d rest : Bytes} {length : ℕ} : d ≠ [45, 49] → atoiUsize d = some length →
      (length + 2) % 2 ^ 64 ≤ rest.length → rest.length < length → Body (42 :: d) rest .panic
  | arrayOverflow {d rest : Bytes} {length : ℕ} : atoiUsize d = some length → capacityOverflow length = true →
      Body (35 :: d) rest .panic
  | array {d rest : Bytes} {length : ℕ} : atoiUsize d = some length → capacityOverflow length = false →
      Body (35 :: d) rest (parseArray rest length [])

theorem tag_cases (tag : UInt8) :
    tag = 36 ∨ tag = 37 ∨ tag = 33 ∨ tag = 42 ∨ tag = 35 ∨ tag ∉ [36, 37, 33, 42, 35] := by
  by_cases h : tag ∈ [36, 37, 33, 42, 35]
  · simp only [List.mem_cons, List.mem_singleton, List.not_mem_nil, or_false] at h
    rcases h with h | h | h | h | h <;> simp [h]
  · exact .inr (.inr (.inr (.inr (.inr h))))

/-- the inversion lemma of the body of `parse` -/
theorem parseBody_body (line rest : Bytes) : Body line rest (parseBody line rest) := by
  rcases line with _ | ⟨tag, d⟩
  · rw [parseBody_nil]; exact .invalid
  rcases tag_cases tag with rfl | rfl | rfl | rfl | rfl | h
  · rw [parseBody_string]; split <;> first | exact .string ‹_› | exact .invalid
  · rw [parseBody_integer]; split <;> first | exact .integer ‹_› | exact .invalid
  · rw [parseBody_error]; split <;> first | exact .error ‹_› | exact .invalid
  · by_cases hd : d = [45, 49]
    · subst hd
      rw [parseBody_null, skip]
      split_ifs with h2
      · exact .nullShort h2
      · exact .null (by omega)
    · rw [parseBody_blob hd]
      rcases hl : atoiUsize d with _ | length
      · exact .invalid
      · dsimp only
        split_ifs with h1 h2
        · exact .blobShort hd hl h1
        · exact .blobPanic hd hl (by omega) h2
        · rw [skip, if_neg h1]; exact .blob hd hl (by omega) (by omega)
  · rw [parseBody_array]
    rcases hl : atoiUsize d with _ | length
    · exact .invalid
    · dsimp only
      cases hc : capacityOverflow length
      · rw [if_neg (by simp)]; exact .array hl hc
      · rw [if_pos rfl]; exact .arrayOverflow hl hc
  · rw [parseBody_other h]; exact .invalid

end Spec

/-- `frame::parse` on a cursor at `pos` of `buf`, with the cursor's final position -/
def parseAt (buf : Bytes) (pos : ℕ) : Parsed := (parse (buf.drop pos)).shift pos

end Segment
