/-
The class codes of the Error frames (`server.rs`, `command.rs`, `connection.rs`): the text of an Error frame is
meant to begin with `ERRPROTOCOL` (the bytes do not read as a frame), `ERRPARSE` (`command::new` rejects the frame) or
`ERREXEC` (the command fails).

`ErrorsOf P x` says every text `x` can fail with satisfies `P`; it composes through `>>=` and `<$>` as the parser's
`?` does.

Results:
- `new_errorClass`: every error `command::new` returns begins with `ERRPARSE`, or is the text of a `Utf8Error`:
  `next_string` passes the error of `str::from_utf8` on unchanged, in every string-typed position;
- `exec_errorClass`: every Error frame `exec` writes begins with `ERREXEC`;
- `Handler.turn_errorClass`: so every Error frame a turn of `handle` writes begins with a class code, or is the text
  of a `Utf8Error`, or is `connection reset by peer`, which `read_frame` returns when the stream ends inside a frame;
- `unclassed_errors`: both of the last two are written: for a GET whose keyspace is the Blob `0xFF`, and for a stream
  that ends after `$`.
-/
import Segment.Handler

namespace Segment

/-! ## Class codes -/

/-- the class codes the text of an Error frame begins with -/
def classCodes : List String := ["ERRPROTOCOL", "ERRPARSE", "ERREXEC"]

/-- a text that begins with a class code -/
def Classed (text : String) : Prop := ∃ code ∈ classCodes, code.data <+: text.data

instance (text : String) : Decidable (Classed text) :=
  inferInstanceAs (Decidable (∃ code ∈ classCodes, code.data <+: text.data))

/-- a text that begins with `code`, whatever follows it -/
theorem prefix_append {code a : String} (h : code.data <+: a.data) (b : String) : code.data <+: (a ++ b).data :=
  h.trans (List.prefix_append a.data b.data)

/-- a text `command::new` fails with: one that begins with `ERRPARSE`, or the text of a `Utf8Error` -/
def ParseErrorText (e : String) : Prop := "ERRPARSE".data <+: e.data ∨ ∃ u : Utf8Error, e = u.message

/-- every text the computation can fail with satisfies `P` -/
def ErrorsOf {α : Type} (P : String → Prop) (x : Except String α) : Prop := ∀ e, x = .error e → P e

section Errors

variable {α β : Type} {P : String → Prop}

@[simp] theorem errorsOf_ok (a : α) : ErrorsOf P (.ok a : Except String α) := fun _ h => by cases h

@[simp] theorem errorsOf_error (e : String) : ErrorsOf P (.error e : Except String α) ↔ P e :=
  ⟨fun h => h e rfl, fun h _ he => by cases he; exact h⟩

theorem ErrorsOf.bind {x : Except String α} {f : α → Except String β} (hx : ErrorsOf P x)
    (hf : ∀ a, x = .ok a → ErrorsOf P (f a)) : ErrorsOf P (x >>= f) := by
  cases x with
  | error e => exact (errorsOf_error e).2 ((errorsOf_error e).1 hx)
  | ok a => exact hf a rfl

theorem ErrorsOf.map {x : Except String α} (hx : ErrorsOf P x) (g : α → β) : ErrorsOf P (g <$> x) := by
  cases x with
  | error e => exact (errorsOf_error e).2 ((errorsOf_error e).1 hx)
  | ok a => exact errorsOf_ok _

end Errors

/-! ## The parser's texts -/

/-- a text of the parser that begins with `ERRPARSE` -/
theorem errorsOf_errparse {α : Type} {e : String} (h : "ERRPARSE".data <+: e.data) :
    ErrorsOf ParseErrorText (.error e : Except String α) :=
  (errorsOf_error e).2 (.inl h)

/-- a text of the parser that quotes what it rejects after an `ERRPARSE` opening -/
theorem errorsOf_quoted {α : Type} {p t s : String} (h : "ERRPARSE".data <+: p.data) :
    ErrorsOf ParseErrorText (.error (p ++ t ++ s) : Except String α) :=
  errorsOf_errparse (prefix_append (prefix_append h t) s)

theorem frameString_errorClass (v : Frame) : ErrorsOf ParseErrorText (frameString v) := by
  cases v with
  | blob data =>
    cases h : fromUtf8 data with
    | error u => simpa [frameString, h, Except.mapError] using Or.inr ⟨u, rfl⟩
    | ok t => simp [frameString, h, Except.mapError]
  | string data => simp [frameString]
  | _ => exact errorsOf_errparse (by decide)

theorem nextString_errorClass (parser : List Frame) : ErrorsOf ParseErrorText (nextString parser) := by
  cases parser with
  | nil => simp
  | cons v rest => exact (frameString_errorClass v).map _

theorem nextBlob_errorClass (parser : List Frame) : ErrorsOf ParseErrorText (nextBlob parser) := by
  cases parser with
  | nil => simp
  | cons v rest =>
    refine ErrorsOf.map ?_ _
    cases v <;> first | exact errorsOf_ok _ | exact errorsOf_errparse (by decide)

theorem parseKeyed_errorClass (name : String) (parser : List Frame) :
    ErrorsOf ParseErrorText (parseKeyed name parser) := by
  unfold parseKeyed
  refine (nextString_errorClass _).bind ?_
  rintro ⟨_ | keyspace, parser⟩ -
  · exact errorsOf_errparse (by decide)
  refine (nextString_errorClass _).bind ?_
  rintro ⟨_ | key, parser⟩ -
  · exact errorsOf_errparse (by decide)
  dsimp only
  split
  · exact (errorsOf_quoted (by decide)).bind fun _ h => by cases h
  · simp

theorem Set.parse_errorClass (parser : List Frame) : ErrorsOf ParseErrorText (Set.parse parser) := by
  unfold Set.parse
  refine (nextString_errorClass _).bind ?_
  rintro ⟨_ | keyspace, parser⟩ -
  · exact errorsOf_errparse (by decide)
  refine (nextString_errorClass _).bind ?_
  rintro ⟨_ | key, parser⟩ -
  · exact errorsOf_errparse (by decide)
  refine (nextBlob_errorClass _).bind ?_
  rintro ⟨_ | value, parser⟩ -
  · exact errorsOf_errparse (by decide)
  dsimp only
  split
  · exact (errorsOf_errparse (by decide)).bind fun _ h => by cases h
  · simp

theorem collectTokens_errorClass (tokens : List String) (parser : List Frame) :
    ErrorsOf ParseErrorText (collectTokens tokens parser) := by
  induction parser generalizing tokens with
  | nil => simp [collectTokens]
  | cons v rest ih =>
    unfold collectTokens
    split
    · exact errorsOf_errparse (by decide)
    · exact (frameString_errorClass v).bind fun t _ => ih _

theorem applyOptions_errorClass (cm : CaseMap) :
    ∀ (tokens : List String) (cmd : Create), ErrorsOf ParseErrorText (applyOptions cm cmd tokens)
  | token :: value :: rest, cmd => by
    simp only [applyOptions]
    split_ifs
    · split <;> first | exact applyOptions_errorClass cm rest _ | exact errorsOf_quoted (by decide)
    · split <;> first | exact applyOptions_errorClass cm rest _ | exact errorsOf_quoted (by decide)
    · exact errorsOf_quoted (by decide)
  | [], _ | [_], _ => by simp [applyOptions]

theorem Create.parse_errorClass (cm : CaseMap) (parser : List Frame) :
    ErrorsOf ParseErrorText (Create.parse cm parser) := by
  unfold Create.parse
  refine (nextString_errorClass _).bind ?_
  rintro ⟨_ | keyspace, rest⟩ -
  · exact errorsOf_errparse (by decide)
  dsimp only
  refine (collectTokens_errorClass _ _).bind fun tokens _ => ?_
  simp only [Except.pure_eq, Except.ok_bind]
  split_ifs
  · exact errorsOf_ok _
  · exact (errorsOf_errparse (by decide)).bind fun _ h => by cases h
  · refine (applyOptions_errorClass cm tokens _).bind fun cmd _ => ?_
    unfold Create.finish
    split_ifs
    · exact errorsOf_errparse (by decide)
    all_goals exact errorsOf_ok _

/-- **The parser's errors.** Every error `command::new` returns begins with `ERRPARSE`, or is the text of a
`Utf8Error`: `next_string` passes the error of `str::from_utf8` on as it is -/
theorem new_errorClass (cm : CaseMap) (frame : Frame) : ErrorsOf ParseErrorText (new cm frame) := by
  cases frame with
  | array values =>
    simp only [new, Parser.new, Except.ok_bind]
    refine (nextString_errorClass _).bind ?_
    rintro ⟨_ | name, args⟩ -
    · exact errorsOf_errparse (by decide)
    dsimp only
    split
    · exact (Set.parse_errorClass args).bind fun _ _ => errorsOf_ok _
    case h_2 | h_3 => exact ((parseKeyed_errorClass _ args).map _).bind fun _ _ => errorsOf_ok _
    · exact (Create.parse_errorClass cm args).bind fun _ _ => errorsOf_ok _
    · exact errorsOf_quoted (by decide)
  | _ => exact errorsOf_errparse (by decide)

/-! ## What `handle` writes -/

theorem writeError_inj {a b : String} (h : writeError a = writeError b) : a = b := by
  have h' := fromUtf8_asBytes a
  rw [(List.cons.inj (List.append_cancel_right h)).2, fromUtf8_asBytes] at h'
  injection h' with h'
  exact h'.symm

/-- **The commands' errors.** Every Error frame `exec` writes begins with `ERREXEC` -/
theorem exec_errorClass {cmd : Command} {m : KeyspaceManager} {now : ℕ} {e : String}
    (h : (exec cmd m now).2 = writeError e) : "ERREXEC".data <+: e.data := by
  have herr : ∀ {e' : String}, writeError ("ERREXEC " ++ e') = writeError e → "ERREXEC".data <+: e.data :=
    fun h => writeError_inj h ▸ prefix_append (by decide) _
  cases cmd with
  | get c =>
    simp only [exec, Get.exec] at h
    split at h
    · simp [writeBlob, writeError] at h
    · simp [writeNull, writeError] at h
    · exact herr h
  | set c | del c =>
    simp only [exec, Set.exec, Del.exec, execCount] at h
    split at h
    · simp [writeInteger, writeError] at h
    · exact herr h
  | create c => simp [exec, Create.exec, writeInteger, writeError] at h

/-- what `handle` writes for a frame: an Error frame's text begins with a class code, or is that of a `Utf8Error` -/
theorem respond_errorClass (cm : CaseMap) (frame : Frame) (m : KeyspaceManager) (now : ℕ) {e : String}
    (h : (respond cm frame m now).2 = writeError e) : Classed e ∨ ∃ u : Utf8Error, e = u.message := by
  unfold respond at h
  split at h
  · next e' he =>
    obtain rfl := writeError_inj h
    exact (new_errorClass cm frame e' he).imp_left fun hp => ⟨"ERRPARSE", by decide, hp⟩
  · exact .inl ⟨"ERREXEC", by decide, exec_errorClass h⟩

/-- **The Error frames of a turn.** Every Error frame a turn of `handle` writes begins with a class code, or is the
text of a `Utf8Error`, or is `connection reset by peer`, the error `read_frame` returns when the stream ends inside a
frame -/
theorem Handler.turn_errorClass (cm : CaseMap) {h h' : Handler} (ht : h.turn cm = .next h') {e : String}
    (hw : h'.written = h.written ++ writeError e) :
    Classed e ∨ (∃ u : Utf8Error, e = u.message) ∨ e = "connection reset by peer" := by
  unfold Handler.turn at ht
  split at ht
  · next f c _ =>
    injection ht with ht
    subst ht
    exact (respond_errorClass cm f _ _ (List.append_cancel_left hw)).imp_right .inl
  · next r c _ =>
    injection ht with ht
    subst ht
    obtain rfl := writeError_inj (List.append_cancel_left hw)
    rcases r with ⟨_ | _⟩ | _
    · exact .inl ⟨"ERRPROTOCOL", by decide, by decide⟩
    · exact .inl ⟨"ERRPROTOCOL", by decide, by decide⟩
    · exact .inr (.inr rfl)
  · cases ht
  · cases ht

/-- a turn after a stream that ended inside a frame writes `connection reset by peer`, the last of the three kinds -/
theorem reset_turn_classified :
    ∃ h', Handler.turn .ascii ⟨⟨[36], []⟩, KeyspaceManager.new 0, 0, []⟩ = .next h' ∧
      h'.written = [] ++ writeError "connection reset by peer" ∧
      (Classed "connection reset by peer" ∨ (∃ u : Utf8Error, "connection reset by peer" = u.message) ∨
        "connection reset by peer" = "connection reset by peer") := by
  have ht := Handler.turn_reset .ascii (h := ⟨⟨[36], []⟩, KeyspaceManager.new 0, 0, []⟩)
    (by rw [parse_of_getLine_error (s := [36]) (e := .incompleteFrame) rfl]; rfl) (by simp) rfl
  exact ⟨_, ht, rfl, Handler.turn_errorClass .ascii ht rfl⟩

/-- a GET whose keyspace is the Blob `0xFF` is answered with the text of a `Utf8Error`, and a stream that ends after
`$` with `connection reset by peer`; neither begins with a class code -/
theorem unclassed_errors (cm : CaseMap) (m : KeyspaceManager) (now : ℕ) :
    (respond cm (.array [.string "GET", .blob [255], .string "k"]) m now).2 =
        writeError "invalid utf-8 sequence of 1 bytes from index 0" ∧
      ¬ Classed "invalid utf-8 sequence of 1 bytes from index 0" ∧
      Handler.turn cm ⟨⟨[36], []⟩, m, now, []⟩ =
        .next ⟨⟨[36], []⟩, m, now, writeError "connection reset by peer"⟩ ∧
      ¬ Classed "connection reset by peer" := by
  have hu : toUppercase cm "GET" = "GET" := by rw [toUppercase_ascii _ (by decide)]; rfl
  have hf : fromUtf8 [255] = .error ⟨0, some 1⟩ := rfl
  refine ⟨?_, by decide, Handler.turn_reset cm ?_ (by simp) rfl, by decide⟩
  · simp [respond, new, Parser.new, frameString, hu, hf, Get.parse, parseKeyed, Except.mapError]
    rfl
  · rw [parse_of_getLine_error (s := [36]) (e := .incompleteFrame) rfl]; rfl

end Segment
