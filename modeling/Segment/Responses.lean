/-
The responses `handle` writes, as a client reads them back (`server.rs`, `command.rs`, `connection.rs`).

`write_error` writes its text as one CR-LF-terminated line, so a text with a CR-LF pair in it breaks the response
stream (`get_crlf_keyspace`). The error texts are the source's constants, the numbers of a UTF-8 error, and texts of
the request: the command's name and the CREATE options, upper-cased by `to_uppercase`, and the keyspace of GET, SET
and DEL. So a request is answered with one frame when its texts, and those texts upper-cased, hold no CR-LF pair
(`RequestSafe`); and a GET answers a stored value as a Blob, which the reader reads back when it fits in `isize`
(`KeyspaceManager.Fits`), as every value a client can send does.

Results:
- `new_errorsSafe`: on a `RequestSafe` request, every error text of `command::new` is line-safe;
- `new_safe`: a command it returns names a line-safe keyspace and, for SET, a value that fits;
- `respond_answer`: on such a request and a manager whose values fit, `handle` writes the serialization of one frame
  of the serializer's domain, and the manager's values still fit;
- `Handler.run_answers`, `Handler.run_framed`: when the bytes still to come are the serializations of `RequestSafe`
  requests `f1 .. fn` and then the end of the stream, `handle` returns in turn `n + 1` having written one frame a turn,
  and a client reading those bytes reads exactly `n` frames and then `None`;
- `textSafe_ascii`: with ASCII upper-casing, the condition is only that no text of the request holds a CR-LF pair;
- `Server.Framing`, `Server.run_framing`, `Server.run_answers_framed`: in every run of the server in which each client
  sends safe requests, whatever the interleaving of the handlers' turns, the evictors' passes, the interrupt and the
  shutdown, the shared manager holds only values that fit and every connection's answers so far read back as frames.
-/
import Segment.Server

namespace Segment

/-! ## Line-safe texts -/

theorem lineSafe_of_no_cr {t : String} (h : ∀ c ∈ t.data, c ≠ '\r') : LineSafe t :=
  fun hi => h _ (hi.subset (by simp)) rfl

theorem LineSafe.append {a b : String} (ha : LineSafe a) (hb : LineSafe b)
    (hab : a.data.getLast? ≠ some '\r' ∨ b.data.head? ≠ some '\n') : LineSafe (a ++ b) := by
  unfold LineSafe at *
  rw [String.data_append, pair_infix_append]
  tauto

/-- a text between two constants of the source, neither of which holds a CR nor meets the text in a CR-LF pair -/
theorem lineSafe_quoted {p t s : String} (hp : ∀ c ∈ p.data, c ≠ '\r') (ht : LineSafe t)
    (hs : ∀ c ∈ s.data, c ≠ '\r' ∧ c ≠ '\n') : LineSafe (p ++ t ++ s) :=
  ((lineSafe_of_no_cr hp).append ht (.inl fun h => hp _ (List.mem_of_getLast?_eq_some h) rfl)).append
    (lineSafe_of_no_cr fun c h => (hs c h).1) (.inr fun h => (hs _ (List.mem_of_mem_head? h)).2 rfl)

theorem mem_toDigitsCore {b fuel n : ℕ} {ds : List Char} {c : Char} (hb : 0 < b)
    (h : c ∈ Nat.toDigitsCore b fuel n ds) : c ∈ ds ∨ ∃ d < b, c = Nat.digitChar d := by
  induction fuel generalizing n ds with
  | zero => exact .inl h
  | succ fuel ih =>
    simp only [Nat.toDigitsCore] at h
    split_ifs at h
    · rcases List.mem_cons.1 h with rfl | h
      · exact .inr ⟨_, Nat.mod_lt _ hb, rfl⟩
      · exact .inl h
    · rcases ih h with h | h
      · rcases List.mem_cons.1 h with rfl | h
        · exact .inr ⟨_, Nat.mod_lt _ hb, rfl⟩
        · exact .inl h
      · exact .inr h

/-- `to_string` of a number writes decimal digits only -/
theorem toString_digits (n : ℕ) : ∀ c ∈ (toString n).data, c ≠ '\r' ∧ c ≠ '\n' := by
  intro c hc
  rcases mem_toDigitsCore (by norm_num) (show c ∈ Nat.toDigits 10 n from hc) with h | ⟨d, hd, rfl⟩
  · cases h
  · interval_cases d <;> decide

theorem Utf8Error.message_lineSafe (e : Utf8Error) : LineSafe e.message := by
  have hd (n : ℕ) : LineSafe (toString n) := lineSafe_of_no_cr fun c hc => (toString_digits n c hc).1
  have hh (n : ℕ) : (toString n).data.head? ≠ some '\n' := fun h =>
    (toString_digits n _ (List.mem_of_mem_head? h)).2 rfl
  unfold Utf8Error.message
  split
  · exact (lineSafe_quoted (by decide) (hd _) (by decide)).append (hd _) (.inr (hh _))
  · exact LineSafe.append (lineSafe_of_no_cr (by decide)) (hd _) (.inr (hh _))

/-- ASCII upper-casing maps a character to a control character only when it is that character -/
theorem toUpper_eq_control {c d : Char} (hd : d.toNat < 65) (h : c.toUpper = d) : c = d := by
  dsimp only [Char.toUpper] at h
  split_ifs at h with hl
  · subst h
    have hv : (c.toNat - 32).isValidChar := Or.inl (by omega)
    rw [Char.ofNat, dif_pos hv] at hd
    simp only [Char.ofNatAux, Char.toNat, UInt32.toNat] at hd hl
    simp at hd
    omega
  · exact h

theorem crlf_infix_map_toUpper {l : List Char} (h : ['\r', '\n'] <:+: l.map Char.toUpper) : ['\r', '\n'] <:+: l := by
  induction l with
  | nil => simp at h
  | cons c l ih =>
    rw [List.map_cons, pair_infix_cons] at h
    rw [pair_infix_cons]
    rcases h with ⟨hc, hl⟩ | h
    · left
      refine ⟨toUpper_eq_control (by decide) hc, ?_⟩
      cases l with
      | nil => cases hl
      | cons d l =>
        simp only [List.map_cons, List.head?_cons, Option.some.injEq] at hl
        simp [toUpper_eq_control (by decide) hl]
    · exact .inr (ih h)

theorem lineSafe_toUppercase_ascii {t : String} (h : LineSafe t) : LineSafe (toUppercase .ascii t) := by
  intro hi
  refine h (crlf_infix_map_toUpper ?_)
  rwa [toUppercase, CaseMap.ascii, ← List.map_eq_flatMap] at hi

/-! ## Requests -/

/-- an element whose text, when it reads as one, holds no CR-LF pair, upper-cased or not -/
def TextSafe (cm : CaseMap) (v : Frame) : Prop := ∀ t ∈ v.text?, LineSafe t ∧ LineSafe (toUppercase cm t)

instance (cm : CaseMap) (v : Frame) : Decidable (TextSafe cm v) :=
  inferInstanceAs (Decidable (∀ t ∈ v.text?, _))

/-- a request whose elements are all `TextSafe`; a frame other than an array is answered with a constant text -/
def RequestSafe (cm : CaseMap) : Frame → Prop
  | .array values => ∀ v ∈ values, TextSafe cm v
  | _ => True

instance RequestSafe.decidable (cm : CaseMap) : (f : Frame) → Decidable (RequestSafe cm f)
  | .array values => inferInstanceAs (Decidable (∀ v ∈ values, TextSafe cm v))
  | .string _ | .error _ | .integer _ | .blob _ | .null => isTrue trivial

/-- with ASCII upper-casing, an element is `TextSafe` exactly when its text holds no CR-LF pair -/
theorem textSafe_ascii {v : Frame} : TextSafe .ascii v ↔ ∀ t ∈ v.text?, LineSafe t :=
  ⟨fun h t ht => (h t ht).1, fun h t ht => ⟨h t ht, lineSafe_toUppercase_ascii (h t ht)⟩⟩

/-- a request whose values, String or Blob, fit in `isize` -/
def ValuesFit : Frame → Prop
  | .array values => ∀ v ∈ values, ∀ d ∈ v.value?, d.length ≤ isizeMax
  | _ => True

instance ValuesFit.decidable : (f : Frame) → Decidable (ValuesFit f)
  | .array values => inferInstanceAs (Decidable (∀ v ∈ values, ∀ d ∈ v.value?, d.length ≤ isizeMax))
  | .string _ | .error _ | .integer _ | .blob _ | .null => isTrue trivial

/-! ## The error texts of the parser -/

/-- every error text a computation can fail with is line-safe -/
def ErrorsSafe {α : Type} (x : Except String α) : Prop := ∀ e, x = .error e → LineSafe e

@[simp] theorem errorsSafe_ok {α : Type} (a : α) : ErrorsSafe (.ok a : Except String α) := fun _ h => by cases h

@[simp] theorem errorsSafe_error {α : Type} (e : String) : ErrorsSafe (.error e : Except String α) ↔ LineSafe e :=
  ⟨fun h => h e rfl, fun h _ he => by cases he; exact h⟩

/-- a constant error text of the source, with no CR in it -/
theorem errorsSafe_text {α : Type} {e : String} (h : ∀ c ∈ e.data, c ≠ '\r') :
    ErrorsSafe (.error e : Except String α) :=
  (errorsSafe_error e).2 (lineSafe_of_no_cr h)

theorem errorsSafe_quoted {α : Type} {p t s : String} (hp : ∀ c ∈ p.data, c ≠ '\r') (ht : LineSafe t)
    (hs : ∀ c ∈ s.data, c ≠ '\r' ∧ c ≠ '\n') : ErrorsSafe (.error (p ++ t ++ s) : Except String α) :=
  (errorsSafe_error _).2 (lineSafe_quoted hp ht hs)

theorem ErrorsSafe.bind {α β : Type} {x : Except String α} {f : α → Except String β} (hx : ErrorsSafe x)
    (hf : ∀ a, x = .ok a → ErrorsSafe (f a)) : ErrorsSafe (x >>= f) := by
  cases x with
  | error e => exact (errorsSafe_error e).2 ((errorsSafe_error e).1 hx)
  | ok a => exact hf a rfl

theorem ErrorsSafe.map {α β : Type} {x : Except String α} (hx : ErrorsSafe x) (g : α → β) :
    ErrorsSafe (g <$> x) := by
  cases x with
  | error e => exact (errorsSafe_error e).2 ((errorsSafe_error e).1 hx)
  | ok a => exact errorsSafe_ok _

theorem frameString_errorsSafe (v : Frame) : ErrorsSafe (frameString v) := by
  cases v with
  | blob data =>
    cases h : fromUtf8 data with
    | error e => simpa [frameString, h, Except.mapError] using e.message_lineSafe
    | ok t => simp [frameString, h, Except.mapError]
  | string data => simp [frameString]
  | _ => exact errorsSafe_text (by decide)

theorem nextString_errorsSafe (parser : List Frame) : ErrorsSafe (nextString parser) := by
  cases parser with
  | nil => simp
  | cons v rest => exact (frameString_errorsSafe v).map _

theorem nextBlob_errorsSafe (parser : List Frame) : ErrorsSafe (nextBlob parser) := by
  cases parser with
  | nil => simp
  | cons v rest =>
    refine ErrorsSafe.map ?_ _
    cases v <;> first | exact errorsSafe_ok _ | exact errorsSafe_text (by decide)

theorem nextString_eq_ok_some {parser rest : List Frame} {s : String}
    (h : nextString parser = .ok (some s, rest)) : ∃ v, parser = v :: rest ∧ v.text? = some s := by
  cases parser with
  | nil => cases h
  | cons v rest' =>
    rcases frameString_cases v with ⟨e, hv, -⟩ | ⟨t, hv, ht⟩ <;> simp_all [Functor.map, Except.map]

theorem parseKeyed_errorsSafe {name : String} (hn : LineSafe name) (parser : List Frame) :
    ErrorsSafe (parseKeyed name parser) := by
  unfold parseKeyed
  refine (nextString_errorsSafe _).bind ?_
  rintro ⟨_ | keyspace, parser⟩ -
  · exact errorsSafe_text (by decide)
  refine (nextString_errorsSafe _).bind ?_
  rintro ⟨_ | key, parser⟩ -
  · exact errorsSafe_text (by decide)
  dsimp only
  split
  · exact (errorsSafe_quoted (by decide) hn (by decide)).bind fun _ h => by cases h
  · simp

theorem Set.parse_errorsSafe (parser : List Frame) : ErrorsSafe (Set.parse parser) := by
  unfold Set.parse
  refine (nextString_errorsSafe _).bind ?_
  rintro ⟨_ | keyspace, parser⟩ -
  · exact errorsSafe_text (by decide)
  refine (nextString_errorsSafe _).bind ?_
  rintro ⟨_ | key, parser⟩ -
  · exact errorsSafe_text (by decide)
  refine (nextBlob_errorsSafe _).bind ?_
  rintro ⟨_ | value, parser⟩ -
  · exact errorsSafe_text (by decide)
  dsimp only
  split
  · exact (errorsSafe_text (by decide)).bind fun _ h => by cases h
  · simp

theorem collectTokens_errorsSafe (tokens : List String) (parser : List Frame) :
    ErrorsSafe (collectTokens tokens parser) := by
  induction parser generalizing tokens with
  | nil => simp [collectTokens]
  | cons v rest ih =>
    unfold collectTokens
    split
    · exact errorsSafe_text (by decide)
    · exact (frameString_errorsSafe v).bind fun t _ => ih _

/-- the tokens of the CREATE loop are texts of the elements it took -/
theorem collectTokens_mem {tokens : List String} {parser : List Frame} {r : List String}
    (h : collectTokens tokens parser = .ok r) {t : String} (ht : t ∈ r) :
    t ∈ tokens ∨ ∃ v ∈ parser, v.text? = some t := by
  induction parser generalizing tokens with
  | nil => cases h; exact .inl ht
  | cons v rest ih =>
    unfold collectTokens at h
    split at h
    · cases h
    obtain ⟨s, hs, h⟩ := Except.bind_eq_ok.1 h
    rcases ih h with h | ⟨w, hw, hwt⟩
    · rcases List.mem_append.1 h with h | h
      · exact .inl h
      · obtain rfl := List.mem_singleton.1 h
        exact .inr ⟨v, List.mem_cons_self _ _, frameString_eq_ok.1 hs⟩
    · exact .inr ⟨w, List.mem_cons_of_mem _ hw, hwt⟩

/-- one turn of the options loop fails with a line-safe text, or goes on -/
theorem applyOptions_cons_errorsSafe (cm : CaseMap) {token value : String} {rest : List String}
    (ht : LineSafe (toUppercase cm token)) (hv : LineSafe (toUppercase cm value))
    (ih : ∀ cmd, ErrorsSafe (applyOptions cm cmd rest)) (cmd : Create) :
    ErrorsSafe (applyOptions cm cmd (token :: value :: rest)) := by
  simp only [applyOptions]
  split_ifs
  · split <;> first | exact ih _ | exact errorsSafe_quoted (by decide) hv (by decide)
  · split <;> first | exact ih _ | exact errorsSafe_quoted (by decide) hv (by decide)
  · exact errorsSafe_quoted (by decide) ht (by decide)

theorem applyOptions_errorsSafe (cm : CaseMap) :
    ∀ tokens : List String, (∀ t ∈ tokens, LineSafe (toUppercase cm t)) →
      ∀ cmd, ErrorsSafe (applyOptions cm cmd tokens)
  | token :: value :: rest, ht, cmd =>
    applyOptions_cons_errorsSafe cm (ht _ (by simp)) (ht _ (by simp))
      (applyOptions_errorsSafe cm rest fun t h => ht t (by simp [h])) cmd
  | [], _, _ | [_], _, _ => by simp [applyOptions]

theorem Create.finish_errorsSafe (cmd : Create) : ErrorsSafe cmd.finish := by
  unfold Create.finish
  split_ifs
  · exact errorsSafe_text (by decide)
  all_goals exact errorsSafe_ok _

theorem Create.parse_errorsSafe (cm : CaseMap) {parser : List Frame} (hs : ∀ v ∈ parser, TextSafe cm v) :
    ErrorsSafe (Create.parse cm parser) := by
  unfold Create.parse
  refine (nextString_errorsSafe _).bind ?_
  rintro ⟨_ | keyspace, rest⟩ hn
  · exact errorsSafe_text (by decide)
  obtain ⟨v, rfl, -⟩ := nextString_eq_ok_some hn
  dsimp only
  refine (collectTokens_errorsSafe _ _).bind fun tokens ht => ?_
  have hu : ∀ t ∈ tokens, LineSafe (toUppercase cm t) := fun t h => by
    rcases collectTokens_mem ht h with h | ⟨w, hw, hwt⟩
    · cases h
    · exact (hs w (List.mem_cons_of_mem _ hw) t hwt).2
  simp only [Except.pure_eq, Except.ok_bind]
  split_ifs
  · exact errorsSafe_ok _
  · exact (errorsSafe_text (by decide)).bind fun _ h => by cases h
  · exact (applyOptions_errorsSafe cm tokens hu _).bind fun cmd _ => cmd.finish_errorsSafe

/-- **The parser fails with line-safe texts.** On a request whose texts, upper-cased or not, hold no CR-LF pair,
every error `command::new` returns is a line-safe text -/
theorem new_errorsSafe (cm : CaseMap) {frame : Frame} (hs : RequestSafe cm frame) : ErrorsSafe (new cm frame) := by
  cases frame with
  | array values =>
    simp only [new, Parser.new, Except.ok_bind]
    refine (nextString_errorsSafe _).bind ?_
    rintro ⟨_ | name, args⟩ hn
    · exact errorsSafe_text (by decide)
    obtain ⟨v, rfl, hv⟩ := nextString_eq_ok_some hn
    dsimp only
    split
    · exact (Set.parse_errorsSafe args).bind fun _ _ => errorsSafe_ok _
    case h_2 | h_3 => exact ((parseKeyed_errorsSafe (by decide) args).map _).bind fun _ _ => errorsSafe_ok _
    · exact (Create.parse_errorsSafe cm fun w h => hs w (List.mem_cons_of_mem _ h)).bind fun _ _ => errorsSafe_ok _
    · exact errorsSafe_quoted (by decide) (hs v (List.mem_cons_self _ _) name hv).2 (by decide)
  | _ => exact errorsSafe_text (by decide)

/-! ## The commands of the parser -/

/-- what `exec` needs to write one frame: a keyspace that its error may name, holding no CR-LF pair, and a value to
store that fits in `isize` -/
def Command.Safe : Command → Prop
  | .get cmd => LineSafe cmd.keyspace
  | .set cmd => LineSafe cmd.keyspace ∧ cmd.value.length ≤ isizeMax
  | .del cmd => LineSafe cmd.keyspace
  | .create _ => True

theorem keyedSpec_eq_some {args : List Frame} {r : String × String} (h : keyedSpec args = some r) :
    ∃ a b, args = [a, b] ∧ a.text? = some r.1 := by
  match args, h with
  | [a, b], h =>
    simp only [keyedSpec, Option.bind_eq_bind, Option.bind_eq_some, Option.pure_def, Option.some.injEq] at h
    obtain ⟨k, hk, t, -, rfl⟩ := h
    exact ⟨a, b, rfl, hk⟩

theorem setSpec_eq_some {args : List Frame} {c : Set} (h : setSpec args = some c) :
    ∃ a b d, args = [a, b, d] ∧ a.text? = some c.keyspace ∧ d.value? = some c.value := by
  match args, h with
  | [a, b, d], h =>
    simp only [setSpec, Option.bind_eq_bind, Option.bind_eq_some, Option.pure_def, Option.some.injEq] at h
    obtain ⟨k, -, v, hv, s, hs, rfl⟩ := h
    exact ⟨a, b, d, rfl, hs, hv⟩

/-- the keyspace of a command `command::new` returns is the text of an element of the request, and a SET's value
is the value of one -/
theorem new_safe {cm : CaseMap} {frame : Frame} {cmd : Command} (h : new cm frame = .ok cmd)
    (hs : RequestSafe cm frame) (hv : ValuesFit frame) : cmd.Safe := by
  cases frame with
  | array values =>
    simp only [new, Parser.new, Except.ok_bind] at h
    obtain ⟨⟨_ | name, args⟩, hn, hc⟩ := Except.bind_eq_ok.1 h
    · cases hc
    obtain ⟨v, rfl, -⟩ := nextString_eq_ok_some hn
    have hks : ∀ a ∈ args, ∀ t, a.text? = some t → LineSafe t := fun a ha t ht =>
      (hs a (List.mem_cons_of_mem _ ha) t ht).1
    dsimp only at hc
    split at hc
    · obtain ⟨c, hp, ⟨⟩⟩ := Except.bind_eq_ok.1 hc
      obtain ⟨a, b, d, rfl, ha, hd⟩ := setSpec_eq_some (Set.parse_eq_ok.1 hp)
      exact ⟨hks a (by simp) _ ha, hv d (by simp) _ hd⟩
    case h_2 | h_3 =>
      obtain ⟨c, hp, ⟨⟩⟩ := Except.bind_eq_ok.1 hc
      obtain ⟨⟨ks, key⟩, hk, rfl⟩ := Except.map_eq_ok.1 hp
      obtain ⟨a, b, rfl, ha⟩ := keyedSpec_eq_some (parseKeyed_eq_ok.1 hk)
      exact hks a (by simp) _ ha
    · obtain ⟨c, -, ⟨⟩⟩ := Except.bind_eq_ok.1 hc
      trivial
    · cases hc
  | _ => cases h

/-! ## Stored values -/

/-- every value a keyspace holds fits in `isize`, so that GET answers it with a Blob the reader reads back -/
def Db.Fits (db : Db) : Prop := ∀ key d, db.view key = some d → d.length ≤ isizeMax

/-- every keyspace of the manager holds only values that fit -/
def KeyspaceManager.Fits (m : KeyspaceManager) : Prop := ∀ name db, m.keyspaces.lookup name = some db → db.Fits

theorem Db.Fits.get {db : Db} (hdb : db.Fits) (now : ℕ) (key : String) : (db.get now key).1.Fits := by
  intro k d h
  rw [(db.get_view now key).2] at h
  exact hdb k d h

theorem Db.Fits.set {db : Db} (hdb : db.Fits) (now : ℕ) (key : String) {value : Bytes}
    (hv : value.length ≤ isizeMax) : (db.set now key value).1.Fits := by
  intro k d h
  rw [db.view_set now key value] at h
  by_cases hk : k = key
  · subst hk; simp at h; exact h ▸ hv
  · rw [Function.update_noteq hk] at h; exact hdb k d h

theorem Db.Fits.del {db : Db} (hdb : db.Fits) (key : String) : (db.del key).1.Fits := by
  intro k d h
  rw [(db.view_del key).1] at h
  by_cases hk : k = key
  · subst hk; simp at h
  · rw [Function.update_noteq hk] at h; exact hdb k d h

theorem KeyspaceManager.fits_new (serverMaxMemory : ℕ) : (KeyspaceManager.new serverMaxMemory).Fits := by
  intro name db h
  simp [KeyspaceManager.new] at h

theorem KeyspaceManager.Fits.insert {m : KeyspaceManager} (hm : m.Fits) (name : String) {db : Db} (hdb : db.Fits) :
    ({ m with keyspaces := m.keyspaces.insert name db } : KeyspaceManager).Fits := by
  intro name' db' h
  by_cases hn : name' = name
  · subst hn; simp only [AList.lookup_insert, Option.some.injEq] at h; exact h ▸ hdb
  · rw [AList.lookup_insert_ne hn] at h; exact hm _ _ h

theorem KeyspaceManager.Fits.withKeyspace {α : Type} {m : KeyspaceManager} (hm : m.Fits) (keyspace : String)
    {f : Db → Db × α} (hf : ∀ db, db.Fits → (f db).1.Fits) : (m.withKeyspace keyspace f).1.Fits := by
  cases hdb : m.keyspaces.lookup keyspace with
  | none => rw [KeyspaceManager.withKeyspace_none hdb]; exact hm
  | some db => rw [KeyspaceManager.withKeyspace_some hdb]; exact hm.insert _ (hf db (hm _ _ hdb))

/-- an eviction pass only removes values -/
theorem Db.Fits.sampleAndEvict {db : Db} (hdb : db.Fits) (now rss : ℕ) (order : List (Σ _ : String, Value))
    (draw : ℕ → Bool) : (db.sampleAndEvict now rss order draw).Fits := by
  intro k d h
  rcases db.sampleAndEvict_view now rss order draw with hv | ⟨k', -, -, hv⟩
  · rw [hv] at h; exact hdb k d h
  · rw [hv] at h
    by_cases hk : k = k'
    · subst hk; simp at h
    · rw [Function.update_noteq hk] at h; exact hdb k d h

/-- the `insert` of a CREATE adds an empty keyspace -/
theorem KeyspaceManager.Fits.insertNew {m : KeyspaceManager} (hm : m.Fits) (name : String) (evictor : Evictor)
    (maxMemorySampleSize : ℕ) : (m.insert name evictor maxMemorySampleSize).Fits :=
  hm.insert _ fun k d h => by simp [Db.view, Db.new] at h

theorem KeyspaceManager.Fits.create {m : KeyspaceManager} (hm : m.Fits) (name : String) (evictor : Evictor)
    (maxMemorySampleSize : ℕ) : (m.create name evictor maxMemorySampleSize).1.Fits := by
  unfold KeyspaceManager.create
  split
  · exact hm
  · exact hm.insertNew _ _ _

/-! ## Answers -/

theorem keyspaceError_lineSafe {keyspace : String} (h : LineSafe keyspace) :
    LineSafe ("ERREXEC " ++ ("ERR keyspace '" ++ keyspace ++ "' does not exist")) := by
  simp only [← String.append_assoc]
  exact lineSafe_quoted (by decide) h (by decide)

theorem execCount_fst (m : KeyspaceManager) (keyspace : String) (f : Db → Db × UInt8) :
    (execCount m keyspace f).1 = (m.withKeyspace keyspace f).1 := by
  unfold execCount
  split <;> simp_all

/-- SET and DEL write one frame: the count, or the error naming a line-safe keyspace -/
theorem execCount_answer {m : KeyspaceManager} {keyspace : String} (hk : LineSafe keyspace) (f : Db → Db × UInt8) :
    ∃ g, g.Wf ∧ writeFrame g = some (execCount m keyspace f).2 := by
  unfold execCount
  cases hdb : m.keyspaces.lookup keyspace with
  | none => rw [KeyspaceManager.withKeyspace_none hdb]; exact ⟨.error _, keyspaceError_lineSafe hk, rfl⟩
  | some db => rw [KeyspaceManager.withKeyspace_some hdb]; exact ⟨.integer _, trivial, rfl⟩

theorem Get.exec_fst (cmd : Get) (m : KeyspaceManager) (now : ℕ) :
    (cmd.exec m now).1 = (m.withKeyspace cmd.keyspace fun db => db.get now cmd.key).1 := by
  unfold Get.exec
  split <;> simp_all

/-- GET writes one frame: the value as a Blob, Null, or the error naming a line-safe keyspace -/
theorem Get.exec_answer {m : KeyspaceManager} (hm : m.Fits) {cmd : Get} (hk : LineSafe cmd.keyspace) (now : ℕ) :
    ∃ g, g.Wf ∧ writeFrame g = some (cmd.exec m now).2 := by
  unfold Get.exec
  cases hdb : m.keyspaces.lookup cmd.keyspace with
  | none => rw [KeyspaceManager.withKeyspace_none hdb]; exact ⟨.error _, keyspaceError_lineSafe hk, rfl⟩
  | some db =>
    rw [KeyspaceManager.withKeyspace_some hdb, (db.get_view now cmd.key).1]
    cases hv : db.view cmd.key with
    | none => exact ⟨.null, trivial, rfl⟩
    | some d => exact ⟨.blob d, hm _ _ hdb _ _ hv, rfl⟩

/-- `exec` writes one frame and leaves a manager whose values fit -/
theorem exec_answer {cmd : Command} (hc : cmd.Safe) {m : KeyspaceManager} (hm : m.Fits) (now : ℕ) :
    (∃ g, g.Wf ∧ writeFrame g = some (exec cmd m now).2) ∧ (exec cmd m now).1.Fits := by
  cases cmd with
  | get cmd =>
    refine ⟨cmd.exec_answer hm hc now, ?_⟩
    show (cmd.exec m now).1.Fits
    rw [Get.exec_fst]
    exact hm.withKeyspace _ fun db hdb => hdb.get now _
  | set cmd =>
    refine ⟨execCount_answer hc.1 _, ?_⟩
    show (execCount _ _ _).1.Fits
    rw [execCount_fst]
    exact hm.withKeyspace _ fun db hdb => hdb.set now _ hc.2
  | del cmd =>
    refine ⟨execCount_answer hc _, ?_⟩
    show (execCount _ _ _).1.Fits
    rw [execCount_fst]
    exact hm.withKeyspace _ fun db hdb => hdb.del _
  | create cmd => exact ⟨⟨.integer _, trivial, rfl⟩, hm.create _ _ _⟩

/-- **One request, one frame.** On a request whose texts are line-safe and whose values fit, and a manager whose
values fit, `handle` answers with the serialization of one frame of the serializer's domain, and the manager after it
still holds only values that fit -/
theorem respond_answer (cm : CaseMap) {frame : Frame} (hs : RequestSafe cm frame) (hv : ValuesFit frame)
    {m : KeyspaceManager} (hm : m.Fits) (now : ℕ) :
    (∃ g, g.Wf ∧ writeFrame g = some (respond cm frame m now).2) ∧ (respond cm frame m now).1.Fits := by
  unfold respond
  split
  · next e he => exact ⟨⟨.error e, new_errorsSafe cm hs e he, rfl⟩, hm⟩
  · next cmd hc => exact exec_answer (new_safe hc hs hv) hm now

/-! ## Runs -/

theorem value?_length_le {v : Frame} {b d : Bytes} (hw : write v = some b) (hd : v.value? = some d) :
    d.length ≤ b.length := by
  cases v <;> simp [write, Frame.value?] at hw hd <;> subst hw hd <;> simp <;> omega

theorem writeValues_value?_le {values : List Frame} {bs : Bytes} (h : writeValues values = some bs) {v : Frame}
    (hv : v ∈ values) {d : Bytes} (hd : v.value? = some d) : d.length ≤ bs.length := by
  induction values generalizing bs with
  | nil => cases hv
  | cons w ws ih =>
    simp only [writeValues] at h
    split at h
    · next b bs' hw hws =>
      cases h
      rcases List.mem_cons.1 hv with rfl | hv
      · have := value?_length_le hw hd
        simp only [List.length_append]; omega
      · have := ih hws hv
        simp only [List.length_append]; omega
    · cases h

/-- a request serialized in at most `isize::MAX` bytes has values that fit -/
theorem valuesFit_of_write {f : Frame} {b : Bytes} (hw : f.Wf ∧ writeFrame f = some b) (hb : b.length ≤ isizeMax) :
    ValuesFit f := by
  cases f with
  | array values =>
    intro v hv d hd
    obtain ⟨bs, hbs, rfl⟩ := Option.map_eq_some'.1 hw.2
    have := writeValues_value?_le hbs hv hd
    simp at hb
    omega
  | _ => trivial

/-- a turn on a `RequestSafe` request answers it with one frame and leaves the bytes after the request -/
theorem Handler.turn_answer (cm : CaseMap) {h : Handler} {f : Frame} {b rest : Bytes}
    (hw : f.Wf ∧ writeFrame f = some b) (hs : RequestSafe cm f) (hm : h.keyspaceManager.Fits)
    (hc : h.connection.content = b ++ rest) (hb : h.connection.content.length ≤ isizeMax) :
    ∃ h' g out, h.turn cm = .next h' ∧ (g.Wf ∧ writeFrame g = some out) ∧ h'.written = h.written ++ out ∧
      h'.connection.content = rest ∧ h'.keyspaceManager.Fits := by
  have hv : ValuesFit f := valuesFit_of_write hw (by rw [hc, List.length_append] at hb; omega)
  obtain ⟨h1, h2⟩ := readFrame_write hw hc hb
  generalize hr : readFrame h.connection.buffer h.connection.chunks = r at h1 h2
  obtain ⟨r, c'⟩ := r
  obtain rfl : r = .frame f := h1
  obtain ⟨⟨g, hg⟩, hm'⟩ := respond_answer cm hs hv hm h.clock
  simp only [Handler.turn, hr]
  generalize respond cm f h.keyspaceManager h.clock = res at hg hm'
  obtain ⟨m', out⟩ := res
  exact ⟨_, g, out, rfl, hg, rfl, h2, hm'⟩

/-- **Every request answered by one frame.** When the bytes still to come are the serializations of `RequestSafe`
requests `f1 .. fn`, at most `isize::MAX` bytes in all, followed by the end of the stream, and the manager holds only
values that fit, `handle` returns in turn `n + 1` having written the serializations of `n` frames, one a turn -/
theorem Handler.run_answers (cm : CaseMap) {fs : List Frame} {bs : List Bytes}
    (hw : List.Forall₂ (fun f b => f.Wf ∧ writeFrame f = some b) fs bs) (hs : ∀ f ∈ fs, RequestSafe cm f)
    {h : Handler} (hm : h.keyspaceManager.Fits) (hc : h.connection.content = bs.flatten)
    (hb : h.connection.content.length ≤ isizeMax) :
    ∃ h' gs outs, h.run cm (fs.length + 1) = .done h' ∧
      List.Forall₂ (fun g out => g.Wf ∧ writeFrame g = some out) gs outs ∧ outs.length = fs.length ∧
        h'.written = h.written ++ outs.flatten := by
  induction hw generalizing h with
  | nil =>
    simp only [Handler.run, Handler.turn, readFrame_closed hc]
    exact ⟨_, [], [], rfl, .nil, rfl, by simp⟩
  | @cons f b fs bs hfb _ ih =>
    rw [List.flatten_cons] at hc
    obtain ⟨h₁, g, out, ht, hg, hw₁, hc₁, hm₁⟩ := Handler.turn_answer cm hfb (hs f (List.mem_cons_self _ _)) hm hc hb
    have hb₁ : h₁.connection.content.length ≤ isizeMax := by
      rw [hc₁]; rw [hc, List.length_append] at hb; omega
    obtain ⟨h', gs, outs, hr, hgs, hl, hw'⟩ := ih (fun f hf => hs f (List.mem_cons_of_mem _ hf)) hm₁ hc₁ hb₁
    refine ⟨h', g :: gs, out :: outs, ?_, .cons hg hgs, by simp [hl], by simp [hw', hw₁]⟩
    rw [List.length_cons, Handler.run, ht]
    exact hr

/-- **The response stream stays framed.** Under the same conditions, a client that reads what `handle` wrote reads
exactly one frame for each request, and then the end of the stream -/
theorem Handler.run_framed (cm : CaseMap) {fs : List Frame} {bs : List Bytes}
    (hw : List.Forall₂ (fun f b => f.Wf ∧ writeFrame f = some b) fs bs) (hs : ∀ f ∈ fs, RequestSafe cm f)
    {h : Handler} (hm : h.keyspaceManager.Fits) (hc : h.connection.content = bs.flatten)
    (hb : h.connection.content.length ≤ isizeMax) :
    ∃ (h' : Handler) (gs : List Frame), h.run cm (fs.length + 1) = .done h' ∧ gs.length = fs.length ∧
      calls readSpec (fs.length + 1) (h'.written.drop h.written.length) = gs.map Read.frame ++ [.closed] := by
  obtain ⟨h', gs, outs, hr, hgs, hl, hw'⟩ := Handler.run_answers cm hw hs hm hc hb
  have hlen : gs.length = fs.length := hgs.length_eq.trans hl
  refine ⟨h', gs, hr, hlen, ?_⟩
  rw [hw', List.drop_left, ← hlen]
  exact readSpec_written gs outs hgs

/-- a client that sends `GET ks k` to a server with no keyspaces and closes its sending side reads back one frame,
the error naming `ks`, and then the end of the stream -/
theorem get_missing_keyspace_framed :
    ∃ (h' : Handler) (gs : List Frame),
      Handler.run .ascii 2 ⟨⟨[], [⟨getRequest, by simp [getRequest]⟩]⟩, KeyspaceManager.new 0, 0, []⟩ = .done h' ∧
        gs.length = 1 ∧ calls readSpec 2 h'.written = gs.map Read.frame ++ [.closed] :=
  Handler.run_framed .ascii (.cons getRequest_write .nil) (by decide) (KeyspaceManager.fits_new 0)
    (by simp [Connection.content]) (by simp [Connection.content, getRequest, isizeMax])

/-! ## Every connection of the server -/

/-- bytes that are the serializations of frames of the serializer's domain, one after another -/
def Framed (out : Bytes) : Prop :=
  ∃ gs outs, List.Forall₂ (fun g b => g.Wf ∧ writeFrame g = some b) gs outs ∧ out = outs.flatten

/-- bytes that are the serializations of `RequestSafe` requests, at most `isize::MAX` in all -/
def SafeStream (cm : CaseMap) (content : Bytes) : Prop :=
  content.length ≤ isizeMax ∧ ∃ fs bs, List.Forall₂ (fun f b => f.Wf ∧ writeFrame f = some b) fs bs ∧
    (∀ f ∈ fs, RequestSafe cm f) ∧ content = bs.flatten

theorem Framed.nil : Framed [] := ⟨[], [], .nil, rfl⟩

theorem Framed.append {out out' : Bytes} (h : Framed out) (h' : Framed out') : Framed (out ++ out') := by
  obtain ⟨gs, outs, hgs, rfl⟩ := h
  obtain ⟨gs', outs', hgs', rfl⟩ := h'
  exact ⟨gs ++ gs', outs ++ outs', List.rel_append hgs hgs', by simp⟩

theorem Framed.single {g : Frame} {b : Bytes} (hg : g.Wf ∧ writeFrame g = some b) : Framed b :=
  ⟨[g], [b], .cons hg .nil, by simp⟩

theorem countReply_framed (n : UInt8) : Framed (countReply n) := Framed.single (g := .integer _) ⟨trivial, rfl⟩

/-- a step of the shared state keeps the manager's values fitting and writes frames, when the command it starts, if
any, is safe -/
theorem Workers.step_framed {s s' : Workers} {a : Action} (hm : s.manager.Fits)
    (ha : ∀ t cmd, a = .request t cmd → cmd.Safe) (h : s.step a = some s') :
    s'.manager.Fits ∧ Framed (s.wrote s') := by
  rcases Workers.step_cases h with ⟨t, cmd, rfl, -, -, rfl⟩ | ⟨-, -, -, -, -, rfl⟩ | ⟨-, -, -, -, -, rfl⟩ |
    ⟨-, p, -, -, rfl⟩ | ⟨-, -, -, -, -, -, -, -, rfl⟩ | ⟨name, -, -, -, db, -, -, hdb, -, rfl⟩
  · obtain ⟨⟨g, hg⟩, hm'⟩ := exec_answer (ha t cmd rfl) hm s.clock
    exact ⟨hm', by rw [Workers.wrote_of_answers rfl]; simpa using Framed.single hg⟩
  · exact ⟨hm, by rw [Workers.wrote_of_answers rfl]; simpa using countReply_framed 0⟩
  · exact ⟨hm, by rw [Workers.wrote_of_answers (l := []) (by simp)]; exact Framed.nil⟩
  · exact ⟨hm.insertNew _ _ _, by rw [Workers.wrote_of_answers rfl]; simpa using countReply_framed 1⟩
  · exact ⟨hm, by rw [Workers.wrote_of_answers (l := []) (by simp)]; exact Framed.nil⟩
  · exact ⟨hm.insert _ ((hm name db hdb).sampleAndEvict _ _ _ _),
      by rw [Workers.wrote_of_answers (l := []) (by simp)]; exact Framed.nil⟩

/-- what a server step needs from the world: the client of a connection it accepts sends safe requests -/
def ServerAction.Safe (cm : CaseMap) : ServerAction → Prop
  | .accept chunks => SafeStream cm (delivered chunks)
  | _ => True

/-- a connection whose client's bytes still to read are safe requests, and whose answers so far are frames -/
def ConnectionTask.Framing (cm : CaseMap) (t : ConnectionTask) : Prop :=
  SafeStream cm t.connection.content ∧ Framed t.written

/-- the server's framing invariant: the shared manager holds only values that fit, and every connection is framed -/
structure Server.Framing (cm : CaseMap) (s : Server) : Prop where
  fits : s.shared.manager.Fits
  tasks : ∀ t ∈ s.tasks, t.Framing cm

theorem Server.Framing.init (cm : CaseMap) (serverMaxMemory : ℕ) : (Server.init serverMaxMemory).Framing cm :=
  ⟨KeyspaceManager.fits_new serverMaxMemory, by simp [Server.init]⟩

/-- the connections after task `i` is replaced by a framed one are framed -/
theorem Server.Framing.set {cm : CaseMap} {s : Server} (hi : s.Framing cm) (i : ℕ) {t : ConnectionTask}
    (ht : t.Framing cm) : ∀ t' ∈ s.tasks.set i t, t'.Framing cm := fun t' h =>
  (List.mem_or_eq_of_mem_set h).elim (hi.tasks t') fun h => h ▸ ht

section Framing

variable {cm : CaseMap} {s s' : Server} {i : ℕ}

/-- an `insert` writes the answer 1 to a framed connection -/
theorem Server.insert_framing (hi : s.Framing cm) (h : s.insert i = some s') : s'.Framing cm := by
  obtain ⟨task, w, ht, -, hw, rfl⟩ := Server.insert_cases h
  obtain ⟨hm, hf⟩ := Workers.step_framed hi.fits (fun _ _ h => by cases h) hw
  have htask := hi.tasks task (List.getElem?_mem ht)
  exact ⟨hm, hi.set i ⟨htask.1, htask.2.append hf⟩⟩

/-- a turn on a framed connection answers one safe request with frames, or ends the task at the end of the stream;
it never panics -/
theorem Server.turn_framing {task : ConnectionTask} (hi : s.Framing cm) (ht : s.tasks[i]? = some task)
    (h : s.turn cm i task = some s') : s'.Framing cm := by
  obtain ⟨⟨hb, fs, bs, hw, hs, hc⟩, hwr⟩ := hi.tasks task (List.getElem?_mem ht)
  cases hw with
  | nil =>
    simp only [Server.turn, readFrame_closed hc, Option.some.injEq] at h
    subst h
    exact ⟨hi.fits, hi.set i ⟨⟨hb, [], [], .nil, (fun _ h => by cases h), hc⟩, hwr⟩⟩
  | @cons f b fs bs hfb hw =>
    rw [List.flatten_cons] at hc
    have hsf := hs f (List.mem_cons_self _ _)
    have hv : ValuesFit f := valuesFit_of_write hfb (by rw [hc, List.length_append] at hb; omega)
    obtain ⟨h1, h2⟩ := readFrame_write hfb hc hb
    have hrest : SafeStream cm (readFrame task.connection.buffer task.connection.chunks).2.content :=
      ⟨by rw [h2]; rw [hc, List.length_append] at hb; omega, fs, bs, hw,
        fun f hf => hs f (List.mem_cons_of_mem _ hf), h2⟩
    generalize hr : readFrame task.connection.buffer task.connection.chunks = r at h1 h2 hrest
    obtain ⟨r, c'⟩ := r
    obtain rfl : r = .frame f := h1
    simp only [Server.turn, hr] at h
    cases hn : new cm f with
    | ok cmd =>
      simp only [hn] at h
      obtain ⟨w, hw', rfl⟩ := Server.handlerStep_eq h
      obtain ⟨hm, hf⟩ := Workers.step_framed hi.fits (fun _ _ h => by cases h; exact new_safe hn hsf hv) hw'
      exact ⟨hm, hi.set i ⟨hrest, hwr.append hf⟩⟩
    | error e =>
      simp only [hn, Option.some.injEq] at h
      subst h
      exact ⟨hi.fits, hi.set i ⟨hrest, hwr.append (Framed.single (g := .error e) ⟨new_errorsSafe cm hsf e hn, rfl⟩)⟩⟩

theorem Server.step_framing {a : ServerAction} (hi : s.Framing cm) (ha : a.Safe cm) (h : s.step cm a = some s') :
    s'.Framing cm := by
  cases a with
  | accept chunks =>
    simp only [Server.step] at h
    split_ifs at h
    cases h
    refine ⟨hi.fits, fun t ht => ?_⟩
    rcases List.mem_append.1 ht with ht | ht
    · exact hi.tasks t ht
    · obtain rfl := List.mem_singleton.1 ht
      exact ⟨by simpa [Connection.content] using ha, Framed.nil⟩
  | read i =>
    obtain ⟨s₁, task, hs₁, ht, -, hturn⟩ := Server.step_read_cases h
    have hi₁ : s₁.Framing cm := by
      rcases hs₁ with ⟨-, rfl⟩ | ⟨-, hins⟩
      · exact hi
      · exact Server.insert_framing hi hins
    exact Server.turn_framing hi₁ ht hturn
  | insert i => exact Server.insert_framing hi h
  | listen i =>
    simp only [Server.step] at h
    split at h
    · next task ht =>
      split_ifs at h
      cases h
      exact ⟨hi.fits, hi.set i (hi.tasks task (List.getElem?_mem ht))⟩
    · cases h
  | interrupt | recv =>
    simp only [Server.step] at h
    split_ifs at h
    cases h
    exact ⟨hi.fits, hi.tasks⟩
  | startPass n rss | evict n order draw =>
    obtain ⟨w, hw, rfl⟩ := Option.map_eq_some'.1 h
    exact ⟨(Workers.step_framed hi.fits (fun _ _ h => by cases h) hw).1, hi.tasks⟩

theorem Server.run_framing {as : List ServerAction} (hi : s.Framing cm) (ha : ∀ a ∈ as, a.Safe cm)
    (h : s.run cm as = some s') : s'.Framing cm := by
  induction as generalizing s with
  | nil => cases h; exact hi
  | cons a as ih =>
    obtain ⟨s₁, h₁, h⟩ := Option.bind_eq_some.1 h
    exact ih (Server.step_framing hi (ha a (List.mem_cons_self _ _)) h₁) (fun a h => ha a (List.mem_cons_of_mem _ h)) h

end Framing

/-- **No interleaving breaks a connection's answers.** In every run from a fresh server in which each client sends
safe requests, whatever the order in which the handlers take their turns and run their `insert`s, the evictor tasks
their passes, the interrupt and the shutdown, every connection's answers so far read back, for its client, as frames
and then the end of what was written -/
theorem Server.run_answers_framed {cm : CaseMap} {serverMaxMemory : ℕ} {as : List ServerAction} {s' : Server}
    (ha : ∀ a ∈ as, a.Safe cm) (h : (Server.init serverMaxMemory).run cm as = some s') :
    ∀ t ∈ s'.tasks, ∃ gs : List Frame, calls readSpec (gs.length + 1) t.written = gs.map Read.frame ++ [.closed] := by
  intro t ht
  obtain ⟨-, gs, outs, hgs, hw⟩ := (Server.run_framing (Server.Framing.init cm serverMaxMemory) ha h).tasks t ht
  exact ⟨gs, hw ▸ readSpec_written gs outs hgs⟩

theorem getRequest_safe : SafeStream .ascii getRequest :=
  ⟨by simp [getRequest, isizeMax], _, [getRequest], .cons getRequest_write .nil, by decide, by simp⟩

/-- a fresh server accepts a client that sends `GET ks k`, and its handler answers it: what the client reads back
is frames -/
theorem get_answered_framed :
    ∃ s', (Server.init 0).run .ascii [.accept [⟨getRequest, by simp [getRequest]⟩], .read 0] = some s' ∧
      ∀ t ∈ s'.tasks, ∃ gs : List Frame, calls readSpec (gs.length + 1) t.written = gs.map Read.frame ++ [.closed] :=
  getRequest_run.imp fun _ h =>
    ⟨h, Server.run_answers_framed (by simpa [ServerAction.Safe, delivered] using getRequest_safe) h⟩

end Segment
