/-
The command-line client (`bin/segment-cli.rs`): `tokenize_command`, `impl Display for Frame`, and the loop of `main`,
which writes each line it reads as an Array of its tokens and prints the frame it reads back.

A `Session` is a client and the handler of its connection. The client waits for an answer before it sends its next
line, so one turn of `main`'s loop is: the client writes the request, the handler takes one turn on it, its answer
arrives, and the client reads one frame and prints it. Every write succeeds and no shutdown is signalled; how the
socket splits the bytes into reads does not matter (`readFrame_partition`), so each write arrives as one read.
`str::trim` uses `char::is_whitespace`, whose table (Unicode's `White_Space`) is written out in `isWhitespace`.

Results:
- `tokenizeCommand_strings`, `request_isSome`: `tokenize_command` returns Strings only, none holding a `"`, so the
  client's `write_frame` never reaches `unreachable!()`;
- `tokenizeCommand_quoted`: the quoting round trip: tokens without a `"`, each put between double quotes and joined
  by single spaces, are tokenized back into the same tokens, empty ones and ones holding spaces included;
- `tokenizeCommand_typed`: the round trip of lines as typed: bare words (no whitespace, no `"`) and quoted texts (no
  `"`), with runs of spaces of any length between them and any number of spaces around the line, are tokenized into
  their texts;
- `Session.line_answer`: from an idle session, a `Sendable` line (its tokens line-safe, upper-cased or not, and its
  request in the serializer's domain) is answered with one frame, and the client prints that frame's display;
- `Session.run_printed`: on sendable lines `l1 .. ln`, the client prints `n` displays, the `i`-th that of the server's
  answer to `li` (`answers`) in the keyspaces and at the clock its request meets, whatever the evictor tasks and the
  other clients' handlers did to them since the line before.
-/
import Segment.Responses

namespace Segment

/-! ## `tokenize_command` -/

/-- `char::is_whitespace`: the Unicode `White_Space` characters -/
def isWhitespace (c : Char) : Bool :=
  c = ' ' || (0x09 ≤ c.toNat && c.toNat ≤ 0x0D) || c.toNat = 0x85 || c.toNat = 0xA0 || c.toNat = 0x1680 ||
    (0x2000 ≤ c.toNat && c.toNat ≤ 0x200A) || c.toNat = 0x2028 || c.toNat = 0x2029 || c.toNat = 0x202F ||
    c.toNat = 0x205F || c.toNat = 0x3000

/-- `str::trim`: the text without its leading and trailing whitespace -/
def trim (s : String) : String :=
  ⟨((s.data.dropWhile isWhitespace).reverse.dropWhile isWhitespace).reverse⟩

/-- the locals of the loop of `tokenize_command` -/
structure Tokenizer where
  tokens : List Frame
  token : String
  isOpenQuote : Bool

/-- one turn of the loop of `tokenize_command`, on the character `c` -/
def Tokenizer.step (t : Tokenizer) (c : Char) : Tokenizer :=
  if c = '"' ∧ t.isOpenQuote then ⟨t.tokens ++ [.string t.token], "", false⟩
  else if c = '"' ∧ !t.isOpenQuote then { t with isOpenQuote := true }
  else if c = ' ' ∧ t.isOpenQuote then { t with token := t.token.push c }
  else if c = ' ' ∧ !t.isOpenQuote then
    if t.token ≠ "" then { t with tokens := t.tokens ++ [.string t.token], token := "" } else t
  else { t with token := t.token.push c }

/-- `tokenize_command` -/
def tokenizeCommand (cmd : String) : List Frame :=
  let t := (trim cmd).data.foldl Tokenizer.step ⟨[], "", false⟩
  if t.token ≠ "" then t.tokens ++ [.string t.token] else t.tokens

/-! ## Printing -/

mutual

/-- `impl Display for Frame` -/
def Frame.display : Frame → String
  | .array values => displayValues 0 values
  | .blob data =>
    match fromUtf8 data with
    | .ok text => "(blob) " ++ text
    | .error e => "(error) " ++ e.message
  | .error data => "(error) " ++ data
  | .integer data => "(integer) " ++ toString data.val
  | .null => "(null)"
  | .string data => "(string) " ++ data

/-- the loop of `Display` over an array's elements, numbered from `i` -/
def displayValues (i : ℕ) : List Frame → String
  | [] => ""
  | v :: vs => toString i ++ ") " ++ v.display ++ "\n" ++ displayValues (i + 1) vs

end

/-! ## The client and its session -/

/-- a line `main` prints: on standard output, or on standard error -/
inductive Printed where
  | out (text : String)
  | err (text : String)

/-- the client: its connection to the server, and what it has printed -/
structure Client where
  connection : Connection
  printed : List Printed

/-- the `read_frame` of one turn of `main`'s loop and what it prints. The server is still running, so a `read_frame`
that runs out of delivered bytes waits for more (`none`), as a panic also ends the session -/
def Client.receive (c : Client) : Option Client :=
  match readFrame c.connection.buffer c.connection.chunks with
  | (.frame f, connection) => some ⟨connection, c.printed ++ [.out f.display]⟩
  | (.error (.parse e), connection) => some ⟨connection, c.printed ++ [.err (ReadError.parse e).message]⟩
  | _ => none

/-- the connection once the peer's write of `b` has arrived, as one more read -/
def Connection.deliver (c : Connection) (b : Bytes) : Connection :=
  if h : b = [] then c else { c with chunks := c.chunks ++ [⟨b, h⟩] }

/-- the bytes `write_frame` writes for a line: the Array of its tokens -/
def request (line : String) : Option Bytes := writeFrame (.array (tokenizeCommand line))

/-- a client and the handler of its connection -/
structure Session where
  client : Client
  server : Handler

/-- one turn of `main`'s loop on the line `line`, the keyspace manager being `m` and the clock `now` when the request
reaches the handler: whatever the evictor tasks and the other clients' handlers made of the keyspaces since the line
before. The client writes the request, the server's handler reads it in one turn and its answer arrives, and the
client reads one frame and prints it. `none` when a task panics, when the client would wait for bytes that do not come,
and when the request did not read as exactly one frame: the handler would then go on with what is left before the
client's next line, which this model does not follow -/
def Session.line (cm : CaseMap) (s : Session) (m : KeyspaceManager) (now : ℕ) (line : String) : Option Session :=
  match request line with
  | none => none
  | some bytes =>
    match Handler.turn cm
        { s.server with connection := s.server.connection.deliver bytes, keyspaceManager := m, clock := now } with
    | .next h =>
      if h.connection.content = [] then
        (Client.receive { s.client with connection := s.client.connection.deliver h.written }).map
          fun c => ⟨c, { h with written := [] }⟩
      else none
    | _ => none

/-- `main`'s loop over the lines read, each with the keyspace manager and the clock its request meets -/
def Session.run (cm : CaseMap) : Session → List (String × KeyspaceManager × ℕ) → Option Session
  | s, [] => some s
  | s, (line, m, now) :: lines => (s.line cm m now line).bind fun s => s.run cm lines

/-- no bytes in flight: both connections have read all that arrived, and the server's answers were delivered -/
def Session.Idle (s : Session) : Prop :=
  s.client.connection = ⟨[], []⟩ ∧ s.server.connection = ⟨[], []⟩ ∧ s.server.written = []

/-- what the server answers to each line, on the keyspace manager and at the clock its request meets -/
def answers (cm : CaseMap) (lines : List (String × KeyspaceManager × ℕ)) : List Bytes :=
  lines.map fun l => (respond cm (.array (tokenizeCommand l.1)) l.2.1 l.2.2).2

/-- a line whose request the server reads back as sent and answers with one frame: its tokens hold no CR-LF pair,
upper-cased or not, and its request is in the serializer's domain and at most `isize::MAX` bytes long -/
structure Sendable (cm : CaseMap) (line : String) : Prop where
  safe : RequestSafe cm (.array (tokenizeCommand line))
  wf : (Frame.array (tokenizeCommand line)).Wf
  fit : ValuesFit (.array (tokenizeCommand line))

instance (cm : CaseMap) (line : String) : Decidable (Sendable cm line) :=
  decidable_of_iff (RequestSafe cm _ ∧ (Frame.array _).Wf ∧ ValuesFit _)
    ⟨fun ⟨h1, h2, h3⟩ => ⟨h1, h2, h3⟩, fun ⟨h1, h2, h3⟩ => ⟨h1, h2, h3⟩⟩

/-! ## The client sends Strings -/

/-- what every turn of the tokenizer's loop keeps: the tokens taken are Strings, and no token holds a `"` -/
def Tokenizer.Inv (t : Tokenizer) : Prop := '"' ∉ t.token.data ∧ ∀ f ∈ t.tokens, ∃ s, f = .string s ∧ '"' ∉ s.data

theorem Tokenizer.Inv.take {t : Tokenizer} (h : t.Inv) :
    ∀ f ∈ t.tokens ++ [.string t.token], ∃ s, f = .string s ∧ '"' ∉ s.data := by
  intro f hf
  rcases List.mem_append.1 hf with hf | hf
  · exact h.2 f hf
  · exact ⟨t.token, List.mem_singleton.1 hf, h.1⟩

theorem Tokenizer.step_inv {t : Tokenizer} (h : t.Inv) (c : Char) : (t.step c).Inv := by
  unfold Tokenizer.step
  split_ifs with h1 h2 h3 h4 h5
  · exact ⟨by simp, h.take⟩
  · exact h
  · exact ⟨by simp [h3.1, h.1], h.2⟩
  · exact ⟨by simp, h.take⟩
  · exact h
  · refine ⟨?_, h.2⟩
    have hc : c ≠ '"' := fun hc => by cases ho : t.isOpenQuote <;> simp_all
    simp [h.1, hc.symm]

theorem Tokenizer.foldl_inv {t : Tokenizer} (h : t.Inv) (cs : List Char) : (cs.foldl Tokenizer.step t).Inv := by
  induction cs generalizing t with
  | nil => exact h
  | cons c cs ih => exact ih (Tokenizer.step_inv h c)

/-- `tokenize_command` returns Strings only, none of them holding a `"` -/
theorem tokenizeCommand_strings (cmd : String) :
    ∀ f ∈ tokenizeCommand cmd, ∃ s, f = .string s ∧ '"' ∉ s.data := by
  have h := Tokenizer.foldl_inv (t := ⟨[], "", false⟩) ⟨by simp, by simp⟩ (trim cmd).data
  simp only [tokenizeCommand]
  split_ifs
  · exact h.take
  · exact h.2

theorem writeValues_strings {values : List Frame} (h : ∀ f ∈ values, ∃ s, f = .string s) :
    (writeValues values).isSome := by
  induction values with
  | nil => rfl
  | cons v vs ih =>
    obtain ⟨s, rfl⟩ := h v (List.mem_cons_self _ _)
    obtain ⟨bs, hbs⟩ := Option.isSome_iff_exists.1 (ih fun f hf => h f (List.mem_cons_of_mem _ hf))
    simp [writeValues, write, hbs]

/-- so `write_frame` on the client's request never reaches `unreachable!()` -/
theorem request_isSome (line : String) : (request line).isSome := by
  have h := writeValues_strings fun f hf => (tokenizeCommand_strings line f hf).imp fun _ => And.left
  simpa [request, writeFrame] using h

/-! ## The quoting round trip -/

/-- inside quotes the loop pushes every character but `"` onto the token -/
theorem Tokenizer.foldl_open {cs : List Char} (h : '"' ∉ cs) (tokens : List Frame) (token : String) :
    cs.foldl Tokenizer.step ⟨tokens, token, true⟩ = ⟨tokens, ⟨token.data ++ cs⟩, true⟩ := by
  induction cs generalizing token with
  | nil => simp
  | cons c cs ih =>
    rw [List.mem_cons, not_or] at h
    have hc : c ≠ '"' := Ne.symm h.1
    have hstep : Tokenizer.step ⟨tokens, token, true⟩ c = ⟨tokens, token.push c, true⟩ := by
      by_cases hs : c = ' ' <;> simp [Tokenizer.step, hc, hs]
    rw [List.foldl_cons, hstep, ih h.2]
    simp

/-- from inside the quotes of token `t`: each later token closes the quotes, skips one space and opens new ones, and
the last `"` closes the last token; every token is taken as one String -/
theorem Tokenizer.foldl_quoted {ts : List String} (h : ∀ t ∈ ts, '"' ∉ t.data) (tokens : List Frame)
    (t : String) :
    ((ts.map fun t => '"' :: ' ' :: '"' :: t.data).flatten ++ ['"']).foldl Tokenizer.step ⟨tokens, t, true⟩ =
      ⟨tokens ++ (t :: ts).map .string, "", false⟩ := by
  induction ts generalizing tokens t with
  | nil => rfl
  | cons t' ts ih =>
    have hs : ('"' :: ' ' :: '"' :: t'.data).foldl Tokenizer.step ⟨tokens, t, true⟩ =
        ⟨tokens ++ [.string t], t', true⟩ := by
      have h3 : ['"', ' ', '"'].foldl Tokenizer.step ⟨tokens, t, true⟩ = ⟨tokens ++ [.string t], "", true⟩ :=
        rfl
      rw [show '"' :: ' ' :: '"' :: t'.data = ['"', ' ', '"'] ++ t'.data from rfl, List.foldl_append, h3,
        Tokenizer.foldl_open (h t' (List.mem_cons_self _ _))]
      simp
    rw [List.map_cons, List.flatten_cons, List.append_assoc, List.foldl_append, hs,
      ih (fun t ht => h t (List.mem_cons_of_mem _ ht))]
    simp

theorem intercalate_go_data (acc sep : String) (ts : List String) :
    (String.intercalate.go acc sep ts).data = acc.data ++ (ts.map fun t => sep.data ++ t.data).flatten := by
  induction ts generalizing acc with
  | nil => simp [String.intercalate.go]
  | cons t ts ih => simp [String.intercalate.go, ih]

theorem quotes_regroup (ts : List String) :
    '"' :: (ts.map fun t => ' ' :: '"' :: (t.data ++ ['"'])).flatten =
      (ts.map fun t => '"' :: ' ' :: '"' :: t.data).flatten ++ ['"'] := by
  induction ts with
  | nil => rfl
  | cons t ts ih => simp [ih]

theorem dropWhile_quote (cs : List Char) : ('"' :: cs).dropWhile isWhitespace = '"' :: cs :=
  List.dropWhile_cons_of_neg (by decide)

/-- `str::trim` leaves a line that starts and ends with `"` as it is -/
theorem trim_quoted (cs : List Char) : trim ⟨'"' :: (cs ++ ['"'])⟩ = ⟨'"' :: (cs ++ ['"'])⟩ := by
  simp only [trim, dropWhile_quote]
  rw [show ('"' :: (cs ++ ['"'])).reverse = '"' :: ('"' :: cs).reverse by simp, dropWhile_quote]
  simp

/-- **The quoting round trip.** For tokens without a `"`, the line that puts each between double quotes and joins
them with single spaces is tokenized back into the tokens, as Strings: spaces inside a token and empty tokens
included -/
theorem tokenizeCommand_quoted (ts : List String) (h : ∀ t ∈ ts, '"' ∉ t.data) :
    tokenizeCommand (" ".intercalate (ts.map fun t => "\"" ++ t ++ "\"")) = ts.map .string := by
  cases ts with
  | nil => rfl
  | cons t ts =>
    have hline : " ".intercalate ((t :: ts).map fun t => "\"" ++ t ++ "\"") =
        ⟨'"' :: (t.data ++ (ts.map fun t => '"' :: ' ' :: '"' :: t.data).flatten ++ ['"'])⟩ := by
      apply String.ext
      rw [List.map_cons, String.intercalate, intercalate_go_data]
      have hq : ("\"" : String).data = ['"'] := rfl
      have hs : (" " : String).data = [' '] := rfl
      simp [hq, hs, Function.comp_def, ← quotes_regroup]
    have hopen : ('"' :: t.data).foldl Tokenizer.step ⟨[], "", false⟩ = ⟨[], t, true⟩ :=
      (Tokenizer.foldl_open (h t (List.mem_cons_self _ _)) [] "").trans (by simp)
    rw [hline, tokenizeCommand, trim_quoted, List.append_assoc, ← List.cons_append, List.foldl_append, hopen,
      Tokenizer.foldl_quoted fun t ht => h t (List.mem_cons_of_mem _ ht)]
    simp

/-- a line that quotes a key with spaces and an empty value -/
theorem spaced_key_quoted :
    tokenizeCommand (" ".intercalate (["set", "ks", "this is a key", ""].map fun t => "\"" ++ t ++ "\"")) =
      [.string "set", .string "ks", .string "this is a key", .string ""] :=
  tokenizeCommand_quoted ["set", "ks", "this is a key", ""] (by decide)

/-! ## Typed lines -/

/-- a token as a user types it on the client's line: a bare word, or a text between double quotes -/
inductive LineToken where
  | bare (word : String)
  | quoted (text : String)
deriving DecidableEq

/-- the text the token stands for -/
def LineToken.text : LineToken → String
  | .bare word => word
  | .quoted text => text

/-- the characters typed for the token -/
def LineToken.chars : LineToken → List Char
  | .bare word => word.data
  | .quoted text => '"' :: (text.data ++ ['"'])

/-- a token that reads back as typed: a bare word is not empty and holds no whitespace and no `"`; a quoted text
holds no `"` -/
def LineToken.Typable : LineToken → Prop
  | .bare word => word ≠ "" ∧ ∀ c ∈ word.data, isWhitespace c = false ∧ c ≠ '"'
  | .quoted text => '"' ∉ text.data

instance : DecidablePred LineToken.Typable
  | .bare word => inferInstanceAs (Decidable (word ≠ "" ∧ ∀ c ∈ word.data, isWhitespace c = false ∧ c ≠ '"'))
  | .quoted text => inferInstanceAs (Decidable ('"' ∉ text.data))

/-- a line of typed tokens: `lead` spaces, each token but the last followed by its run of `n + 1` spaces, the last
token, and `trail` spaces -/
def typedLine (lead : ℕ) (tokens : List (LineToken × ℕ)) (last : LineToken) (trail : ℕ) : String :=
  ⟨List.replicate lead ' ' ++ (tokens.map fun p => p.1.chars ++ List.replicate (p.2 + 1) ' ').flatten ++ last.chars ++
    List.replicate trail ' '⟩

theorem dropWhile_spaces (n : ℕ) (l : List Char) :
    (List.replicate n ' ' ++ l).dropWhile isWhitespace = l.dropWhile isWhitespace := by
  induction n with
  | zero => rfl
  | succ n ih => rw [List.replicate_succ, List.cons_append, List.dropWhile_cons_of_pos (by decide), ih]

theorem dropWhile_of_head {l : List Char} (h : ∀ c ∈ l.head?, isWhitespace c = false) :
    l.dropWhile isWhitespace = l := by
  cases l with
  | nil => rfl
  | cons c l => exact List.dropWhile_cons_of_neg (by simp_all)

/-- `str::trim` takes off the spaces around a text that neither starts nor ends with whitespace -/
theorem trim_spaced {body : List Char} (hne : body ≠ []) (hh : ∀ c ∈ body.head?, isWhitespace c = false)
    (hl : ∀ c ∈ body.getLast?, isWhitespace c = false) (lead trail : ℕ) :
    trim ⟨List.replicate lead ' ' ++ body ++ List.replicate trail ' '⟩ = ⟨body⟩ := by
  have h1 : (List.replicate lead ' ' ++ body ++ List.replicate trail ' ').dropWhile isWhitespace =
      body ++ List.replicate trail ' ' := by
    rw [List.append_assoc, dropWhile_spaces, dropWhile_of_head (by rwa [List.head?_append_of_ne_nil _ hne])]
  have h2 : (body ++ List.replicate trail ' ').reverse.dropWhile isWhitespace = body.reverse := by
    rw [List.reverse_append, List.reverse_replicate, dropWhile_spaces, dropWhile_of_head (by rwa [List.head?_reverse])]
  simp only [trim, h1, h2, List.reverse_reverse]

/-- a typed token starts and ends with a character that is not whitespace -/
theorem LineToken.chars_ends {tok : LineToken} (h : tok.Typable) : tok.chars ≠ [] ∧
    (∀ c ∈ tok.chars.head?, isWhitespace c = false) ∧ ∀ c ∈ tok.chars.getLast?, isWhitespace c = false := by
  cases tok with
  | bare word =>
    have hw : word.data ≠ [] := fun hw => h.1 (String.ext hw)
    exact ⟨hw, fun c hc => (h.2 c (List.mem_of_mem_head? hc)).1, fun c hc => (h.2 c (List.mem_of_mem_getLast? hc)).1⟩
  | quoted text =>
    refine ⟨by simp [LineToken.chars], fun c hc => ?_, fun c hc => ?_⟩
    · simp only [LineToken.chars, List.head?_cons, Option.mem_def, Option.some.injEq] at hc
      subst hc; decide
    · rw [LineToken.chars, ← List.cons_append, List.getLast?_append_of_ne_nil _ (List.cons_ne_nil _ _)] at hc
      simp only [List.getLast?_singleton, Option.mem_def, Option.some.injEq] at hc
      subst hc; decide

/-- outside quotes the loop pushes every character but a space and `"` onto the token -/
theorem Tokenizer.foldl_bare {cs : List Char} (h : ∀ c ∈ cs, c ≠ ' ' ∧ c ≠ '"') (tokens : List Frame)
    (token : String) : cs.foldl Tokenizer.step ⟨tokens, token, false⟩ = ⟨tokens, ⟨token.data ++ cs⟩, false⟩ := by
  induction cs generalizing token with
  | nil => simp
  | cons c cs ih =>
    obtain ⟨hs, hq⟩ := h c (List.mem_cons_self _ _)
    have hstep : Tokenizer.step ⟨tokens, token, false⟩ c = ⟨tokens, token.push c, false⟩ := by
      simp [Tokenizer.step, hs, hq]
    rw [List.foldl_cons, hstep, ih fun c hc => h c (List.mem_cons_of_mem _ hc)]
    simp

/-- outside quotes and with no token begun, spaces change nothing -/
theorem Tokenizer.foldl_spaces (n : ℕ) (tokens : List Frame) :
    (List.replicate n ' ').foldl Tokenizer.step ⟨tokens, "", false⟩ = ⟨tokens, "", false⟩ := by
  induction n with
  | zero => rfl
  | succ n ih => rw [List.replicate_succ, List.foldl_cons]; exact ih

/-- the state after a typed token: a bare word is the token being read, a quoted text is taken -/
theorem LineToken.foldl_chars {tok : LineToken} (h : tok.Typable) (tokens : List Frame) :
    tok.chars.foldl Tokenizer.step ⟨tokens, "", false⟩ =
      match tok with
      | .bare word => ⟨tokens, word, false⟩
      | .quoted text => ⟨tokens ++ [.string text], "", false⟩ := by
  cases tok with
  | bare word =>
    have hb : ∀ c ∈ word.data, c ≠ ' ' ∧ c ≠ '"' := fun c hc =>
      ⟨fun hs => absurd (h.2 c hc).1 (by rw [hs]; decide), (h.2 c hc).2⟩
    exact (Tokenizer.foldl_bare hb tokens "").trans (by simp)
  | quoted text =>
    have hq : Tokenizer.step ⟨tokens, "", false⟩ '"' = ⟨tokens, "", true⟩ := rfl
    rw [LineToken.chars, List.foldl_cons, ← List.singleton_append, List.foldl_append, hq, Tokenizer.foldl_open h]
    simp [Tokenizer.step]

/-- a typed token and the run of spaces after it are taken as the token's text -/
theorem LineToken.foldl_gap {tok : LineToken} (h : tok.Typable) (n : ℕ) (tokens : List Frame) :
    (tok.chars ++ List.replicate (n + 1) ' ').foldl Tokenizer.step ⟨tokens, "", false⟩ =
      ⟨tokens ++ [.string tok.text], "", false⟩ := by
  rw [List.foldl_append, LineToken.foldl_chars h, List.replicate_succ, List.foldl_cons]
  cases tok with
  | bare word => simpa [Tokenizer.step, h.1] using Tokenizer.foldl_spaces n (tokens ++ [.string word])
  | quoted text => exact Tokenizer.foldl_spaces n _

theorem Tokenizer.foldl_pieces {tokens : List (LineToken × ℕ)} (h : ∀ p ∈ tokens, p.1.Typable) (taken : List Frame) :
    (tokens.map fun p => p.1.chars ++ List.replicate (p.2 + 1) ' ').flatten.foldl Tokenizer.step ⟨taken, "", false⟩ =
      ⟨taken ++ tokens.map (.string ·.1.text), "", false⟩ := by
  induction tokens generalizing taken with
  | nil => simp
  | cons p tokens ih =>
    rw [List.map_cons, List.flatten_cons, List.foldl_append, LineToken.foldl_gap (h p (List.mem_cons_self _ _)),
      ih fun q hq => h q (List.mem_cons_of_mem _ hq)]
    simp

/-- **Typed lines read back.** A line of typed tokens, bare words and quoted texts, each run of spaces between them
of any length, with any number of spaces before and after, is tokenized into the tokens' texts, as Strings -/
theorem tokenizeCommand_typed {tokens : List (LineToken × ℕ)} {last : LineToken} (h : ∀ p ∈ tokens, p.1.Typable)
    (hl : last.Typable) (lead trail : ℕ) :
    tokenizeCommand (typedLine lead tokens last trail) = (tokens.map (·.1.text) ++ [last.text]).map .string := by
  obtain ⟨hne, hh, hlast⟩ := LineToken.chars_ends hl
  have hhead : ∀ c ∈ ((tokens.map fun p => p.1.chars ++ List.replicate (p.2 + 1) ' ').flatten ++ last.chars).head?,
      isWhitespace c = false := by
    cases tokens with
    | nil => simpa using hh
    | cons p tokens =>
      obtain ⟨hne', hh', -⟩ := LineToken.chars_ends (h p (List.mem_cons_self _ _))
      simpa [List.head?_append_of_ne_nil _ hne'] using hh'
  rw [typedLine, List.append_assoc _ _ last.chars, tokenizeCommand, trim_spaced (by simp [hne]) hhead
    (by rwa [List.getLast?_append_of_ne_nil _ hne]) lead trail]
  simp only [List.foldl_append, Tokenizer.foldl_pieces h, LineToken.foldl_chars hl]
  cases last with
  | bare word => simp [hl.1, LineToken.text, Function.comp_def]
  | quoted text => simp [LineToken.text, Function.comp_def]

/-- the line `  SET ks "a key"   v ` -/
theorem spaced_set_typed :
    tokenizeCommand (typedLine 2 [(.bare "SET", 0), (.bare "ks", 0), (.quoted "a key", 2)] (.bare "v") 1) =
      [.string "SET", .string "ks", .string "a key", .string "v"] :=
  tokenizeCommand_typed (by decide) (by decide) 2 1

/-! ## Sessions -/

theorem writeFrame_ne_nil {f : Frame} {b : Bytes} (h : writeFrame f = some b) : b ≠ [] := by
  rintro rfl
  cases f <;> simp [writeFrame, write] at h

/-- a connection to which one write of a frame of the serializer's domain has arrived reads that frame -/
theorem readFrame_single {f : Frame} {b : Bytes} (h : f.Wf ∧ writeFrame f = some b) (hb : b ≠ []) :
    readFrame [] [⟨b, hb⟩] = (.frame f, ⟨[], []⟩) := by
  have hp := parse_writeFrame_append h.1 h.2 []
  rw [List.append_nil] at hp
  rw [readFrame_cons (Polled.answer_eq_none.2 (by rw [parse_of_getLine_error (s := []) rfl]; rfl)), List.nil_append,
    readFrame_answer (r := .frame f) (by simp [parseFrame, hp, Polled.answer])]
  simp [parseFrame, hp]

theorem Connection.deliver_empty {b : Bytes} (hb : b ≠ []) : Connection.deliver ⟨[], []⟩ b = ⟨[], [⟨b, hb⟩]⟩ := by
  simp [Connection.deliver, hb]

/-- **One line, one answer.** From an idle session, a sendable line whose request meets a manager holding only values
that fit is answered: the handler's manager and clock move as `respond` says, and the client prints the display of
the frame the server wrote, and nothing else -/
theorem Session.line_answer (cm : CaseMap) {s : Session} (hs : s.Idle) {m : KeyspaceManager} (hm : m.Fits) (now : ℕ)
    {line : String} (hl : Sendable cm line) :
    ∃ s' g out, s.line cm m now line = some s' ∧ s'.Idle ∧
      respond cm (.array (tokenizeCommand line)) m now = (s'.server.keyspaceManager, out) ∧
      s'.server.clock = now + 1 ∧ (g.Wf ∧ writeFrame g = some out) ∧
      s'.client.printed = s.client.printed ++ [.out g.display] := by
  obtain ⟨⟨c, printed⟩, ⟨sc, m₀, clock, written⟩⟩ := s
  obtain ⟨rfl, rfl, rfl⟩ := hs
  obtain ⟨b, hb⟩ := writeFrame_isSome hl.wf
  obtain ⟨⟨g, hg⟩, -⟩ := respond_answer cm hl.safe hl.fit hm now
  generalize hr : respond cm (.array (tokenizeCommand line)) m now = r at hg
  obtain ⟨m', out⟩ := r
  refine ⟨⟨⟨⟨[], []⟩, printed ++ [.out g.display]⟩, ⟨⟨[], []⟩, m', now + 1, []⟩⟩, g, out, ?_, ⟨rfl, rfl, rfl⟩, rfl,
    rfl, hg, rfl⟩
  simp only [Session.line, show request line = some b from hb, Connection.deliver_empty (writeFrame_ne_nil hb),
    Handler.turn, readFrame_single ⟨hl.wf, hb⟩, hr, List.nil_append, Connection.deliver_empty (writeFrame_ne_nil hg.2),
    Client.receive, readFrame_single hg, Connection.content, delivered_nil, List.append_nil, if_true]
  rfl

/-- **The client prints one answer per line, in order.** From an idle session, on sendable lines `l1 .. ln` whose
requests meet managers holding only values that fit, whatever the evictor tasks and the other clients did to the
keyspaces between them, the session runs to the end, idle again, and the client has printed, line after line, the
display of the frame whose serialization is the server's answer to that line in the state it met -/
theorem Session.run_printed (cm : CaseMap) {lines : List (String × KeyspaceManager × ℕ)}
    (hl : ∀ l ∈ lines, Sendable cm l.1 ∧ l.2.1.Fits) {s : Session} (hs : s.Idle) :
    ∃ s' gs, s.run cm lines = some s' ∧ s'.Idle ∧
      List.Forall₂ (fun g out => g.Wf ∧ writeFrame g = some out) gs (answers cm lines) ∧
      s'.client.printed = s.client.printed ++ gs.map fun g => .out g.display := by
  induction lines generalizing s with
  | nil => exact ⟨s, [], rfl, hs, .nil, by simp⟩
  | cons l lines ih =>
    obtain ⟨line, m, now⟩ := l
    obtain ⟨hsend, hm⟩ := hl _ (List.mem_cons_self _ _)
    obtain ⟨s₁, g, out, h₁, hs₁, hr₁, -, hg, hp⟩ := Session.line_answer cm hs hm now hsend
    obtain ⟨s', gs, hr, hs', hgs, hp'⟩ := ih (fun l h => hl l (List.mem_cons_of_mem _ h)) hs₁
    refine ⟨s', g :: gs, by simp [Session.run, h₁, hr], hs', ?_, by simp [hp', hp]⟩
    simp only [answers, List.map_cons, hr₁]
    exact .cons hg hgs

/-- the lines `create ks`, `set ks k v` and `get ks k`, each meeting the manager the one before left -/
def createSetGet : List (String × KeyspaceManager × ℕ) :=
  let m₁ := (respond .ascii (.array (tokenizeCommand "create ks")) (KeyspaceManager.new 0) 0).1
  let m₂ := (respond .ascii (.array (tokenizeCommand "set ks k v")) m₁ 1).1
  [("create ks", KeyspaceManager.new 0, 0), ("set ks k v", m₁, 1), ("get ks k", m₂, 2)]

/-- a fresh server and a client that sends `create ks`, `set ks k v` and `get ks k`, with nothing between them: the
client prints the display of the server's three answers, in order -/
theorem create_set_get_printed :
    ∃ s' gs, Session.run .ascii ⟨⟨⟨[], []⟩, []⟩, ⟨⟨[], []⟩, KeyspaceManager.new 0, 0, []⟩⟩ createSetGet = some s' ∧
      s'.Idle ∧ List.Forall₂ (fun g out => g.Wf ∧ writeFrame g = some out) gs (answers .ascii createSetGet) ∧
      s'.client.printed = gs.map fun g => .out g.display := by
  have h₁ : Sendable .ascii "create ks" := by decide
  have h₂ : Sendable .ascii "set ks k v" := by decide
  have h₃ : Sendable .ascii "get ks k" := by decide
  have f₁ := (respond_answer .ascii h₁.safe h₁.fit (KeyspaceManager.fits_new 0) 0).2
  have f₂ := (respond_answer .ascii h₂.safe h₂.fit f₁ 1).2
  exact Session.run_printed .ascii (by simp [createSetGet, h₁, h₂, h₃, f₁, f₂, KeyspaceManager.fits_new])
    ⟨rfl, rfl, rfl⟩

end Segment
