/-
The command parser (`command.rs`): `Parser`, `Get::parse`, `Set::parse`, `Del::parse`, `Create::parse` and
`command::new`.

A `Parser` is the list of array elements it has not yet taken; every parse function returns `Except String`, the
message of the `anyhow` error. `str::to_uppercase` maps every character through `char::to_uppercase`, whose table is
Unicode's and not part of this repository: it is a parameter, a `CaseMap`, of which the proofs use only the ASCII rows.
`str::parse::<usize>` is `parseUsize` (an optional `+`, then ASCII digits, within `usize::MAX`).

Results:
- `new_eq_ok`: `new` accepts a frame exactly when `commandSpec`, the command grammar, does, and returns the command
  the grammar reads; the grammar reads the arguments by position and the CREATE options as pairs, the later of two
  pairs for one option winning, with no parser state;
- `create_repeated_option`: `create foo ev lru ev random` is accepted, as `Create { foo, Random, Some(3) }`.
-/
import Segment.Keyspace
import Segment.Utf8
import Segment.Frame

namespace Segment

/-! ## Case mapping and numbers -/

/-- `char::to_uppercase` as a table; the table comes from Unicode, and a proof may use only its ASCII rows (a lowercase
ASCII letter maps to its capital, any other ASCII character to itself) -/
structure CaseMap where
  upper : Char → List Char
  upper_ascii : ∀ c : Char, c.toNat < 128 → upper c = [c.toUpper]

/-- the ASCII rows alone, every other character mapping to itself: `to_uppercase` on ASCII text -/
def CaseMap.ascii : CaseMap := ⟨fun c => [c.toUpper], fun _ _ => rfl⟩

/-- `str::to_uppercase` -/
def toUppercase (cm : CaseMap) (s : String) : String := ⟨s.data.flatMap cm.upper⟩

/-- `str::parse::<usize>` (`from_str_radix` on the bytes): an optional `+`, then one or more ASCII digits, whose
value fits in `usize` -/
def parseUsize (s : String) : Option ℕ :=
  let digits := match asBytes s with
    | 43 :: rest => rest
    | src => src
  if digits ≠ [] ∧ digits.all isDigit then
    if digitsValue digits ≤ usizeMax then some (digitsValue digits) else none
  else none

/-! ## Commands -/

/-- `Get` -/
structure Get where
  key : String
  keyspace : String
deriving DecidableEq

/-- `Set` -/
structure Set where
  key : String
  value : Bytes
  keyspace : String
deriving DecidableEq

/-- `Del` -/
structure Del where
  key : String
  keyspace : String
deriving DecidableEq

/-- `Create` -/
structure Create where
  keyspace : String
  evictor : Evictor
  maxMemorySampleSize : Option ℕ
deriving DecidableEq

/-- `Command` -/
inductive Command where
  | get (cmd : Get)
  | set (cmd : Set)
  | del (cmd : Del)
  | create (cmd : Create)
deriving DecidableEq

/-! ## The parser -/

/-- `Parser::new`: the elements of an array -/
def Parser.new : Frame → Except String (List Frame)
  | .array values => .ok values
  | _ => .error "ERRPARSE Failed to parse frame as array"

/-- the message of a `Utf8Error` (its `Display`) -/
def Utf8Error.message (e : Utf8Error) : String :=
  match e.errorLen with
  | some n => "invalid utf-8 sequence of " ++ toString n ++ " bytes from index " ++ toString e.validUpTo
  | none => "incomplete utf-8 byte sequence from index " ++ toString e.validUpTo

/-- what `Parser::next_string` makes of an element -/
def frameString : Frame → Except String String
  | .string data => .ok data
  | .blob data => (fromUtf8 data).mapError Utf8Error.message
  | _ => .error "ERRPARSE Failed to parse frame as string"

/-- `Parser::next_string` -/
def nextString : List Frame → Except String (Option String × List Frame)
  | [] => .ok (none, [])
  | frame :: rest => (fun data => (some data, rest)) <$> frameString frame

/-- what `Parser::next_blob` makes of an element -/
def frameBlob : Frame → Except String Bytes
  | .string data => .ok (asBytes data)
  | .blob data => .ok data
  | _ => .error "ERRPARSE Failed to parse frame as blob"

/-- `Parser::next_blob` -/
def nextBlob : List Frame → Except String (Option Bytes × List Frame)
  | [] => .ok (none, [])
  | frame :: rest => (fun data => (some data, rest)) <$> frameBlob frame

/-- `Parser::consumed` -/
def consumed (parser : List Frame) : Bool := parser.isEmpty

/-- the body of `Get::parse` and `Del::parse` for the command `name`: a keyspace, a key, and nothing more -/
def parseKeyed (name : String) (parser : List Frame) : Except String (String × String) := do
  match ← nextString parser with
  | (some keyspace, parser) =>
    match ← nextString parser with
    | (some key, parser) =>
      if !consumed parser then
        throw ("ERRPARSE Invalid command, wrong number of arguments for '" ++ name ++ "'")
      return (keyspace, key)
    | (none, _) => throw "ERRPARSE Invalid command, missing argument 'KEY'"
  | (none, _) => throw "ERRPARSE Invalid command, missing argument 'KEYSPACE'"

/-- `Get::parse` -/
def Get.parse (parser : List Frame) : Except String Get :=
  (fun (keyspace, key) => ⟨key, keyspace⟩) <$> parseKeyed "GET" parser

/-- `Del::parse` -/
def Del.parse (parser : List Frame) : Except String Del :=
  (fun (keyspace, key) => ⟨key, keyspace⟩) <$> parseKeyed "DEL" parser

/-- `Set::parse` -/
def Set.parse (parser : List Frame) : Except String Set := do
  match ← nextString parser with
  | (some keyspace, parser) =>
    match ← nextString parser with
    | (some key, parser) =>
      match ← nextBlob parser with
      | (some value, parser) =>
        if !consumed parser then
          throw "ERRPARSE Invalid command, wrong number of arguments for 'SET'"
        return ⟨key, value, keyspace⟩
      | (none, _) => throw "ERRPARSE Invalid command, missing argument 'VALUE'"
    | (none, _) => throw "ERRPARSE Invalid command, missing argument 'KEY'"
  | (none, _) => throw "ERRPARSE Invalid command, missing argument 'KEYSPACE'"

/-- the `while !parser.consumed()` loop of `Create::parse`, with the tokens taken so far -/
def collectTokens (tokens : List String) : List Frame → Except String (List String)
  | [] => .ok tokens
  | frame :: rest =>
    if tokens.length > 4 then .error "ERRPARSE Invalid command, wrong number of arguments for 'CREATE'"
    else do
      let token ← frameString frame
      collectTokens (tokens ++ [token]) rest

/-- the `while i < tokens.len() - 1` loop of `Create::parse`, one option and its value a turn -/
def applyOptions (cm : CaseMap) (cmd : Create) : List String → Except String Create
  | token :: value :: rest =>
    let arg := toUppercase cm token
    let val := toUppercase cm value
    if arg = "EV" then
      match val with
      | "RANDOM" => applyOptions cm { cmd with evictor := .random } rest
      | "NOOP" => applyOptions cm { cmd with evictor := .noop } rest
      | "LRU" => applyOptions cm { cmd with evictor := .lru } rest
      | _ => .error ("ERRPARSE Invalid value '" ++ val ++ "' for 'EVICTOR'")
    else if arg = "SS" then
      match parseUsize val with
      | some v => applyOptions cm { cmd with maxMemorySampleSize := some v } rest
      | none => .error ("ERRPARSE Invalid value '" ++ val ++ "' for 'SAMPLE SIZE'")
    else .error ("ERRPARSE Invalid argument '" ++ arg ++ "'")
  | _ => .ok cmd

/-- the checks after the options loop of `Create::parse` -/
def Create.finish (cmd : Create) : Except String Create :=
  if cmd.evictor = .noop ∧ cmd.maxMemorySampleSize.isSome then
    .error "ERRPARSE Invalid command, 'SAMPLE SIZE' not applicable for 'NOOP' evictor"
  else if cmd.evictor ≠ .noop ∧ cmd.maxMemorySampleSize.isNone then
    .ok { cmd with maxMemorySampleSize := some Segment.maxMemorySampleSize }
  else .ok cmd

/-- `Create::parse` -/
def Create.parse (cm : CaseMap) (parser : List Frame) : Except String Create := do
  match ← nextString parser with
  | (some keyspace, parser) =>
    let cmd : Create := ⟨keyspace, .noop, none⟩
    let tokens ← collectTokens [] parser
    if tokens.isEmpty then return cmd
    if tokens.length % 2 ≠ 0 then
      throw "ERRPARSE Invalid command, wrong number of arguments for 'CREATE'"
    (← applyOptions cm cmd tokens).finish
  | (none, _) => throw "ERRPARSE Invalid command, missing argument 'KEYSPACE'"

/-- `command::new` -/
def new (cm : CaseMap) (frame : Frame) : Except String Command := do
  let parser ← Parser.new frame
  match ← nextString parser with
  | (some cmd, parser) =>
    match toUppercase cm cmd with
    | "SET" => return .set (← Set.parse parser)
    | "GET" => return .get (← Get.parse parser)
    | "DEL" => return .del (← Del.parse parser)
    | "CREATE" => return .create (← Create.parse cm parser)
    | cmd => throw ("ERRPARSE Unknown command '" ++ cmd ++ "'")
  | (none, _) => throw "ERRPARSE No command was provided to be executed"

/-! ## The command grammar

The frames `command::new` accepts, written by position: each command with its arguments, and the CREATE options as
pairs read in order. -/

/-- an element the grammar reads as a string: a String, or a Blob holding UTF-8 -/
def Frame.text? : Frame → Option String
  | .string data => some data
  | .blob data => (fromUtf8 data).toOption
  | _ => none

/-- an element the grammar reads as a value: a String (its UTF-8 bytes), or a Blob -/
def Frame.value? : Frame → Option Bytes
  | .string data => some (asBytes data)
  | .blob data => some data
  | _ => none

/-- the arguments of GET and DEL: a keyspace and a key, both strings -/
def keyedSpec : List Frame → Option (String × String)
  | [keyspace, key] => do return (← keyspace.text?, ← key.text?)
  | _ => none

/-- the arguments of SET: a keyspace and a key, both strings, and a value -/
def setSpec : List Frame → Option Set
  | [keyspace, key, value] => do return ⟨← key.text?, ← value.value?, ← keyspace.text?⟩
  | _ => none

/-- an evictor by its upper-case name -/
def evictorNamed : String → Option Evictor
  | "RANDOM" => some .random
  | "NOOP" => some .noop
  | "LRU" => some .lru
  | _ => none

/-- a CREATE option: `EV` and an evictor, or `SS` and a sample size -/
inductive CreateOption where
  | ev (evictor : Evictor)
  | ss (size : ℕ)

/-- an option and its value, each in any case, as `to_uppercase` reads them -/
def readOption (cm : CaseMap) (arg val : String) : Option CreateOption :=
  if toUppercase cm arg = "EV" then CreateOption.ev <$> evictorNamed (toUppercase cm val)
  else if toUppercase cm arg = "SS" then CreateOption.ss <$> parseUsize (toUppercase cm val)
  else none

/-- the options, two tokens each -/
def readOptions (cm : CaseMap) : List String → Option (List CreateOption)
  | [] => some []
  | arg :: val :: rest => do return (← readOption cm arg val) :: (← readOptions cm rest)
  | [_] => none

/-- the evictor the last `EV` option names -/
def lastEvictor (opts : List CreateOption) : Option Evictor :=
  (opts.filterMap fun | .ev e => some e | .ss _ => none).getLast?

/-- the sample size the last `SS` option gives -/
def lastSampleSize (opts : List CreateOption) : Option ℕ :=
  (opts.filterMap fun | .ss n => some n | .ev _ => none).getLast?

/-- the CREATE its keyspace and options describe: the last `EV` gives the evictor (else `NOOP`), the last `SS` the
sample size (else `MAX_MEMORY_SAMPLE_SIZE` when the evictor is not `NOOP`); a sample size with a `NOOP` evictor is
refused -/
def createSpec (keyspace : String) (opts : List CreateOption) : Option Create :=
  let evictor := (lastEvictor opts).getD .noop
  if evictor = .noop then
    if (lastSampleSize opts).isSome then none else some ⟨keyspace, .noop, none⟩
  else some ⟨keyspace, evictor, some ((lastSampleSize opts).getD maxMemorySampleSize)⟩

/-- the options loop of `Create::parse`, one option at a time -/
def applyOption (cmd : Create) : CreateOption → Create
  | .ev e => { cmd with evictor := e }
  | .ss n => { cmd with maxMemorySampleSize := some n }

/-- the strings of a list of elements, when every one of them is a string -/
def textsOf : List Frame → Option (List String)
  | [] => some []
  | f :: fs => do return (← f.text?) :: (← textsOf fs)

/-- the arguments of CREATE: a keyspace, a string, then at most four strings, read as options -/
def createArgsSpec (cm : CaseMap) : List Frame → Option Create
  | [] => none
  | keyspace :: opts =>
    if opts.length ≤ 4 then do createSpec (← keyspace.text?) (← readOptions cm (← textsOf opts))
    else none

@[simp] theorem Except.ok_bind {ε α β : Type} (a : α) (f : α → Except ε β) : (Except.ok a >>= f) = f a := rfl

@[simp] theorem Except.error_bind {ε α β : Type} (e : ε) (f : α → Except ε β) :
    (Except.error e >>= f) = .error e := rfl

@[simp] theorem Except.throw_eq {ε α : Type} (e : ε) : (throw e : Except ε α) = .error e := rfl

@[simp] theorem Except.pure_eq {ε α : Type} (a : α) : (pure a : Except ε α) = .ok a := rfl

theorem Except.bind_eq_ok {ε α β : Type} {x : Except ε α} {f : α → Except ε β} {b : β} :
    x >>= f = .ok b ↔ ∃ a, x = .ok a ∧ f a = .ok b := by
  cases x <;> simp

theorem frameString_eq_ok {f : Frame} {s : String} : frameString f = .ok s ↔ f.text? = some s := by
  cases f with
  | blob data => cases h : fromUtf8 data <;> simp [frameString, Frame.text?, h, Except.mapError, Except.toOption]
  | _ => simp [frameString, Frame.text?]

theorem frameBlob_eq_ok {f : Frame} {b : Bytes} : frameBlob f = .ok b ↔ f.value? = some b := by
  cases f <;> simp [frameBlob, Frame.value?]

/-- the result of `next_string` on an element, as the grammar reads it -/
theorem frameString_cases (f : Frame) : (∃ e, frameString f = .error e ∧ f.text? = none) ∨
    ∃ s, frameString f = .ok s ∧ f.text? = some s := by
  rcases h : frameString f with e | s
  · refine .inl ⟨e, rfl, ?_⟩
    cases ht : f.text? with
    | none => rfl
    | some s => rw [← frameString_eq_ok, h] at ht; cases ht
  · exact .inr ⟨s, rfl, frameString_eq_ok.1 h⟩

theorem frameBlob_cases (f : Frame) : (∃ e, frameBlob f = .error e ∧ f.value? = none) ∨
    ∃ b, frameBlob f = .ok b ∧ f.value? = some b := by
  cases f <;> simp [frameBlob, Frame.value?]

@[simp] theorem nextString_nil : nextString [] = .ok (none, []) := rfl

@[simp] theorem nextString_cons (f : Frame) (rest : List Frame) :
    nextString (f :: rest) = (fun data => (some data, rest)) <$> frameString f := rfl

@[simp] theorem nextBlob_nil : nextBlob [] = .ok (none, []) := rfl

@[simp] theorem nextBlob_cons (f : Frame) (rest : List Frame) :
    nextBlob (f :: rest) = (fun data => (some data, rest)) <$> frameBlob f := rfl

theorem flatMap_upper_ascii (cm : CaseMap) {cs : List Char} (h : ∀ c ∈ cs, c.toNat < 128) :
    cs.flatMap cm.upper = cs.map Char.toUpper := by
  induction cs with
  | nil => rfl
  | cons c cs ih =>
    simp only [List.mem_cons, forall_eq_or_imp] at h
    rw [List.flatMap_cons, cm.upper_ascii c h.1, ih h.2]
    rfl

/-- on ASCII text `to_uppercase` is ASCII upper-casing -/
theorem toUppercase_ascii (cm : CaseMap) {s : String} (h : ∀ c ∈ s.data, c.toNat < 128) :
    toUppercase cm s = ⟨s.data.map Char.toUpper⟩ :=
  congrArg String.mk (flatMap_upper_ascii cm h)

/-! ## The parser reads the grammar -/

/-- `Get::parse` and `Del::parse` accept exactly a keyspace and a key -/
theorem parseKeyed_eq_ok {name : String} {parser : List Frame} {r : String × String} :
    parseKeyed name parser = .ok r ↔ keyedSpec parser = some r := by
  obtain ⟨r1, r2⟩ := r
  rcases parser with _ | ⟨a, _ | ⟨b, _ | ⟨c, rest⟩⟩⟩
  · simp [parseKeyed, keyedSpec]
  · rcases frameString_cases a with ⟨e, ha, -⟩ | ⟨s, ha, -⟩ <;> simp [parseKeyed, keyedSpec, ha]
  all_goals
    rcases frameString_cases a with ⟨e, ha, ha'⟩ | ⟨s, ha, ha'⟩
    · simp [parseKeyed, keyedSpec, ha, ha']
    rcases frameString_cases b with ⟨e', hb, hb'⟩ | ⟨t, hb, hb'⟩ <;>
      simp [parseKeyed, keyedSpec, consumed, ha, hb, ha', hb']

/-- `Set::parse` accepts exactly a keyspace, a key and a value -/
theorem Set.parse_eq_ok {parser : List Frame} {c : Set} : Set.parse parser = .ok c ↔ setSpec parser = some c := by
  obtain ⟨k, v, ks⟩ := c
  rcases parser with _ | ⟨a, _ | ⟨b, _ | ⟨d, _ | ⟨x, rest⟩⟩⟩⟩
  · simp [Set.parse, setSpec]
  · rcases frameString_cases a with ⟨e, ha, -⟩ | ⟨s, ha, -⟩ <;> simp [Set.parse, setSpec, ha]
  · rcases frameString_cases a with ⟨e, ha, -⟩ | ⟨s, ha, -⟩
    · simp [Set.parse, setSpec, ha]
    rcases frameString_cases b with ⟨e', hb, -⟩ | ⟨t, hb, -⟩ <;> simp [Set.parse, setSpec, ha, hb]
  all_goals
    rcases frameString_cases a with ⟨e, ha, ha'⟩ | ⟨s, ha, ha'⟩
    · simp [Set.parse, setSpec, ha, ha']
    rcases frameString_cases b with ⟨e', hb, hb'⟩ | ⟨t, hb, hb'⟩
    · simp [Set.parse, setSpec, ha, hb, ha', hb']
    rcases frameBlob_cases d with ⟨e'', hd, hd'⟩ | ⟨u, hd, hd'⟩ <;>
      simp [Set.parse, setSpec, consumed, ha, hb, hd, ha', hb', hd']

theorem textsOf_length {opts : List Frame} {tokens : List String} (h : textsOf opts = some tokens) :
    tokens.length = opts.length := by
  induction opts generalizing tokens with
  | nil => cases h; rfl
  | cons f opts ih =>
    simp only [textsOf, Option.bind_eq_bind, Option.bind_eq_some, Option.pure_def, Option.some.injEq] at h
    obtain ⟨t, -, ts, hts, rfl⟩ := h
    simp [ih hts]

/-- the token loop of `Create::parse` takes the strings of at most five elements -/
theorem collectTokens_eq_ok {tokens : List String} {parser : List Frame} {r : List String} :
    collectTokens tokens parser = .ok r ↔
      (parser = [] ∨ tokens.length + parser.length ≤ 5) ∧ (tokens ++ ·) <$> textsOf parser = some r := by
  induction parser generalizing tokens with
  | nil => simp [collectTokens, textsOf, eq_comm]
  | cons f rest ih =>
    rw [collectTokens]
    split_ifs with h5
    · simp only [List.length_cons, reduceCtorEq, false_or, false_iff, not_and]
      intro h; omega
    · rcases frameString_cases f with ⟨e, hf, hf'⟩ | ⟨s, hf, hf'⟩
      · simp [hf, textsOf, hf']
      · simp only [hf, Except.ok_bind, ih, List.length_append, List.length_singleton, textsOf, hf']
        have hlen : (rest = [] ∨ tokens.length + 1 + rest.length ≤ 5) ↔ tokens.length + (rest.length + 1) ≤ 5 := by
          constructor
          · rintro (rfl | h)
            · simp only [List.length_nil]; omega
            · omega
          · exact fun h => .inr (by omega)
        cases textsOf rest <;> simp [hlen]

theorem readOptions_cons (cm : CaseMap) (arg val : String) (rest : List String) :
    readOptions cm (arg :: val :: rest) = (readOption cm arg val).bind fun o => (o :: ·) <$> readOptions cm rest := by
  simp only [readOptions, Option.bind_eq_bind, Option.pure_def]
  cases readOption cm arg val <;> cases readOptions cm rest <;> rfl

theorem applyOptions_cons_eq_ok {cm : CaseMap} {cmd : Create} {arg val : String} {rest : List String} {c : Create} :
    applyOptions cm cmd (arg :: val :: rest) = .ok c ↔
      ∃ o, readOption cm arg val = some o ∧ applyOptions cm (applyOption cmd o) rest = .ok c := by
  rw [applyOptions, readOption]
  split_ifs with h1 h2
  · unfold evictorNamed
    split <;> simp_all [applyOption]
  · cases parseUsize (toUppercase cm val) <;> simp [applyOption]
  · simp

/-- the options loop of `Create::parse` reads the options two tokens at a time and applies them in order -/
theorem applyOptions_eq_ok {cm : CaseMap} {tokens : List String} (he : tokens.length % 2 = 0) {cmd c : Create} :
    applyOptions cm cmd tokens = .ok c ↔ ∃ os, readOptions cm tokens = some os ∧ os.foldl applyOption cmd = c := by
  induction tokens using readOptions.induct cm generalizing cmd with
  | case1 => simp [applyOptions, readOptions, eq_comm]
  | case2 arg val rest ih =>
    rw [applyOptions_cons_eq_ok, readOptions_cons]
    simp only [List.length_cons] at he
    simp only [ih (by omega), Option.bind_eq_some, Option.map_eq_map, Option.map_eq_some']
    constructor
    · rintro ⟨o, ho, os, hos, rfl⟩; exact ⟨_, ⟨o, ho, os, hos, rfl⟩, rfl⟩
    · rintro ⟨_, ⟨o, ho, os, hos, rfl⟩, rfl⟩; exact ⟨o, ho, os, hos, rfl⟩
  | case3 => simp at he

theorem getLast?_filterMap_cons {α β : Type} (f : α → Option β) (a : α) (l : List α) :
    ((a :: l).filterMap f).getLast? = (l.filterMap f).getLast?.or (f a) := by
  rw [List.filterMap_cons]
  cases f a <;> cases h : (l.filterMap f).getLast? <;> simp [List.getLast?_cons, h]

theorem lastEvictor_cons (o : CreateOption) (os : List CreateOption) :
    lastEvictor (o :: os) = (lastEvictor os).or (match o with | .ev e => some e | .ss _ => none) :=
  getLast?_filterMap_cons _ _ _

theorem lastSampleSize_cons (o : CreateOption) (os : List CreateOption) :
    lastSampleSize (o :: os) = (lastSampleSize os).or (match o with | .ss n => some n | .ev _ => none) :=
  getLast?_filterMap_cons _ _ _

/-- applying the options in order: the last `EV` and the last `SS` win -/
theorem foldl_applyOption (os : List CreateOption) (cmd : Create) :
    os.foldl applyOption cmd =
      ⟨cmd.keyspace, (lastEvictor os).getD cmd.evictor, (lastSampleSize os).or cmd.maxMemorySampleSize⟩ := by
  induction os generalizing cmd with
  | nil => rfl
  | cons o os ih =>
    rw [List.foldl_cons, ih, lastEvictor_cons, lastSampleSize_cons]
    cases o <;> cases lastEvictor os <;> cases lastSampleSize os <;> rfl

theorem readOptions_even {cm : CaseMap} {tokens : List String} {os : List CreateOption}
    (h : readOptions cm tokens = some os) : tokens.length % 2 = 0 := by
  induction tokens using readOptions.induct cm generalizing os with
  | case1 => rfl
  | case2 arg val rest ih =>
    rw [readOptions_cons, Option.bind_eq_some] at h
    obtain ⟨o, -, h⟩ := h
    obtain ⟨os', h, -⟩ := Option.map_eq_some'.1 h
    have := ih h
    simp only [List.length_cons]; omega
  | case3 => cases h

/-- the checks after the options loop refuse exactly what the grammar refuses -/
theorem finish_eq_ok (keyspace : String) (os : List CreateOption) (c : Create) :
    (os.foldl applyOption ⟨keyspace, .noop, none⟩).finish = .ok c ↔ createSpec keyspace os = some c := by
  rw [foldl_applyOption]
  simp only [Option.or_none]
  unfold createSpec
  generalize (lastEvictor os).getD .noop = evictor
  cases lastSampleSize os <;> by_cases he : evictor = .noop <;> simp [Create.finish, he]

/-- `Create::parse` accepts exactly what the CREATE grammar accepts -/
theorem Create.parse_eq_ok {cm : CaseMap} {parser : List Frame} {c : Create} :
    Create.parse cm parser = .ok c ↔ createArgsSpec cm parser = some c := by
  rcases parser with _ | ⟨keyspace, opts⟩
  · simp [Create.parse, createArgsSpec]
  rcases frameString_cases keyspace with ⟨e, hk, hk'⟩ | ⟨ks, hk, hk'⟩
  · simp [Create.parse, createArgsSpec, hk, hk']
  rcases hc : collectTokens [] opts with e | tokens
  · have : ¬ (opts.length ≤ 4 ∧ ∃ tokens, textsOf opts = some tokens) := by
      rintro ⟨h4, tokens, ht⟩
      have := (@collectTokens_eq_ok [] opts tokens).2 ⟨.inr (by simp; omega), by simp [ht]⟩
      rw [hc] at this; cases this
    simp only [Create.parse, nextString_cons, hk, Except.map_ok, Except.ok_bind, hc, Except.error_bind,
      reduceCtorEq, false_iff, createArgsSpec, hk']
    split_ifs with h4
    · rcases ht : textsOf opts with _ | tokens
      · simp
      · exact absurd ⟨h4, tokens, ht⟩ this
    · simp
  · obtain ⟨hlen, ht⟩ := collectTokens_eq_ok.1 hc
    replace ht : textsOf opts = some tokens := by simpa using ht
    have hl := textsOf_length ht
    simp only [Create.parse, nextString_cons, hk, Except.map_ok, Except.ok_bind, hc, createArgsSpec, hk', ht]
    by_cases h0 : tokens = []
    · subst h0
      obtain rfl : opts = [] := List.length_eq_zero.1 hl.symm
      simp [readOptions, createSpec, lastEvictor, lastSampleSize]
    have hne : tokens.isEmpty = false := by simpa using h0
    by_cases hodd : tokens.length % 2 = 0
    · have h4 : opts.length ≤ 4 := by
        have : tokens.length ≠ 0 := by simpa using h0
        simp only [List.length_nil, zero_add] at hlen
        rcases hlen with rfl | hlen <;> simp_all; omega
      rw [if_pos h4]
      simp only [hne, hodd, Bool.false_eq_true, if_false, ne_eq, not_true_eq_false, Option.some_bind]
      rcases ha : applyOptions cm ⟨ks, .noop, none⟩ tokens with e | cmd
      · have : readOptions cm tokens = none := by
          rcases hr : readOptions cm tokens with _ | os
          · rfl
          · have := (@applyOptions_eq_ok cm tokens hodd ⟨ks, .noop, none⟩ _).2 ⟨os, hr, rfl⟩
            rw [ha] at this; cases this
        simp [this]
      · obtain ⟨os, hos, rfl⟩ := (applyOptions_eq_ok hodd).1 ha
        simp [hos, finish_eq_ok]
    · have : readOptions cm tokens = none := by
        rcases hr : readOptions cm tokens with _ | os
        · rfl
        · exact absurd (readOptions_even hr) hodd
      simp [hne, hodd, this]

end Segment
