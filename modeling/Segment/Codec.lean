/-
The frame codec's writer (`connection.rs`) and the two directions of the round trip with `frame::parse`.

`write` is `Connection::write`: one frame other than an array, tag, body, CR-LF (a Blob is length-prefixed; an array
reaches `unreachable!()`, `none`). `writeFrame` is `Connection::write_frame`: an array is its header, then `write` of
each value. The convenience writers `write_string` .. `write_blob` are written out as the source has them. Stream
errors are not modelled here: every write succeeds.

The serializer's domain (`Frame.Wf`): texts without a CR-LF pair (`LineSafe`), no array inside an array, and the
lengths a Rust value can have (a `Bytes` holds at most `isize::MAX` bytes, a `Vec<Frame>` at most `isize::MAX` bytes
of frames).

Results:
- `parse_write_append`, `parse_writeFrame_append`: `parse` reads back what the writer wrote, whatever follows;
- `writeFrame_roundtrip`: the same at any cursor position, with the convenience writers agreeing with `write_frame`;
- `parse_ok_wf`: everything `parse` returns on a buffer (of at most `isize::MAX` bytes) is in the domain;
- `parse_ok_normalizes`: parsing what the writer makes of a parsed frame gives the frame again.
-/
import Segment.Frame

namespace Segment

/-! ## Writers -/

/-- `Connection::write`: the bytes of one frame other than an array; an array reaches `unreachable!()` -/
def write : Frame → Option Bytes
  | .string data => some (36 :: asBytes data ++ [13, 10])
  | .integer data => some (37 :: data.toBytes ++ [13, 10])
  | .error data => some (33 :: asBytes data ++ [13, 10])
  | .null => some [42, 45, 49, 13, 10, 13, 10]
  | .blob data => some (42 :: decimal data.length ++ [13, 10] ++ data ++ [13, 10])
  | .array _ => none

/-- the loop `for value in values { self.write(value) }` of `write_frame` -/
def writeValues : List Frame → Option Bytes
  | [] => some []
  | v :: vs =>
    match write v, writeValues vs with
    | some b, some bs => some (b ++ bs)
    | _, _ => none

/-- `Connection::write_frame` -/
def writeFrame : Frame → Option Bytes
  | .array values => (writeValues values).map fun bs => 35 :: decimal values.length ++ [13, 10] ++ bs
  | f => write f

/-- `Connection::write_string` -/
def writeString (data : String) : Bytes := 36 :: asBytes data ++ [13, 10]

/-- `Connection::write_integer` -/
def writeInteger (data : I64) : Bytes := 37 :: data.toBytes ++ [13, 10]

/-- `Connection::write_error` -/
def writeError (data : String) : Bytes := 33 :: asBytes data ++ [13, 10]

/-- `Connection::write_null` -/
def writeNull : Bytes := [42, 45, 49, 13, 10, 13, 10]

/-- `Connection::write_blob` -/
def writeBlob (data : Bytes) : Bytes := 42 :: decimal data.length ++ [13, 10] ++ data ++ [13, 10]

/-! ## The serializer's domain -/

/-- a text that fits on one line: no CR-LF pair -/
def LineSafe (text : String) : Prop := ¬ ['\r', '\n'] <:+: text.data

instance (text : String) : Decidable (LineSafe text) := inferInstanceAs (Decidable (¬ _))

/-- a frame other than an array that `write` handles and `parse` reads back -/
def Frame.Scalar : Frame → Prop
  | .string data => LineSafe data
  | .error data => LineSafe data
  | .blob data => data.length ≤ isizeMax
  | .integer _ => True
  | .null => True
  | .array _ => False

/-- the frames `write_frame` serializes without reaching `unreachable!()` -/
def Frame.Wf : Frame → Prop
  | .array values => values.length * frameSize ≤ isizeMax ∧ ∀ v ∈ values, v.Scalar
  | f => f.Scalar

instance Frame.decidableScalar : (f : Frame) → Decidable f.Scalar
  | .string data | .error data => inferInstanceAs (Decidable (LineSafe data))
  | .blob data => inferInstanceAs (Decidable (data.length ≤ isizeMax))
  | .integer _ | .null => isTrue trivial
  | .array _ => isFalse id

instance Frame.decidableWf : (f : Frame) → Decidable f.Wf
  | .array values => inferInstanceAs (Decidable (values.length * frameSize ≤ isizeMax ∧ ∀ v ∈ values, v.Scalar))
  | .string data | .error data => inferInstanceAs (Decidable (LineSafe data))
  | .blob data => inferInstanceAs (Decidable (data.length ≤ isizeMax))
  | .integer _ | .null => isTrue trivial

theorem Frame.Scalar.not_array {f : Frame} (h : f.Scalar) (values : List Frame) : f ≠ .array values := by
  rintro rfl; exact h

theorem Frame.Scalar.wf {f : Frame} (h : f.Scalar) : f.Wf := by
  cases f <;> first | exact h | exact absurd h id

/-! ## Reading back what was written -/

theorem getLine_tag_append {tag : UInt8} {d : Bytes} (htag : tag ≠ 13) (hd : ¬ [13, 10] <:+: d) (R : Bytes) :
    getLine ((tag :: d) ++ 13 :: 10 :: R) = .ok (tag :: d, d.length + 3) := by
  refine getLine_eq_ok.2 ⟨R, rfl, ?_, rfl⟩
  rw [pair_infix_cons, not_or]
  exact ⟨fun h => htag h.1, hd⟩

/-- `parse` on a line that starts with a tag and has no CR-LF pair: the body runs on what follows the line -/
theorem parse_tag_line {tag : UInt8} {d : Bytes} (htag : tag ≠ 13) (hd : ¬ [13, 10] <:+: d) (R : Bytes) :
    parse ((tag :: d) ++ 13 :: 10 :: R) = (parseBody (tag :: d) R).shift (d.length + 3) := by
  rw [parse_of_getLine (getLine_tag_append htag hd R)]
  congr 2
  simp [List.drop_left']

theorem not_crlf_of_no_cr {d : Bytes} (h : ∀ b ∈ d, b ≠ 13) : ¬ [13, 10] <:+: d :=
  fun hi => h 13 (hi.subset (by simp)) rfl

theorem decimal_no_cr (n : ℕ) : ∀ b ∈ decimal n, b ≠ 13 := by
  intro b hb h
  have := decimal_isDigit n b hb
  subst h; exact absurd this (by decide)

theorem I64.toBytes_no_cr (v : I64) : ∀ b ∈ v.toBytes, b ≠ 13 := by
  unfold I64.toBytes
  split
  · rintro b (_ | ⟨_, hb⟩)
    · decide
    · exact decimal_no_cr _ b hb
  · exact decimal_no_cr _

theorem asBytes_lineSafe {text : String} (h : LineSafe text) : ¬ [13, 10] <:+: asBytes text := by
  rwa [crlf_infix_asBytes]

/-- the reader returns every frame other than an array that the writer wrote, with the cursor right after it -/
theorem parse_write_append {f : Frame} (hf : f.Scalar) {b : Bytes} (hw : write f = some b) (R : Bytes) :
    parse (b ++ R) = .ok f b.length := by
  cases f with
  | string data =>
    cases hw
    rw [show (36 :: asBytes data ++ [13, 10]) ++ R = (36 :: asBytes data) ++ 13 :: 10 :: R by simp,
      parse_tag_line (by decide) (asBytes_lineSafe hf) R, parseBody_string, fromUtf8_asBytes]
    simp
  | error data =>
    cases hw
    rw [show (33 :: asBytes data ++ [13, 10]) ++ R = (33 :: asBytes data) ++ 13 :: 10 :: R by simp,
      parse_tag_line (by decide) (asBytes_lineSafe hf) R, parseBody_error, fromUtf8_asBytes]
    simp
  | integer data =>
    cases hw
    rw [show (37 :: data.toBytes ++ [13, 10]) ++ R = (37 :: data.toBytes) ++ 13 :: 10 :: R by simp,
      parse_tag_line (by decide) (not_crlf_of_no_cr data.toBytes_no_cr) R, parseBody_integer,
      I64.atoiI64_toBytes]
    simp
  | null =>
    cases hw
    rw [show [42, 45, 49, 13, 10, 13, 10] ++ R = [42, 45, 49] ++ 13 :: 10 :: 13 :: 10 :: R by simp,
      parse_tag_line (by decide) (by decide) _, parseBody_null]
    simp [skip, show ¬ (R.length + 1 + 1 < 2) by omega]
  | blob data =>
    cases hw
    have hf : data.length ≤ 2 ^ 63 - 1 := hf
    have hlen : data.length ≤ usizeMax := le_trans hf (by decide)
    have hwrap : (data.length + 2) % 18446744073709551616 = data.length + 2 := Nat.mod_eq_of_lt (by omega)
    rw [show (42 :: decimal data.length ++ [13, 10] ++ data ++ [13, 10]) ++ R =
        (42 :: decimal data.length) ++ 13 :: 10 :: (data ++ 13 :: 10 :: R) by simp,
      parse_tag_line (by decide) (not_crlf_of_no_cr (decimal_no_cr _)) _,
      parseBody_blob (decimal_ne_neg_one _), atoiUsize_decimal hlen]
    simp [hwrap, skip, List.take_left', show ¬ (R.length + 1 + 1 < 2) by omega]
    omega
  | array values => cases hw

theorem parseArray_writeValues {values : List Frame} (hv : ∀ v ∈ values, v.Scalar) {bs : Bytes}
    (hw : writeValues values = some bs) (acc : List Frame) (R : Bytes) :
    parseArray (bs ++ R) values.length acc = .ok (.array (acc ++ values)) bs.length := by
  induction values generalizing bs acc with
  | nil => cases hw; simp [parseArray_zero]
  | cons v vs ih =>
    simp only [writeValues] at hw
    split at hw
    case h_2 => cases hw
    rename_i b bs' hb hbs'
    cases hw
    have hvs : ∀ w ∈ vs, w.Scalar := fun w hw => hv w (List.mem_cons_of_mem v hw)
    rw [List.length_cons, List.append_assoc,
      parseArray_succ_ok (parse_write_append (hv v (List.mem_cons_self v vs)) hb _)
        (hv v (List.mem_cons_self v vs)).not_array, List.drop_left, ih hvs hbs']
    simp

theorem writeValues_isSome {values : List Frame} (hv : ∀ v ∈ values, v.Scalar) :
    ∃ bs, writeValues values = some bs := by
  induction values with
  | nil => exact ⟨[], rfl⟩
  | cons v vs ih =>
    obtain ⟨bs, hbs⟩ := ih fun w hw => hv w (List.mem_cons_of_mem v hw)
    have hs := hv v (List.mem_cons_self v vs)
    obtain ⟨b, hb⟩ : ∃ b, write v = some b := by cases v <;> first | exact ⟨_, rfl⟩ | exact absurd hs id
    exact ⟨b ++ bs, by rw [writeValues, hb, hbs]⟩

theorem writeFrame_isSome {f : Frame} (hf : f.Wf) : ∃ b, writeFrame f = some b := by
  cases f with
  | array values =>
    obtain ⟨bs, hbs⟩ := writeValues_isSome hf.2
    exact ⟨35 :: decimal values.length ++ [13, 10] ++ bs, by simp [writeFrame, hbs]⟩
  | _ => exact ⟨_, rfl⟩

/-- the reader returns every frame of the serializer's domain, with the cursor right after what was written -/
theorem parse_writeFrame_append {f : Frame} (hf : f.Wf) {b : Bytes} (hw : writeFrame f = some b) (R : Bytes) :
    parse (b ++ R) = .ok f b.length := by
  cases f with
  | array values =>
    obtain ⟨hlen, hv⟩ := hf
    simp only [writeFrame, Option.map_eq_some'] at hw
    obtain ⟨bs, hbs, rfl⟩ := hw
    have hk : values.length ≤ usizeMax := by simp only [isizeMax, frameSize, usizeMax] at hlen ⊢; omega
    have hc : capacityOverflow values.length = false := by simpa [capacityOverflow] using hlen
    rw [show (35 :: decimal values.length ++ [13, 10] ++ bs) ++ R =
        (35 :: decimal values.length) ++ 13 :: 10 :: (bs ++ R) by simp,
      parse_tag_line (by decide) (not_crlf_of_no_cr (decimal_no_cr _)) _, parseBody_array,
      atoiUsize_decimal hk]
    simp only [hc, if_false, Bool.false_eq_true]
    rw [parseArray_writeValues hv hbs [] R]
    simp; omega
  | string _ => exact parse_write_append (f := .string _) hf hw R
  | integer _ => exact parse_write_append (f := .integer _) hf hw R
  | error _ => exact parse_write_append (f := .error _) hf hw R
  | null => exact parse_write_append (f := .null) hf hw R
  | blob _ => exact parse_write_append (f := .blob _) hf hw R

/-- **Round trip.** For every frame of the serializer's domain, every prefix and every suffix, `parse` at the end of
the prefix reads the frame back and leaves the cursor right after the bytes `write_frame` wrote; the convenience
writers write the same bytes as `write_frame` for their variant. -/
theorem writeFrame_roundtrip :
    (∀ f : Frame, f.Wf → ∀ P R : Bytes, ∃ b, writeFrame f = some b ∧
      parseAt (P ++ b ++ R) P.length = .ok f (P.length + b.length)) ∧
    (∀ data, writeFrame (.string data) = some (writeString data)) ∧
    (∀ data, writeFrame (.integer data) = some (writeInteger data)) ∧
    (∀ data, writeFrame (.error data) = some (writeError data)) ∧
    writeFrame .null = some writeNull ∧
    (∀ data, writeFrame (.blob data) = some (writeBlob data)) := by
  refine ⟨fun f hf P R => ?_, fun _ => rfl, fun _ => rfl, fun _ => rfl, rfl, fun _ => rfl⟩
  obtain ⟨b, hb⟩ := writeFrame_isSome hf
  refine ⟨b, hb, ?_⟩
  rw [parseAt, List.append_assoc, List.drop_left, parse_writeFrame_append hf hb R]
  rfl

/-! ## Everything `parse` returns can be written -/

/-- what the children loop returns: the frames read before, then one frame per iteration, each a non-array that
`parse` read from bytes no longer than the loop's input -/
theorem parseArray_ok {s : Bytes} {k : ℕ} {values : List Frame} {f : Frame} {n : ℕ}
    (h : parseArray s k values = .ok f n) :
    ∃ ws, f = .array (values ++ ws) ∧ ws.length = k ∧
      ∀ w ∈ ws, (∀ vs, w ≠ .array vs) ∧ ∃ t m, t.length ≤ s.length ∧ parse t = .ok w m := by
  induction k generalizing s values n with
  | zero => rw [parseArray_zero] at h; cases h; exact ⟨[], by simp, rfl, by simp⟩
  | succ k ih =>
    rw [parseArray_succ] at h
    split at h
    · cases h
    · rename_i w m hna hw
      obtain ⟨n', h', rfl⟩ := Parsed.shift_eq_ok.1 h
      obtain ⟨ws, rfl, hlen, hws⟩ := ih h'
      refine ⟨w :: ws, by simp, by simp [hlen], ?_⟩
      rintro x (_ | ⟨_, hx⟩)
      · exact ⟨fun vs => hna vs, s, m, le_rfl, hw⟩
      · obtain ⟨hx1, t, m', ht, hp⟩ := hws x hx
        exact ⟨hx1, t, m', le_trans ht (by simp), hp⟩
    · cases h
    · cases h

/-- a frame the body of `parse` returns is in the domain, or it is what the array loop returned -/
theorem parseBody_ok {line rest : Bytes} (hl : ¬ [13, 10] <:+: line) (hr : rest.length ≤ isizeMax) {f : Frame}
    {k : ℕ} (h : parseBody line rest = .ok f k) :
    f.Scalar ∨ ∃ length, capacityOverflow length = false ∧ parseArray rest length [] = .ok f k := by
  have hb := parseBody_body line rest
  generalize parseBody line rest = r at hb h
  cases hb with
  | string hd | error hd =>
    cases h
    refine .inl fun hi => hl ?_
    rw [← crlf_infix_asBytes, asBytes_of_fromUtf8 hd] at hi
    exact (pair_infix_cons.2 (.inr hi))
  | integer _ | null _ => cases h; exact .inl trivial
  | blob _ _ _ hlen =>
    cases h
    exact .inl (le_trans (List.length_take_le' _ _) hr)
  | array _ hc => exact .inr ⟨_, hc, h⟩
  | _ => cases h

theorem getLine_ok_lineSafe {s line : Bytes} {n : ℕ} (h : getLine s = .ok (line, n)) : ¬ [13, 10] <:+: line := by
  obtain ⟨_, _, h, _⟩ := getLine_eq_ok.1 h; exact h

/-- a frame other than an array that `parse` returns is in the domain -/
theorem parse_ok_scalar {s : Bytes} (hs : s.length ≤ isizeMax) {f : Frame} {n : ℕ} (h : parse s = .ok f n)
    (hf : ∀ vs, f ≠ .array vs) : f.Scalar := by
  rcases hg : getLine s with e | ⟨line, m⟩
  · rw [parse_of_getLine_error hg] at h; cases h
  rw [parse_of_getLine hg] at h
  obtain ⟨k, h, -⟩ := Parsed.shift_eq_ok.1 h
  rcases parseBody_ok (getLine_ok_lineSafe hg) (le_trans (by simp) hs) h with h | ⟨_, _, h⟩
  · exact h
  · obtain ⟨ws, rfl, -⟩ := parseArray_ok h; exact absurd rfl (hf _)

/-- everything `parse` returns on a buffer of at most `isize::MAX` bytes is in the serializer's domain -/
theorem parse_ok_wf {s : Bytes} (hs : s.length ≤ isizeMax) {f : Frame} {n : ℕ} (h : parse s = .ok f n) : f.Wf := by
  rcases hg : getLine s with e | ⟨line, m⟩
  · rw [parse_of_getLine_error hg] at h; cases h
  rw [parse_of_getLine hg] at h
  obtain ⟨k, h, -⟩ := Parsed.shift_eq_ok.1 h
  have hr : (s.drop m).length ≤ isizeMax := le_trans (by simp) hs
  rcases parseBody_ok (getLine_ok_lineSafe hg) hr h with h | ⟨length, hc, h⟩
  · exact h.wf
  obtain ⟨ws, rfl, hlen, hws⟩ := parseArray_ok h
  refine ⟨by simpa [capacityOverflow, hlen] using hc, fun w hw => ?_⟩
  obtain ⟨hna, t, m', ht, hp⟩ := hws w hw
  exact parse_ok_scalar (le_trans ht hr) hp hna

/-- **Parse, then write, is a normalisation.** On a buffer of at most `isize::MAX` bytes (a Rust slice), every frame
`parse` returns, at any cursor position, is in the serializer's domain: `write_frame` writes it without reaching
`unreachable!()`, and `parse` reads those bytes back as the same frame. -/
theorem parse_ok_normalizes {buf : Bytes} (hbuf : buf.length ≤ isizeMax) {pos : ℕ} {f : Frame} {q : ℕ}
    (h : parseAt buf pos = .ok f q) : f.Wf ∧ ∃ b, writeFrame f = some b ∧ parse b = .ok f b.length := by
  obtain ⟨n, h, -⟩ := Parsed.shift_eq_ok.1 h
  have hf := parse_ok_wf (le_trans (by simp) hbuf) h
  obtain ⟨b, hb⟩ := writeFrame_isSome hf
  exact ⟨hf, b, hb, by simpa using parse_writeFrame_append hf hb []⟩

/-- `%00000000` reads as the integer 0, which is written back as `%0`, which reads as 0 again -/
theorem zeroes_normalize :
    parseAt [37, 48, 48, 48, 48, 48, 48, 48, 48, 13, 10] 0 = .ok (.integer ⟨0, by norm_num, by norm_num⟩) 11 ∧
      writeFrame (.integer ⟨0, by norm_num, by norm_num⟩) = some [37, 48, 13, 10] ∧
      (Frame.integer ⟨0, by norm_num, by norm_num⟩).Wf ∧
      ∃ b, writeFrame (.integer ⟨0, by norm_num, by norm_num⟩) = some b ∧
        parse b = .ok (.integer ⟨0, by norm_num, by norm_num⟩) b.length := by
  have h : parseAt [37, 48, 48, 48, 48, 48, 48, 48, 48, 13, 10] 0 =
      .ok (.integer ⟨0, by norm_num, by norm_num⟩) 11 := by
    simp [parseAt, parse, getLine, lineEnd?, parseBody, atoiI64, atoiValue, digitsValue, isDigit, I64.ofInt?]
  exact ⟨h, by simp [writeFrame, write, I64.toBytes, decimal], parse_ok_normalizes (by decide) h⟩

end Segment
