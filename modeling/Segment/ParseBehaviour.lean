/-
How `frame::parse` treats hostile input: header lengths near `usize::MAX`, and arrays inside arrays.

- `parse_huge_blob_panics`, `parse_huge_array_panics`: every Blob header that spells `usize::MAX - 1` panics whatever
  follows (the bound `length + 2` wraps to 0, and `cursor.chunk()[..length]` indexes past the buffer), and every
  Array header whose count needs more than `isize::MAX` bytes of frames panics in `Vec::with_capacity`.
  `parse_blob_length_wraps` applies both to the crashing requests `*18446744073709551614` CR-LF and
  `#18446744073709551615` CR-LF.
- `parseArray_nested`: when the children loop reaches a child whose header line begins with `#`, the loop never
  returns `Ok`. It returns `InvalidFrame` once the nested array has been read completely, its own children included,
  and otherwise whatever reading the nested array returned, `IncompleteFrame` among them.
  `parse_nested_incomplete` is `#1` CR-LF `#1` CR-LF: an incomplete nested array makes the outer one incomplete.
- `blob_incomplete_moves`: `get_line` moves the cursor before the Blob branch finds its data missing, so every Blob
  whose header has arrived without its data answers `IncompleteFrame` with the cursor past the header, as
  `short_blob_moves_cursor` (`*5` CR-LF `ab`) shows; `Connection::parse_frame` drops that cursor.
-/
import Segment.Codec

namespace Segment

/-! ## Panics on header lengths -/

/-- a Blob header spelling `usize::MAX - 1` panics, whatever follows it -/
theorem parse_huge_blob_panics {d : Bytes} (hd : ¬ [13, 10] <:+: d) (hl : atoiUsize d = some (2 ^ 64 - 2))
    (R : Bytes) (hR : R.length < 2 ^ 64 - 2) : parse ((42 :: d) ++ 13 :: 10 :: R) = .panic := by
  have hne : d ≠ [45, 49] := by rintro rfl; simp [atoiUsize, atoiValue, digitsValue, isDigit] at hl
  rw [parse_tag_line (by decide) hd, parseBody_blob hne, hl]
  simp only [Parsed.shift_eq_panic]
  rw [if_neg (by norm_num), if_pos (by norm_num; omega)]

/-- an Array header whose count needs more than `isize::MAX` bytes of frames panics, whatever follows it -/
theorem parse_huge_array_panics {d : Bytes} (hd : ¬ [13, 10] <:+: d) {length : ℕ} (hl : atoiUsize d = some length)
    (hc : isizeMax < length * frameSize) (R : Bytes) : parse ((35 :: d) ++ 13 :: 10 :: R) = .panic := by
  rw [parse_tag_line (by decide) hd, parseBody_array, hl]
  simp [capacityOverflow, hc]

/-- the crashing requests: `*18446744073709551614` CR-LF, a Blob of `usize::MAX - 1` bytes, and
`#18446744073709551615` CR-LF, an Array of `usize::MAX` elements -/
theorem parse_blob_length_wraps :
    parseAt [42, 49, 56, 52, 52, 54, 55, 52, 52, 48, 55, 51, 55, 48, 57, 53, 53, 49, 54, 49, 52, 13, 10] 0 =
        .panic ∧
      parseAt [35, 49, 56, 52, 52, 54, 55, 52, 52, 48, 55, 51, 55, 48, 57, 53, 53, 49, 54, 49, 53, 13, 10] 0 =
        .panic := by
  have hb : atoiUsize [49, 56, 52, 52, 54, 55, 52, 52, 48, 55, 51, 55, 48, 57, 53, 53, 49, 54, 49, 52] =
      some (2 ^ 64 - 2) := by
    simp [atoiUsize, atoiValue, digitsValue, isDigit, usizeMax]
  have ha : atoiUsize [49, 56, 52, 52, 54, 55, 52, 52, 48, 55, 51, 55, 48, 57, 53, 53, 49, 54, 49, 53] =
      some (2 ^ 64 - 1) := by
    simp [atoiUsize, atoiValue, digitsValue, isDigit, usizeMax]
  simp only [parseAt, List.drop_zero, Parsed.shift_eq_panic]
  exact ⟨parse_huge_blob_panics (not_crlf_of_no_cr (by decide)) hb [] (by norm_num),
    parse_huge_array_panics (not_crlf_of_no_cr (by decide)) ha (by norm_num [isizeMax, frameSize]) []⟩

/-! ## Where `IncompleteFrame` leaves the cursor -/

/-- a Blob whose header line has arrived but whose data and closing CR-LF have not: `parse` answers `IncompleteFrame`
with the cursor after the header line, not where it started -/
theorem blob_incomplete_moves (length : ℕ) (hl : length + 2 < 2 ^ 64) (data : Bytes) (hd : data.length < length + 2) :
    parse ((42 :: decimal length) ++ 13 :: 10 :: data) = .err .incompleteFrame ((decimal length).length + 3) := by
  rw [parse_tag_line (by decide) (not_crlf_of_no_cr (decimal_no_cr length)), parseBody_blob (decimal_ne_neg_one length),
    atoiUsize_decimal (by simp only [usizeMax]; omega)]
  dsimp only
  rw [Nat.mod_eq_of_lt hl, if_pos hd]
  rfl

/-- `*5` CR-LF `ab`: the cursor ends 4 bytes on -/
theorem short_blob_moves_cursor : parseAt [42, 53, 13, 10, 97, 98] 0 = .err .incompleteFrame 4 := by
  have h5 : decimal 5 = [53] := by simp [decimal, digitByte]
  have h := blob_incomplete_moves 5 (by norm_num) [97, 98] (by decide)
  rw [h5] at h
  rw [parseAt, List.drop_zero, show ([42, 53, 13, 10, 97, 98] : Bytes) = [42, 53] ++ [13, 10, 97, 98] from rfl, h]
  rfl

/-! ## Arrays inside arrays -/

/-- a line that begins with `#` reads as an array, an error or a panic, never as another frame -/
theorem parse_hash_ok {s d : Bytes} {n : ℕ} (hg : getLine s = .ok (35 :: d, n)) {f : Frame} {m : ℕ}
    (h : parse s = .ok f m) : ∃ vs, f = .array vs := by
  rw [parse_of_getLine hg, Parsed.shift_eq_ok] at h
  obtain ⟨k, h, -⟩ := h
  rw [parseBody_array] at h
  split at h
  · cases h
  · split at h
    · cases h
    · obtain ⟨ws, rfl, -⟩ := parseArray_ok h; exact ⟨_, rfl⟩

/-- **Nested arrays.** When the children loop reaches a child whose header line begins with `#`, the loop does not
return `Ok`. It reads the nested array in full, its own children included: if that succeeds, the result is
`InvalidFrame` with the cursor after the nested array; otherwise it is what reading the nested array returned
(`IncompleteFrame` while the nested children are not all there). -/
theorem parseArray_nested {s d : Bytes} {n : ℕ} (hg : getLine s = .ok (35 :: d, n)) (k : ℕ) (values : List Frame) :
    (∀ f m, parseArray s (k + 1) values ≠ .ok f m) ∧
    (∀ f m, parse s = .ok f m → parseArray s (k + 1) values = .err .invalidFrame m) ∧
    (∀ e m, parse s = .err e m → parseArray s (k + 1) values = .err e m) ∧
    (parse s = .panic → parseArray s (k + 1) values = .panic) := by
  refine ⟨fun f m h => ?_, fun f m h => ?_, fun e m h => ?_, fun h => ?_⟩
  · rw [parseArray_succ] at h
    split at h
    · cases h
    · rename_i g m' hna hp
      exact absurd (parse_hash_ok hg hp).choose_spec (hna _)
    · cases h
    · cases h
  · obtain ⟨vs, rfl⟩ := parse_hash_ok hg h
    rw [parseArray_succ, h]
  · rw [parseArray_succ, h]
  · rw [parseArray_succ, h]

/-- `#1` CR-LF `#0` CR-LF: the loop reaches the complete nested array `#0` and answers `InvalidFrame` -/
theorem parseArray_nested_complete :
    getLine [35, 48, 13, 10] = .ok ([35, 48], 4) ∧
      ((∀ f m, parseArray [35, 48, 13, 10] 1 [] ≠ .ok f m) ∧
      (∀ f m, parse [35, 48, 13, 10] = .ok f m → parseArray [35, 48, 13, 10] 1 [] = .err .invalidFrame m) ∧
      (∀ e m, parse [35, 48, 13, 10] = .err e m → parseArray [35, 48, 13, 10] 1 [] = .err e m) ∧
      (parse [35, 48, 13, 10] = .panic → parseArray [35, 48, 13, 10] 1 [] = .panic)) :=
  ⟨rfl, parseArray_nested (s := [35, 48, 13, 10]) (d := [48]) (n := 4) rfl 0 []⟩

/-- `#1` CR-LF `#1` CR-LF: the nested array's child is missing, so the outer array is incomplete, not invalid -/
theorem parse_nested_incomplete : parseAt [35, 49, 13, 10, 35, 49, 13, 10] 0 = .err .incompleteFrame 8 := by
  simp [parseAt, parse, getLine, lineEnd?, parseBody, parseArray, atoiUsize, atoiValue, digitsValue, isDigit,
    usizeMax, capacityOverflow, isizeMax, frameSize]

end Segment
