/-
UTF-8, as the Rust standard library reads and writes it.

A Rust `String` is a valid UTF-8 byte vector; here it is a Lean `String`, and its bytes are `asBytes` (`as_bytes`,
`Bytes::from(String)`). `String::from_utf8` and `str::from_utf8` run `run_utf8_validation` from `core::str`; `utf8Chars`
follows that loop: a lead byte below `0x80` is one char; otherwise `utf8_char_width` of the lead byte fixes the
length, the second byte is checked against the lead byte's row of the well-formed table, and every later byte must be
a continuation byte (`0x80 ..= 0xBF`). An error records `valid_up_to` and `error_len` (`None` when the input ends
inside a sequence). Neither function is code of the repository.

Results:
- `fromUtf8_asBytes`: decoding the bytes of a string gives the string back;
- `asBytes_of_utf8Chars`: bytes that decode are the bytes of what they decode to;
- `crlf_infix_asBytes`: the bytes of a string hold a CR-LF pair exactly when the string does.
-/
import Segment.Numeral

namespace Segment

/-! ## Encoding -/

/-- the UTF-8 bytes of a scalar value -/
def encodeScalar (v : ℕ) : Bytes :=
  if v < 0x80 then [UInt8.ofNat v]
  else if v < 0x800 then [UInt8.ofNat (0xC0 + v / 64), UInt8.ofNat (0x80 + v % 64)]
  else if v < 0x10000 then
    [UInt8.ofNat (0xE0 + v / 4096), UInt8.ofNat (0x80 + v / 64 % 64), UInt8.ofNat (0x80 + v % 64)]
  else
    [UInt8.ofNat (0xF0 + v / 262144), UInt8.ofNat (0x80 + v / 4096 % 64), UInt8.ofNat (0x80 + v / 64 % 64),
      UInt8.ofNat (0x80 + v % 64)]

/-- the UTF-8 bytes of one char -/
def encodeChar (c : Char) : Bytes := encodeScalar c.toNat

/-- `str::as_bytes` -/
def asBytes (s : String) : Bytes := s.data.flatMap encodeChar

@[simp] theorem asBytes_append (s t : String) : asBytes (s ++ t) = asBytes s ++ asBytes t := by
  simp [asBytes]

/-! ## Decoding -/

/-- `Utf8Error` -/
structure Utf8Error where
  validUpTo : ℕ
  errorLen : Option ℕ
deriving DecidableEq

/-- a continuation byte: `(b as i8) < -64` -/
def isCont (b : UInt8) : Bool := 0x80 ≤ b && b ≤ 0xBF

/-- the second byte of a three-byte sequence, by the row of its lead byte -/
def second3 (b0 b1 : UInt8) : Bool :=
  (b0 == 0xE0 && 0xA0 ≤ b1 && b1 ≤ 0xBF) || (0xE1 ≤ b0 && b0 ≤ 0xEC && isCont b1) ||
    (b0 == 0xED && 0x80 ≤ b1 && b1 ≤ 0x9F) || (0xEE ≤ b0 && isCont b1)

/-- the second byte of a four-byte sequence, by the row of its lead byte -/
def second4 (b0 b1 : UInt8) : Bool :=
  (b0 == 0xF0 && 0x90 ≤ b1 && b1 ≤ 0xBF) || (0xF1 ≤ b0 && b0 ≤ 0xF3 && isCont b1) ||
    (b0 == 0xF4 && 0x80 ≤ b1 && b1 ≤ 0x8F)

def char2 (b0 b1 : UInt8) : Char := Char.ofNat ((b0.toNat - 0xC0) * 64 + (b1.toNat - 0x80))

def char3 (b0 b1 b2 : UInt8) : Char :=
  Char.ofNat ((b0.toNat - 0xE0) * 4096 + (b1.toNat - 0x80) * 64 + (b2.toNat - 0x80))

def char4 (b0 b1 b2 b3 : UInt8) : Char :=
  Char.ofNat ((b0.toNat - 0xF0) * 262144 + (b1.toNat - 0x80) * 4096 + (b2.toNat - 0x80) * 64 + (b3.toNat - 0x80))

/-- `run_utf8_validation` from byte offset `off`, with the chars it validates -/
def utf8Chars (off : ℕ) : Bytes → Except Utf8Error (List Char)
  | [] => .ok []
  | b0 :: rest =>
    if b0 < 0x80 then (Char.ofNat b0.toNat :: ·) <$> utf8Chars (off + 1) rest
    else if 0xC2 ≤ b0 ∧ b0 ≤ 0xDF then
      match rest with
      | [] => .error ⟨off, none⟩
      | b1 :: rest =>
        if isCont b1 then (char2 b0 b1 :: ·) <$> utf8Chars (off + 2) rest else .error ⟨off, some 1⟩
    else if 0xE0 ≤ b0 ∧ b0 ≤ 0xEF then
      match rest with
      | [] => .error ⟨off, none⟩
      | b1 :: rest =>
        if second3 b0 b1 then
          match rest with
          | [] => .error ⟨off, none⟩
          | b2 :: rest =>
            if isCont b2 then (char3 b0 b1 b2 :: ·) <$> utf8Chars (off + 3) rest else .error ⟨off, some 2⟩
        else .error ⟨off, some 1⟩
    else if 0xF0 ≤ b0 ∧ b0 ≤ 0xF4 then
      match rest with
      | [] => .error ⟨off, none⟩
      | b1 :: rest =>
        if second4 b0 b1 then
          match rest with
          | [] => .error ⟨off, none⟩
          | b2 :: rest =>
            if isCont b2 then
              match rest with
              | [] => .error ⟨off, none⟩
              | b3 :: rest =>
                if isCont b3 then (char4 b0 b1 b2 b3 :: ·) <$> utf8Chars (off + 4) rest
                else .error ⟨off, some 3⟩
            else .error ⟨off, some 2⟩
        else .error ⟨off, some 1⟩
    else .error ⟨off, some 1⟩

/-- `str::from_utf8` / `String::from_utf8` -/
def fromUtf8 (b : Bytes) : Except Utf8Error String := String.mk <$> utf8Chars 0 b

/-! ## Byte arithmetic -/

/-- the number of byte values; as a `simp` lemma it lets `simp` compute the value of a byte literal -/
@[simp] theorem byte_size : UInt8.size = 256 := rfl

theorem byte_lt_iff {a b : UInt8} : a < b ↔ a.toNat < b.toNat := Iff.rfl

theorem byte_le_iff {a b : UInt8} : a ≤ b ↔ a.toNat ≤ b.toNat := Iff.rfl

theorem byte_ext {a b : UInt8} (h : a.toNat = b.toNat) : a = b := UInt8.eq_of_val_eq (Fin.ext h)

theorem byte_eq_iff {a b : UInt8} : a = b ↔ a.toNat = b.toNat := ⟨congrArg _, byte_ext⟩

theorem toNat_byte {n : ℕ} (h : n < 256) : (UInt8.ofNat n).toNat = n := UInt8.toNat_ofNat_of_lt h

theorem byte_lt_256 (b : UInt8) : b.toNat < 256 := UInt8.toNat_lt_size b

theorem isCont_iff (b : UInt8) : isCont b = true ↔ 0x80 ≤ b.toNat ∧ b.toNat ≤ 0xBF := by
  simp [isCont, byte_le_iff]

theorem second3_iff (b0 b1 : UInt8) : second3 b0 b1 = true ↔
    (b0.toNat = 0xE0 ∧ 0xA0 ≤ b1.toNat ∧ b1.toNat ≤ 0xBF) ∨
    (0xE1 ≤ b0.toNat ∧ b0.toNat ≤ 0xEC ∧ 0x80 ≤ b1.toNat ∧ b1.toNat ≤ 0xBF) ∨
    (b0.toNat = 0xED ∧ 0x80 ≤ b1.toNat ∧ b1.toNat ≤ 0x9F) ∨
    (0xEE ≤ b0.toNat ∧ 0x80 ≤ b1.toNat ∧ b1.toNat ≤ 0xBF) := by
  simp [second3, isCont, byte_le_iff, byte_eq_iff, and_assoc, or_assoc]

theorem second4_iff (b0 b1 : UInt8) : second4 b0 b1 = true ↔
    (b0.toNat = 0xF0 ∧ 0x90 ≤ b1.toNat ∧ b1.toNat ≤ 0xBF) ∨
    (0xF1 ≤ b0.toNat ∧ b0.toNat ≤ 0xF3 ∧ 0x80 ≤ b1.toNat ∧ b1.toNat ≤ 0xBF) ∨
    (b0.toNat = 0xF4 ∧ 0x80 ≤ b1.toNat ∧ b1.toNat ≤ 0x8F) := by
  simp [second4, isCont, byte_le_iff, byte_eq_iff, and_assoc, or_assoc]

theorem Char.toNat_ofNat_of_valid {v : ℕ} (h : v < 0xD800 ∨ 0xDFFF < v ∧ v < 0x110000) :
    (Char.ofNat v).toNat = v := by
  have hv : v.isValidChar := h
  simp only [Char.ofNat, dif_pos hv, Char.ofNatAux, Char.toNat, UInt32.toNat, BitVec.toNat_ofNatLt]

theorem Except.map_eq_ok {ε α β : Type} {f : α → β} {x : Except ε α} {b : β} :
    f <$> x = .ok b ↔ ∃ a, x = .ok a ∧ f a = b := by
  cases x <;> simp [Functor.map, Except.map]

/-! ## One step of the validation loop per sequence length -/

section Steps

variable {off : ℕ} {b0 b1 b2 b3 : UInt8} {rest : Bytes}

theorem utf8Chars_one (h : b0.toNat < 0x80) :
    utf8Chars off (b0 :: rest) = (Char.ofNat b0.toNat :: ·) <$> utf8Chars (off + 1) rest := by
  rw [utf8Chars.eq_def]; simp [byte_lt_iff, h]

theorem utf8Chars_two (h0 : 0xC2 ≤ b0.toNat ∧ b0.toNat ≤ 0xDF) (h1 : isCont b1) :
    utf8Chars off (b0 :: b1 :: rest) = (char2 b0 b1 :: ·) <$> utf8Chars (off + 2) rest := by
  rw [utf8Chars.eq_def]
  simp only [byte_lt_iff, byte_le_iff, h1, if_true]
  rw [if_neg (by simp; omega), if_pos (by simpa using h0)]

theorem utf8Chars_three (h0 : 0xE0 ≤ b0.toNat ∧ b0.toNat ≤ 0xEF) (h1 : second3 b0 b1) (h2 : isCont b2) :
    utf8Chars off (b0 :: b1 :: b2 :: rest) = (char3 b0 b1 b2 :: ·) <$> utf8Chars (off + 3) rest := by
  rw [utf8Chars.eq_def]
  simp only [byte_lt_iff, byte_le_iff, h1, h2, if_true]
  rw [if_neg (by simp; omega), if_neg (by simp; omega), if_pos (by simpa using h0)]

theorem utf8Chars_four (h0 : 0xF0 ≤ b0.toNat ∧ b0.toNat ≤ 0xF4) (h1 : second4 b0 b1) (h2 : isCont b2)
    (h3 : isCont b3) :
    utf8Chars off (b0 :: b1 :: b2 :: b3 :: rest) = (char4 b0 b1 b2 b3 :: ·) <$> utf8Chars (off + 4) rest := by
  rw [utf8Chars.eq_def]
  simp only [byte_lt_iff, byte_le_iff, h1, h2, h3, if_true]
  rw [if_neg (by simp; omega), if_neg (by simp; omega), if_neg (by simp; omega), if_pos (by simpa using h0)]

end Steps

/-! ## Round trips -/

theorem utf8Chars_encodeScalar {v : ℕ} (hv : v < 0xD800 ∨ 0xDFFF < v ∧ v < 0x110000) (off : ℕ) (rest : Bytes) :
    utf8Chars off (encodeScalar v ++ rest) =
      (Char.ofNat v :: ·) <$> utf8Chars (off + (encodeScalar v).length) rest := by
  unfold encodeScalar
  split_ifs with h1 h2 h3
  · have e0 := toNat_byte (show v < 256 by omega)
    rw [List.singleton_append, utf8Chars_one (by omega), e0]; rfl
  · have e0 := toNat_byte (show 0xC0 + v / 64 < 256 by omega)
    have e1 := toNat_byte (show 0x80 + v % 64 < 256 by omega)
    have hc : char2 (UInt8.ofNat (0xC0 + v / 64)) (UInt8.ofNat (0x80 + v % 64)) = Char.ofNat v := by
      simp only [char2, e0, e1]; exact congrArg Char.ofNat (by omega)
    rw [List.cons_append, List.singleton_append, utf8Chars_two (by omega) ((isCont_iff _).2 (by omega)), hc]; rfl
  · have e0 := toNat_byte (show 0xE0 + v / 4096 < 256 by omega)
    have e1 := toNat_byte (show 0x80 + v / 64 % 64 < 256 by omega)
    have e2 := toNat_byte (show 0x80 + v % 64 < 256 by omega)
    have hc : char3 (UInt8.ofNat (0xE0 + v / 4096)) (UInt8.ofNat (0x80 + v / 64 % 64)) (UInt8.ofNat (0x80 + v % 64))
        = Char.ofNat v := by
      simp only [char3, e0, e1, e2]; exact congrArg Char.ofNat (by omega)
    rw [List.cons_append, List.cons_append, List.singleton_append,
      utf8Chars_three (by omega) ((second3_iff _ _).2 (by omega)) ((isCont_iff _).2 (by omega)), hc]; rfl
  · have e0 := toNat_byte (show 0xF0 + v / 262144 < 256 by omega)
    have e1 := toNat_byte (show 0x80 + v / 4096 % 64 < 256 by omega)
    have e2 := toNat_byte (show 0x80 + v / 64 % 64 < 256 by omega)
    have e3 := toNat_byte (show 0x80 + v % 64 < 256 by omega)
    have hc : char4 (UInt8.ofNat (0xF0 + v / 262144)) (UInt8.ofNat (0x80 + v / 4096 % 64))
        (UInt8.ofNat (0x80 + v / 64 % 64)) (UInt8.ofNat (0x80 + v % 64)) = Char.ofNat v := by
      simp only [char4, e0, e1, e2, e3]; exact congrArg Char.ofNat (by omega)
    rw [List.cons_append, List.cons_append, List.cons_append, List.singleton_append,
      utf8Chars_four (by omega) ((second4_iff _ _).2 (by omega)) ((isCont_iff _).2 (by omega))
        ((isCont_iff _).2 (by omega)), hc]; rfl

section Inverse
variable {b0 b1 b2 b3 : UInt8}

theorem encodeChar_ofNat {v : ℕ} (hv : v < 0xD800 ∨ 0xDFFF < v ∧ v < 0x110000) :
    encodeChar (Char.ofNat v) = encodeScalar v := by
  rw [encodeChar, Char.toNat_ofNat_of_valid hv]

theorem encodeChar_one (h : b0.toNat < 0x80) : encodeChar (Char.ofNat b0.toNat) = [b0] := by
  rw [encodeChar_ofNat (by omega), encodeScalar, if_pos h]
  exact congrArg (· :: []) (byte_ext (toNat_byte (byte_lt_256 b0)))

theorem encodeChar_char2 (h0 : 0xC2 ≤ b0.toNat ∧ b0.toNat ≤ 0xDF) (h1 : isCont b1) :
    encodeChar (char2 b0 b1) = [b0, b1] := by
  rw [isCont_iff] at h1
  rw [char2, encodeChar_ofNat (by omega), encodeScalar, if_neg (by omega), if_pos (by omega)]
  simp only [List.cons.injEq, byte_eq_iff, and_true]
  rw [toNat_byte (by omega), toNat_byte (by omega)]
  omega

theorem encodeChar_char3 (h0 : 0xE0 ≤ b0.toNat ∧ b0.toNat ≤ 0xEF) (h1 : second3 b0 b1) (h2 : isCont b2) :
    encodeChar (char3 b0 b1 b2) = [b0, b1, b2] := by
  rw [second3_iff] at h1
  rw [isCont_iff] at h2
  rw [char3, encodeChar_ofNat (by omega), encodeScalar, if_neg (by omega), if_neg (by omega), if_pos (by omega)]
  simp only [List.cons.injEq, byte_eq_iff, and_true]
  rw [toNat_byte (by omega), toNat_byte (by omega), toNat_byte (by omega)]
  omega

theorem encodeChar_char4 (h0 : 0xF0 ≤ b0.toNat ∧ b0.toNat ≤ 0xF4) (h1 : second4 b0 b1) (h2 : isCont b2)
    (h3 : isCont b3) : encodeChar (char4 b0 b1 b2 b3) = [b0, b1, b2, b3] := by
  rw [second4_iff] at h1
  rw [isCont_iff] at h2 h3
  rw [char4, encodeChar_ofNat (by omega), encodeScalar, if_neg (by omega), if_neg (by omega), if_neg (by omega)]
  simp only [List.cons.injEq, byte_eq_iff, and_true]
  rw [toNat_byte (by omega), toNat_byte (by omega), toNat_byte (by omega), toNat_byte (by omega)]
  omega

end Inverse

theorem asBytes_of_utf8Chars {off : ℕ} {b : Bytes} {cs : List Char} (h : utf8Chars off b = .ok cs) :
    cs.flatMap encodeChar = b := by
  induction off, b using utf8Chars.induct generalizing cs with
  | case1 => rw [utf8Chars] at h; cases h; rfl
  | case2 off b0 rest h0 ih =>
    rw [utf8Chars_one h0] at h
    obtain ⟨cs, hcs, rfl⟩ := Except.map_eq_ok.1 h
    rw [List.flatMap_cons, ih hcs, encodeChar_one h0]; rfl
  | case4 off b0 h0 h0' b1 rest h1 ih =>
    rw [utf8Chars_two (by simpa [byte_le_iff] using h0') h1] at h
    obtain ⟨cs, hcs, rfl⟩ := Except.map_eq_ok.1 h
    rw [List.flatMap_cons, ih hcs, encodeChar_char2 (by simpa [byte_le_iff] using h0') h1]; rfl
  | case8 off b0 h0 h0' h0'' b1 h1 b2 rest h2 ih =>
    rw [utf8Chars_three (by simpa [byte_le_iff] using h0'') h1 h2] at h
    obtain ⟨cs, hcs, rfl⟩ := Except.map_eq_ok.1 h
    rw [List.flatMap_cons, ih hcs, encodeChar_char3 (by simpa [byte_le_iff] using h0'') h1 h2]; rfl
  | case14 off b0 h0 h0' h0'' h0''' b1 h1 b2 h2 b3 rest h3 ih =>
    rw [utf8Chars_four (by simpa [byte_le_iff] using h0''') h1 h2 h3] at h
    obtain ⟨cs, hcs, rfl⟩ := Except.map_eq_ok.1 h
    rw [List.flatMap_cons, ih hcs, encodeChar_char4 (by simpa [byte_le_iff] using h0''') h1 h2 h3]; rfl
  | _ =>
    rw [utf8Chars.eq_def] at h
    simp only [byte_lt_iff, byte_le_iff] at *
    split_ifs at h

theorem utf8Chars_flatMap (off : ℕ) (cs : List Char) : utf8Chars off (cs.flatMap encodeChar) = .ok cs := by
  induction cs generalizing off with
  | nil => rfl
  | cons c cs ih =>
    have hv : c.toNat < 0xD800 ∨ 0xDFFF < c.toNat ∧ c.toNat < 0x110000 := c.valid
    rw [List.flatMap_cons, encodeChar, utf8Chars_encodeScalar hv, ih, Char.ofNat_toNat]; rfl

/-- decoding the bytes of a string gives the string back -/
theorem fromUtf8_asBytes (s : String) : fromUtf8 (asBytes s) = .ok s := by
  rw [fromUtf8, asBytes, utf8Chars_flatMap]; rfl

/-- bytes that decode are the bytes of what they decode to -/
theorem asBytes_of_fromUtf8 {b : Bytes} {s : String} (h : fromUtf8 b = .ok s) : asBytes s = b := by
  obtain ⟨cs, hcs, rfl⟩ := Except.map_eq_ok.1 h
  exact asBytes_of_utf8Chars hcs

/-! ## ASCII bytes stand for themselves -/

theorem encodeChar_ascii {c : Char} (h : c.toNat < 0x80) : encodeChar c = [UInt8.ofNat c.toNat] := by
  rw [encodeChar, encodeScalar, if_pos h]

/-- every byte of a non-ASCII char is at least `0x80` -/
theorem encodeChar_high (c : Char) (h : 0x80 ≤ c.toNat) : ∀ b ∈ encodeChar c, 0x80 ≤ b.toNat := by
  have hc : c.toNat < 0x110000 := by have := c.valid; simp [Char.toNat, UInt32.isValidChar] at *; omega
  rw [encodeChar, encodeScalar, if_neg (by omega)]
  split_ifs <;> simp only [List.mem_cons, List.mem_singleton, List.not_mem_nil, or_false] <;>
    rintro b (rfl | rfl | rfl | rfl) <;> rw [toNat_byte (by omega)] <;> omega

theorem encodeChar_ne_nil (c : Char) : encodeChar c ≠ [] := by
  rw [encodeChar, encodeScalar]; split_ifs <;> simp

theorem pair_prefix_cons {α : Type} {x y a : α} {l : List α} : [x, y] <+: a :: l ↔ a = x ∧ l.head? = some y := by
  cases l with
  | nil => simp only [List.head?_nil, reduceCtorEq, and_false, iff_false]; intro h; simpa using h.length_le
  | cons b l => simp [List.cons_prefix_cons, eq_comm]

/-- a two-element infix of a cons: at the head, or further on -/
theorem pair_infix_cons {α : Type} {x y a : α} {l : List α} :
    [x, y] <:+: a :: l ↔ (a = x ∧ l.head? = some y) ∨ [x, y] <:+: l := by
  rw [List.infix_cons_iff, pair_prefix_cons]

theorem pair_infix_append {α : Type} {x y : α} {l m : List α} :
    [x, y] <:+: l ++ m ↔ [x, y] <:+: l ∨ (l.getLast? = some x ∧ m.head? = some y) ∨ [x, y] <:+: m := by
  induction l with
  | nil => simp [List.infix_nil]
  | cons a l ih =>
    rw [List.cons_append, pair_infix_cons, pair_infix_cons, ih]
    cases l with
    | nil => simp [List.infix_nil, or_comm]
    | cons b l => simp only [List.cons_append, List.head?_cons, List.getLast?_cons_cons, or_assoc]

theorem not_crlf_infix_encodeChar (c : Char) : ¬ [13, 10] <:+: encodeChar c := by
  by_cases h : c.toNat < 0x80
  · rw [encodeChar_ascii h]; intro hi; simpa using hi.length_le
  · intro hi
    have := encodeChar_high c (by omega) 13 (hi.subset (by simp))
    simp at this

theorem getLast_encodeChar (c : Char) : (encodeChar c).getLast? = some 13 ↔ c = '\r' := by
  by_cases h : c.toNat < 0x80
  · rw [encodeChar_ascii h, List.getLast?_singleton, Option.some_inj, byte_eq_iff, toNat_byte (by omega)]
    exact ⟨fun e => Char.ext (UInt32.eq_of_val_eq (Fin.ext (by simpa [Char.toNat] using e))),
      fun e => by subst e; rfl⟩
  · constructor
    · intro e
      have := encodeChar_high c (by omega) 13 (List.mem_of_getLast?_eq_some e)
      simp at this
    · rintro rfl; exact absurd (by decide) h

theorem head_flatMap_encodeChar (cs : List Char) :
    (cs.flatMap encodeChar).head? = some 10 ↔ cs.head? = some '\n' := by
  cases cs with
  | nil => simp
  | cons c cs =>
    obtain ⟨b, bs, hb⟩ := List.exists_cons_of_ne_nil (encodeChar_ne_nil c)
    rw [List.flatMap_cons, hb, List.cons_append, List.head?_cons, List.head?_cons, Option.some_inj,
      Option.some_inj]
    by_cases h : c.toNat < 0x80
    · rw [encodeChar_ascii h, List.cons.injEq] at hb
      rw [← hb.1, byte_eq_iff, toNat_byte (by omega)]
      exact ⟨fun e => Char.ext (UInt32.eq_of_val_eq (Fin.ext (by simpa [Char.toNat] using e))),
        fun e => by subst e; rfl⟩
    · have := encodeChar_high c (by omega) b (by simp [hb])
      constructor
      · intro e; subst e; simp at this
      · rintro rfl; exact absurd (by decide) h

/-- the bytes of a string hold a CR-LF pair exactly when the string does -/
theorem crlf_infix_asBytes (s : String) : [13, 10] <:+: asBytes s ↔ ['\r', '\n'] <:+: s.data := by
  rw [asBytes]
  induction s.data with
  | nil => simp [List.infix_nil]
  | cons c cs ih =>
    rw [List.flatMap_cons, pair_infix_append, ih, pair_infix_cons, getLast_encodeChar,
      head_flatMap_encodeChar]
    simp [not_crlf_infix_encodeChar]

example : fromUtf8 [0x61, 0xE2, 0x82, 0xAC] = .ok "a€" := rfl
example : fromUtf8 [0x61, 0xED, 0xA0, 0x80] = .error ⟨1, some 1⟩ := rfl

end Segment
