/-
Decimal numerals on the wire (`frame.rs`, `connection.rs`, `command.rs`).

Lengths and integers are read by the atoi crate (`atoi::<usize>`, `atoi::<i64>` in `frame::parse`), printed by
`to_string` (`Connection::write*`), and a CREATE sample size is read by `str::parse::<usize>`. None of these is code of
the repository; they are modelled here from the crates' behaviour:
- `atoi::<I>`: an optional `-` or `+`, then the longest run of ASCII digits; `None` when nothing at all was read
  (no sign, no digit) or when the value leaves the range of `I`. The crate accumulates digit by digit with checked
  arithmetic; every prefix of a digit run has a value no larger than the whole run, so that is the range check of the
  run's value (`atoiValue`, then `atoiUsize` / `atoiI64`). A lone sign reads as 0.
- `to_string`: decimal digits without leading zeros, a `-` before a negative `i64` (`decimal`, `I64.toBytes`).
- `str::parse::<usize>`: an optional `+`, then one or more digits and nothing else, fitting in `usize`.
`usize` is 64 bits wide.

Results: `atoiValue_decimal` and `I64.atoiI64_toBytes` (the reader inverts the printer at every value, both extremes
of `i64` included), `decimal_ne_nil`, `decimal_isDigit`, `decimal_ne_neg_one`.
-/
import Mathlib

namespace Segment

/-- a byte string: `&[u8]`, `Vec<u8>`, `Bytes` -/
abbrev Bytes := List UInt8

/-- `usize::MAX` on a 64-bit target -/
def usizeMax : ℕ := 2 ^ 64 - 1

/-- an `i64` -/
structure I64 where
  val : ℤ
  ge : -2 ^ 63 ≤ val
  le : val ≤ 2 ^ 63 - 1
deriving DecidableEq

/-! ## Digits -/

def isDigit (b : UInt8) : Bool := 48 ≤ b && b ≤ 57

/-- the byte of a decimal digit `d < 10` -/
def digitByte (d : ℕ) : UInt8 := UInt8.ofNat (48 + d)

/-- the value of a run of digits, most significant first -/
def digitsValue (ds : Bytes) : ℕ := ds.foldl (fun n b => 10 * n + (b.toNat - 48)) 0

/-- `usize::to_string` -/
def decimal (n : ℕ) : Bytes := if n = 0 then [48] else ((Nat.digits 10 n).map digitByte).reverse

theorem digitByte_toNat {d : ℕ} (h : d < 10) : (digitByte d).toNat = 48 + d :=
  UInt8.toNat_ofNat_of_lt (by simp [UInt8.size]; omega)

theorem isDigit_iff (b : UInt8) : isDigit b = true ↔ 48 ≤ b.toNat ∧ b.toNat ≤ 57 := by
  simp [isDigit, UInt8.le_def]; rfl

theorem digitsValue_reverse_map (ds : List ℕ) (h : ∀ d ∈ ds, d < 10) :
    digitsValue (ds.map digitByte).reverse = Nat.ofDigits 10 ds := by
  induction ds with
  | nil => rfl
  | cons d ds ih =>
    simp only [digitsValue, List.map_cons, List.reverse_cons, List.foldl_append, List.foldl_cons,
      List.foldl_nil, Nat.ofDigits_cons] at ih ⊢
    rw [ih fun x hx => h x (List.mem_cons_of_mem d hx), digitByte_toNat (h d (List.mem_cons_self d ds))]
    ring_nf; omega

theorem digitsValue_decimal (n : ℕ) : digitsValue (decimal n) = n := by
  unfold decimal
  split
  · subst_vars; rfl
  · rw [digitsValue_reverse_map _ fun d hd => Nat.digits_lt_base (by norm_num) hd, Nat.ofDigits_digits]

theorem decimal_isDigit (n : ℕ) : ∀ b ∈ decimal n, isDigit b = true := by
  unfold decimal
  split
  · decide
  · intro b hb
    obtain ⟨d, hd, rfl⟩ := List.mem_map.1 (List.mem_reverse.1 hb)
    have := Nat.digits_lt_base (by norm_num) hd
    rw [isDigit_iff, digitByte_toNat this]; omega

theorem decimal_ne_nil (n : ℕ) : decimal n ≠ [] := by
  unfold decimal
  split
  · simp
  · simpa [Nat.digits_eq_nil_iff_eq_zero]

/-- no `usize` prints as `-1`: the `-` is not a digit -/
theorem decimal_ne_neg_one (n : ℕ) : decimal n ≠ [45, 49] := fun h =>
  absurd (decimal_isDigit n 45 (by simp [h])) (by decide)

theorem takeWhile_digits_append {ds rest : Bytes} (h : ∀ b ∈ ds, isDigit b = true) :
    (ds ++ rest).takeWhile isDigit = ds ++ rest.takeWhile isDigit :=
  List.takeWhile_append_of_pos h

theorem takeWhile_digits {ds : Bytes} (h : ∀ b ∈ ds, isDigit b = true) : ds.takeWhile isDigit = ds := by
  simpa using @takeWhile_digits_append ds [] h

/-! ## The atoi crate -/

/-- what `atoi` reads, before the range check of the target type -/
def atoiValue : Bytes → Option ℤ
  | 45 :: rest => some (-(digitsValue (rest.takeWhile isDigit) : ℤ))
  | 43 :: rest => some (digitsValue (rest.takeWhile isDigit) : ℤ)
  | text => if text.takeWhile isDigit = [] then none else some (digitsValue (text.takeWhile isDigit) : ℤ)

/-- `atoi::<usize>` -/
def atoiUsize (text : Bytes) : Option ℕ :=
  (atoiValue text).bind fun v => if 0 ≤ v ∧ v ≤ usizeMax then some v.toNat else none

/-- `i64` range check -/
def I64.ofInt? (v : ℤ) : Option I64 :=
  if h : -2 ^ 63 ≤ v ∧ v ≤ 2 ^ 63 - 1 then some ⟨v, h.1, h.2⟩ else none

/-- `atoi::<i64>` -/
def atoiI64 (text : Bytes) : Option I64 := (atoiValue text).bind I64.ofInt?

/-- `i64::to_string` -/
def I64.toBytes (n : I64) : Bytes := if n.val < 0 then 45 :: decimal n.val.natAbs else decimal n.val.toNat

theorem atoiValue_decimal (n : ℕ) : atoiValue (decimal n) = some (n : ℤ) := by
  have hd := decimal_isDigit n
  have hne := decimal_ne_nil n
  obtain ⟨b, bs, hbs⟩ := List.exists_cons_of_ne_nil hne
  have hb : isDigit b = true := hd b (by simp [hbs])
  have hmin : b ≠ 45 := by rintro rfl; exact absurd hb (by decide)
  have hplus : b ≠ 43 := by rintro rfl; exact absurd hb (by decide)
  rw [hbs] at hd ⊢
  unfold atoiValue
  split
  · rename_i h; exact absurd (List.cons.inj h).1 hmin
  · rename_i h; exact absurd (List.cons.inj h).1 hplus
  · rw [takeWhile_digits hd, ← hbs, digitsValue_decimal]; simp [hbs]

theorem atoiUsize_decimal {n : ℕ} (h : n ≤ usizeMax) : atoiUsize (decimal n) = some n := by
  simp [atoiUsize, atoiValue_decimal, h]

theorem I64.ofInt?_val (n : I64) : I64.ofInt? n.val = some n := by
  rw [I64.ofInt?, dif_pos ⟨n.ge, n.le⟩]

theorem I64.atoiI64_toBytes (n : I64) : atoiI64 n.toBytes = some n := by
  unfold I64.toBytes atoiI64
  split
  · rename_i h
    rw [atoiValue, takeWhile_digits (decimal_isDigit _), digitsValue_decimal]
    simp only [Option.some_bind, Int.natCast_natAbs, abs_of_neg h, neg_neg, I64.ofInt?_val]
  · rename_i h
    rw [atoiValue_decimal, Option.some_bind, Int.toNat_of_nonneg (by omega), I64.ofInt?_val]

end Segment
