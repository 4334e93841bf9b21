import Mathlib

/-! # Fixed-width hexadecimal numerals

`format w n` is the zero-padded lower-case numeral of `n` and `parse` reads a
numeral in either case, with an optional plus sign.
-/
namespace DtgProxy.Lib.Hex

def digit (d : ℕ) : Char := Char.ofNat (if d < 10 then 48 + d else 87 + d)

/-- The `w` lower-case digits of `n`; digits above are dropped. -/
def format : ℕ → ℕ → List Char
  | 0, _ => []
  | w + 1, n => format w (n / 16) ++ [digit (n % 16)]

def digitValue (c : Char) : Option ℕ :=
  if '0' ≤ c ∧ c ≤ '9' then some (c.toNat - 48)
  else if 'a' ≤ c ∧ c ≤ 'f' then some (c.toNat - 87)
  else if 'A' ≤ c ∧ c ≤ 'F' then some (c.toNat - 55)
  else none

def parseDigits (digits : List Char) : Option ℕ :=
  digits.foldlM (fun acc c => (digitValue c).map (acc * 16 + ·)) 0

def parse : List Char → Option ℕ
  | [] => none
  | '+' :: digits => if digits = [] then none else parseDigits digits
  | digits => parseDigits digits

theorem digitValue_digit {d : ℕ} (h : d < 16) : digitValue (digit d) = some d := by
  interval_cases d <;> decide

theorem digit_ne_plus {d : ℕ} (h : d < 16) : digit d ≠ '+' := by
  interval_cases d <;> decide

@[simp] theorem length_format (w n : ℕ) : (format w n).length = w := by
  induction w generalizing n with
  | zero => rfl
  | succ w ih => simp [format, ih]

theorem parseDigits_format (w n : ℕ) : parseDigits (format w n) = some (n % 16 ^ w) := by
  induction w generalizing n with
  | zero => simp [format, parseDigits, Nat.mod_one]
  | succ w ih =>
    have hstep : n % 16 ^ (w + 1) = n % 16 + 16 * (n / 16 % 16 ^ w) := by
      rw [pow_succ', Nat.mod_mul]
    have hlast : digitValue (digit (n % 16)) = some (n % 16) :=
      digitValue_digit (Nat.mod_lt n (by decide))
    unfold parseDigits at ih ⊢
    rw [format, List.foldlM_append, ih, hstep]
    simp only [List.foldlM_cons, List.foldlM_nil, Option.bind_eq_bind, Option.bind_some, hlast,
      Option.map_some, Option.pure_def, Option.some.injEq]
    omega

theorem ne_plus_of_mem_format {w n : ℕ} {c : Char} (h : c ∈ format w n) : c ≠ '+' := by
  induction w generalizing n with
  | zero => cases h
  | succ w ih =>
    rcases List.mem_append.mp h with h | h
    · exact ih h
    · rw [List.mem_singleton.mp h]
      exact digit_ne_plus (Nat.mod_lt n (by decide))

theorem parse_format {w n : ℕ} (hw : w ≠ 0) (hn : n < 16 ^ w) : parse (format w n) = some n := by
  have hdigits := parseDigits_format w n
  rw [Nat.mod_eq_of_lt hn] at hdigits
  have hlength := length_format w n
  cases hformat : format w n with
  | nil =>
    rw [hformat] at hlength
    exact absurd hlength.symm hw
  | cons c =>
    have hc : c ≠ '+' := ne_plus_of_mem_format (n := n) (w := w) (by simp [hformat])
    rw [hformat] at hdigits
    rw [parse.eq_3 _ (by simp) (by simpa using hc)]
    exact hdigits

end DtgProxy.Lib.Hex
