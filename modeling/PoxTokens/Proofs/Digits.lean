import PoxTokens.Listing
import PoxTokens.Proofs.Spelling
import PoxTokens.Text.Quoted

/-!
# PoxTokens.Proofs.Digits

Numbers in decimal and hexadecimal digits.  What is written is read back, and a
decimal number has no leading zero, which the number formats of JSON and TOML
forbid (`decimal_cases`).
-/

namespace PoxTokens

/-! ## Decimal digits -/

/-- The decimal form of a number consists of digits, and there is one at least. -/
theorem isDigits_decimal (n : Nat) : IsDigits (decimal n) :=
  ⟨Nat.toDigits_ne_nil, fun _ h => Nat.isDigit_of_mem_toDigits (by decide) (by decide) h⟩

/-- A number is shown in its decimal digits. -/
theorem toList_toString (n : Nat) : (toString n).toList = decimal n := by
  rw [Nat.toString_eq_repr, Nat.toList_repr, decimal]

/-- A number can be read off its decimal form. -/
theorem ofDigitChars_decimal (n : Nat) : Nat.ofDigitChars 10 (decimal n) 0 = n :=
  Nat.ofDigitChars_ten_toDigits

/-- The digits of a number are a lone zero, or do not begin with one. -/
theorem decimal_cases (n : Nat) :
    decimal n = ['0'] ∨ ∃ c cs, decimal n = c :: cs ∧ c ≠ '0' := by
  induction n using Nat.strong_induction_on with
  | _ n ih =>
    unfold decimal at *
    rw [Nat.toDigits_eq_if (by decide)]
    split
    · next hlt =>
      by_cases hn : n = 0
      · exact Or.inl (by rw [hn]; rfl)
      · exact Or.inr ⟨_, _, rfl, by simpa using hn⟩
    · next hge =>
      rcases ih (n / 10) (by omega) with hzero | ⟨c, cs, hcons, hc⟩
      · -- only zero has the digits of zero, and a number of two digits has tens
        have hvalue := ofDigitChars_decimal (n / 10)
        rw [decimal, hzero] at hvalue
        have : Nat.ofDigitChars 10 ['0'] 0 = 0 := rfl
        omega
      · exact Or.inr ⟨c, _, by rw [hcons, List.cons_append], hc⟩

/-! ## Hexadecimal digits -/

theorem hexDigit?_digitChar {d : Nat} (h : d < 16) : hexDigit? (Nat.digitChar d) = some d := by
  revert d
  decide

/-- The characters of a number in some base are the digits below that base. -/
theorem exists_of_mem_toDigits {b n : Nat} {c : Char} (hb : 1 < b) (h : c ∈ Nat.toDigits b n) :
    ∃ d < b, c = Nat.digitChar d := by
  induction n using Nat.strong_induction_on with
  | _ n ih =>
    rw [Nat.toDigits_eq_if hb] at h
    split at h
    · next hlt => exact ⟨n, hlt, List.mem_singleton.mp h⟩
    · next hge =>
      rcases List.mem_append.mp h with h | h
      · exact ih (n / b) (Nat.div_lt_self (by omega) hb) h
      · exact ⟨n % b, Nat.mod_lt n (by omega), List.mem_singleton.mp h⟩

end PoxTokens
