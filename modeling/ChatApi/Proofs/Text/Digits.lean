import ChatApi.Text.Digits

/-!
# Numbers come back from their digits

The digits of a number, with zeros in front or without, spell that number.
-/

namespace ChatApi.Text

theorem digitsValueFrom_eq (k : Nat) (cs : List Char) : digitsValueFrom k cs = Nat.ofDigitChars 10 cs k := by
  rw [digitsValueFrom, Nat.ofDigitChars_eq_foldl]
  congr 1
  funext n c
  rw [digitValue, Nat.mul_comm]

/-- More digits spell no smaller number. -/
theorem le_digitsValueFrom (n : Nat) (cs : List Char) : n ≤ digitsValueFrom n cs := by
  induction cs generalizing n with
  | nil => exact Nat.le_refl n
  | cons c cs ih => exact Nat.le_trans (by omega) (ih (n * 10 + digitValue c))

theorem digitsValue_toDigits (n : Nat) : digitsValue (Nat.toDigits 10 n) = n := by
  rw [digitsValue, digitsValueFrom_eq, Nat.ofDigitChars_toDigits (by decide) (by decide)]

theorem digitsValue_padded (width n : Nat) : digitsValue (padded width n) = n := by
  rw [digitsValue, digitsValueFrom_eq, padded, Nat.ofDigitChars_append, Nat.ofDigitChars_replicate_zero,
    Nat.mul_zero, Nat.ofDigitChars_toDigits (by decide) (by decide)]

theorem isDigit_of_mem_toDigits {n : Nat} {c : Char} (h : c ∈ Nat.toDigits 10 n) : c.isDigit :=
  Nat.isDigit_of_mem_toDigits (by decide) (by decide) h

theorem isDigit_of_mem_padded {width n : Nat} {c : Char} (h : c ∈ padded width n) : c.isDigit := by
  rcases List.mem_append.1 h with h | h
  · rw [List.eq_of_mem_replicate h]
    rfl
  · exact isDigit_of_mem_toDigits h

theorem padded_ne_nil (width n : Nat) : padded width n ≠ [] := by
  simp [padded]

theorem length_padded {width n : Nat} (hw : 0 < width) (h : n < Nat.pow 10 width) :
    (padded width n).length = width := by
  have hle := (Nat.length_toDigits_le_iff (b := 10) (by decide) hw).2 h
  rw [padded, List.length_append, List.length_replicate]
  omega

/-- No zero stands before another digit. -/
theorem head?_toDigits {n : Nat} (hn : n ≠ 0) : (Nat.toDigits 10 n).head? ≠ some '0' := by
  induction n using Nat.strongRecOn with
  | _ n ih =>
    rw [Nat.toDigits_eq_if (by decide)]
    split
    · simp [hn]
    · have hdiv : n / 10 ≠ 0 := by omega
      have hbefore := ih (n / 10) (by omega) hdiv
      obtain ⟨c, rest, hc⟩ := List.exists_cons_of_ne_nil (Nat.toDigits_ne_nil (n := n / 10) (b := 10))
      rw [hc] at hbefore ⊢
      exact hbefore

theorem readNatBelow?_of_digits {bound : Nat} {cs : List Char} (hne : cs ≠ []) (hd : ∀ c ∈ cs, c.isDigit)
    (h : digitsValue cs < bound) : readNatBelow? bound cs = some (digitsValue cs) := by
  have hplus : ∀ rest, cs ≠ '+' :: rest := by
    rintro rest rfl
    exact absurd (hd '+' List.mem_cons_self) (by decide)
  have hread : readNat? cs = some (digitsValue cs) := by
    have hall : cs.all Char.isDigit = true := List.all_eq_true.2 hd
    unfold readNat?
    split
    · exact absurd rfl (hplus _)
    · simp [hne, hall]
  rw [readNatBelow?, hread]
  simpa using h

end ChatApi.Text
