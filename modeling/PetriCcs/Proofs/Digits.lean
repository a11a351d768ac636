import Mathlib.Tactic
import PetriCcs.Text.Digits

/-! # Numbers and their digits

What the readers of all formats use: a run of characters ends where the first other one follows
(`span_append`); a number is read back from its digits in every base up to sixteen
(`natural?_toDigits`), and only zero has a zero in front (`eq_zero_of_head?_toDigits`); a
character is read back from its code point (`charOfCode?_toNat`). -/

namespace PetriCcs
namespace Text

/-! ### Runs of characters -/

section runs
variable {p : Char → Bool} {run rest : List Char}

theorem takeWhile_append (hrun : ∀ c ∈ run, p c = true) (hrest : ∀ c ∈ rest.head?, p c = false) :
    (run ++ rest).takeWhile p = run := by
  rw [List.takeWhile_append_of_pos hrun]
  cases rest with
  | nil => exact List.append_nil run
  | cons c rest =>
      rw [List.takeWhile_cons_of_neg (Bool.not_eq_true _ ▸ hrest c rfl)]
      exact List.append_nil run

theorem dropWhile_append (hrun : ∀ c ∈ run, p c = true) (hrest : ∀ c ∈ rest.head?, p c = false) :
    (run ++ rest).dropWhile p = rest := by
  rw [List.dropWhile_append_of_pos hrun]
  cases rest with
  | nil => rfl
  | cons c rest => exact List.dropWhile_cons_of_neg (Bool.not_eq_true _ ▸ hrest c rfl)

/-- A run goes as far as its characters do. -/
theorem span_append (hrun : ∀ c ∈ run, p c = true) (hrest : ∀ c ∈ rest.head?, p c = false) :
    (run ++ rest).span p = (run, rest) := by
  rw [List.span_eq_takeWhile_dropWhile, takeWhile_append hrun hrest, dropWhile_append hrun hrest]

end runs

/-- Where a written value ends: at the end of the text, a comma or a new line. -/
def Stops (rest : List Char) : Prop := ∀ c ∈ rest.head?, c = ',' ∨ c = '\n'

theorem stops_nil : Stops [] := fun _ hc => nomatch hc

theorem stops_comma (rest : List Char) : Stops (',' :: rest) := fun _ hc =>
  .inl (Option.some.inj hc).symm

theorem stops_newline (rest : List Char) : Stops ('\n' :: rest) := fun _ hc =>
  .inr (Option.some.inj hc).symm

/-- No character of a kind follows a value, when neither a comma nor a new line is of the kind. -/
theorem Stops.head {rest : List Char} (h : Stops rest) {p : Char → Bool} (hcomma : p ',' = false)
    (hnewline : p '\n' = false) : ∀ c ∈ rest.head?, p c = false := by
  intro c hc
  rcases h c hc with rfl | rfl
  · exact hcomma
  · exact hnewline

/-! ### Numbers -/

/-- The digit of a small number has it as its value. -/
theorem hexValue?_digitChar : ∀ d < 16, hexValue? (Nat.digitChar d) = some d := by
  decide

theorem digitValue?_digitChar {base d : ℕ} (hbase : base ≤ 16) (hd : d < base) :
    digitValue? base (Nat.digitChar d) = some d := by
  rw [digitValue?, hexValue?_digitChar d (hd.trans_le hbase), Option.filter_some,
    if_pos (decide_eq_true hd)]

theorem ofDigits?_append (base : ℕ) (back : List Char) :
    ∀ (front : List Char) (read : ℕ), ofDigits? base (front ++ back) read =
      (ofDigits? base front read).bind (ofDigits? base back)
  | [], read => rfl
  | c :: front, read => by
      rw [List.cons_append, ofDigits?, ofDigits?]
      cases digitValue? base c with
      | none => rfl
      | some d => exact ofDigits?_append base back front _

/-- Digits are read by Horner's rule, from the front. -/
theorem ofDigits?_toDigits {base : ℕ} (hone : 1 < base) (hbase : base ≤ 16) (n : ℕ) :
    ofDigits? base (Nat.toDigits base n) 0 = some n := by
  induction n using Nat.strong_induction_on with
  | _ n ih =>
      rw [Nat.toDigits_eq_if hone]
      split_ifs with hlt
      · rw [ofDigits?, digitValue?_digitChar hbase hlt]
        simp [ofDigits?]
      · have hmod := Nat.mod_lt n (show 0 < base by omega)
        have hdiv : n / base < n := Nat.div_lt_self (by omega) hone
        rw [ofDigits?_append, ih _ hdiv, Option.bind_some, ofDigits?,
          digitValue?_digitChar hbase hmod]
        simp [ofDigits?, Nat.div_add_mod']

/-- The digits of a number spell the number. -/
theorem natural?_toDigits {base : ℕ} (hone : 1 < base) (hbase : base ≤ 16) (n : ℕ) :
    natural? base (Nat.toDigits base n) = some n := by
  have hnil : (Nat.toDigits base n).isEmpty = false := by
    rw [List.isEmpty_eq_false_iff]
    exact Nat.toDigits_ne_nil
  rw [natural?, hnil, ofDigits?_toDigits hone hbase]
  rfl

theorem natural?_ten_toDigits (n : ℕ) : natural? 10 (Nat.toDigits 10 n) = some n :=
  natural?_toDigits (by decide) (by decide) n

/-- Different numbers are written differently. -/
theorem toString_injective : Function.Injective (toString : ℕ → String) := by
  intro n n' h
  have hlist := congrArg String.toList h
  rw [Nat.toString_eq_repr, Nat.toString_eq_repr, Nat.toList_repr, Nat.toList_repr] at hlist
  have hread := congrArg (natural? 10) hlist
  rw [natural?_ten_toDigits, natural?_ten_toDigits] at hread
  exact Option.some.inj hread

/-- Every digit of a number has a value below the base. -/
theorem exists_digit_of_mem_toDigits {base : ℕ} (hone : 1 < base) (n : ℕ) :
    ∀ c ∈ Nat.toDigits base n, ∃ d < base, c = Nat.digitChar d := by
  induction n using Nat.strong_induction_on with
  | _ n ih =>
      intro c hc
      rw [Nat.toDigits_eq_if hone] at hc
      split_ifs at hc with hlt
      · exact ⟨n, hlt, List.mem_singleton.1 hc⟩
      · rcases List.mem_append.1 hc with hc | hc
        · exact ih _ (Nat.div_lt_self (by omega) hone) c hc
        · exact ⟨n % base, Nat.mod_lt n (by omega), List.mem_singleton.1 hc⟩

theorem isDecimalDigit_digitChar : ∀ d < 10, isDecimalDigit (Nat.digitChar d) = true := by
  decide

theorem isDecimalDigit_of_mem_toDigits {n : ℕ} {c : Char} (hc : c ∈ Nat.toDigits 10 n) :
    isDecimalDigit c = true := by
  obtain ⟨d, hd, rfl⟩ := exists_digit_of_mem_toDigits (by decide) n c hc
  exact isDecimalDigit_digitChar d hd

theorem exists_cons_toDigits (n : ℕ) :
    ∃ d < 10, ∃ cs, Nat.toDigits 10 n = Nat.digitChar d :: cs := by
  obtain ⟨c, cs, hdigits⟩ := List.exists_cons_of_ne_nil (Nat.toDigits_ne_nil (b := 10) (n := n))
  obtain ⟨d, hd, rfl⟩ := exists_digit_of_mem_toDigits (by decide : 1 < 10) n c
    (hdigits ▸ List.mem_cons_self)
  exact ⟨d, hd, cs, hdigits⟩

/-- No number but zero begins with a zero. -/
theorem eq_zero_of_head?_toDigits {n : ℕ} (hhead : (Nat.toDigits 10 n).head? = some '0') :
    n = 0 := by
  have hnonzero : ∀ d < 10, Nat.digitChar d = '0' → d = 0 := by decide
  induction n using Nat.strong_induction_on with
  | _ n ih =>
      rw [Nat.toDigits_eq_if (by decide)] at hhead
      split_ifs at hhead with hlt
      · exact hnonzero n hlt (Option.some.inj hhead)
      · rw [List.head?_append_of_ne_nil _ Nat.toDigits_ne_nil] at hhead
        have hzero := ih (n / 10) (by omega) hhead
        omega

/-- A character is found under its code point. -/
theorem charOfCode?_toNat (c : Char) : charOfCode? c.toNat = some c := by
  rw [charOfCode?, dif_pos (show c.toNat.isValidChar from c.valid)]
  rfl

end Text
end PetriCcs
