import PetriCcs.Proofs.Digits
import PetriCcs.Ron.Lexical
import PetriCcs.Text.Escape

/-! # The tokens of written RON

What the writer puts into a text is read token by token: blanks are passed over up to the first
other character (`skipBlanks_append`), a string is read from its escapes (`string?_escaped`), a
plain name up to a colon (`fieldName?_of_isPlainName`) and a number of 64 bits up to its last digit
(`number?_toDigits`). -/

namespace PetriCcs
namespace Ron

open Text (Stops isDecimalDigit)

variable {rest : List Char}

/-! ### Blanks -/

/-- Neither a blank nor a comment comes first. -/
def Opens (cs : List Char) : Prop := ∀ c ∈ cs.head?, isBlank c = false ∧ c ≠ '/'

theorem opens_cons {c : Char} (hc : isBlank c = false ∧ c ≠ '/') (cs : List Char) :
    Opens (c :: cs) := fun _ hd => Option.some.inj hd ▸ hc

theorem skipBlanks_append (blanks : List Char) (hblanks : ∀ c ∈ blanks, isBlank c = true)
    {cs : List Char} (hcs : Opens cs) : skipBlanks (blanks ++ cs) = some cs := by
  rw [skipBlanks, skipBlanksIn, Text.dropWhile_append hblanks fun c hc => (hcs c hc).1]
  split
  case h_4 => rfl
  all_goals exact absurd rfl (hcs '/' rfl).2

theorem skipBlanks_of_opens {cs : List Char} (hcs : Opens cs) : skipBlanks cs = some cs :=
  skipBlanks_append [] (fun _ hc => absurd hc List.not_mem_nil) hcs

/-! ### Strings -/

/-- The code point of a character is found between the braces of its escape. -/
theorem codeEscape?_hexDigits (c : Char) (rest : List Char) :
    codeEscape? ('\x7b' :: (Text.hexDigits c.toNat ++ '\x7d' :: rest)) = some (c, rest) := by
  have hbrace : ∀ d ∈ Text.hexDigits c.toNat, decide (d ≠ '\x7d') = true := by
    have hdigit : ∀ d < 16, decide (Nat.digitChar d ≠ '\x7d') = true := by decide
    intro d hd
    obtain ⟨n, hn, rfl⟩ := Text.exists_digit_of_mem_toDigits (by decide) _ d hd
    exact hdigit n hn
  have hlength : (Text.hexDigits c.toNat).length ≤ 6 := by
    rw [Text.hexDigits, Nat.length_toDigits_le_iff (by decide) (by decide)]
    have hvalid : c.toNat < 0xD800 ∨ 0xDFFF < c.toNat ∧ c.toNat < 0x110000 := c.valid
    omega
  have htake : (Text.hexDigits c.toNat ++ '\x7d' :: rest).takeWhile (· ≠ '\x7d') =
      Text.hexDigits c.toNat := Text.takeWhile_append hbrace (by simp)
  have hnatural : Text.natural? 16 (Text.hexDigits c.toNat) = some c.toNat :=
    Text.natural?_toDigits (by decide) (by decide) c.toNat
  rw [codeEscape?, htake]
  simp [hlength, hnatural, Text.charOfCode?_toNat]

theorem stringBody_escape {c : Char} {written : List Char}
    (h : ∀ cs, escape? .text (written ++ cs) = some (c, cs)) (fuel : ℕ) (cs : List Char) :
    stringBody .text (fuel + 1) (('\\' :: written) ++ cs) =
      (stringBody .text fuel cs).map (Prod.map (c :: ·) id) := by
  rw [List.cons_append, stringBody, if_neg (by decide), if_pos rfl, h, Option.map_eq_bind]
  rfl

theorem stringBody_char {c : Char} (hquote : c ≠ '"') (hescape : c ≠ '\\') (fuel : ℕ)
    (cs : List Char) : stringBody .text (fuel + 1) (c :: cs) =
      (stringBody .text fuel cs).map (Prod.map (c :: ·) id) := by
  rw [stringBody, if_neg hquote, if_neg hescape, Option.map_eq_bind]
  rfl

/-- A written character is read in one step. -/
theorem stringBody_escapeChar (c : Char) (fuel : ℕ) (cs : List Char) :
    stringBody .text (fuel + 1) (Text.escapeChar ['"', '\''] c ++ cs) =
      (stringBody .text fuel cs).map (Prod.map (c :: ·) id) := by
  unfold Text.escapeChar
  split_ifs with hnull htab hreturn hline hescape hquote hhidden
  -- the characters that have a letter of their own
  any_goals
    subst c
    exact stringBody_escape (fun _ => rfl) fuel cs
  · have hc : c = '"' ∨ c = '\'' := by simpa using hquote
    rcases hc with rfl | rfl <;> exact stringBody_escape (fun _ => rfl) fuel cs
  · refine stringBody_escape (fun cs => ?_) fuel cs
    show codeEscape? ('\x7b' :: (Text.hexDigits c.toNat ++ ['\x7d'] ++ cs)) = _
    rw [List.append_assoc]
    exact codeEscape?_hexDigits c cs
  · have hplain : c ≠ '"' := by
      rintro rfl
      exact hquote rfl
    exact stringBody_char hplain hescape fuel cs

/-- A text is read from between its quotes, when there is fuel for its characters. -/
theorem stringBody_flatMap_escapeChar (rest : List Char) : ∀ {cs : List Char} {fuel : ℕ},
    cs.length < fuel → stringBody .text fuel
      (cs.flatMap (Text.escapeChar ['"', '\'']) ++ '"' :: rest) = some (cs, rest)
  | cs, 0, hfuel => absurd hfuel (Nat.not_lt_zero _)
  | [], fuel + 1, _ => by rw [List.flatMap_nil, List.nil_append, stringBody, if_pos rfl]
  | c :: cs, fuel + 1, hfuel => by
      rw [List.flatMap_cons, List.append_assoc, stringBody_escapeChar,
        stringBody_flatMap_escapeChar rest (Nat.lt_of_succ_lt_succ hfuel)]
      rfl

theorem length_le_flatMap_escapeChar (quotes : List Char) : ∀ cs : List Char,
    cs.length ≤ (cs.flatMap (Text.escapeChar quotes)).length
  | [] => Nat.zero_le _
  | c :: cs => by
      have hpos : 0 < (Text.escapeChar quotes c).length := by
        unfold Text.escapeChar
        split_ifs <;> simp [Text.codePointEscape]
      have htail := length_le_flatMap_escapeChar quotes cs
      rw [List.flatMap_cons, List.length_append, List.length_cons]
      omega

/-- A text between its quotes is read, whatever its characters are. -/
theorem string?_escaped (s rest : List Char) :
    string? ('"' :: (s.flatMap (Text.escapeChar ['"', '\'']) ++ '"' :: rest)) = some (s, rest) := by
  have hlength := length_le_flatMap_escapeChar ['"', '\''] s
  refine stringBody_flatMap_escapeChar rest ?_
  rw [List.length_append]
  omega

/-! ### Names -/

/-- A name that may stand without a mark. -/
def isPlainName : List Char → Bool
  | [] => false
  | c :: cs => isIdentStart c && cs.all Text.isIdentifierPart

theorem word?_of_isPlainName {name : List Char} (hname : isPlainName name = true)
    (hrest : ∀ c ∈ rest.head?, Text.isIdentifierPart c = false) :
    word? (name ++ rest) = some (String.ofList name, rest) := by
  cases name with
  | nil => cases hname
  | cons c cs =>
      obtain ⟨hstart, hparts⟩ := Bool.and_eq_true_iff.1 hname
      rw [List.cons_append, word?, if_pos hstart, Text.span_append (List.all_eq_true.1 hparts) hrest]

theorem exists_cons_of_isPlainName {name : List Char} (hname : isPlainName name = true) :
    ∃ c cs, name = c :: cs ∧ isIdentStart c = true := by
  cases name with
  | nil => cases hname
  | cons c cs => exact ⟨c, cs, rfl, (Bool.and_eq_true_iff.1 hname).1⟩

/-- No blank begins a name: those of ASCII come before the letters, the others are none. -/
theorem isBlank_of_isIdentStart {c : Char} (hc : isIdentStart c = true) : isBlank c = false := by
  have hcontrol : ∀ n < 14, isIdentStart (Char.ofNat n) = false := by decide
  by_contra hblank
  simp only [isBlank, Bool.not_eq_false, Bool.or_eq_true, Bool.and_eq_true, beq_iff_eq,
    decide_eq_true_eq] at hblank
  rcases hblank with (((((rfl | ⟨-, hle⟩) | rfl) | rfl) | rfl) | rfl) | rfl
  case inl.inl.inl.inl.inl.inr =>
    have hlt : c.toNat < 14 := Nat.lt_succ_of_le hle
    rw [← Char.ofNat_toNat c, hcontrol _ hlt] at hc
    cases hc
  all_goals exact absurd hc (by decide +kernel)

/-- No literal begins with a name and a colon: no quote and no mark stands in a name. -/
theorem startsLiteral_of_isPlainName {name : List Char} (hname : isPlainName name = true)
    (rest : List Char) : startsLiteral (name ++ ':' :: rest) = false := by
  have hquote : Text.isIdentifierPart '"' = false := by decide
  have hsingle : Text.isIdentifierPart '\'' = false := by decide
  have hmark : Text.isIdentifierPart '#' = false := by decide
  -- three characters decide, and the colon may be the second or the third of them
  rcases name with _ | ⟨c, _ | ⟨d, _ | ⟨e, es⟩⟩⟩
  all_goals
    unfold startsLiteral
    split <;> simp_all [isPlainName]

theorem name?_of_isPlainName {name : List Char} (hname : isPlainName name = true)
    (rest : List Char) : name? (name ++ ':' :: rest) = some (String.ofList name, ':' :: rest) := by
  have hmark : Text.isIdentifierPart '#' = false := by decide
  rw [name?, if_neg (by rw [startsLiteral_of_isPlainName hname]; decide)]
  · exact word?_of_isPlainName hname fun c hc => Option.some.inj hc ▸ (by decide)
  · rintro more heq
    rcases name with _ | ⟨c, _ | ⟨d, ds⟩⟩ <;> simp_all [isPlainName]

theorem fieldName?_of_isPlainName {name : List Char} (hname : isPlainName name = true)
    (rest : List Char) :
    fieldName? (name ++ ':' :: rest) = some (String.ofList name, ':' :: rest) := by
  have hcolon : isRawIdentChar ':' = false := by decide
  rw [fieldName?, name?_of_isPlainName hname]
  simp [hcolon]

/-! ### Numbers -/

theorem sign_of_isDecimalDigit {c : Char} (hc : isDecimalDigit c = true) (cs : List Char) :
    Text.sign (c :: cs) = (false, c :: cs) := by
  unfold Text.sign
  split
  case h_3 => rfl
  all_goals
    rename_i heq
    cases heq
    cases hc

/-- A zero that comes first is the only digit, so it marks no base. -/
theorem baseOf_toDigits (n : ℕ) (hrest : Stops rest) :
    baseOf (Nat.toDigits 10 n ++ rest) = (10, Nat.toDigits 10 n ++ rest) := by
  have hafter {c : Char} {more : List Char} (heq : Nat.toDigits 10 n ++ rest = '0' :: c :: more) :
      c = ',' ∨ c = '\n' := by
    have hhead : (Nat.toDigits 10 n).head? = some '0' := by
      rw [← List.head?_append_of_ne_nil _ Nat.toDigits_ne_nil, heq, List.head?_cons]
    rw [Text.eq_zero_of_head?_toDigits hhead] at heq
    obtain rfl : rest = c :: more := (List.cons.inj heq).2
    exact hrest c rfl
  unfold baseOf
  split
  case h_4 => rfl
  all_goals
    rename_i heq
    rcases hafter heq with h | h <;> cases h

theorem digitRun?_toDigits (n : ℕ) : digitRun? 10 (Nat.toDigits 10 n) = some n := by
  have hunderscore : ∀ c ∈ Nat.toDigits 10 n, c ≠ '_' := by
    rintro c hc rfl
    cases Text.isDecimalDigit_of_mem_toDigits hc
  have hfilter : (Nat.toDigits 10 n).filter (· ≠ '_') = Nat.toDigits 10 n :=
    List.filter_eq_self.2 fun c hc => decide_eq_true (hunderscore c hc)
  unfold digitRun?
  split
  · rename_i heq
    exact absurd rfl (hunderscore '_' (heq ▸ List.mem_cons_self))
  · rw [hfilter, Text.natural?_ten_toDigits]

theorem word?_eq_none (hrest : Stops rest) : word? rest = none := by
  cases rest with
  | nil => rfl
  | cons c rest => exact if_neg (Bool.not_eq_true _ ▸ hrest.head (p := isIdentStart) rfl rfl c rfl)

theorem isWholeChar_of_isDecimalDigit {c : Char} (hc : isDecimalDigit c = true) :
    isWholeChar c = true := by
  rw [isWholeChar, Text.hexValue?, if_pos hc]
  rfl

theorem isFloatChar_of_isDecimalDigit {c : Char} (hc : isDecimalDigit c = true) :
    isFloatChar c = true := by
  simp [isFloatChar, hc]

theorem fits_of_lt {n : ℕ} (hn : n < UInt64.size) : fits false n 64 false = true :=
  decide_eq_true hn

/-- A number is read up to its last digit, as a whole one without a type. -/
theorem number?_toDigits {n : ℕ} (hn : n < UInt64.size) (hrest : Stops rest) :
    number? (Nat.toDigits 10 n ++ rest) = some (.natural n, rest) := by
  obtain ⟨d, hd, cs, hdigits⟩ := Text.exists_cons_toDigits n
  have hsign : Text.sign (Nat.toDigits 10 n ++ rest) = (false, Nat.toDigits 10 n ++ rest) := by
    rw [hdigits]
    exact sign_of_isDecimalDigit (Text.isDecimalDigit_digitChar d hd) _
  have hwhole : ∀ c ∈ Nat.toDigits 10 n, isWholeChar c = true := fun c hc =>
    isWholeChar_of_isDecimalDigit (Text.isDecimalDigit_of_mem_toDigits hc)
  have hfloat : ∀ c ∈ Nat.toDigits 10 n, isFloatChar c = true := fun c hc =>
    isFloatChar_of_isDecimalDigit (Text.isDecimalDigit_of_mem_toDigits hc)
  have hrun := Text.takeWhile_append hwhole (hrest.head rfl rfl)
  have hafter := Text.dropWhile_append hwhole (hrest.head rfl rfl)
  have htype : typeSuffix? (Nat.toDigits 10 n ++ rest) = none := by
    rw [typeSuffix?, hafter, word?_eq_none hrest]
    rfl
  have hinteger : integer? (Nat.toDigits 10 n ++ rest) = some (.natural n, rest) := by
    rw [integer?, hsign]
    simp [baseOf_toDigits n hrest, hrun, hafter, digitRun?_toDigits, htype, fits_of_lt hn]
  rw [number?, hsign, hinteger]
  simp only
  rw [hrun, Text.takeWhile_append hfloat (hrest.head rfl rfl), if_neg (Nat.lt_irrefl _)]

end Ron
end PetriCcs
