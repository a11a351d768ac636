import PetriCcs.Proofs.Digits
import PetriCcs.Proofs.TokenReading

/-! # Tokens from their spelling

A reader of a style (`TokenReader`) takes the first token off the spelling of spaced tokens; where
there is one, the spelling determines the tokens (`TokenReader.letters_inj`).  A reader need not look
further than the spaces allow: a name or a number ends where no operand begins.  The reader of plain
text is `plainReader`. -/

namespace PetriCcs

/-! ### Names -/

/-- A letter of ASCII. -/
def isLetter (c : Char) : Bool := isUpperLetter c || isLowerLetter c

theorem isNameChar_of_isLetter {c : Char} (h : isLetter c = true) : isNameChar c = true := by
  unfold isLetter at h
  unfold isNameChar isWordChar
  rcases Bool.or_eq_true_iff.1 h with h | h <;> simp [h]

/-- The first character is a letter. -/
def LetterFirst (text : List Char) : Prop := ∃ c cs, text = c :: cs ∧ isLetter c = true

theorem cons_ne_cons {c d : Char} (h : c ≠ d) {cs ds : List Char} : c :: cs ≠ d :: ds :=
  fun heq => h (List.cons.inj heq).1

theorem LetterFirst.append_ne {text : List Char} (h : LetterFirst text) {c : Char}
    (hc : isLetter c = false) (rest cs : List Char) : text ++ rest ≠ c :: cs := by
  obtain ⟨d, ds, rfl, hd⟩ := h
  refine cons_ne_cons ?_
  rintro rfl
  exact Bool.false_ne_true (hc.symm.trans hd)

/-- A letter and then name characters. -/
structure IsNameText (text : List Char) : Prop where
  letterFirst : LetterFirst text
  nameChars : ∀ c ∈ text, isNameChar c = true

theorem isNameText_of_isName {isFirst : Char → Bool}
    (hfirst : ∀ c, isFirst c = true → isLetter c = true) {raw : String}
    (h : isName isFirst raw = true) : IsNameText raw.toList := by
  unfold isName at h
  cases hlist : raw.toList with
  | nil => simp [hlist] at h
  | cons c cs =>
      rw [hlist] at h
      obtain ⟨hc, hcs⟩ := Bool.and_eq_true_iff.1 h
      have hletter := hfirst c hc
      exact ⟨⟨c, cs, rfl, hletter⟩,
        List.forall_mem_cons.2 ⟨isNameChar_of_isLetter hletter, List.all_eq_true.1 hcs⟩⟩

theorem ActionName.isNameText (name : ActionName) : IsNameText name.text.toList :=
  isNameText_of_isName (fun _ h => Bool.or_eq_true_iff.2 (Or.inr h)) name.valid

theorem ConstantName.isNameText (name : ConstantName) : IsNameText name.text.toList :=
  isNameText_of_isName (fun _ h => Bool.or_eq_true_iff.2 (Or.inl h)) name.valid

/-- The name of an action with these characters. -/
def readAction? (word : List Char) : Option ActionName :=
  (ActionName.ofString (String.ofList word)).toOption

/-- The name of a constant with these characters. -/
def readConstant? (word : List Char) : Option ConstantName :=
  (ConstantName.ofString (String.ofList word)).toOption

theorem readAction?_toList (name : ActionName) : readAction? name.text.toList = some name := by
  rw [readAction?, String.ofList_toList, ActionName.ofString, dif_pos name.valid]
  rfl

theorem readConstant?_toList (name : ConstantName) :
    readConstant? name.text.toList = some name := by
  rw [readConstant?, String.ofList_toList, ConstantName.ofString, dif_pos name.valid]
  rfl

/-! ### Readers -/

/-- After the end of an operand there is nothing, or a token that begins none. -/
theorem Spaced.next {t : Token} {ts : List Token} (h : Spaced (t :: ts)) (ht : t.ends = true) :
    ts = [] ∨ ∃ us, ts = .plus :: us ∨ ts = .bar :: us ∨ ts = .closing :: us ∨
      ∃ count, ts = .power count :: us := by
  cases ts with
  | nil => exact Or.inl rfl
  | cons u us =>
      have hu := (List.isChain_cons_cons.1 h).1 ht
      refine Or.inr ⟨us, ?_⟩
      cases u with
      | plus => exact Or.inl rfl
      | bar => exact Or.inr (Or.inl rfl)
      | closing => exact Or.inr (Or.inr (Or.inl rfl))
      | power count => exact Or.inr (Or.inr (Or.inr ⟨count, rfl⟩))
      | inaction | constant _ | guard _ | restriction _ | opening => cases hu

theorem Spaced.tail {t : Token} {ts : List Token} (h : Spaced (t :: ts)) : Spaced ts :=
  List.IsChain.tail h

/-- A reader of the tokens that a style spells takes the first one off spaced tokens. -/
structure TokenReader (style : TermStyle) where
  next : List Char → Option (Token × List Char)
  next_nil : next [] = none
  next_letters : ∀ t ts, Spaced (t :: ts) →
    next (style.letters (t :: ts)) = some (t, style.letters ts)

namespace TokenReader

variable {style : TermStyle} {t : Token} {ts us : List Token}

theorem letters_ne_nil (reader : TokenReader style) (h : Spaced (t :: ts)) :
    style.letters (t :: ts) ≠ [] := by
  intro hnil
  have hnext := reader.next_letters t ts h
  rw [hnil, reader.next_nil] at hnext
  cases hnext

/-- Where a reader finds the first token, spaced tokens can be told from their spelling. -/
theorem letters_inj (reader : TokenReader style) (hts : Spaced ts) (hus : Spaced us)
    (heq : style.letters ts = style.letters us) : ts = us := by
  induction ts generalizing us with
  | nil =>
      cases us with
      | nil => rfl
      | cons u us => exact absurd heq.symm (reader.letters_ne_nil hus)
  | cons t ts ih =>
      cases us with
      | nil => exact absurd heq (reader.letters_ne_nil hts)
      | cons u us =>
          have hnext := reader.next_letters t ts hts
          rw [heq, reader.next_letters u us hus] at hnext
          obtain ⟨rfl, hrest⟩ := Prod.mk.inj (Option.some.inj hnext)
          rw [ih hts.tail hus.tail hrest.symm]

end TokenReader

/-- The next token, by the letter that a name begins with. -/
def nextToken (word mark : List Char → Option (Token × List Char)) :
    List Char → Option (Token × List Char)
  | [] => none
  | c :: cs => if isLetter c then word (c :: cs) else mark (c :: cs)

theorem nextToken_word {word mark : List Char → Option (Token × List Char)} {text : List Char}
    (h : LetterFirst text) (rest : List Char) :
    nextToken word mark (text ++ rest) = word (text ++ rest) := by
  obtain ⟨c, cs, rfl, hc⟩ := h
  exact if_pos hc

theorem nextToken_mark {word mark : List Char → Option (Token × List Char)} {c : Char}
    (h : isLetter c = false) (cs : List Char) : nextToken word mark (c :: cs) = mark (c :: cs) :=
  if_neg (Bool.eq_false_iff.1 h)

/-- A run of characters of a class ends before any other character. -/
theorem span_append_cons {p : Char → Bool} {run : List Char} (hrun : ∀ c ∈ run, p c = true)
    {c : Char} (hc : p c = false) (rest : List Char) :
    (run ++ c :: rest).span p = (run, c :: rest) :=
  Text.span_append hrun fun _ hd => Option.some.inj hd ▸ hc

/-- The exponent with these digits. -/
def readPower? (digits : List Char) : Option Token :=
  (Text.natural? 10 digits).map fun n => .power (UInt64.ofNat n)

theorem readPower?_toList (count : UInt64) :
    readPower? (toString count.toNat).toList = some (.power count) := by
  rw [readPower?, Nat.toString_eq_repr, Nat.toList_repr, Text.natural?_ten_toDigits,
    Option.map_some, UInt64.ofNat_toNat]

theorem isDecimalDigit_of_mem_toString {n : ℕ} : ∀ c ∈ (toString n).toList,
    Text.isDecimalDigit c = true := by
  intro c hc
  rw [Nat.toString_eq_repr, Nat.toList_repr] at hc
  exact Text.isDecimalDigit_of_mem_toDigits hc

/-! ### Plain text -/

/-- Reads a name, with the marks that make a guard of it if they follow. -/
def plainWord (text : List Char) : Option (Token × List Char) :=
  let (word, rest) := text.span isNameChar
  match rest with
  | '?' :: '.' :: rest => (readAction? word).map fun name => (.guard (.input name), rest)
  | '!' :: '.' :: rest => (readAction? word).map fun name => (.guard (.co name), rest)
  | rest => (readConstant? word).map fun name => (.constant name, rest)

/-- Reads a token that does not begin with a letter. -/
def plainMark : List Char → Option (Token × List Char)
  | '0' :: rest => some (.inaction, rest)
  | 'τ' :: '.' :: rest => some (.guard .internal, rest)
  | '(' :: 'ν' :: rest =>
    let (word, rest) := rest.span isNameChar
    (readAction? word).map fun name => (.restriction name, rest.drop 1)
  | '^' :: rest =>
    let (digits, rest) := rest.span Text.isDecimalDigit
    (readPower? digits).map fun token => (token, rest)
  | ' ' :: '+' :: ' ' :: rest => some (.plus, rest)
  | ' ' :: '∥' :: ' ' :: rest => some (.bar, rest)
  | '(' :: rest => some (.opening, rest)
  | ')' :: rest => some (.closing, rest)
  | _ => none

section plain

open TermStyle (plain letters_cons)

variable (ts : List Token)

theorem plain_letters_constant (name : ConstantName) :
    plain.letters (.constant name :: ts) = name.text.toList ++ plain.letters ts :=
  letters_cons plain _ ts

theorem plain_letters_input (name : ActionName) :
    plain.letters (.guard (.input name) :: ts) =
      name.text.toList ++ '?' :: '.' :: plain.letters ts := by
  simp [letters_cons, TermStyle.spell, plain, TermStyle.plainAction]

theorem plain_letters_co (name : ActionName) :
    plain.letters (.guard (.co name) :: ts) =
      name.text.toList ++ '!' :: '.' :: plain.letters ts := by
  simp [letters_cons, TermStyle.spell, plain, TermStyle.plainAction]

theorem plain_letters_restriction (name : ActionName) :
    plain.letters (.restriction name :: ts) =
      '(' :: 'ν' :: (name.text.toList ++ ')' :: plain.letters ts) := by
  simp [letters_cons, TermStyle.spell, plain]

theorem plain_letters_power (count : UInt64) :
    plain.letters (.power count :: ts) =
      '^' :: ((toString count.toNat).toList ++ plain.letters ts) := by
  simp [letters_cons, TermStyle.spell, plain]

variable {ts}

/-- What follows an operand in plain text begins with a blank, a parenthesis or a caret. -/
theorem head?_plain_letters {t : Token} (h : Spaced (t :: ts)) (ht : t.ends = true) :
    ∀ c ∈ (plain.letters ts).head?, c = ' ' ∨ c = ')' ∨ c = '^' := by
  intro c hc
  obtain rfl | ⟨us, rfl | rfl | rfl | ⟨count, rfl⟩⟩ := h.next ht
  · cases hc
  · exact Or.inl (Option.some.inj hc).symm
  · exact Or.inl (Option.some.inj hc).symm
  · exact Or.inr (Or.inl (Option.some.inj hc).symm)
  · rw [plain_letters_power] at hc
    exact Or.inr (Or.inr (Option.some.inj hc).symm)

/-- No class that leaves these three out goes on behind an operand. -/
theorem head?_plain_letters_eq_false {t : Token} (h : Spaced (t :: ts)) (ht : t.ends = true)
    {p : Char → Bool} (hp : p ' ' = false ∧ p ')' = false ∧ p '^' = false) :
    ∀ c ∈ (plain.letters ts).head?, p c = false := by
  intro c hc
  obtain rfl | rfl | rfl := head?_plain_letters h ht c hc
  · exact hp.1
  · exact hp.2.1
  · exact hp.2.2

/-- An opening parenthesis of plain text is not one of a restriction. -/
theorem plain_letters_ne (ts : List Token) (cs : List Char) : plain.letters ts ≠ 'ν' :: cs := by
  obtain _ | ⟨t, ts⟩ := ts
  · exact nofun
  · cases t with
    | constant name =>
        rw [plain_letters_constant]
        exact name.isNameText.letterFirst.append_ne (by decide) _ _
    | guard action =>
        cases action with
        | input name =>
            rw [plain_letters_input]
            exact name.isNameText.letterFirst.append_ne (by decide) _ _
        | co name =>
            rw [plain_letters_co]
            exact name.isNameText.letterFirst.append_ne (by decide) _ _
        | internal => exact cons_ne_cons (by decide)
    | restriction name =>
        rw [plain_letters_restriction]
        exact cons_ne_cons (by decide)
    | power count =>
        rw [plain_letters_power]
        exact cons_ne_cons (by decide)
    | inaction | plus | bar | opening | closing => exact cons_ne_cons (by decide)

theorem nextToken_plain_letters (t : Token) (ts : List Token) (h : Spaced (t :: ts)) :
    nextToken plainWord plainMark (plain.letters (t :: ts)) = some (t, plain.letters ts) := by
  cases t with
  | constant name =>
      have hhead := head?_plain_letters h rfl
      rw [plain_letters_constant, nextToken_word name.isNameText.letterFirst, plainWord,
        Text.span_append name.isNameText.nameChars (head?_plain_letters_eq_false h rfl (by decide))]
      dsimp only
      split
      case h_3 => rw [readConstant?_toList, Option.map_some]
      -- neither mark of a guard follows a constant
      all_goals
        rename_i hrest
        rw [hrest] at hhead
        exact absurd (hhead _ rfl) (by decide)
  | guard action =>
      cases action with
      | input name =>
          rw [plain_letters_input, nextToken_word name.isNameText.letterFirst, plainWord,
            span_append_cons name.isNameText.nameChars (by decide)]
          simp only [readAction?_toList, Option.map_some]
      | co name =>
          rw [plain_letters_co, nextToken_word name.isNameText.letterFirst, plainWord,
            span_append_cons name.isNameText.nameChars (by decide)]
          simp only [readAction?_toList, Option.map_some]
      | internal => rfl
  | restriction name =>
      rw [plain_letters_restriction, nextToken_mark (by decide), plainMark,
        span_append_cons name.isNameText.nameChars (by decide)]
      simp only [readAction?_toList, Option.map_some]
      rfl
  | power count =>
      rw [plain_letters_power, nextToken_mark (by decide), plainMark,
        Text.span_append isDecimalDigit_of_mem_toString
          (head?_plain_letters_eq_false h rfl (by decide))]
      simp only [readPower?_toList, Option.map_some]
  | opening =>
      show plainMark ('(' :: plain.letters ts) = _
      rw [plainMark]
      intro rest hrest
      exact plain_letters_ne ts rest hrest
  | inaction | plus | bar | closing => rfl

/-- The reader of plain text. -/
def plainReader : TokenReader plain where
  next := nextToken plainWord plainMark
  next_nil := rfl
  next_letters := nextToken_plain_letters

end plain

end PetriCcs
