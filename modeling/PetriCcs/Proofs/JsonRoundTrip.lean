import Mathlib.Data.List.DropRight
import PetriCcs.Json.Reader
import PetriCcs.Json.Writer
import PetriCcs.Proofs.Data
import PetriCcs.Proofs.Digits

/-! # What is written in JSON is read back

Every datum is read back from its text, with the names of its records missing (`parse?_print`).
Each part of the writer has one lemma on the reader of that part, for any text that may follow:
a string in its quotes (`string_escaped`), a number (`number_toDigits`), the items of a list
(`items_write`) and the members of a record (`members_write`), where `ReadsBack` is what is known
of the values in them.  A value has fuel enough when there is one unit for each character. -/

namespace PetriCcs
namespace Json

open Text (Stops)

variable {rest : List Char}

/-! ### Blanks -/

theorem skipBlanks_of_isBlank {c : Char} (hc : isBlank c = true) (cs : List Char) :
    skipBlanks (c :: cs) = skipBlanks cs :=
  List.dropWhile_cons_of_pos hc

theorem skipBlanks_of_not_isBlank {c : Char} (hc : isBlank c = false) (cs : List Char) :
    skipBlanks (c :: cs) = c :: cs :=
  List.dropWhile_cons_of_neg (Bool.not_eq_true _ ▸ hc)

theorem skipBlanks_skipBlanks (cs : List Char) : skipBlanks (skipBlanks cs) = skipBlanks cs :=
  List.dropWhile_idempotent ..

theorem skipBlanks_newline (level : ℕ) (cs : List Char) :
    skipBlanks (newline level ++ cs) = skipBlanks cs := by
  have hblank : ∀ c ∈ newline level, isBlank c = true := by
    intro c hc
    rcases List.mem_cons.1 hc with rfl | hc
    · rfl
    · rw [List.eq_of_mem_replicate hc]
      rfl
  exact List.dropWhile_append_of_pos hblank

theorem skipBlanks_newline_cons {c : Char} (hc : isBlank c = false) (level : ℕ) (cs : List Char) :
    skipBlanks (newline level ++ c :: cs) = c :: cs := by
  rw [skipBlanks_newline, skipBlanks_of_not_isBlank hc]

/-- A value is read from its first character that is no blank. -/
theorem value_congr {cs cs' : List Char} (h : skipBlanks cs = skipBlanks cs') :
    ∀ fuel, value fuel cs = value fuel cs'
  | 0 => rfl
  | fuel + 1 => by rw [value, value, h]

theorem value_space (fuel : ℕ) (cs : List Char) : value fuel (' ' :: cs) = value fuel cs :=
  value_congr (skipBlanks_of_isBlank rfl cs) fuel

theorem items_congr {cs cs' : List Char} (h : skipBlanks cs = skipBlanks cs') :
    ∀ fuel, items fuel cs = items fuel cs'
  | 0 => rfl
  | fuel + 1 => by rw [items, items, value_congr h]

theorem members_congr {cs cs' : List Char} (h : skipBlanks cs = skipBlanks cs') :
    ∀ fuel, members fuel cs = members fuel cs'
  | 0 => rfl
  | fuel + 1 => by rw [members, members, h]

/-! ### Strings -/

/-- A piece that stands for a character, whatever comes after it. -/
def Piece.Shows (piece : Piece) (c : Char) : Prop :=
  ∀ more, characters (piece :: more) = (characters more).map (c :: ·)

theorem Piece.shows_char (c : Char) : (Piece.char c).Shows c := fun more => by rw [characters]

/-- A unit below the range of pairs is a character by itself. -/
theorem Piece.shows_unit {c : Char} (hc : c.toNat < 0xD800) : (Piece.unit c.toNat).Shows c := by
  have hhigh : isHighUnit c.toNat = false := by
    rw [isHighUnit, decide_eq_false (Nat.not_le_of_lt hc), Bool.false_and]
  rintro (_ | ⟨_ | low, more⟩)
  · simp [characters, Text.charOfCode?_toNat]
  · simp [characters, Text.charOfCode?_toNat, Option.map_eq_bind]
  · simp [characters, Text.charOfCode?_toNat, hhigh, Option.map_eq_bind]

/-- A unit escape has four digits, which spell the code point. -/
theorem unitEscape_eq {c : Char} (hc : c.toNat < 0x20) : ∃ a b d e,
    unitEscape c = ['\\', 'u', a, b, d, e] ∧ Text.natural? 16 [a, b, d, e] = some c.toNat := by
  have hpadded : ∀ n < 0x20,
      let padded := List.replicate (4 - (Text.hexDigits n).length) '0' ++ Text.hexDigits n
      padded.length = 4 ∧ Text.natural? 16 padded = some n := by decide
  obtain ⟨hlength, hvalue⟩ := hpadded c.toNat hc
  obtain ⟨a, b, d, e, hpadded⟩ := List.length_eq_four.1 hlength
  exact ⟨a, b, d, e, by rw [unitEscape, List.append_assoc, hpadded]; rfl, hpadded ▸ hvalue⟩

theorem pieces_letter {letter c : Char} (h : escaped? letter = some c) (cs : List Char) :
    pieces ('\\' :: letter :: cs) = (pieces cs).map (Prod.map (.char c :: ·) id) := by
  have hunit : letter ≠ 'u' := by
    rintro rfl
    cases h
  rw [pieces, h, Option.map_eq_bind]
  · rfl
  · rintro a b d e rest rfl
    exact absurd rfl hunit

theorem pieces_unit {a b d e : Char} {n : ℕ} (h : Text.natural? 16 [a, b, d, e] = some n)
    (cs : List Char) :
    pieces ('\\' :: 'u' :: a :: b :: d :: e :: cs) =
      (pieces cs).map (Prod.map (.unit n :: ·) id) := by
  rw [pieces, h, Option.map_eq_bind]
  rfl

theorem pieces_char {c : Char} (hquote : c ≠ '"') (hescape : c ≠ '\\') (hshown : ¬ c.toNat < 0x20)
    (cs : List Char) : pieces (c :: cs) = (pieces cs).map (Prod.map (.char c :: ·) id) := by
  rw [pieces, if_neg hshown, Option.map_eq_bind]
  · rfl
  all_goals simp_all

/-- A character is written so that one piece is read for it, which shows it. -/
theorem pieces_escapeChar (c : Char) : ∃ piece : Piece, piece.Shows c ∧
    ∀ cs, pieces (escapeChar c ++ cs) = (pieces cs).map (Prod.map (piece :: ·) id) := by
  unfold escapeChar
  split_ifs with hquote hescape hline htab hreturn hback hform hcontrol
  -- the characters that have a letter of their own
  any_goals
    subst c
    exact ⟨.char _, Piece.shows_char _, pieces_letter rfl⟩
  · obtain ⟨a, b, d, e, hwritten, hvalue⟩ := unitEscape_eq hcontrol
    refine ⟨.unit c.toNat, Piece.shows_unit (by omega), fun cs => ?_⟩
    rw [hwritten]
    exact pieces_unit hvalue cs
  · exact ⟨.char c, Piece.shows_char c, pieces_char hquote hescape hcontrol⟩

theorem pieces_flatMap_escapeChar (rest : List Char) : ∀ cs : List Char, ∃ found,
    pieces (cs.flatMap escapeChar ++ '"' :: rest) = some (found, rest) ∧ characters found = some cs
  | [] => ⟨[], by rw [List.flatMap_nil, List.nil_append, pieces], by rw [characters]⟩
  | c :: cs => by
      obtain ⟨found, hfound, hcharacters⟩ := pieces_flatMap_escapeChar rest cs
      obtain ⟨piece, hshows, hpiece⟩ := pieces_escapeChar c
      refine ⟨piece :: found, ?_, ?_⟩
      · rw [List.flatMap_cons, List.append_assoc, hpiece, hfound]
        rfl
      · rw [hshows, hcharacters]
        rfl

/-- A text is read from between its quotes. -/
theorem string_escaped (s : String) (rest : List Char) :
    string (s.toList.flatMap escapeChar ++ '"' :: rest) = some (some s, rest) := by
  obtain ⟨found, hfound, hcharacters⟩ := pieces_flatMap_escapeChar rest s.toList
  rw [string, hfound]
  simp [hcharacters]

theorem writeString_append (s : String) (cs : List Char) :
    writeString s ++ cs = '"' :: (s.toList.flatMap escapeChar ++ '"' :: cs) := by
  rw [writeString, List.append_assoc]
  rfl

theorem value_writeString (fuel : ℕ) (s : String) (rest : List Char) :
    value (fuel + 1) (writeString s ++ rest) = some (.text s, rest) := by
  rw [writeString_append, value, skipBlanks_of_not_isBlank rfl]
  simp [string_escaped]

/-! ### Numbers -/

theorem fraction_eq (hrest : Stops rest) : fraction rest = some (false, rest) := by
  rw [fraction]
  rintro more rfl
  rcases hrest '.' rfl with h | h <;> cases h

theorem exponent_eq (hrest : Stops rest) : exponent rest = some (false, rest) := by
  cases rest with
  | nil => rfl
  | cons c rest =>
      have hc := hrest.head (p := fun c => c == 'e' || c == 'E') rfl rfl c rfl
      unfold exponent
      exact if_neg (Bool.not_eq_true _ ▸ hc)

/-- The digits of a number are all that is read, since nothing after them belongs to it. -/
theorem unsigned_toDigits (n : ℕ) (hrest : Stops rest) :
    unsigned (Nat.toDigits 10 n ++ rest) = some (.natural n, rest) := by
  have hspan := Text.span_append (fun c => Text.isDecimalDigit_of_mem_toDigits (n := n))
    (hrest.head (p := Text.isDecimalDigit) rfl rfl)
  have hdigits : digits (Nat.toDigits 10 n ++ rest) = some (Nat.toDigits 10 n, rest) := by
    rw [digits, hspan]
    split
    · rename_i heq
      exact absurd (congrArg Prod.fst heq) Nat.toDigits_ne_nil
    · rfl
  have hzero (hhead : (Nat.toDigits 10 n).head? = some '0') : (Nat.toDigits 10 n).length = 1 := by
    rw [Text.eq_zero_of_head?_toDigits hhead]
    rfl
  rw [unsigned, hdigits]
  simpa [fraction_eq hrest, exponent_eq hrest, Text.natural?_ten_toDigits] using hzero

theorem number_toDigits (n : ℕ) (hrest : Stops rest) :
    number (Nat.toDigits 10 n ++ rest) = some (.natural n, rest) := by
  obtain ⟨d, hd, cs, hdigits⟩ := Text.exists_cons_toDigits n
  have hsign : ∀ d < 10, Nat.digitChar d ≠ '-' := by decide
  rw [number, unsigned_toDigits n hrest]
  intro more hminus
  rw [hdigits] at hminus
  exact hsign d hd (List.cons.inj hminus).1

/-- What begins with a digit is a number. -/
theorem value_of_isDecimalDigit {c : Char} (hc : Text.isDecimalDigit c = true)
    (hblank : isBlank c = false) (fuel : ℕ) (cs : List Char) :
    value (fuel + 1) (c :: cs) = number (c :: cs) := by
  rw [value, skipBlanks_of_not_isBlank hblank]
  split
  case h_7 => rfl
  all_goals
    rename_i heq
    cases heq
    cases hc

/-! ### What is known of a value -/

theorem isBlank_digitChar : ∀ d < 10, isBlank (Nat.digitChar d) = false := by
  decide

/-- No value begins with a blank or a closing bracket. -/
theorem write_eq_cons (level : ℕ) (datum : Datum) : ∃ c cs, write level datum = c :: cs ∧
    isBlank c = false ∧ c ≠ ']' := by
  cases datum with
  | natural n =>
      have hbracket : ∀ d < 10, Nat.digitChar d ≠ ']' := by decide
      obtain ⟨d, hd, cs, hdigits⟩ := Text.exists_cons_toDigits n
      exact ⟨_, cs, hdigits, isBlank_digitChar d hd, hbracket d hd⟩
  | text s => exact ⟨_, _, rfl, rfl, by decide⟩
  | boolean b => cases b <;> exact ⟨_, _, rfl, rfl, by decide⟩
  | list items => cases items <;> exact ⟨_, _, rfl, rfl, by decide⟩
  | record name fields => rcases fields with _ | ⟨_, _⟩ <;> exact ⟨_, _, rfl, rfl, by decide⟩
  | other => exact ⟨_, _, rfl, rfl, by decide⟩

/-- A datum is read from what is written for it, with what is left out of it missing. -/
def ReadsBack (level : ℕ) (datum : Datum) : Prop :=
  ∀ fuel rest, (write level datum).length ≤ fuel → Stops rest →
    value fuel (write level datum ++ rest) = some (datum.unnamed, rest)

/-- Nothing is written as the empty text, so there is fuel for one call. -/
theorem ReadsBack.intro {level : ℕ} {datum : Datum}
    (h : ∀ fuel rest, (write level datum).length ≤ fuel + 1 → Stops rest →
      value (fuel + 1) (write level datum ++ rest) = some (datum.unnamed, rest)) :
    ReadsBack level datum := by
  rintro (_ | fuel) rest hfuel hrest
  · obtain ⟨c, cs, hwrite, -⟩ := write_eq_cons level datum
    rw [hwrite] at hfuel
    cases hfuel
  · exact h fuel rest hfuel hrest

theorem stops_newline_append (level : ℕ) (rest : List Char) : Stops (newline level ++ rest) :=
  Text.stops_newline _

/-! ### Lists -/

theorem value_bracket {cs : List Char} (h : (skipBlanks cs).head? ≠ some ']') (fuel : ℕ) :
    value (fuel + 1) ('[' :: cs) = (items fuel cs).map (Prod.map .list id) := by
  rw [value, skipBlanks_of_not_isBlank rfl]
  simp only
  split
  · rename_i heq
    rw [heq] at h
    exact absurd rfl h
  · rw [items_congr (skipBlanks_skipBlanks cs), Option.map_eq_bind]
    rfl

theorem items_last {fuel : ℕ} {cs ending : List Char} {first : Datum}
    (hfirst : value fuel cs = some (first, ending)) (hend : skipBlanks ending = ']' :: rest) :
    items (fuel + 1) cs = some ([first], rest) := by
  rw [items, hfirst]
  simp [hend]

theorem items_next {fuel : ℕ} {cs ending : List Char} {first : Datum}
    (hfirst : value fuel cs = some (first, ',' :: ending)) :
    items (fuel + 1) cs = (items fuel ending).map (Prod.map (first :: ·) id) := by
  have hcomma : skipBlanks (',' :: ending) = ',' :: ending := skipBlanks_of_not_isBlank rfl ending
  rw [items, hfirst, Option.map_eq_bind]
  simp [hcomma]
  rfl

/-- The items of a list are read one after the other, up to the closing bracket. -/
theorem items_write {level outer : ℕ} (rest : List Char) {first : Datum} {more : List Datum}
    (hread : ∀ item ∈ first :: more, ReadsBack level item) {fuel : ℕ}
    (hfuel : (write level first).length + (writeItems level more).length < fuel) :
    items fuel (newline level ++ (write level first ++ (writeItems level more ++
      (newline outer ++ ']' :: rest)))) = some ((first :: more).map Datum.unnamed, rest) := by
  induction more generalizing first fuel with
  | nil =>
      obtain ⟨fuel, rfl⟩ := Nat.exists_eq_add_one.2 (Nat.zero_lt_of_lt hfuel)
      obtain ⟨hfirst, -⟩ := List.forall_mem_cons.1 hread
      have hvalue := hfirst fuel _ (by omega) (stops_newline_append outer (']' :: rest))
      rw [items_congr (skipBlanks_newline ..), writeItems, List.nil_append]
      exact items_last hvalue (skipBlanks_newline_cons rfl outer rest)
  | cons second more ih =>
      obtain ⟨fuel, rfl⟩ := Nat.exists_eq_add_one.2 (Nat.zero_lt_of_lt hfuel)
      obtain ⟨hfirst, hmore⟩ := List.forall_mem_cons.1 hread
      simp only [writeItems, List.nil_append, List.cons_append, List.append_assoc,
        List.length_cons, List.length_append] at hfuel ⊢
      have hvalue (cs : List Char) := hfirst fuel _ (by omega) (Text.stops_comma cs)
      rw [items_congr (skipBlanks_newline ..), items_next (hvalue _), ih hmore (by omega)]
      rfl

theorem readsBack_list (level : ℕ) (items : List Datum)
    (h : ∀ item ∈ items, ReadsBack (level + 1) item) : ReadsBack level (.list items) := by
  refine .intro fun fuel rest hfuel _ => ?_
  cases items with
  | nil => rfl
  | cons first more =>
      have hopen (cs : List Char) :
          (skipBlanks (newline (level + 1) ++ (write (level + 1) first ++ cs))).head? ≠ some ']' := by
        obtain ⟨c, written, hwrite, hblank, hclose⟩ := write_eq_cons (level + 1) first
        rw [hwrite, List.cons_append, skipBlanks_newline_cons hblank]
        exact fun hc => hclose (Option.some.inj hc)
      simp only [write, List.nil_append, List.cons_append, List.append_assoc,
        List.length_cons, List.length_append] at hfuel ⊢
      rw [value_bracket (hopen _), items_write rest h (by omega), Datum.unnamed,
        Datum.unnamedItems_eq_map]
      rfl

/-! ### Records -/

theorem value_brace {cs : List Char} (h : (skipBlanks cs).head? ≠ some '\x7d') (fuel : ℕ) :
    value (fuel + 1) ('\x7b' :: cs) = (members fuel cs).map (Prod.map objectOf id) := by
  rw [value, skipBlanks_of_not_isBlank rfl]
  simp only
  split
  · rename_i heq
    rw [heq] at h
    exact absurd rfl h
  · rw [members_congr (skipBlanks_skipBlanks cs), Option.map_eq_bind]
    rfl

theorem skipBlanks_member (level : ℕ) (key : String) (cs : List Char) :
    skipBlanks (newline level ++ (writeString key ++ cs)) = writeString key ++ cs := by
  rw [writeString_append, skipBlanks_newline_cons rfl]

theorem members_last {fuel : ℕ} {cs more ending : List Char} {key : String} {first : Datum}
    (hcs : skipBlanks cs = writeString key ++ ':' :: more)
    (hfirst : value fuel more = some (first, ending)) (hend : skipBlanks ending = '\x7d' :: rest) :
    members (fuel + 1) cs = some ([(some key, first)], rest) := by
  have hcolon : skipBlanks (':' :: more) = ':' :: more := skipBlanks_of_not_isBlank rfl more
  rw [members, hcs, writeString_append]
  simp [string_escaped, hcolon, hfirst, hend]

theorem members_next {fuel : ℕ} {cs more ending : List Char} {key : String} {first : Datum}
    (hcs : skipBlanks cs = writeString key ++ ':' :: more)
    (hfirst : value fuel more = some (first, ',' :: ending)) :
    members (fuel + 1) cs =
      (members fuel ending).map (Prod.map ((some key, first) :: ·) id) := by
  have hcolon : skipBlanks (':' :: more) = ':' :: more := skipBlanks_of_not_isBlank rfl more
  have hcomma : skipBlanks (',' :: ending) = ',' :: ending := skipBlanks_of_not_isBlank rfl ending
  rw [members, hcs, writeString_append, Option.map_eq_bind]
  simp [string_escaped, hcolon, hfirst, hcomma]
  rfl

/-- What a field is read as, its key being a text. -/
def readMember (field : String × Datum) : Option String × Datum := (some field.1, field.2.unnamed)

/-- The members of a record are read one after the other, up to the closing brace. -/
theorem members_write {level outer : ℕ} (rest : List Char) {first : String × Datum}
    {more : List (String × Datum)} (hread : ∀ field ∈ first :: more, ReadsBack level field.2)
    {fuel : ℕ} (hfuel : (write level first.2).length + (writeMembers level more).length < fuel) :
    members fuel (newline level ++ (writeString first.1 ++ ':' :: ' ' :: (write level first.2 ++
      (writeMembers level more ++ (newline outer ++ '\x7d' :: rest))))) =
        some ((first :: more).map readMember, rest) := by
  induction more generalizing first fuel with
  | nil =>
      obtain ⟨fuel, rfl⟩ := Nat.exists_eq_add_one.2 (Nat.zero_lt_of_lt hfuel)
      obtain ⟨hfirst, -⟩ := List.forall_mem_cons.1 hread
      have hvalue := hfirst fuel _ (by omega) (stops_newline_append outer ('\x7d' :: rest))
      rw [← value_space] at hvalue
      rw [writeMembers, List.nil_append]
      exact members_last (skipBlanks_member ..) hvalue (skipBlanks_newline_cons rfl outer rest)
  | cons second more ih =>
      obtain ⟨fuel, rfl⟩ := Nat.exists_eq_add_one.2 (Nat.zero_lt_of_lt hfuel)
      obtain ⟨hfirst, hmore⟩ := List.forall_mem_cons.1 hread
      simp only [writeMembers, List.nil_append, List.cons_append, List.append_assoc,
        List.length_cons, List.length_append] at hfuel ⊢
      have hvalue (cs : List Char) := hfirst fuel _ (by omega) (Text.stops_comma cs)
      rw [members_next (skipBlanks_member ..) ((value_space ..).trans (hvalue _)),
        ih hmore (by omega)]
      rfl

theorem objectOf_map_readMember (fields : List (String × Datum)) :
    objectOf (fields.map readMember) = .record none (Datum.unnamedFields fields) := by
  have hfields : fields.mapM (fun field => some (field.1, field.2.unnamed)) =
      some (Datum.unnamedFields fields) := by
    rw [Datum.unnamedFields_eq_map]
    exact List.mapM_pure
  rw [objectOf, List.mapM_map]
  simp only [Function.comp_def, readMember, Option.map_some, hfields]

theorem readsBack_record (level : ℕ) (name : Option String) (fields : List (String × Datum))
    (h : ∀ field ∈ fields, ReadsBack (level + 1) field.2) :
    ReadsBack level (.record name fields) := by
  refine .intro fun fuel rest hfuel _ => ?_
  cases fields with
  | nil => rfl
  | cons first more =>
      have hopen (cs : List Char) : (skipBlanks
          (newline (level + 1) ++ (writeString first.1 ++ cs))).head? ≠ some '\x7d' := by
        rw [skipBlanks_member, writeString_append]
        exact fun hc => nomatch hc
      simp only [write, List.nil_append, List.cons_append, List.append_assoc,
        List.length_cons, List.length_append] at hfuel ⊢
      rw [value_brace (hopen _), members_write rest h (by omega), Datum.unnamed,
        ← objectOf_map_readMember]
      rfl

/-! ### All data -/

/-- Every datum is read back, at any level and before any text that ends a value. -/
theorem readsBack (datum : Datum) : ∀ level, ReadsBack level datum := by
  induction datum with
  | natural n =>
      refine fun level => .intro fun fuel rest _ hrest => ?_
      obtain ⟨d, hd, cs, hdigits⟩ := Text.exists_cons_toDigits n
      have hnumber := number_toDigits n hrest
      rw [hdigits, List.cons_append] at hnumber
      rw [write, hdigits, List.cons_append, value_of_isDecimalDigit
        (Text.isDecimalDigit_digitChar d hd) (isBlank_digitChar d hd), hnumber]
      rfl
  | text s => exact fun level => .intro fun fuel rest _ _ => value_writeString fuel s rest
  | boolean b => exact fun level => .intro fun fuel rest _ _ => by cases b <;> rfl
  | list items ih => exact fun level => readsBack_list level items fun item h => ih item h _
  | record name fields ih =>
      exact fun level => readsBack_record level name fields fun field h => ih field h _
  | other => exact fun level => .intro fun _ _ _ _ => rfl

/-- The text of a datum is read as the datum, without the names of records. -/
theorem parse?_print (datum : Datum) : parse? (print datum) = some datum.unnamed := by
  have hvalue := readsBack datum 0 (2 * (write 0 datum).length + 2) [] (by omega) Text.stops_nil
  rw [List.append_nil] at hvalue
  rw [parse?, print, String.toList_ofList, hvalue]
  rfl

end Json
end PetriCcs
