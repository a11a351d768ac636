import PetriCcs.Proofs.Data
import PetriCcs.Proofs.RonLexical
import PetriCcs.Ron.Reader
import PetriCcs.Ron.Writer

/-! # What is written in RON is read back

A datum that RON can show (`Shown`: numbers of 64 bits, plain names as keys, as many levels of
nesting as a text may have) is read back from its text, with the names of its records missing
(`parse?_print`).  The writer puts every item and every field on a line that a comma ends, so lists
and records are read by one lemma (`membersIn_lines`) from what is known of one line (`Line`). -/

namespace PetriCcs
namespace Ron

open Text (Stops)

variable {rest : List Char}

/-! ### Members on lines -/

theorem membersIn_congr {β : Type} {member : Read β} {close : Char} {cs cs' : List Char}
    (h : skipBlanks cs = skipBlanks cs') : ∀ fuel,
    membersIn member close fuel cs = membersIn member close fuel cs'
  | 0 => rfl
  | fuel + 1 => by rw [membersIn, membersIn, h]

/-- Members as they are written, each on a line that a comma ends. -/
def lines {α : Type} (level : ℕ) (text : α → List Char) (found : List α) : List Char :=
  found.flatMap fun x => indent level ++ (text x ++ [',', '\n'])

theorem lines_cons {α : Type} (level : ℕ) (text : α → List Char) (x : α) (found : List α)
    (cs : List Char) : lines level text (x :: found) ++ cs =
      indent level ++ (text x ++ ',' :: '\n' :: (lines level text found ++ cs)) := by
  simp [lines]

theorem isBlank_of_mem_indent {level : ℕ} {c : Char} (hc : c ∈ indent level) : isBlank c = true :=
  List.eq_of_mem_replicate hc ▸ rfl

theorem skipBlanks_line (level : ℕ) {cs : List Char} (hcs : Opens cs) :
    skipBlanks ('\n' :: (indent level ++ cs)) = some cs := by
  refine skipBlanks_append ('\n' :: indent level) (fun c hc => ?_) hcs
  rcases List.mem_cons.1 hc with rfl | hc
  · rfl
  · exact isBlank_of_mem_indent hc

section lines
variable {α β : Type} {member : Read β} {close : Char} {text : α → List Char} {result : α → β}

/-- A text that begins neither with a blank or a comment nor with the sign `close`. -/
def Begins (close : Char) (cs : List Char) : Prop :=
  ∃ c more, cs = c :: more ∧ isBlank c = false ∧ c ≠ '/' ∧ c ≠ close

theorem Begins.opens {cs : List Char} (h : Begins close cs) (more : List Char) :
    Opens (cs ++ more) := by
  obtain ⟨c, cs, rfl, hblank, hslash, -⟩ := h
  exact opens_cons ⟨hblank, hslash⟩ _

theorem Begins.head?_ne {cs : List Char} (h : Begins close cs) (more : List Char) :
    (cs ++ more).head? ≠ some close := by
  obtain ⟨c, cs, rfl, -, -, hclose⟩ := h
  exact fun heq => hclose (Option.some.inj heq)

/-- A member is read back from its text up to a comma, and does not begin like the end. -/
structure Line (member : Read β) (close : Char) (text : α → List Char) (result : α → β) (x : α) :
    Prop where
  begins : Begins close (text x)
  read (cs : List Char) : member (text x ++ ',' :: cs) = some (result x, ',' :: cs)

theorem comma_of_skipBlanks {more next : List Char} (h : skipBlanks more = some next) :
    comma (',' :: more) = some (true, next) := by
  have hcomma : skipBlanks (',' :: more) = some (',' :: more) :=
    skipBlanks_of_opens (opens_cons (by decide) more)
  rw [comma, hcomma]
  simp [h]

theorem membersIn_close {fuel : ℕ} {cs : List Char} (hcs : skipBlanks cs = some (close :: rest)) :
    membersIn member close (fuel + 1) cs = some ([], close :: rest) := by
  rw [membersIn, hcs]
  simp

/-- After a member and a comma, the others are read from the next character that is no blank. -/
theorem membersIn_next {fuel : ℕ} {cs more next : List Char} {x : α}
    (hx : Line member close text result x)
    (hcs : skipBlanks cs = some (text x ++ ',' :: more)) (hnext : skipBlanks more = some next)
    (hopens : Opens next) : membersIn member close (fuel + 1) cs =
      (membersIn member close fuel more).map (Prod.map (result x :: ·) id) := by
  have hcongr : membersIn member close fuel next = membersIn member close fuel more :=
    membersIn_congr (by rw [hnext, skipBlanks_of_opens hopens]) fuel
  have hread := hx.read more
  rw [membersIn, hcs, Option.map_eq_bind, ← hcongr]
  simp only [Option.bind_eq_bind, Option.bind_some, if_neg (hx.begins.head?_ne _), hread,
    comma_of_skipBlanks hnext]
  rfl

theorem exists_skipBlanks_lines (level outer : ℕ) (rest : List Char) {found : List α}
    (hclose : isBlank close = false ∧ close ≠ '/')
    (hfound : ∀ x ∈ found, Line member close text result x) : ∃ next, Opens next ∧
      skipBlanks ('\n' :: (lines level text found ++ (indent outer ++ close :: rest))) =
        some next := by
  cases found with
  | nil =>
      have hopens := opens_cons hclose rest
      exact ⟨_, hopens, skipBlanks_line outer hopens⟩
  | cons x found =>
      have hopens := (hfound x List.mem_cons_self).begins.opens
      rw [lines_cons]
      exact ⟨_, hopens _, skipBlanks_line level (hopens _)⟩

/-- Members on lines are read one after the other, up to the closing sign. -/
theorem membersIn_lines {level outer : ℕ} {found : List α}
    (hclose : isBlank close = false ∧ close ≠ '/')
    (hfound : ∀ x ∈ found, Line member close text result x) {fuel : ℕ}
    (hfuel : found.length < fuel) : membersIn member close fuel
      ('\n' :: (lines level text found ++ (indent outer ++ close :: rest))) =
        some (found.map result, close :: rest) := by
  induction found generalizing fuel with
  | nil =>
      obtain ⟨fuel, rfl⟩ := Nat.exists_eq_add_one.2 (Nat.zero_lt_of_lt hfuel)
      exact membersIn_close (skipBlanks_line outer (opens_cons hclose rest))
  | cons x found ih =>
      obtain ⟨fuel, rfl⟩ := Nat.exists_eq_add_one.2 (Nat.zero_lt_of_lt hfuel)
      obtain ⟨hx, hfound⟩ := List.forall_mem_cons.1 hfound
      obtain ⟨next, hopens, hnext⟩ := exists_skipBlanks_lines level outer rest hclose hfound
      rw [lines_cons, membersIn_next hx (skipBlanks_line level (hx.begins.opens _)) hnext hopens,
        ih hfound (Nat.lt_of_succ_lt_succ hfuel)]
      rfl

theorem length_le_length_lines (level : ℕ) (text : α → List Char) (found : List α) :
    found.length ≤ (lines level text found).length := by
  induction found with
  | nil => exact Nat.zero_le _
  | cons x found ih =>
      have hcons := congrArg List.length (lines_cons level text x found [])
      simp only [List.append_nil, List.length_append, List.length_cons] at hcons ⊢
      omega

theorem closed_of_skipBlanks (level outer : ℕ) {found : List α}
    (hclose : isBlank close = false ∧ close ≠ '/')
    (hfound : ∀ x ∈ found, Line member close text result x) {cs : List Char}
    (hcs : skipBlanks cs =
      skipBlanks ('\n' :: (lines level text found ++ (indent outer ++ close :: rest))))
    (hlength : found.length ≤ cs.length) :
    closed member close cs = some (found.map result, rest) := by
  rw [closed, members, membersIn_congr hcs,
    membersIn_lines hclose hfound (Nat.lt_succ_of_le hlength)]
  simp [Text.after?]

/-- Members on lines are read with the sign that closes them, from the new line before them. -/
theorem closed_lines {level outer : ℕ} {found : List α}
    (hclose : isBlank close = false ∧ close ≠ '/')
    (hfound : ∀ x ∈ found, Line member close text result x) :
    closed member close ('\n' :: (lines level text found ++ (indent outer ++ close :: rest))) =
      some (found.map result, rest) := by
  refine closed_of_skipBlanks level outer hclose hfound rfl ?_
  have hlength := length_le_length_lines level text found
  rw [List.length_cons, List.length_append]
  omega

/-- The same from the first member. -/
theorem closed_lines_start {level outer : ℕ} {x : α} {found : List α}
    (hclose : isBlank close = false ∧ close ≠ '/')
    (hfound : ∀ y ∈ x :: found, Line member close text result y) :
    closed member close
      (text x ++ ',' :: '\n' :: (lines level text found ++ (indent outer ++ close :: rest))) =
        some ((x :: found).map result, rest) := by
  have hopens := (hfound x List.mem_cons_self).begins.opens
  refine closed_of_skipBlanks level outer hclose hfound ?_ ?_
  · rw [lines_cons, skipBlanks_line level (hopens _), skipBlanks_of_opens (hopens _)]
  · have hlength := length_le_length_lines level text found
    simp only [List.length_append, List.length_cons]
    omega

theorem closed_nil (hclose : isBlank close = false ∧ close ≠ '/') (rest : List Char) :
    closed member close (close :: rest) = some ([], rest) := by
  rw [closed, members, membersIn_close (skipBlanks_of_opens (opens_cons hclose rest))]
  simp [Text.after?]

end lines

/-! ### What RON can show -/

/-- A datum that is shown with what is left of the levels of nesting.  Numbers have 64 bits, every
key is a plain name, and lists and records take two levels for what is in them. -/
inductive Shown : (levels : ℕ) → Datum → Prop
  | natural {levels n : ℕ} (h : n < UInt64.size) : Shown levels (.natural n)
  | text {levels : ℕ} (s : String) : Shown levels (.text s)
  | boolean {levels : ℕ} (b : Bool) : Shown levels (.boolean b)
  | list {levels : ℕ} {items : List Datum} (h : ∀ item ∈ items, Shown levels item) :
      Shown (levels + 2) (.list items)
  | record {levels : ℕ} {name : Option String} {fields : List (String × Datum)}
      (hkeys : ∀ key ∈ fields.map Prod.fst, isPlainName key.toList = true)
      (h : ∀ field ∈ fields, Shown levels field.2) : Shown (levels + 2) (.record name fields)

/-- The text of a field. -/
def writeField (level : ℕ) (field : String × Datum) : List Char :=
  field.1.toList ++ ':' :: ' ' :: write level field.2

theorem writeItems_eq_lines (level : ℕ) :
    ∀ items, writeItems level items = lines level (write level) items
  | [] => rfl
  | item :: rest => by
      rw [writeItems, writeItems_eq_lines level rest]
      simp [lines]

theorem writeFields_eq_lines (level : ℕ) :
    ∀ fields, writeFields level fields = lines level (writeField level) fields
  | [] => rfl
  | field :: rest => by
      rw [writeFields, writeFields_eq_lines level rest]
      simp [lines, writeField]

/-! ### Numbers, texts and truth values -/

section values
variable {asked : List Extension} {nested : Option Nested}

/-- What begins no name is a literal. -/
theorem plain_of_not_isIdentStart {c : Char} (hc : isIdentStart c = false) (cs : List Char) :
    plain asked nested (c :: cs) = literal nested (c :: cs) := by
  have hword : word? (c :: cs) = none := if_neg (Bool.not_eq_true _ ▸ hc)
  have hliteral : startsLiteral (c :: cs) = false := by
    unfold startsLiteral
    split
    case h_8 => rfl
    all_goals
      rename_i heq
      cases heq
      exact absurd hc (by decide)
  have hname : name? (c :: cs) = none := by
    rw [name?, if_neg (by rw [hliteral]; decide)]
    · exact hword
    · rintro more heq
      cases heq
      exact absurd hc (by decide)
  rw [plain, hword, hname]
  rfl

theorem literal_of_isDecimalDigit {c : Char} (hc : Text.isDecimalDigit c = true) (cs : List Char) :
    literal nested (c :: cs) = (number? (c :: cs)).map (Prod.map Numeral.datum id) := by
  unfold literal
  split
  case h_9 => rfl
  all_goals
    rename_i heq
    cases heq
    cases hc

/-- How many levels are left does not matter at the head of a value. -/
theorem value_eq_plain (levels : ℕ) (cs : List Char) :
    ∃ nested, value asked levels false cs = plain asked nested cs :=
  match levels with
  | 0 => ⟨_, rfl⟩
  | 1 => ⟨_, rfl⟩
  | _ + 2 => ⟨_, rfl⟩

end values

/-- A datum is read from what is written for it, whatever extensions the text asks for. -/
def ReadsBack (levels : ℕ) (datum : Datum) : Prop :=
  ∀ asked level rest, Stops rest →
    value asked levels false (write level datum ++ rest) = some (datum.unnamed, rest)

theorem isIdentStart_digitChar : ∀ d < 10, isIdentStart (Nat.digitChar d) = false := by
  decide

theorem readsBack_natural (levels : ℕ) {n : ℕ} (hn : n < UInt64.size) :
    ReadsBack levels (.natural n) := by
  intro asked level rest hrest
  obtain ⟨d, hd, cs, hdigits⟩ := Text.exists_cons_toDigits n
  have hnumber := number?_toDigits hn hrest
  obtain ⟨nested, hplain⟩ := value_eq_plain levels (write level (.natural n) ++ rest)
  rw [hplain, write]
  rw [hdigits, List.cons_append] at hnumber ⊢
  rw [plain_of_not_isIdentStart (isIdentStart_digitChar d hd),
    literal_of_isDecimalDigit (Text.isDecimalDigit_digitChar d hd), hnumber]
  rfl

theorem readsBack_text (levels : ℕ) (s : String) : ReadsBack levels (.text s) := by
  intro asked level rest _
  obtain ⟨nested, hplain⟩ := value_eq_plain levels (write level (.text s) ++ rest)
  have hwritten : write level (.text s) ++ rest =
      '"' :: (s.toList.flatMap (Text.escapeChar ['"', '\'']) ++ '"' :: rest) := by
    rw [write, writeString, List.append_assoc]
    rfl
  rw [hplain, hwritten, plain_of_not_isIdentStart (by decide), literal, string?_escaped]
  simp [Datum.unnamed]

theorem readsBack_boolean (levels : ℕ) (b : Bool) : ReadsBack levels (.boolean b) := by
  intro asked level rest hrest
  obtain ⟨nested, hplain⟩ := value_eq_plain levels (write level (.boolean b) ++ rest)
  have hname : isPlainName (write level (.boolean b)) = true := by
    cases b
    all_goals
      rw [write]
      decide
  rw [hplain, plain, word?_of_isPlainName hname (hrest.head rfl rfl)]
  cases b <;> rfl

/-! ### Lists -/

/-- What is written begins with no blank and no comment, and neither like an end nor like an
attribute. -/
theorem begins_write (level : ℕ) (datum : Datum) {close : Char} (hclose : close ∈ [']', '#']) :
    Begins close (write level datum) := by
  have hne {c : Char} (hc : c ∉ [']', '#']) : c ≠ close := by
    rintro rfl
    exact hc hclose
  cases datum with
  | natural n =>
      have hdigit : ∀ d < 10, isBlank (Nat.digitChar d) = false ∧ Nat.digitChar d ≠ '/' ∧
        Nat.digitChar d ∉ [']', '#'] := by decide
      obtain ⟨d, hd, cs, hdigits⟩ := Text.exists_cons_toDigits n
      obtain ⟨hblank, hslash, hd⟩ := hdigit d hd
      exact ⟨_, cs, hdigits, hblank, hslash, hne hd⟩
  | text s => exact ⟨_, _, rfl, by decide, by decide, hne (by decide)⟩
  | boolean b => cases b <;> exact ⟨_, _, rfl, by decide, by decide, hne (by decide)⟩
  | list items => cases items <;> exact ⟨_, _, rfl, by decide, by decide, hne (by decide)⟩
  | record name fields =>
      cases fields <;> exact ⟨_, _, rfl, by decide, by decide, hne (by decide)⟩
  | other => exact ⟨_, _, rfl, by decide, by decide, hne (by decide)⟩

theorem opens_write (level : ℕ) (datum : Datum) (cs : List Char) :
    Opens (write level datum ++ cs) :=
  (begins_write level datum (List.mem_cons_self : ']' ∈ [']', '#'])).opens cs

theorem ReadsBack.line {levels level : ℕ} {item : Datum} (h : ReadsBack levels item)
    (asked : List Extension) :
    Line (value asked levels false) ']' (write level) Datum.unnamed item where
  begins := begins_write level item (by decide)
  read _ := h asked level _ (Text.stops_comma _)

theorem value_bracket (asked : List Extension) (levels : ℕ) (cs : List Char) :
    value asked (levels + 2) false ('[' :: cs) =
      (closed (value asked levels false) ']' cs).map (Prod.map Datum.list id) := by
  show plain asked _ ('[' :: cs) = _
  rw [plain_of_not_isIdentStart (by decide), literal, Option.map_eq_bind]
  rfl

theorem readsBack_list {levels : ℕ} {items : List Datum}
    (h : ∀ item ∈ items, ReadsBack levels item) : ReadsBack (levels + 2) (.list items) := by
  intro asked level rest _
  rw [Datum.unnamed, Datum.unnamedItems_eq_map]
  cases items with
  | nil =>
      simp only [write, List.cons_append, List.nil_append]
      rw [value_bracket, closed_nil (by decide)]
      rfl
  | cons first more =>
      have hlines : ∀ item ∈ first :: more,
          Line (value asked levels false) ']' (write (level + 1)) Datum.unnamed item :=
        fun item hitem => (h item hitem).line asked
      simp only [write, writeItems_eq_lines, List.cons_append, List.nil_append, List.append_assoc]
      rw [value_bracket, closed_lines (by decide) hlines]
      rfl

/-! ### Records -/

/-- What a field begins with is no blank, begins no comment and closes nothing. -/
theorem begins_writeField (level : ℕ) {field : String × Datum}
    (hkey : isPlainName field.1.toList = true) : Begins ')' (writeField level field) := by
  obtain ⟨c, cs, hname, hc⟩ := exists_cons_of_isPlainName hkey
  refine ⟨c, _, by rw [writeField, hname, List.cons_append], isBlank_of_isIdentStart hc, ?_, ?_⟩
  all_goals
    rintro rfl
    exact absurd hc (by decide)

theorem skipBlanks_colon (cs : List Char) : skipBlanks (':' :: cs) = some (':' :: cs) :=
  skipBlanks_of_opens (opens_cons (by decide) cs)

theorem startsField_writeField (level : ℕ) {field : String × Datum}
    (hkey : isPlainName field.1.toList = true) (cs : List Char) :
    startsField (writeField level field ++ cs) = some true := by
  rw [startsField, writeField, List.append_assoc, List.cons_append, name?_of_isPlainName hkey]
  simp [skipBlanks_colon]

theorem ReadsBack.lineField {levels level : ℕ} {f : String × Datum} (h : ReadsBack levels f.2)
    (hkey : isPlainName f.1.toList = true) (asked : List Extension) :
    Line (field (value asked levels false)) ')' (writeField level)
      (fun f => (f.1, f.2.unnamed)) f where
  begins := begins_writeField level hkey
  read cs := by
    have hspace := skipBlanks_append [' '] (fun _ hc => List.mem_singleton.1 hc ▸ rfl)
      (opens_write level f.2 (',' :: cs))
    have hcolon : colon (':' :: ' ' :: (write level f.2 ++ ',' :: cs)) =
        some (write level f.2 ++ ',' :: cs) := by
      rw [colon, skipBlanks_colon]
      exact hspace
    have hvalue := h asked level (',' :: cs) (Text.stops_comma _)
    rw [writeField, List.append_assoc, List.cons_append, List.cons_append, field,
      fieldName?_of_isPlainName hkey]
    simp [hcolon, hvalue]

/-- Parentheses hold a record when a field comes first. -/
theorem value_paren (asked : List Extension) (levels : ℕ) {cs start : List Char}
    (hstart : skipBlanks ('\n' :: cs) = some start) (hfield : startsField start = some true) :
    value asked (levels + 2) false ('(' :: '\n' :: cs) =
      (closed (field (value asked levels false)) ')' start).map (Prod.map (.record none) id) := by
  show plain asked _ ('(' :: '\n' :: cs) = _
  rw [plain_of_not_isIdentStart (by decide), literal, group, hstart, Option.map_eq_bind]
  · simp [hfield]
    rfl
  · exact fun _ heq => nomatch heq

theorem readsBack_record {levels : ℕ} {name : Option String} {fields : List (String × Datum)}
    (hkeys : ∀ field ∈ fields, isPlainName field.1.toList = true)
    (h : ∀ field ∈ fields, ReadsBack levels field.2) :
    ReadsBack (levels + 2) (.record name fields) := by
  intro asked level rest _
  rw [Datum.unnamed, Datum.unnamedFields_eq_map]
  cases fields with
  | nil => rfl
  | cons first more =>
      have hlines : ∀ field ∈ first :: more, Line (Ron.field (value asked levels false)) ')'
          (writeField (level + 1)) (fun field => (field.1, field.2.unnamed)) field :=
        fun field hfield => (h field hfield).lineField (hkeys field hfield) asked
      obtain ⟨hkey, -⟩ := List.forall_mem_cons.1 hkeys
      have hopens := (begins_writeField (level + 1) hkey).opens
      simp only [write, writeFields_eq_lines, List.cons_append, List.nil_append, List.append_assoc]
      rw [lines_cons, value_paren asked levels (skipBlanks_line _ (hopens _))
        (startsField_writeField _ hkey _), closed_lines_start (by decide) hlines]
      rfl

/-! ### All that RON can show -/

theorem Shown.readsBack {levels : ℕ} {datum : Datum} (h : Shown levels datum) :
    ReadsBack levels datum := by
  induction h with
  | natural hn => exact readsBack_natural _ hn
  | text s => exact readsBack_text _ s
  | boolean b => exact readsBack_boolean _ b
  | list _ ih => exact readsBack_list ih
  | record hkeys _ ih => exact readsBack_record (List.forall_mem_map.1 hkeys) ih

/-- The text of a datum is read as the datum, without the names of records. -/
theorem parse?_print {datum : Datum} (h : Shown levelLimit datum) :
    parse? (print datum) = some (⟨false, false⟩, datum.unnamed) := by
  have hbegins : Begins '#' (write 0 datum) := begins_write 0 datum (by decide)
  have hskip := skipBlanks_of_opens (opens_write 0 datum [])
  have hhead := hbegins.head?_ne []
  have hvalue := h.readsBack [] 0 [] Text.stops_nil
  rw [List.append_nil] at hskip hhead hvalue
  rw [parse?, print, String.toList_ofList, hskip]
  simp only [Option.bind_eq_bind, Option.bind_some, attributes, if_neg hhead, hvalue]
  rfl

end Ron
end PetriCcs
