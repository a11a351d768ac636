import PetriCcs.Proofs.Spelling

/-! # Rich text and rendered terms

Rich text puts the part of a name behind its first underscore between tags, and overlines what is
sent.  Neither loses anything: `richName` reads a name back from the way that it is written
(`richName_subscripted`), and `richReader` a token.  So there is a reader for either style, and with
what the tokens of a term determine, two terms are rendered alike exactly when they are the same
after splicing (`Term.render_eq_iff`). -/

namespace PetriCcs

/-! ### Reading rich text -/

/-- Reads a name and puts an underscore before its subscript. -/
def richName (text : List Char) : List Char × List Char :=
  let (base, rest) := text.span isNameChar
  match rest with
  | '<' :: 's' :: 'u' :: 'b' :: '>' :: rest =>
    let (index, rest) := rest.span isNameChar
    (base ++ '_' :: index, rest.drop "</sub>".length)
  | rest => (base, rest)

/-- Reads a name, with the dot that makes a guard of it if it follows. -/
def richWord (text : List Char) : Option (Token × List Char) :=
  match richName text with
  | (word, '.' :: rest) => (readAction? word).map fun name => (.guard (.input name), rest)
  | (word, rest) => (readConstant? word).map fun name => (.constant name, rest)

/-- Reads a token that does not begin with a letter. -/
def richMark : List Char → Option (Token × List Char)
  | '0' :: rest => some (.inaction, rest)
  | '&' :: 't' :: 'a' :: 'u' :: ';' :: '.' :: rest => some (.guard .internal, rest)
  | '<' :: 's' :: 'p' :: rest =>
    let (word, rest) := richName ((rest.span (· ≠ '>')).2.drop 1)
    (readAction? word).map fun name => (.guard (.co name), rest.drop "</span>.".length)
  | '(' :: '&' :: 'n' :: 'u' :: ';' :: rest =>
    let (word, rest) := richName rest
    (readAction? word).map fun name => (.restriction name, rest.drop 1)
  | '<' :: 's' :: 'u' :: 'p' :: '>' :: rest =>
    let (digits, rest) := rest.span Text.isDecimalDigit
    (readPower? digits).map fun token => (token, rest.drop "</sup>".length)
  | ' ' :: '+' :: ' ' :: rest => some (.plus, rest)
  | ' ' :: '&' :: '#' :: '8' :: '7' :: '4' :: '1' :: ';' :: ' ' :: rest => some (.bar, rest)
  | '(' :: rest => some (.opening, rest)
  | ')' :: rest => some (.closing, rest)
  | _ => none

section rich

open TermStyle (rich letters_cons subscripted)

/-- A name is written as it is, or what follows its first underscore is put between tags. -/
theorem toList_subscripted (name : String) :
    (subscripted name).toList = name.toList ∨
      ∃ base index, name.toList = base ++ '_' :: index ∧
        (subscripted name).toList = base ++ "<sub>".toList ++ index ++ "</sub>".toList := by
  rw [subscripted, List.span_eq_takeWhile_dropWhile]
  dsimp only
  split
  next d c index hindex =>
    refine Or.inr ⟨name.toList.takeWhile (· ≠ '_'), c :: index, ?_, by simp⟩
    have hd := List.head?_dropWhile_not (· ≠ '_') name.toList
    have hname := List.takeWhile_append_dropWhile (p := (· ≠ '_')) (l := name.toList)
    rw [hindex] at hd hname
    have hunderscore : d = '_' := by simpa using hd
    rw [hunderscore] at hname
    exact hname.symm
  next => exact Or.inl rfl

/-- A name ends here: no name character and no subscript follows. -/
def EndsName (rest : List Char) : Prop :=
  (∀ c ∈ rest.head?, isNameChar c = false) ∧
    ∀ cs, rest ≠ '<' :: 's' :: 'u' :: 'b' :: '>' :: cs

theorem endsName_nil : EndsName [] := ⟨nofun, nofun⟩

theorem endsName_cons {c : Char} (hc : isNameChar c = false ∧ c ≠ '<') (rest : List Char) :
    EndsName (c :: rest) :=
  ⟨fun _ hd => Option.some.inj hd ▸ hc.1, fun _ => cons_ne_cons hc.2⟩

theorem endsName_tag {c : Char} (hc : c ≠ 's') (rest : List Char) : EndsName ('<' :: c :: rest) :=
  ⟨fun _ hd => Option.some.inj hd ▸ by decide,
    fun _ heq => cons_ne_cons hc (List.cons.inj heq).2⟩

/-- A name is read back from the way that it is written. -/
theorem richName_subscripted {name : String} (hname : IsNameText name.toList) {rest : List Char}
    (hrest : EndsName rest) :
    richName ((subscripted name).toList ++ rest) = (name.toList, rest) := by
  have h := hname.nameChars
  obtain heq | ⟨base, index, hparts, heq⟩ := toList_subscripted name
  · rw [heq, richName, Text.span_append h hrest.1]
    dsimp only
    split
    next cs => exact absurd rfl (hrest.2 cs)
    next => rfl
  · rw [hparts] at h ⊢
    have hbase : ∀ c ∈ base, isNameChar c = true := fun c hc => h c (List.mem_append_left _ hc)
    have hindex : ∀ c ∈ index, isNameChar c = true := fun c hc =>
      h c (List.mem_append_right _ (List.mem_cons_of_mem _ hc))
    have htext : (subscripted name).toList ++ rest =
        base ++ '<' :: ('s' :: 'u' :: 'b' :: '>' :: (index ++ '<' :: ("/sub>".toList ++ rest))) := by
      rw [heq]
      simp
    have hread := span_append_cons hindex (show isNameChar '<' = false by decide)
      ("/sub>".toList ++ rest)
    rw [htext, richName, span_append_cons hbase (by decide)]
    simp only [hread]
    rfl

/-- The way that a name is written begins like the name. -/
theorem letterFirst_subscripted {name : String} (h : IsNameText name.toList) :
    LetterFirst (subscripted name).toList := by
  obtain heq | ⟨base, index, hname, heq⟩ := toList_subscripted name
  · rw [heq]
    exact h.letterFirst
  · obtain ⟨c, cs, hcons, hc⟩ := h.letterFirst
    rw [hname] at hcons
    cases base with
    | nil =>
        rw [← (List.cons.inj hcons).1] at hc
        exact absurd hc (by decide)
    | cons d base => exact ⟨d, _, heq, (List.cons.inj hcons).1 ▸ hc⟩

variable (ts : List Token)

theorem rich_letters_constant (name : ConstantName) :
    rich.letters (.constant name :: ts) = (subscripted name.text).toList ++ rich.letters ts :=
  letters_cons rich _ ts

theorem rich_letters_input (name : ActionName) :
    rich.letters (.guard (.input name) :: ts) =
      (subscripted name.text).toList ++ '.' :: rich.letters ts := by
  rw [letters_cons]
  show (subscripted name.text ++ ".").toList ++ rich.letters ts = _
  rw [String.toList_append, List.append_assoc]
  rfl

theorem rich_letters_co (name : ActionName) :
    rich.letters (.guard (.co name) :: ts) =
      '<' :: 's' :: 'p' :: ("an style=\"text-decoration: overline\"".toList ++
        '>' :: ((subscripted name.text).toList ++
          '<' :: '/' :: ("span>.".toList ++ rich.letters ts))) := by
  rw [letters_cons]
  show ("<span style=\"text-decoration: overline\">" ++ subscripted name.text ++ "</span>" ++
    ".").toList ++ rich.letters ts = _
  rw [String.toList_append, String.toList_append, String.toList_append, List.append_assoc,
    List.append_assoc, List.append_assoc]
  rfl

theorem rich_letters_restriction (name : ActionName) :
    rich.letters (.restriction name :: ts) =
      '(' :: '&' :: 'n' :: 'u' :: ';' ::
        ((subscripted name.text).toList ++ ')' :: rich.letters ts) := by
  rw [letters_cons]
  show ("(&nu;" ++ subscripted name.text ++ ")").toList ++ rich.letters ts = _
  rw [String.toList_append, String.toList_append, List.append_assoc, List.append_assoc]
  rfl

theorem rich_letters_power (count : UInt64) :
    rich.letters (.power count :: ts) =
      '<' :: 's' :: 'u' :: 'p' :: '>' ::
        ((toString count.toNat).toList ++ '<' :: ("/sup>".toList ++ rich.letters ts)) := by
  rw [letters_cons]
  show ("<sup>" ++ toString count.toNat ++ "</sup>").toList ++ rich.letters ts = _
  rw [String.toList_append, String.toList_append, List.append_assoc, List.append_assoc]
  rfl

variable {ts}

/-- What follows an operand in rich text is no part of its name and no dot. -/
theorem rich_letters_next {t : Token} (h : Spaced (t :: ts)) (ht : t.ends = true) :
    EndsName (rich.letters ts) ∧ ∀ cs, rich.letters ts ≠ '.' :: cs := by
  obtain rfl | ⟨us, rfl | rfl | rfl | ⟨count, rfl⟩⟩ := h.next ht
  · exact ⟨endsName_nil, nofun⟩
  · exact ⟨endsName_cons (by decide) _, fun _ => cons_ne_cons (by decide)⟩
  · exact ⟨endsName_cons (by decide) _, fun _ => cons_ne_cons (by decide)⟩
  · exact ⟨endsName_cons (by decide) _, fun _ => cons_ne_cons (by decide)⟩
  · rw [rich_letters_power]
    exact ⟨⟨fun _ hc => Option.some.inj hc ▸ by decide, fun cs heq => by simp at heq⟩,
      fun _ => cons_ne_cons (by decide)⟩

/-- An opening parenthesis of rich text is not one of a restriction. -/
theorem rich_letters_ne (ts : List Token) (cs : List Char) :
    rich.letters ts ≠ '&' :: 'n' :: cs := by
  have hname : ∀ {name : String}, IsNameText name.toList → ∀ rest,
      (subscripted name).toList ++ rest ≠ '&' :: 'n' :: cs := fun h rest =>
    (letterFirst_subscripted h).append_ne (by decide) rest _
  obtain _ | ⟨t, ts⟩ := ts
  · exact nofun
  · cases t with
    | constant name =>
        rw [rich_letters_constant]
        exact hname name.isNameText _
    | guard action =>
        cases action with
        | input name =>
            rw [rich_letters_input]
            exact hname name.isNameText _
        | co name =>
            rw [rich_letters_co]
            exact cons_ne_cons (by decide)
        | internal =>
            exact fun heq => cons_ne_cons (by decide) (List.cons.inj heq).2
    | restriction name =>
        rw [rich_letters_restriction]
        exact cons_ne_cons (by decide)
    | power count =>
        rw [rich_letters_power]
        exact cons_ne_cons (by decide)
    | inaction | plus | bar | opening | closing => exact cons_ne_cons (by decide)

theorem nextToken_rich_letters (t : Token) (ts : List Token) (h : Spaced (t :: ts)) :
    nextToken richWord richMark (rich.letters (t :: ts)) = some (t, rich.letters ts) := by
  cases t with
  | constant name =>
      obtain ⟨hends, hdot⟩ := rich_letters_next h rfl
      rw [rich_letters_constant, nextToken_word (letterFirst_subscripted name.isNameText), richWord,
        richName_subscripted name.isNameText hends]
      split
      next rest heq => exact absurd (Prod.mk.inj heq).2 (hdot _)
      next word rest _ heq =>
        obtain ⟨rfl, rfl⟩ := Prod.mk.inj heq
        rw [readConstant?_toList, Option.map_some]
  | guard action =>
      cases action with
      | input name =>
          rw [rich_letters_input, nextToken_word (letterFirst_subscripted name.isNameText), richWord,
            richName_subscripted name.isNameText (endsName_cons (by decide) _)]
          simp only [readAction?_toList, Option.map_some]
      | co name =>
          have htag : ∀ c ∈ "an style=\"text-decoration: overline\"".toList,
              decide (c ≠ '>') = true := List.all_eq_true.1 (by decide)
          rw [rich_letters_co, nextToken_mark (by decide), richMark,
            span_append_cons htag (by decide), List.drop_one, List.tail_cons,
            richName_subscripted name.isNameText (endsName_tag (by decide) _)]
          simp only [readAction?_toList, Option.map_some]
          rfl
      | internal => rfl
  | restriction name =>
      rw [rich_letters_restriction, nextToken_mark (by decide), richMark,
        richName_subscripted name.isNameText (endsName_cons (by decide) _)]
      simp only [readAction?_toList, Option.map_some]
      rfl
  | power count =>
      rw [rich_letters_power, nextToken_mark (by decide), richMark,
        span_append_cons isDecimalDigit_of_mem_toString (by decide)]
      simp only [readPower?_toList, Option.map_some]
      rfl
  | opening =>
      show richMark ('(' :: rich.letters ts) = _
      rw [richMark]
      intro rest hrest
      exact rich_letters_ne ts _ hrest
  | inaction | plus | bar | closing => rfl

/-- The reader of rich text. -/
def richReader : TokenReader rich where
  next := nextToken richWord richMark
  next_nil := rfl
  next_letters := nextToken_rich_letters

end rich

/-! ### Rendered terms -/

/-- The reader of a style. -/
def tokenReader : ∀ style : RenderStyle, TokenReader (TermStyle.ofStyle style)
  | .plain => plainReader
  | .rich => richReader

namespace Term

/-- In either style, two terms are rendered alike exactly when they are the same after splicing every
composition that is directly a component of a composition into it. -/
theorem render_eq_iff {P Q : Term} (hP : P.Joined) (hQ : Q.Joined) (style : RenderStyle) :
    P.render style = Q.render style ↔ P.spliced = Q.spliced := by
  rw [← tokens_eq_iff hP hQ, ← String.toList_inj, render, render, toList_print, toList_print]
  constructor
  · exact (tokenReader style).letters_inj P.spaced_tokens Q.spaced_tokens
  · exact congrArg _

/-- A guarded constant beside two others that are joined first: printed without parentheses. -/
def pairInside : Term :=
  .parallel [.guarded (.co ⟨"s_t1", by decide⟩) (.constant ⟨"X_p1", by decide⟩),
    .parallel [.constant ⟨"X_p2", by decide⟩, .constant ⟨"X_p3", by decide⟩]]

/-- The same three components, joined at once. -/
def threeBeside : Term :=
  .parallel [.guarded (.co ⟨"s_t1", by decide⟩) (.constant ⟨"X_p1", by decide⟩),
    .constant ⟨"X_p2", by decide⟩, .constant ⟨"X_p3", by decide⟩]

/-- The guard before all three constants: printed with parentheses. -/
def guardBefore : Term :=
  .guarded (.co ⟨"s_t1", by decide⟩) (.parallel [.constant ⟨"X_p1", by decide⟩,
    .constant ⟨"X_p2", by decide⟩, .constant ⟨"X_p3", by decide⟩])

theorem render_eq_iff_pairInside :
    pairInside.Joined ∧ threeBeside.Joined ∧ guardBefore.Joined ∧
      (∀ style, pairInside.render style = threeBeside.render style) ∧
      ∀ style, pairInside.render style ≠ guardBefore.render style := by
  have hpair : pairInside.Joined := by decide
  have hthree : threeBeside.Joined := by decide
  have hguard : guardBefore.Joined := by decide
  exact ⟨hpair, hthree, hguard, fun style => (render_eq_iff hpair hthree style).2 rfl,
    fun style heq => nomatch (render_eq_iff hpair hguard style).1 heq⟩

end Term
end PetriCcs
