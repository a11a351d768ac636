import PetriCcs.Net.Dot
import PetriCcs.Proofs.Import

/-! # Reading a drawing

A reader of the DOT language goes through a text once (`Dot.read`): a semicolon outside of quotes ends
a statement, a quotation mark begins or ends a quoted text, and a backslash in quotes stands for the
character it escapes.  The drawing of a net is read as its statements, one for each place,
transition and edge, and every label is found whole in its own quotes (`read_dot`).  Statements that
are read in the same way are the same (`Statement.pieces_injective`). -/

namespace PetriCcs
namespace Dot

/-! ### The reader -/

/-- Where a reader stands: outside of quotes, in quotes, or in quotes after a backslash. -/
inductive Mode where
  | outside
  | quoted
  | escaped

/-- The character that an escape stands for. -/
def unescaped (c : Char) : Char := if c = 'n' then '\n' else c

/-- A statement as it is read: by turns what stands outside of quotes and a text that was quoted. -/
abbrev Pieces := List (List Char)

/-- Puts characters in front of the first piece of the first statement. -/
def extend (run : List Char) (statements : List Pieces) : List Pieces :=
  statements.modifyHead (·.modifyHead (run ++ ·))

/-- The statements of a text and what is left after the last one. -/
def read : Mode → List Char → List Pieces
  | _, [] => [[[]]]
  | .outside, c :: rest =>
      if c = ';' then [[]] :: read .outside rest
      else if c = '"' then (read .quoted rest).modifyHead ([] :: ·)
      else extend [c] (read .outside rest)
  | .quoted, c :: rest =>
      if c = '"' then (read .outside rest).modifyHead ([] :: ·)
      else if c = '\\' then read .escaped rest
      else extend [c] (read .quoted rest)
  | .escaped, c :: rest => extend [unescaped c] (read .quoted rest)

/-- A character that neither ends a statement nor begins a quoted text. -/
def isOuter (c : Char) : Bool := c ≠ ';' && c ≠ '"'

variable {run text rest : List Char}

theorem extend_nil (statements : List Pieces) : extend [] statements = statements := by
  rcases statements with _ | ⟨_ | ⟨piece, pieces⟩, statements⟩ <;> rfl

theorem extend_cons (c : Char) (run : List Char) (statements : List Pieces) :
    extend (c :: run) statements = extend [c] (extend run statements) := by
  rcases statements with _ | ⟨_ | ⟨piece, pieces⟩, statements⟩ <;> rfl

theorem read_outer (hrun : run.all isOuter = true) (rest : List Char) :
    read .outside (run ++ rest) = extend run (read .outside rest) := by
  induction run with
  | nil => exact (extend_nil _).symm
  | cons c run ih =>
      rw [List.all_cons, Bool.and_eq_true] at hrun
      obtain ⟨hsemicolon, hquote⟩ : c ≠ ';' ∧ c ≠ '"' := by simpa [isOuter] using hrun.1
      rw [List.cons_append, read, if_neg hsemicolon, if_neg hquote, ih hrun.2, ← extend_cons]

/-- An escaped text is read as the text, and its quotes stay open. -/
theorem read_escaped (text rest : List Char) :
    read .quoted (text.flatMap escapeChar ++ rest) = extend text (read .quoted rest) := by
  induction text with
  | nil => exact (extend_nil _).symm
  | cons c text ih =>
      have hescape : ∀ front, read .quoted (escapeChar c ++ front) =
          extend [c] (read .quoted front) := by
        intro front
        unfold escapeChar
        split_ifs with hquote hbackslash hnewline
        · rw [hquote]
          rfl
        · rw [hbackslash]
          rfl
        · rw [hnewline]
          rfl
        · rw [List.singleton_append, read, if_neg hquote, if_neg hbackslash]
      rw [List.flatMap_cons, List.append_assoc, hescape, ih, ← extend_cons]

/-- What stands up to the end of a quoted text makes two pieces. -/
theorem read_quoted (hrun : run.all isOuter = true) (text rest : List Char) :
    read .outside (run ++ '"' :: (text.flatMap escapeChar ++ '"' :: rest)) =
      (read .outside rest).modifyHead (run :: text :: ·) := by
  have hopen : read .outside ('"' :: (text.flatMap escapeChar ++ '"' :: rest)) =
      (read .quoted (text.flatMap escapeChar ++ '"' :: rest)).modifyHead ([] :: ·) := rfl
  have hclose : read .quoted ('"' :: rest) = (read .outside rest).modifyHead ([] :: ·) := rfl
  rw [read_outer hrun, hopen, read_escaped, hclose]
  cases read .outside rest with
  | nil => rfl
  | cons pieces statements => simp [extend]

/-- What stands up to a semicolon is the last piece of a statement. -/
theorem read_end (hrun : run.all isOuter = true) (rest : List Char) :
    read .outside (run ++ ';' :: rest) = [run] :: read .outside rest := by
  have hend : read .outside (';' :: rest) = [[]] :: read .outside rest := rfl
  rw [read_outer hrun, hend]
  simp [extend]

/-! ### The statements of a drawing -/

/-- A position among the nodes of a net, whatever the tag of the net. -/
inductive Spot where
  | place (index : ℕ)
  | transition (index : ℕ)

/-- The position that a handle tells. -/
def spot : Node → Spot
  | .place id => .place id.index
  | .transition id => .transition id.index

/-- The name of a node in the drawing. -/
def Spot.name : Spot → String
  | .place index => "place_" ++ toString index
  | .transition index => "trans_" ++ toString index

theorem name_spot (node : Node) : (spot node).name = nodeName node := by
  cases node <;> rfl

/-- What a line of a drawing shows of a net. -/
inductive Statement where
  | place (index : ℕ) (name : NameIndex) (tokens : Weight)
  | transition (index : ℕ) (name : NameIndex) (label : String)
  | edge (source target : Spot) (weight : Weight)

/-- The line of a statement. -/
def Statement.line : Statement → String
  | .place index name tokens =>
      nodeLine (Spot.place index).name (placeName name) (toString tokens.toNat) "circle" "#e3f2fd"
  | .transition index name label =>
      nodeLine (Spot.transition index).name (transitionName name) (escape label) "box" "#ffe0b2"
  | .edge source target weight =>
      "    " ++ source.name ++ " -> " ++ target.name
        ++ (if weight = 1 then "" else " [label=\"" ++ toString weight.toNat ++ "\"]") ++ ";"

/-- How the statement of a node is read: its label has two lines. -/
def nodePieces (name title detail shape colour : String) : Pieces :=
  [("\n    " ++ name ++ " [label=").toList, (title ++ "\n" ++ detail).toList,
    (", shape=" ++ shape ++ ", style=filled, fillcolor=").toList, colour.toList, "]".toList]

/-- How a statement is read.  The label of a transition is the label itself, nothing escaped. -/
def Statement.pieces : Statement → Pieces
  | .place index name tokens =>
      nodePieces (Spot.place index).name (placeName name) (toString tokens.toNat) "circle" "#e3f2fd"
  | .transition index name label =>
      nodePieces (Spot.transition index).name (transitionName name) label "box" "#ffe0b2"
  | .edge source target weight =>
      if weight = 1 then [("\n    " ++ source.name ++ " -> " ++ target.name).toList]
      else [("\n    " ++ source.name ++ " -> " ++ target.name ++ " [label=").toList,
        (toString weight.toNat).toList, "]".toList]

end Dot

/-- What the drawing of a net shows, in the order of its lines. -/
def Net.statements (net : Net) : List Dot.Statement :=
  net.places.entries.map (fun (id, place) =>
      Dot.Statement.place id.index place.name place.tokens)
    ++ net.transitions.entries.map (fun (id, transition) =>
      Dot.Statement.transition id.index transition.name transition.label.text)
    ++ net.edges.toList.map fun edge =>
      Dot.Statement.edge (Dot.spot edge.source) (Dot.spot edge.target) edge.weight

namespace Dot

theorem lines_eq (net : Net) : lines net =
    ["digraph PetriNet \x7b", "    rankdir=LR;", "    node [fontname=\"Helvetica\"];"]
      ++ net.statements.map Statement.line ++ ["\x7d"] := by
  have hedge : ∀ edge : Edge, edgeLine edge =
      (Statement.edge (spot edge.source) (spot edge.target) edge.weight).line := by
    intro edge
    rw [Statement.line, name_spot, name_spot]
    rfl
  simp only [lines, Net.statements, List.map_append, List.map_map, List.append_assoc]
  rw [List.map_congr_left fun edge _ => hedge edge]
  rfl

/-! ### Reading the lines -/

/-- A character of a quoted text that is written as it is. -/
def isPlain (c : Char) : Bool := c ≠ '"' && c ≠ '\\' && c ≠ '\n'

theorem flatMap_escapeChar_of_plain {text : List Char} (h : text.all isPlain = true) :
    text.flatMap escapeChar = text := by
  induction text with
  | nil => rfl
  | cons c text ih =>
      rw [List.all_cons, Bool.and_eq_true] at h
      obtain ⟨⟨hquote, hbackslash⟩, hnewline⟩ : (c ≠ '"' ∧ c ≠ '\\') ∧ c ≠ '\n' := by
        simpa [isPlain] using h.1
      rw [List.flatMap_cons, ih h.2, escapeChar, if_neg hquote, if_neg hbackslash, if_neg hnewline]
      rfl

/-- What holds of all digits holds of all characters of a number. -/
theorem all_number {p : Char → Bool} (hdigit : ∀ d < 10, p (Nat.digitChar d) = true) (n : ℕ) :
    (toString n).toList.all p = true := by
  rw [List.all_eq_true, Nat.toString_eq_repr, Nat.toList_repr]
  intro c hc
  obtain ⟨d, hd, rfl⟩ := Text.exists_digit_of_mem_toDigits (by decide) n c hc
  exact hdigit d hd

theorem all_name {p : Char → Bool} (hdigit : ∀ d < 10, p (Nat.digitChar d) = true)
    (hplace : "place_".toList.all p = true) (htransition : "trans_".toList.all p = true)
    (spot : Spot) : spot.name.toList.all p = true := by
  cases spot with
  | place index =>
      rw [Spot.name, String.toList_append, List.all_append, hplace, all_number hdigit, Bool.true_and]
  | transition index =>
      rw [Spot.name, String.toList_append, List.all_append, htransition, all_number hdigit,
        Bool.true_and]

theorem name_outer (spot : Spot) : spot.name.toList.all isOuter = true :=
  all_name (by decide) (by decide) (by decide) spot

theorem number_plain (n : ℕ) : (toString n).toList.all isPlain = true :=
  all_number (by decide) n

theorem displayName_plain {letter : String} (hletter : letter.toList.all isPlain = true) (n : ℕ) :
    (letter ++ toString n).toList.all isPlain = true := by
  rw [String.toList_append, List.all_append, hletter, number_plain, Bool.true_and]

/-- A line after the end of another one is read as one statement. -/
def ReadsAs (line : String) (pieces : Pieces) : Prop :=
  ∀ rest, read .outside ('\n' :: (line.toList ++ rest)) = pieces :: read .outside rest

theorem readsAs_nodeLine {name title subtitle detail shape colour : String}
    (hname : name.toList.all isOuter = true) (htitle : title.toList.all isPlain = true)
    (hsubtitle : subtitle.toList = detail.toList.flatMap escapeChar)
    (hshape : shape.toList.all isOuter = true) (hcolour : colour.toList.all isPlain = true) :
    ReadsAs (nodeLine name title subtitle shape colour)
      (nodePieces name title detail shape colour) := by
  intro rest
  have hlabel : (title ++ "\n" ++ detail).toList.flatMap escapeChar =
      title.toList ++ "\\n".toList ++ subtitle.toList := by
    have hnewline : "\n".toList.flatMap escapeChar = "\\n".toList := by decide
    rw [String.toList_append, String.toList_append, List.flatMap_append, List.flatMap_append,
      flatMap_escapeChar_of_plain htitle, hnewline, hsubtitle]
  have hline : '\n' :: ((nodeLine name title subtitle shape colour).toList ++ rest) =
      ("\n    " ++ name ++ " [label=").toList ++ '"' ::
        ((title ++ "\n" ++ detail).toList.flatMap escapeChar ++ '"' ::
          ((", shape=" ++ shape ++ ", style=filled, fillcolor=").toList ++ '"' ::
            (colour.toList.flatMap escapeChar ++ '"' :: ("]".toList ++ ';' :: rest)))) := by
    rw [hlabel, flatMap_escapeChar_of_plain hcolour]
    -- not by `rw`: the equation of `nodeLine` is slow to make, with so many texts in it
    delta nodeLine
    simp
  have hhead : ("\n    " ++ name ++ " [label=").toList.all isOuter = true := by
    simp [hname, isOuter]
  have hmiddle : (", shape=" ++ shape ++ ", style=filled, fillcolor=").toList.all isOuter = true := by
    simp [hshape, isOuter]
  rw [hline, read_quoted hhead, read_quoted hmiddle, read_end (by decide)]
  rfl

theorem readsAs_edge (source target : Spot) (weight : Weight) :
    ReadsAs (Statement.edge source target weight).line
      (Statement.edge source target weight).pieces := by
  intro rest
  have hsource := name_outer source
  have htarget := name_outer target
  rw [Statement.line, Statement.pieces]
  split_ifs with hweight
  · have houter : ("\n    " ++ source.name ++ " -> " ++ target.name).toList.all isOuter = true := by
      simp [hsource, htarget, isOuter]
    rw [← read_end houter]
    simp
  · have houter : ("\n    " ++ source.name ++ " -> " ++ target.name ++ " [label=").toList.all
        isOuter = true := by
      simp [hsource, htarget, isOuter]
    have hread := read_quoted houter (toString weight.toNat).toList ("]".toList ++ ';' :: rest)
    rw [flatMap_escapeChar_of_plain (number_plain _), read_end (by decide)] at hread
    exact Eq.trans (congrArg (read .outside) (by simp)) hread

/-- Every line of a drawing is read as its statement. -/
theorem readsAs_line (statement : Statement) : ReadsAs statement.line statement.pieces := by
  cases statement with
  | place index name tokens =>
      exact readsAs_nodeLine (name_outer _) (displayName_plain (by decide) _)
        (flatMap_escapeChar_of_plain (number_plain _)).symm (by decide) (by decide)
  | transition index name label =>
      exact readsAs_nodeLine (name_outer _) (displayName_plain (by decide) _)
        String.toList_ofList (by decide) (by decide)
  | edge source target weight => exact readsAs_edge source target weight

theorem read_lines (statements : List Statement) (rest : List Char) :
    read .outside ('\n' :: ((statements.map Statement.line).flatMap (·.toList ++ ['\n']) ++ rest)) =
      statements.map Statement.pieces ++ read .outside ('\n' :: rest) := by
  induction statements with
  | nil => rfl
  | cons statement statements ih =>
      have hline := readsAs_line statement
      rw [List.map_cons, List.flatMap_cons, List.append_assoc, List.append_assoc, hline,
        List.singleton_append, ih]
      rfl

/-- What stands before the first node: the beginning of the graph and the defaults for nodes. -/
def heading : List Pieces :=
  [["digraph PetriNet \x7b\n    rankdir=LR".toList],
    ["\n    node [fontname=".toList, "Helvetica".toList, "]".toList]]

/-- What stands after the last statement: the end of the graph. -/
def ending : Pieces := ["\n\x7d\n".toList]

/-- A drawing is read as the statements of the net, between the beginning and the end of the
graph. -/
theorem read_dot (net : Net) : read .outside net.dot.toList =
    heading ++ net.statements.map Statement.pieces ++ [ending] := by
  have hdot : net.dot.toList =
      "digraph PetriNet \x7b\n    rankdir=LR".toList ++ ';' ::
        ("\n    node [fontname=".toList ++ '"' :: ("Helvetica".toList.flatMap escapeChar ++ '"' ::
          ("]".toList ++ ';' :: '\n' :: ((net.statements.map Statement.line).flatMap
            (·.toList ++ ['\n']) ++ "\x7d\n".toList)))) := by
    rw [Net.dot, lines_eq, flatMap_escapeChar_of_plain (by decide)]
    simp [String.toList_join, List.flatMap_map]
  rw [hdot, read_end (by decide), read_quoted (by decide), read_end (by decide), read_lines]
  rfl

/-! ### Statements that are read alike -/

/-- A run of characters ends where the first other one follows. -/
theorem run_inj {p : Char → Bool} {c : Char} (hc : p c = false) {run run' rest rest' : List Char}
    (hrun : run.all p = true) (hrun' : run'.all p = true) (h : run ++ c :: rest = run' ++ c :: rest') :
    run = run' ∧ rest = rest' := by
  have hspan : ∀ {run : List Char} (rest : List Char), run.all p = true →
      (run ++ c :: rest).span p = (run, c :: rest) := fun rest hrun =>
    Text.span_append (List.all_eq_true.1 hrun) fun _ hhead => Option.some.inj hhead ▸ hc
  have heq := congrArg (List.span p) h
  rw [hspan rest hrun, hspan rest' hrun'] at heq
  obtain ⟨rfl, hrest⟩ := Prod.mk.inj heq
  exact ⟨rfl, (List.cons.inj hrest).2⟩

theorem Spot.name_injective : Function.Injective Spot.name := by
  intro spot spot' heq
  cases spot with
  | place index =>
      cases spot' with
      | place index' => rw [Net.numbered_injective "place_" heq]
      | transition index' => exact absurd (congrArg String.toList heq) (by simp [name])
  | transition index =>
      cases spot' with
      | place index' => exact absurd (congrArg String.toList heq) (by simp [name])
      | transition index' => rw [Net.numbered_injective "trans_" heq]

/-- A name of a node ends where a blank follows. -/
theorem name_inj {spot spot' : Spot} {rest rest' : List Char}
    (h : spot.name.toList ++ ' ' :: rest = spot'.name.toList ++ ' ' :: rest') :
    spot = spot' ∧ rest = rest' := by
  have hname : ∀ spot : Spot, spot.name.toList.all (fun c => c ≠ ' ') = true :=
    all_name (by decide) (by decide) (by decide)
  obtain ⟨heq, hrest⟩ := run_inj (by decide) (hname spot) (hname spot') h
  exact ⟨Spot.name_injective (String.toList_injective heq), hrest⟩

/-- The first line of a label ends where the second one begins. -/
theorem nodePieces_inj {spot spot' : Spot} {title title' detail detail' : String}
    {shape shape' colour colour' : String} (htitle : title.toList.all isPlain = true)
    (htitle' : title'.toList.all isPlain = true)
    (h : nodePieces spot.name title detail shape colour =
      nodePieces spot'.name title' detail' shape' colour') :
    spot = spot' ∧ title = title' ∧ detail = detail' := by
  obtain ⟨hhead, htail⟩ := List.cons.inj h
  have hlabel := (List.cons.inj htail).1
  have hspot : spot.name.toList = spot'.name.toList := by simpa using hhead
  have hlines : title.toList ++ '\n' :: detail.toList = title'.toList ++ '\n' :: detail'.toList := by
    simpa using hlabel
  obtain ⟨heq, hdetail⟩ := run_inj (by decide) htitle htitle' hlines
  exact ⟨Spot.name_injective (String.toList_injective hspot), String.toList_injective heq,
    String.toList_injective hdetail⟩

/-- A node is not read as an edge: behind the name of the one comes a bracket, behind the first name
of the other an arrow. -/
theorem nodePieces_ne_edge {spot source target : Spot} {title detail shape colour : String}
    {weight : Weight} : nodePieces spot.name title detail shape colour ≠
      (Statement.edge source target weight).pieces := by
  intro h
  have hhead : ∃ rest rest', spot.name.toList ++ ' ' :: '[' :: rest =
      source.name.toList ++ ' ' :: '-' :: rest' := by
    rw [Statement.pieces] at h
    split_ifs at h
    · exact ⟨_, _, by simpa using (List.cons.inj h).1⟩
    · exact ⟨_, _, by simpa using (List.cons.inj h).1⟩
  obtain ⟨rest, rest', hhead⟩ := hhead
  exact absurd (List.cons.inj (name_inj hhead).2).1 (by decide)

/-- The first name of an edge ends where the arrow follows. -/
theorem arrow_inj {source source' target target' : Spot}
    (h : "\n    " ++ source.name ++ " -> " ++ target.name =
      "\n    " ++ source'.name ++ " -> " ++ target'.name) :
    source = source' ∧ target = target' := by
  have hnames : source.name.toList ++ ' ' :: '-' :: '>' :: ' ' :: target.name.toList =
      source'.name.toList ++ ' ' :: '-' :: '>' :: ' ' :: target'.name.toList := by
    simpa using congrArg String.toList h
  obtain ⟨hsource, hrest⟩ := name_inj hnames
  have htarget : target.name.toList = target'.name.toList := by simpa using hrest
  exact ⟨hsource, Spot.name_injective (String.toList_injective htarget)⟩

theorem edgePieces_inj {source source' target target' : Spot} {weight weight' : Weight}
    (h : (Statement.edge source target weight).pieces =
      (Statement.edge source' target' weight').pieces) :
    source = source' ∧ target = target' ∧ weight = weight' := by
  rw [Statement.pieces, Statement.pieces] at h
  split_ifs at h with hweight hweight' hweight'
  · obtain ⟨hsource, htarget⟩ := arrow_inj (String.toList_injective (List.cons.inj h).1)
    exact ⟨hsource, htarget, hweight.trans hweight'.symm⟩
  · cases (List.cons.inj h).2
  · cases (List.cons.inj h).2
  · obtain ⟨hhead, htail⟩ := List.cons.inj h
    have hnames := (String.append_left_inj " [label=").1 (String.toList_injective hhead)
    obtain ⟨hsource, htarget⟩ := arrow_inj hnames
    have hnumber := Text.toString_injective (String.toList_injective (List.cons.inj htail).1)
    exact ⟨hsource, htarget, UInt64.toNat_inj.1 hnumber⟩

/-- A statement is known from how it is read. -/
theorem Statement.pieces_injective : Function.Injective Statement.pieces := by
  intro statement statement' h
  have hp : ∀ n : ℕ, ("p" ++ toString n).toList.all isPlain = true := displayName_plain (by decide)
  have ht : ∀ n : ℕ, ("t" ++ toString n).toList.all isPlain = true := displayName_plain (by decide)
  cases statement with
  | place index name tokens =>
      cases statement' with
      | place index' name' tokens' =>
          obtain ⟨hspot, hname, htokens⟩ := nodePieces_inj (hp _) (hp _) h
          rw [Spot.place.inj hspot, Net.displayName_injective "p" hname,
            UInt64.toNat_inj.1 (Text.toString_injective htokens)]
      | transition index' name' label' => cases (nodePieces_inj (hp _) (ht _) h).1
      | edge source target weight => exact absurd h nodePieces_ne_edge
  | transition index name label =>
      cases statement' with
      | place index' name' tokens' => cases (nodePieces_inj (ht _) (hp _) h).1
      | transition index' name' label' =>
          obtain ⟨hspot, hname, hlabel⟩ := nodePieces_inj (ht _) (ht _) h
          rw [Spot.transition.inj hspot, Net.displayName_injective "t" hname, hlabel]
      | edge source target weight => exact absurd h nodePieces_ne_edge
  | edge source target weight =>
      cases statement' with
      | place index name tokens => exact absurd h.symm nodePieces_ne_edge
      | transition index name label => exact absurd h.symm nodePieces_ne_edge
      | edge source' target' weight' =>
          obtain ⟨hsource, htarget, hweight⟩ := edgePieces_inj h
          rw [hsource, htarget, hweight]

/-- Two drawings are the same text exactly when they show the same. -/
theorem dot_eq_iff {net net' : Net} : net.dot = net'.dot ↔ net.statements = net'.statements := by
  constructor
  · intro h
    have hread := congrArg (read .outside) (congrArg String.toList h)
    rw [read_dot, read_dot, List.append_cancel_right_eq, List.append_cancel_left_eq] at hread
    exact Statement.pieces_injective.list_map hread
  · intro h
    rw [Net.dot, Net.dot, lines_eq, lines_eq, h]

end Dot
end PetriCcs
