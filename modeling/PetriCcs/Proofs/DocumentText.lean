import PetriCcs.Document.Format
import PetriCcs.Proofs.JsonRoundTrip
import PetriCcs.Proofs.RonRoundTrip
import PetriCcs.Proofs.WrittenFiles

/-! # Documents are read back from their texts

The texts of a document in both formats are read as the document, and so is a file it was written
to (`Document.text_round_trip`).  A format reads back the data that a document becomes, with the
names of its records missing (`Json.parse?_print`, `Ron.parse?_print`), and from these the document
is made again, no field of it by default (`Document.ofDatum?_toDatum`).  For RON, the levels of
nesting are few enough (`Document.shown_toDatum`). -/

namespace PetriCcs

open Datum (RecordForm)

namespace Datum

/-- The number that a 64-bit number is written as stands for it. -/
theorem word?_toNat (w : UInt64) : (natural w.toNat).word? = some w := by
  rw [word?, if_pos w.toNat_lt_size]
  exact congrArg some (UInt64.ofNat_toNat)

/-- A list of values is read back when each of them is. -/
theorem optionalList_map {α : Type} {item : Datum → Option α} {written : α → Datum}
    (h : ∀ a, item (written a).unnamed = some a) (found : List α) :
    optionalList item (some (.list (unnamedItems (found.map written)))) = some found := by
  rw [unnamedItems_eq_map]
  show (found.map written |>.map unnamed).mapM item = some found
  induction found with
  | nil => rfl
  | cons a found ih =>
      rw [List.map_cons, List.map_cons, List.mapM_cons, h a, ih]
      rfl

end Datum

/-! ### Records -/

section records
variable {form : RecordForm}

theorem Datum.record?_none (hform : form.named = false) (name : String) {keys : List String}
    {fields : List (String × Datum)} (hgiven : Datum.givenOnce keys fields = true) :
    (Datum.record none fields).record? form name keys = some fun key => fields.lookup key := by
  rw [Datum.record?, RecordForm.accepts, hform, hgiven]
  rfl

theorem PlaceEntry.ofDatum?_toDatum (hform : form.named = false) (entry : PlaceEntry) :
    PlaceEntry.ofDatum? form entry.toDatum.unnamed = some entry := by
  rw [PlaceEntry.ofDatum?, toDatum, Datum.unnamed, Datum.record?_none hform _ rfl]
  simp [Datum.unnamedFields, Datum.unnamed, List.lookup_cons, Datum.text?, Datum.word?_toNat]

theorem TransitionEntry.ofDatum?_toDatum (hform : form.named = false) (entry : TransitionEntry) :
    TransitionEntry.ofDatum? form entry.toDatum.unnamed = some entry := by
  rw [TransitionEntry.ofDatum?, toDatum, Datum.unnamed, Datum.record?_none hform _ rfl]
  simp [Datum.unnamedFields, Datum.unnamed, List.lookup_cons, Datum.text?]

theorem ArcEntry.ofDatum?_toDatum (hform : form.named = false) (entry : ArcEntry) :
    ArcEntry.ofDatum? form entry.toDatum.unnamed = some entry := by
  rw [ArcEntry.ofDatum?, toDatum, Datum.unnamed, Datum.record?_none hform _ rfl]
  simp [Datum.unnamedFields, Datum.unnamed, List.lookup_cons, Datum.text?, Datum.word?_toNat]

theorem Document.ofDatum?_toDatum (hform : form.named = false) (document : Document) :
    Document.ofDatum? form document.toDatum.unnamed = some document := by
  have hplaces := Datum.optionalList_map (PlaceEntry.ofDatum?_toDatum hform) document.places
  have htransitions :=
    Datum.optionalList_map (TransitionEntry.ofDatum?_toDatum hform) document.transitions
  have harcs := Datum.optionalList_map (ArcEntry.ofDatum?_toDatum hform) document.arcs
  rw [Document.ofDatum?, toDatum, Datum.unnamed, Datum.record?_none hform _ rfl]
  simp [Datum.unnamedFields, Datum.unnamed, List.lookup_cons, hplaces, htransitions, harcs]

end records

/-! ### Levels of nesting -/

section levels
variable (levels : ℕ)

theorem PlaceEntry.shown_toDatum (entry : PlaceEntry) :
    Ron.Shown (levels + 2) entry.toDatum := by
  have hkeys : ∀ key ∈ ["id", "tokens"], Ron.isPlainName key.toList = true := by decide
  refine .record hkeys ?_
  simp only [List.forall_mem_cons]
  exact ⟨.text _, .natural entry.tokens.toNat_lt_size, List.forall_mem_nil _⟩

theorem TransitionEntry.shown_toDatum (entry : TransitionEntry) :
    Ron.Shown (levels + 2) entry.toDatum := by
  have hkeys : ∀ key ∈ ["id", "label"], Ron.isPlainName key.toList = true := by decide
  refine .record hkeys ?_
  simp only [List.forall_mem_cons]
  exact ⟨.text _, .text _, List.forall_mem_nil _⟩

theorem ArcEntry.shown_toDatum (entry : ArcEntry) : Ron.Shown (levels + 2) entry.toDatum := by
  have hkeys : ∀ key ∈ ["from", "to", "weight"], Ron.isPlainName key.toList = true := by decide
  refine .record hkeys ?_
  simp only [List.forall_mem_cons]
  exact ⟨.text _, .text _, .natural entry.weight.toNat_lt_size, List.forall_mem_nil _⟩

theorem Ron.Shown.list_map {α : Type} {levels : ℕ} {written : α → Datum}
    (h : ∀ a, Ron.Shown levels (written a)) (found : List α) :
    Ron.Shown (levels + 2) (.list (found.map written)) :=
  .list (List.forall_mem_map.2 fun a _ => h a)

/-- A document takes six levels of nesting: itself, its lists and their entries. -/
theorem Document.shown_toDatum (document : Document) :
    Ron.Shown (levels + 6) document.toDatum := by
  have hkeys : ∀ key ∈ ["places", "transitions", "arcs"], Ron.isPlainName key.toList = true := by
    decide
  refine .record hkeys ?_
  simp only [List.forall_mem_cons]
  exact ⟨.list_map (PlaceEntry.shown_toDatum levels) _,
    .list_map (TransitionEntry.shown_toDatum levels) _,
    .list_map (ArcEntry.shown_toDatum levels) _, List.forall_mem_nil _⟩

end levels

/-! ### Texts -/

namespace Document

theorem ofJson_toJson (document : Document) : ofJson document.toJson = .ok document := by
  rw [ofJson, toJson, Json.parse?_print]
  simp [ofDatum?_toDatum]

theorem ofRon_toRon (document : Document) : ofRon document.toRon = .ok document := by
  rw [ofRon, toRon, Ron.parse?_print (shown_toDatum 122 document)]
  simp [ofDatum?_toDatum]

/-- Either format reads back what it wrote. -/
theorem parse_print (format : DocumentFormat) (document : Document) :
    parse format (document.print format) = .ok document := by
  cases format with
  | json => exact ofJson_toJson document
  | ron => exact ofRon_toRon document

end Document

/-! ### Files -/

namespace FileAccess

variable {σ : Type} {files : FileAccess (StateM σ)} {path : String} {document : Document} {s s' : σ}

/-- A file system where a file holds what was last written under its path. -/
def Keeps (files : FileAccess (StateM σ)) : Prop :=
  ∀ path text s s', (files.write path text).run s = (.ok (), s') →
    ((files.read path).run s').1 = .ok text

/-- A document is written exactly when the file system writes its text. -/
theorem writeDocument_eq_ok_iff : (files.writeDocument path document).run s = (.ok (), s') ↔
    (files.write path (document.print (.ofPath path))).run s = (.ok (), s') := by
  rw [writeDocument, StateT.run_bind]
  rcases (files.write path (document.print (.ofPath path))).run s with ⟨result, after⟩
  cases result with
  | error error => constructor <;> exact fun h => nomatch (Prod.mk.inj h).1
  | ok _ => constructor <;> exact fun h => (Prod.mk.inj h).2 ▸ rfl

/-- A document is read as its format reads what the file holds. -/
theorem readDocument_of_read {text : String} (h : ((files.read path).run s).1 = .ok text) :
    ((files.readDocument path).run s).1 = Document.parse (.ofPath path) text := by
  rw [readDocument, StateT.run_bind]
  rcases hread : (files.read path).run s with ⟨result, after⟩
  rw [hread] at h
  cases h
  rfl

/-- A document is read from the file it was written to, in the format of the path. -/
theorem Keeps.readDocument (hfiles : files.Keeps)
    (hwrite : (files.writeDocument path document).run s = (.ok (), s')) :
    ((files.readDocument path).run s').1 = .ok document := by
  have hread := hfiles _ _ _ _ (writeDocument_eq_ok_iff.1 hwrite)
  rw [readDocument_of_read hread, Document.parse_print]

end FileAccess

/-- The texts of a document are read as the document, in both formats.  On every file system that
keeps what is written, a document is written whenever its text is, whatever format the path stands
for, and it is read back from the file. -/
theorem Document.text_round_trip (document : Document) :
    Document.ofJson document.toJson = .ok document ∧
    Document.ofRon document.toRon = .ok document ∧
    ∀ {σ : Type} (files : FileAccess (StateM σ)), files.Keeps → ∀ (path : String) (s s' : σ),
      ((files.writeDocument path document).run s = (.ok (), s') ↔
        (files.write path (document.print (.ofPath path))).run s = (.ok (), s')) ∧
      ((files.writeDocument path document).run s = (.ok (), s') →
        ((files.readDocument path).run s').1 = .ok document) :=
  ⟨ofJson_toJson document, ofRon_toRon document, fun _ hfiles _ _ _ =>
    ⟨FileAccess.writeDocument_eq_ok_iff, hfiles.readDocument⟩⟩

theorem Directory.access_keeps : Directory.access.Keeps := by
  intro path text directory directory' hwrite
  have hread : directory'.read path = .ok text := read_of_write hwrite
  exact hread

/-- A document with the greatest number of tokens and with characters that have to be escaped. -/
def Document.escaped : Document where
  places := [⟨"p\"1\\", 18446744073709551615⟩]
  transitions := [⟨"t\n1", "\x00 e\u0301 'τ'"⟩]
  arcs := [⟨"p\"1\\", "t\n1", 3⟩]

/-- Files in two formats, one under a path from the root, the other under a path from the current
directory that goes up and down again. -/
theorem Document.text_round_trip_escaped : Directory.access.Keeps ∧
    (Directory.access.writeDocument "/tmp/net.ron" escaped).run ⟨[], [["tmp"]], ["work"]⟩ =
      (.ok (), ⟨[(["tmp", "net.ron"], escaped.toRon)], [["tmp"]], ["work"]⟩) ∧
    ((Directory.access.readDocument "/tmp/net.ron").run
      ⟨[(["tmp", "net.ron"], escaped.toRon)], [["tmp"]], ["work"]⟩).1 = .ok escaped ∧
    (Directory.access.writeDocument "../work/net.json" escaped).run ⟨[], [["tmp"]], ["work"]⟩ =
      (.ok (), ⟨[(["work", "net.json"], escaped.toJson)], [["tmp"]], ["work"]⟩) ∧
    ((Directory.access.readDocument "../work/net.json").run
      ⟨[(["work", "net.json"], escaped.toJson)], [["tmp"]], ["work"]⟩).1 = .ok escaped := by
  have hround := (text_round_trip escaped).2.2 Directory.access Directory.access_keeps
  have hron : (Directory.access.writeDocument "/tmp/net.ron" escaped).run ⟨[], [["tmp"]], ["work"]⟩ =
      (.ok (), ⟨[(["tmp", "net.ron"], escaped.toRon)], [["tmp"]], ["work"]⟩) := rfl
  have hjson : (Directory.access.writeDocument "../work/net.json" escaped).run
      ⟨[], [["tmp"]], ["work"]⟩ =
      (.ok (), ⟨[(["work", "net.json"], escaped.toJson)], [["tmp"]], ["work"]⟩) := rfl
  exact ⟨Directory.access_keeps, hron, (hround _ _ _).2 hron, hjson, (hround _ _ _).2 hjson⟩

end PetriCcs
