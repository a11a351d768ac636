import PetriCcs.Proofs.Queries

/-! # Calls on several nets

A run is a list of calls on a growing list of nets: calls that make a net draw a tag for it, the
others name the net that they change or ask.  The same calls with all handles and tags translated,
on the translated nets, give the translated replies and leave the translated nets behind
(`Call.runAll_rename`). -/

namespace PetriCcs

/-- A call on the nets of a run, with the tag that it draws for a new net and the random source that
it reads. -/
inductive Call (σ : Type) where
  | create (tag : ℕ)
  | build (document : Document) (tag : ℕ)
  | copy (number tag : ℕ)
  | synchronise (number tag : ℕ) (source : σ)
  | change (number : ℕ) (change : Change)
  | query (number : ℕ) (query : Query)

/-- What a call returns; nets are numbered in the order in which they draw their tags. -/
inductive Reply (σ : Type) where
  /-- There is no net under this number. -/
  | absent
  | created
  | built (result : Except DocumentError Unit)
  /-- The steps to the new net and what is left of the source. -/
  | synchronised (result : Except NetError (List Sync.Step × σ))
  | changed (result : Except ChangeError Outcome)
  | answered (answer : Answer)

namespace Call

variable {σ : Type} [RandomSource σ]

/-- The reply of a call and the nets after it.  Nobody gets at the net of a refused document, which is
left empty, but it has drawn a tag and keeps its number. -/
def run (nets : List Net) : Call σ → Reply σ × List Net
  | .create tag => (.created, nets ++ [.empty tag])
  | .build document tag =>
    match document.toNet tag with
    | .ok net => (.built (.ok ()), nets ++ [net])
    | .error error => (.built (.error error), nets ++ [.empty tag])
  | .copy number tag =>
    match nets[number]? with
    | none => (.absent, nets)
    | some net => (.created, nets ++ [net.copy tag])
  | .synchronise number tag source =>
    match nets[number]? with
    | none => (.absent, nets)
    | some net =>
      match net.synchronise tag source with
      | .ok (result, source) => (.synchronised (.ok (result.steps, source)), nets ++ [result.net])
      | .error error => (.synchronised (.error error), nets)
  | .change number made =>
    match nets[number]? with
    | none => (.absent, nets)
    | some net => (.changed (made.runOn net).1, nets.set number (made.runOn net).2)
  | .query number asked =>
    match nets[number]? with
    | none => (.absent, nets)
    | some net => (.answered (asked.answer net), nets)

/-- The replies of calls one after the other and the nets after them. -/
def runAll : List (Call σ) → List Net → List (Reply σ) × List Net
  | [], nets => ([], nets)
  | call :: calls, nets =>
    let (reply, nets) := call.run nets
    let (replies, nets) := runAll calls nets
    (reply :: replies, nets)

/-- The tag that a call draws if it makes a net. -/
def tag? : Call σ → Option ℕ
  | .create tag | .build _ tag | .copy _ tag | .synchronise _ tag _ => some tag
  | .change _ _ | .query _ _ => none

end Call

/-! ### Translation -/

def Call.rename {σ : Type} (ρ : ℕ → ℕ) : Call σ → Call σ
  | .create tag => .create (ρ tag)
  | .build document tag => .build document (ρ tag)
  | .copy number tag => .copy number (ρ tag)
  | .synchronise number tag source => .synchronise number (ρ tag) source
  | .change number made => .change number (made.rename ρ)
  | .query number asked => .query number (asked.rename ρ)

def Reply.rename {σ : Type} (ρ : ℕ → ℕ) : Reply σ → Reply σ
  | .absent => .absent
  | .created => .created
  | .built result => .built (translate (DocumentError.rename ρ) id result)
  | .synchronised result => .synchronised
      (translate (NetError.rename ρ) (fun made => (made.1.map (·.rename ρ), made.2)) result)
  | .changed result => .changed (translate (ChangeError.rename ρ) (Outcome.rename ρ) result)
  | .answered answer => .answered (answer.rename ρ)

variable {ρ : ℕ → ℕ} {σ : Type} [RandomSource σ] {nets : List Net}

theorem Document.toNet_rename (hρ : Function.Injective ρ) (document : Document) (tag : ℕ) :
    document.toNet (ρ tag) =
      translate (DocumentError.rename ρ) (Net.rename ρ) (document.toNet tag) := by
  have himport := document.importInto_equivariant hρ (.empty tag)
  rw [Net.empty_rename] at himport
  unfold toNet runOn
  rw [himport]
  cases document.importInto.run.run (.empty tag) with
  | mk result net => cases result <;> rfl

namespace Call

/-! ### The nets after a call -/

/-- What calls do. -/
inductive Does (nets : List Net) : Call σ → Reply σ × List Net → Prop where
  | absent {call : Call σ} : Does nets call (.absent, nets)
  | create {tag : ℕ} : Does nets (.create tag) (.created, nets ++ [.empty tag])
  | build {document : Document} {tag : ℕ} {net : Net} (hbuilt : document.toNet tag = .ok net) :
      Does nets (.build document tag) (.built (.ok ()), nets ++ [net])
  | refuse {document : Document} {tag : ℕ} {error : DocumentError}
      (hbuilt : document.toNet tag = .error error) :
      Does nets (.build document tag) (.built (.error error), nets ++ [.empty tag])
  | copy {number tag : ℕ} {net : Net} (hnet : nets[number]? = some net) :
      Does nets (.copy number tag) (.created, nets ++ [net.copy tag])
  | synchronise {number tag : ℕ} {source rest : σ} {net : Net} {result : Sync.Result}
      (hnet : nets[number]? = some net) (hrun : net.synchronise tag source = .ok (result, rest)) :
      Does nets (.synchronise number tag source)
        (.synchronised (.ok (result.steps, rest)), nets ++ [result.net])
  | decline {number tag : ℕ} {source : σ} {net : Net} {error : NetError}
      (hnet : nets[number]? = some net) (hrun : net.synchronise tag source = .error error) :
      Does nets (.synchronise number tag source) (.synchronised (.error error), nets)
  | change {number : ℕ} {change : Change} {net : Net} (hnet : nets[number]? = some net) :
      Does nets (.change number change)
        (.changed (change.runOn net).1, nets.set number (change.runOn net).2)
  | query {number : ℕ} {query : Query} {net : Net} (hnet : nets[number]? = some net) :
      Does nets (.query number query) (.answered (query.answer net), nets)

theorem run_does (nets : List Net) (call : Call σ) : Does nets call (call.run nets) := by
  cases call with
  | create tag => exact Does.create
  | build document tag =>
      rw [run]
      cases hbuilt : document.toNet tag with
      | error error => exact Does.refuse hbuilt
      | ok net => exact Does.build hbuilt
  | copy number tag =>
      rw [run]
      cases hnet : nets[number]? with
      | none => exact Does.absent
      | some net => exact Does.copy hnet
  | synchronise number tag source =>
      rw [run]
      cases hnet : nets[number]? with
      | none => exact Does.absent
      | some net =>
          cases hrun : net.synchronise tag source with
          | error error =>
              simp only [hrun]
              exact Does.decline hnet hrun
          | ok made =>
              simp only [hrun]
              exact Does.synchronise hnet hrun
  | change number made =>
      rw [run]
      cases hnet : nets[number]? with
      | none => exact Does.absent
      | some net => exact Does.change hnet
  | query number asked =>
      rw [run]
      cases hnet : nets[number]? with
      | none => exact Does.absent
      | some net => exact Does.query hnet

/-- What a call may leave: the nets as they are, a new one under the tag that it draws, or one of
them changed under its tag. -/
inductive Leaves (nets : List Net) (tag? : Option ℕ) : List Net → Prop where
  | same : Leaves nets tag? nets
  | made {net : Net} (htag : tag? = some net.tag) (hnet : net.Consistent) :
      Leaves nets tag? (nets ++ [net])
  | changed {number : ℕ} {net net' : Net} (hnumber : nets[number]? = some net)
      (htag : net'.tag = net.tag) (hnet : net'.Consistent) : Leaves nets tag? (nets.set number net')

theorem run_leaves (h : ∀ net ∈ nets, net.Consistent) (call : Call σ) :
    Leaves nets call.tag? (call.run nets).2 := by
  have hdoes := call.run_does nets
  generalize call.run nets = outcome at hdoes
  cases hdoes with
  | absent => exact Leaves.same
  | create => exact Leaves.made rfl (Net.consistent_empty _)
  | @build document tag net hbuilt =>
      have hevolves := (Change.importDocument document).evolves (Net.consistent_empty tag)
      rw [Change.importDocument_of_toNet hbuilt] at hevolves
      exact Leaves.made (congrArg some hevolves.tag.symm) hevolves.consistent
  | refuse _ => exact Leaves.made rfl (Net.consistent_empty _)
  | copy hnet => exact Leaves.made rfl ((h _ (List.mem_of_getElem? hnet)).copy _)
  | synchronise hnet hrun =>
      have hevolves := (Net.synchronise_splits (h _ (List.mem_of_getElem? hnet)) hrun).1.evolves
      exact Leaves.made (congrArg some hevolves.tag.symm) hevolves.consistent
  | decline _ _ => exact Leaves.same
  | @change _ made _ hnet =>
      have hevolves := made.evolves (h _ (List.mem_of_getElem? hnet))
      exact Leaves.changed hnet hevolves.tag hevolves.consistent
  | query _ => exact Leaves.same

theorem Leaves.consistent {tag? : Option ℕ} {nets' : List Net} (hleaves : Leaves nets tag? nets')
    (h : ∀ net ∈ nets, net.Consistent) : ∀ net ∈ nets', net.Consistent := by
  cases hleaves with
  | same => exact h
  | made _ hnet =>
      intro net' hmem
      rcases List.mem_append.1 hmem with hmem | hmem
      · exact h net' hmem
      · rwa [List.mem_singleton.1 hmem]
  | changed _ _ hnet =>
      intro net' hmem
      rcases List.mem_or_eq_of_mem_set hmem with hmem | rfl
      · exact h net' hmem
      · exact hnet

theorem Leaves.length_le {tag? : Option ℕ} {nets' : List Net} (hleaves : Leaves nets tag? nets') :
    nets.length ≤ nets'.length := by
  cases hleaves with
  | same => exact le_rfl
  | made _ _ =>
      rw [List.length_append]
      exact Nat.le_add_right _ _
  | changed _ _ _ => rw [List.length_set]

/-- A net keeps its number and its tag; a new one has the next number and the tag drawn. -/
theorem Leaves.tag_eq {tag? : Option ℕ} {nets' : List Net} (hleaves : Leaves nets tag? nets') {i : ℕ}
    {net' : Net} (hnet' : nets'[i]? = some net') :
    (∃ net, nets[i]? = some net ∧ net'.tag = net.tag) ∨ i = nets.length ∧ tag? = some net'.tag := by
  cases hleaves with
  | same => exact Or.inl ⟨net', hnet', rfl⟩
  | @made net htag _ =>
      rcases Nat.lt_or_ge i nets.length with hi | hi
      · rw [List.getElem?_append_left hi] at hnet'
        exact Or.inl ⟨net', hnet', rfl⟩
      · rw [List.getElem?_append_right hi, List.getElem?_singleton] at hnet'
        split_ifs at hnet' with hzero
        cases hnet'
        exact Or.inr ⟨by omega, htag⟩
  | @changed number net made hnumber htag _ =>
      by_cases hi : i = number
      · rw [hi, List.getElem?_set_self (List.getElem?_eq_some_iff.1 hnumber).1] at hnet'
        cases hnet'
        exact Or.inl ⟨net, hi ▸ hnumber, htag⟩
      · rw [List.getElem?_set_ne (Ne.symm hi)] at hnet'
        exact Or.inl ⟨net', hnet', rfl⟩

/-! ### Runs in translated handles -/

/-- One call in translated handles. -/
theorem run_rename (hρ : Function.Injective ρ) (h : ∀ net ∈ nets, net.Consistent)
    (call : Call σ) : (call.rename ρ).run (nets.map (Net.rename ρ)) =
      ((call.run nets).1.rename ρ, (call.run nets).2.map (Net.rename ρ)) := by
  have hnew : ∀ net : Net,
      nets.map (Net.rename ρ) ++ [net.rename ρ] = (nets ++ [net]).map (Net.rename ρ) := fun net => by
    rw [List.map_append, List.map_singleton]
  cases call with
  | create tag =>
      rw [rename, run, run, ← Net.empty_rename, hnew]
      rfl
  | build document tag =>
      rw [rename, run, run, Document.toNet_rename hρ]
      cases document.toNet tag with
      | error error =>
          simp only [translate, ← Net.empty_rename, hnew]
          rfl
      | ok net =>
          simp only [translate, hnew]
          rfl
  | copy number tag =>
      rw [rename, run, run, List.getElem?_map]
      cases hnet : nets[number]? with
      | none => rfl
      | some net =>
          have hcopy : (net.rename ρ).copy (ρ tag) = (net.copy tag).rename ρ := by
            rw [Net.copy_rename, ← (h net (List.mem_of_getElem? hnet)).copy_eq_rename, Net.copy_copy]
          simp only [Option.map_some, hcopy, hnew]
          rfl
  | synchronise number tag source =>
      rw [rename, run, run, List.getElem?_map]
      cases hnet : nets[number]? with
      | none => rfl
      | some net =>
          have hnet := h net (List.mem_of_getElem? hnet)
          simp only [Option.map_some, hnet.synchronise_rename hρ]
          cases net.synchronise tag source with
          | error error => rfl
          | ok made =>
              simp only [translate, Sync.Result.rename, hnew]
              rfl
  | change number made =>
      rw [rename, run, run, List.getElem?_map]
      cases nets[number]? with
      | none => rfl
      | some net =>
          simp only [Option.map_some, made.runOn_rename hρ, ← List.map_set]
          rfl
  | query number asked =>
      rw [rename, run, run, List.getElem?_map]
      cases hnet : nets[number]? with
      | none => rfl
      | some net =>
          simp only [Option.map_some, asked.answer_rename hρ (h net (List.mem_of_getElem? hnet))]
          rfl

/-- Runs in translated handles give translated replies and nets. -/
theorem runAll_rename (hρ : Function.Injective ρ) : ∀ (calls : List (Call σ)) {nets : List Net},
    (∀ net ∈ nets, net.Consistent) →
      runAll (calls.map (Call.rename ρ)) (nets.map (Net.rename ρ)) =
        ((runAll calls nets).1.map (Reply.rename ρ), (runAll calls nets).2.map (Net.rename ρ))
  | [], _, _ => rfl
  | call :: calls, nets, h => by
      have hrest := runAll_rename hρ calls ((call.run_leaves h).consistent h)
      simp only [List.map_cons, runAll, call.run_rename hρ h, hrest]

end Call
end PetriCcs
