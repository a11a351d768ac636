import PetriCcs.Proofs.SynchroniseContract

/-! # Translating tags

A translation of tags takes every handle to the same position under the translated tag
(`Handle.rename`) and every net to the net that holds the same in translated handles (`Net.rename`).
An injective translation keeps handles apart, so every lookup finds in the translated net what it
finds in the net (`place?_rename`, `outgoing?_rename`, `findEdge?_rename`).  A copy of a consistent net
is a translation of it (`Consistent.copy_eq_rename`). -/

namespace PetriCcs

variable {ρ : ℕ → ℕ} {kind : Kind}

/-- The same position under a translated tag. -/
def Handle.rename (ρ : ℕ → ℕ) (id : Handle kind) : Handle kind := { id with owner := ρ id.owner }

def Node.rename (ρ : ℕ → ℕ) : Node → Node
  | .place id => .place (id.rename ρ)
  | .transition id => .transition (id.rename ρ)

def Place.rename (ρ : ℕ → ℕ) (place : Place) : Place :=
  { place with
    id := place.id.rename ρ
    incoming := place.incoming.map (·.rename ρ)
    outgoing := place.outgoing.map (·.rename ρ) }

def Transition.rename (ρ : ℕ → ℕ) (transition : Transition) : Transition :=
  { transition with
    id := transition.id.rename ρ
    incoming := transition.incoming.map (·.rename ρ)
    outgoing := transition.outgoing.map (·.rename ρ) }

def Edge.rename (ρ : ℕ → ℕ) (edge : Edge) : Edge :=
  { edge with
    id := edge.id.rename ρ
    source := edge.source.rename ρ
    target := edge.target.rename ρ }

/-- The collection of the translated owner, with translated values. -/
def Arena.rename {α : Type} (ρ : ℕ → ℕ) (f : α → α) (arena : Arena kind α) : Arena kind α where
  owner := ρ arena.owner
  items := arena.items.map f

/-- A net with all its handles translated. -/
def Net.rename (ρ : ℕ → ℕ) (net : Net) : Net where
  tag := ρ net.tag
  places := net.places.rename ρ (Place.rename ρ)
  transitions := net.transitions.rename ρ (Transition.rename ρ)
  edges := net.edges.rename ρ (Edge.rename ρ)
  placeNames := net.placeNames
  transitionNames := net.transitionNames

/-! ### Handles -/

theorem Handle.rename_injective (hρ : Function.Injective ρ) :
    Function.Injective (Handle.rename ρ : Handle kind → Handle kind) := by
  intro id id' heq
  obtain ⟨howner, hindex⟩ := Handle.mk.inj heq
  exact Handle.ext (hρ howner) hindex

theorem Node.rename_injective (hρ : Function.Injective ρ) :
    Function.Injective (Node.rename ρ) := by
  intro node node' heq
  cases node with
  | place id =>
      cases node' with
      | place id' => rw [Handle.rename_injective hρ (Node.place.inj heq)]
      | transition id' => cases heq
  | transition id =>
      cases node' with
      | place id' => cases heq
      | transition id' => rw [Handle.rename_injective hρ (Node.transition.inj heq)]

theorem Node.rename_eq_retag (node : Node) : node.rename ρ = node.retag (ρ node.owner) := by
  cases node <;> rfl

@[simp] theorem Node.place?_rename (node : Node) :
    (node.rename ρ).place? = node.place?.map (·.rename ρ) := by
  cases node <;> rfl

@[simp] theorem Node.transition?_rename (node : Node) :
    (node.rename ρ).transition? = node.transition?.map (·.rename ρ) := by
  cases node <;> rfl

/-! ### Collections -/

namespace Arena

variable {α : Type} {f : α → α} {arena : Arena kind α} {id : Handle kind}

@[simp] theorem size_rename : (arena.rename ρ f).size = arena.size := Array.size_map

@[simp] theorem toList_rename : (arena.rename ρ f).toList = arena.toList.map f :=
  Array.toList_map

theorem handleAt_rename (position : ℕ) :
    (arena.rename ρ f).handleAt position = (arena.handleAt position).rename ρ := rfl

theorem nextHandle_rename : (arena.rename ρ f).nextHandle = arena.nextHandle.rename ρ := by
  rw [nextHandle, size_rename, handleAt_rename]
  rfl

theorem handle?_rename (position : ℕ) :
    (arena.rename ρ f).handle? position = (arena.handle? position).map (·.rename ρ) := by
  rw [handle?, handle?, size_rename]
  split_ifs <;> rfl

theorem handles_rename : (arena.rename ρ f).handles = arena.handles.map (·.rename ρ) := by
  rw [handles, handles, size_rename, List.map_map]
  rfl

theorem entries_rename : (arena.rename ρ f).entries =
    arena.entries.map fun entry => (entry.1.rename ρ, f entry.2) := by
  rw [entries, entries, toList_rename, List.zipIdx_map, List.map_map, List.map_map]
  rfl

theorem push_rename (value : α) :
    (arena.rename ρ f).push (f value) = (arena.push value).rename ρ f := by
  rw [push, push, rename, rename, Array.map_push]

theorem empty_rename (owner : ℕ) :
    (empty owner : Arena kind α).rename ρ f = empty (ρ owner) := by
  rw [empty, rename, Array.map_empty]
  rfl

theorem clear_rename : (arena.rename ρ f).clear = arena.clear.rename ρ f := by
  rw [clear, clear, rename, rename, Array.map_empty]

section Injective

variable (hρ : Function.Injective ρ)

include hρ

theorem contains_rename : (arena.rename ρ f).contains (id.rename ρ) = arena.contains id := by
  have howner : (ρ id.owner == ρ arena.owner) = (id.owner == arena.owner) := by
    rw [Bool.eq_iff_iff, beq_iff_eq, beq_iff_eq, hρ.eq_iff]
  rw [contains, contains, size_rename]
  exact congrArg (· && decide (id.index < arena.size)) howner

theorem get?_rename : (arena.rename ρ f).get? (id.rename ρ) = (arena.get? id).map f := by
  have howner : (id.rename ρ).owner = (arena.rename ρ f).owner ↔ id.owner = arena.owner :=
    hρ.eq_iff
  rw [get?, get?]
  by_cases h : id.owner = arena.owner
  · rw [if_pos h, if_pos (howner.2 h)]
    exact Array.getElem?_map
  · rw [if_neg h, if_neg (fun h' => h (howner.1 h'))]
    rfl

theorem update?_rename {g g' : α → α} (hg : ∀ value, g' (f value) = f (g value)) :
    (arena.rename ρ f).update? (id.rename ρ) g' =
      (arena.update? id g).map fun arena => arena.rename ρ f := by
  rw [update?, update?, contains_rename hρ]
  split_ifs with hid
  · have hitems : (arena.items.map f).modify id.index g' = (arena.items.modify id.index g).map f := by
      apply Array.ext_getElem?
      intro i
      simp only [Array.getElem?_modify, Array.getElem?_map]
      split_ifs
      · cases arena.items[i]? <;> simp [hg]
      · rfl
    exact congrArg (fun items => some (Arena.mk (ρ arena.owner) items)) hitems
  · rfl

/-- What is left after the removal of a value, in translated handles. -/
theorem swapRemove?_rename : (arena.rename ρ f).swapRemove? (id.rename ρ) =
    (arena.swapRemove? id).map fun removal =>
      ⟨f removal.value, removal.movedFrom.map (·.rename ρ), removal.rest.rename ρ f⟩ := by
  have hback : (arena.rename ρ f).items.back? = arena.items.back?.map f := by
    simp [Array.back?_eq_getElem?, Arena.rename]
  rw [swapRemove?, swapRemove?, get?_rename hρ, hback, size_rename]
  cases arena.get? id with
  | none => rfl
  | some value =>
      cases arena.items.back? with
      | none => rfl
      | some last =>
          have hmoved : (arena.handleAt (arena.size - 1)).rename ρ = id.rename ρ ↔
              arena.handleAt (arena.size - 1) = id := (Handle.rename_injective hρ).eq_iff
          simp only [Option.map_some, handleAt_rename, hmoved]
          congr 2
          · split_ifs <;> rfl
          · simp only [Arena.rename, Array.map_pop, Array.map_setIfInBounds]
            rfl

end Injective

end Arena

/-! ### Nets -/

namespace Net

variable {net : Net}

theorem empty_rename (tag : ℕ) : (empty tag).rename ρ = empty (ρ tag) := by
  simp only [empty, Net.rename, Arena.empty_rename]

theorem clear_rename : (net.rename ρ).clear = net.clear.rename ρ := by
  simp only [clear, Net.rename, Arena.clear_rename]

theorem isEmpty_rename : (net.rename ρ).isEmpty = net.isEmpty := by
  simp [isEmpty, Arena.isEmpty, Net.rename]

theorem pushPlace_rename (name : NameIndex) (tokens : Weight) :
    (net.rename ρ).pushPlace name tokens = (net.pushPlace name tokens).rename ρ := by
  simp only [pushPlace, Net.rename, ← Arena.push_rename, Arena.nextHandle_rename, Place.rename,
    List.map_nil]

theorem pushTransition_rename (name : NameIndex) (label : Label) :
    (net.rename ρ).pushTransition name label = (net.pushTransition name label).rename ρ := by
  simp only [pushTransition, Net.rename, ← Arena.push_rename, Arena.nextHandle_rename,
    Transition.rename, List.map_nil]

theorem pushEdge_rename (source target : Node) (weight : Weight) :
    Net.rename ρ { net with edges := net.edges.push (Edit.newEdge net source target weight) } =
      { net.rename ρ with
        edges := (net.rename ρ).edges.push
          (Edit.newEdge (net.rename ρ) (source.rename ρ) (target.rename ρ) weight) } := by
  simp only [Edit.newEdge, Net.rename, ← Arena.push_rename, Arena.nextHandle_rename, Edge.rename]

/-- A copy hands out one tag, which is translated everywhere. -/
theorem copy_rename (net : Net) (tag : ℕ) : (net.copy tag).rename ρ = net.copy (ρ tag) := by
  have hmap : ∀ {kind : Kind} {α : Type} (arena : Arena kind α) {f g g' : α → α},
      (∀ value, f (g value) = g' value) →
        ((arena.retag tag).map g).rename ρ f = (arena.retag (ρ tag)).map g' := by
    intro kind α arena f g g' hfg
    simp only [Arena.map, Arena.retag, Arena.rename, Array.map_map]
    exact congrArg (Arena.mk _) (congrArg (Array.map · arena.items) (funext hfg))
  show Net.mk _ _ _ _ _ _ = Net.mk _ _ _ _ _ _
  congr 1
  · exact hmap net.places fun place => by
      simp [Place.rename, Handle.rename, Handle.retag, Function.comp_def]
  · exact hmap net.transitions fun transition => by
      simp [Transition.rename, Handle.rename, Handle.retag, Function.comp_def]
  · exact hmap net.edges fun edge => by
      simp [Edge.rename, Handle.rename, Handle.retag, Node.rename_eq_retag]

/-- A copy under the translated tag is the translated net. -/
theorem Consistent.copy_eq_rename (h : net.Consistent) (ρ : ℕ → ℕ) :
    net.copy (ρ net.tag) = net.rename ρ := by
  rw [← copy_rename, h.copy_tag]

section Injective

variable (hρ : Function.Injective ρ)

include hρ

theorem place?_rename (id : PlaceId) :
    (net.rename ρ).place? (id.rename ρ) = (net.place? id).map (Place.rename ρ) :=
  Arena.get?_rename hρ

theorem transition?_rename (id : TransitionId) :
    (net.rename ρ).transition? (id.rename ρ) = (net.transition? id).map (Transition.rename ρ) :=
  Arena.get?_rename hρ

theorem edge?_rename (id : EdgeId) :
    (net.rename ρ).edge? (id.rename ρ) = (net.edge? id).map (Edge.rename ρ) :=
  Arena.get?_rename hρ

theorem contains_rename (node : Node) :
    (net.rename ρ).contains (node.rename ρ) = net.contains node := by
  cases node <;> exact Arena.contains_rename hρ

theorem listed?_rename (side : Side) (node : Node) :
    (net.rename ρ).listed? side (node.rename ρ) =
      (net.listed? side node).map (List.map (·.rename ρ)) := by
  cases node with
  | place id =>
      cases side <;> simp only [listed?, outgoing?, incoming?, Node.rename, place?_rename hρ,
        Option.map_map] <;> rfl
  | transition id =>
      cases side <;> simp only [listed?, outgoing?, incoming?, Node.rename, transition?_rename hρ,
        Option.map_map] <;> rfl

theorem outgoing?_rename (node : Node) : (net.rename ρ).outgoing? (node.rename ρ) =
    (net.outgoing? node).map (List.map (·.rename ρ)) :=
  listed?_rename hρ .source node

theorem incoming?_rename (node : Node) : (net.rename ρ).incoming? (node.rename ρ) =
    (net.incoming? node).map (List.map (·.rename ρ)) :=
  listed?_rename hρ .target node

/-- What is read off a list of edges and their endpoints. -/
theorem filterMap_edge?_rename {β β' : Type} {f : Edge → Option β} {f' : Edge → Option β'}
    {r : β → β'} (hf : ∀ edge, f' (edge.rename ρ) = (f edge).map r) (edges : Option (List EdgeId)) :
    ((edges.map (List.map (·.rename ρ))).getD []).filterMap
        (fun id => ((net.rename ρ).edge? id).bind f') =
      ((edges.getD []).filterMap fun id => (net.edge? id).bind f).map r := by
  have hlist : ∀ edges : List EdgeId, (edges.map (·.rename ρ)).filterMap
      (fun id => ((net.rename ρ).edge? id).bind f') =
        (edges.filterMap fun id => (net.edge? id).bind f).map r := by
    intro edges
    rw [List.filterMap_map, List.map_filterMap]
    refine List.filterMap_congr fun id _ => ?_
    rw [Function.comp_apply, edge?_rename hρ]
    cases net.edge? id with
    | none => rfl
    | some edge => exact hf edge
  cases edges with
  | none => rfl
  | some edges => exact hlist edges

theorem findEdge?_rename (source target : Node) :
    (net.rename ρ).findEdge? (source.rename ρ) (target.rename ρ) =
      (net.findEdge? source target).map (·.rename ρ) := by
  have htest : ∀ id : EdgeId, ((net.rename ρ).edge? (id.rename ρ)).any
      (fun edge => edge.target = target.rename ρ) =
        (net.edge? id).any fun edge => edge.target = target := by
    intro id
    rw [edge?_rename hρ]
    cases net.edge? id with
    | none => rfl
    | some edge =>
        have hiff : edge.target.rename ρ = target.rename ρ ↔ edge.target = target :=
          (Node.rename_injective hρ).eq_iff
        simp only [Option.map_some, Option.any_some, Edge.rename, hiff]
  rw [findEdge?, findEdge?, outgoing?_rename hρ]
  cases net.outgoing? source with
  | none => rfl
  | some edges =>
      simp only [Option.map_some, Option.getD_some, List.find?_map, Function.comp_def, htest]

theorem preset_rename (t : TransitionId) :
    (net.rename ρ).preset (t.rename ρ) = (net.preset t).map (·.rename ρ) := by
  have hincoming : (net.rename ρ).incoming? (.transition (t.rename ρ)) = _ :=
    incoming?_rename hρ (.transition t)
  rw [preset, preset, hincoming]
  exact filterMap_edge?_rename hρ (fun edge => Node.place?_rename edge.source) _

theorem postset_rename (t : TransitionId) : (net.rename ρ).postset (t.rename ρ) =
    (net.postset t).map fun entry => (entry.1.rename ρ, entry.2) := by
  have houtgoing : (net.rename ρ).outgoing? (.transition (t.rename ρ)) = _ :=
    outgoing?_rename hρ (.transition t)
  rw [postset, postset, houtgoing]
  refine filterMap_edge?_rename hρ (fun edge => ?_) _
  change (edge.target.rename ρ).place?.map _ = _
  rw [Node.place?_rename, Option.map_map, Option.map_map]
  rfl

theorem consumers_rename (p : PlaceId) :
    (net.rename ρ).consumers (p.rename ρ) = (net.consumers p).map (·.rename ρ) := by
  have houtgoing : (net.rename ρ).outgoing? (.place (p.rename ρ)) = _ :=
    outgoing?_rename hρ (.place p)
  rw [consumers, consumers, houtgoing]
  exact filterMap_edge?_rename hρ (fun edge => Node.transition?_rename edge.target) _

end Injective

end Net
end PetriCcs
