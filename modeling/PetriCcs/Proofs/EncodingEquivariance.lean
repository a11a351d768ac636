import PetriCcs.Ccs.Encoding
import PetriCcs.Proofs.SyncEquivariance

/-! # Encoding in translated handles

The encoder reads handles to look up nodes and to remember which handshakes have a sender, and writes
names only.  The encoding of a translated net is therefore that of the net, and an error names the
translated node (`Net.encode_rename`). -/

namespace PetriCcs

variable {ρ : ℕ → ℕ} {ε α α' β β' : Type} {e : ε → ε} {r : α → α'} {r' : β → β'}

/-! ### Results computed one after the other -/

theorem translate_bind {x : Except ε α} {f : α → Except ε β} {f' : α' → Except ε β'}
    (hf : ∀ a, f' (r a) = translate e r' (f a)) :
    (translate e r x >>= f') = translate e r' (x >>= f) := by
  cases x with
  | ok a => exact hf a
  | error error => rfl

/-- A result without handles comes first. -/
theorem bind_translate {x : Except ε α} (hx : translate e id x = x) {f : α → Except ε β}
    {f' : α → Except ε β'} (hf : ∀ a, f' a = translate e r' (f a)) :
    (x >>= f') = translate e r' (x >>= f) :=
  (congrArg (· >>= f') hx).symm.trans (translate_bind hf)

theorem mapM_translate {f : α → Except ε β} {f' : α' → Except ε β'}
    (hf : ∀ a, f' (r a) = translate e r' (f a)) : ∀ values : List α,
    (values.map r).mapM f' = translate e (List.map r') (values.mapM f)
  | [] => rfl
  | a :: values => by
      rw [List.map_cons, List.mapM_cons, List.mapM_cons, hf, mapM_translate hf values]
      refine translate_bind fun b => translate_bind fun bs => ?_
      exact congrArg Except.ok (List.map_cons ..).symm

namespace Encoding

/-- Errors about names and terms hold no handles. -/
theorem translate_ofTerm (result : Except TermError α) :
    translate (NetError.rename ρ) id (ofTerm result) = ofTerm result := by
  cases result <;> rfl

theorem translate_labelAction (label : Label) :
    translate (NetError.rename ρ) id (labelAction label) = labelAction label := by
  cases label with
  | tau => rfl
  | visible name =>
      rw [labelAction]
      cases ActionName.ofString name <;> rfl

theorem marked_rename {net : Net} :
    marked (net.rename ρ) = translate (NetError.rename ρ) id (marked net) := by
  have htoList : (net.rename ρ).places.toList = net.places.toList.map (Place.rename ρ) :=
    Arena.toList_rename
  have hplace : ∀ place : Place,
      (do return (Term.constant (← placeConstant (place.rename ρ))).times (place.rename ρ).tokens) =
        translate (NetError.rename ρ) id
          (do return (Term.constant (← placeConstant place)).times place.tokens) := fun _ =>
    bind_translate (translate_ofTerm _) fun _ => rfl
  unfold marked
  rw [htoList, List.filter_map, mapM_translate hplace, List.map_id_fun]
  rfl

section Injective

variable {net : Net} (hρ : Function.Injective ρ)

include hρ

theorem copies_rename (place : PlaceId) (count : Weight) :
    copies (net.rename ρ) (place.rename ρ) count =
      translate (NetError.rename ρ) id (copies net place count) := by
  unfold copies
  rw [Net.place?_rename hρ]
  cases net.place? place with
  | none => rfl
  | some value => exact bind_translate (translate_ofTerm _) fun _ => rfl

theorem produced_rename (transition : TransitionId) :
    produced (net.rename ρ) (transition.rename ρ) =
      translate (NetError.rename ρ) id (produced net transition) := by
  have hcopies : ∀ entry : PlaceId × Weight, copies (net.rename ρ) (entry.1.rename ρ) entry.2 =
      translate (NetError.rename ρ) id (copies net entry.1 entry.2) := fun entry =>
    copies_rename hρ entry.1 entry.2
  have hcomponents : ((net.postset transition).map fun entry => (entry.1.rename ρ, entry.2)).mapM
      (fun entry => copies (net.rename ρ) entry.1 entry.2) = _ :=
    mapM_translate hcopies (net.postset transition)
  unfold produced
  rw [Net.postset_rename hρ, hcomponents, List.map_id_fun]
  exact translate_bind fun _ => rfl

theorem branch_rename (transition : Transition) :
    branch (net.rename ρ) (transition.rename ρ) =
      translate (NetError.rename ρ) id (branch net transition) := by
  have hlength : (transition.rename ρ).incoming.length = transition.incoming.length :=
    List.length_map _
  have hproduced : produced (net.rename ρ) (transition.rename ρ).id = _ :=
    produced_rename hρ transition.id
  unfold branch
  rw [hproduced, hlength]
  refine translate_bind fun continuation => ?_
  split
  · exact bind_translate (translate_ofTerm _) fun name =>
      bind_translate (translate_labelAction _) fun _ => rfl
  · exact bind_translate (translate_labelAction _) fun _ => rfl
  · exact bind_translate (translate_ofTerm _) fun _ => rfl
  · rfl

/-- Which of two places sends does not depend on tags. -/
theorem summands_rename (branches : List Branch) : ∀ consumers sending : List TransitionId,
    summands branches (consumers.map (·.rename ρ)) (sending.map (·.rename ρ)) =
      translate (NetError.rename ρ) (fun result => (result.1, result.2.map (·.rename ρ)))
        (summands branches consumers sending)
  | [], sending => rfl
  | consumer :: consumers, sending => by
      have hcontains : (sending.map (·.rename ρ)).contains (consumer.rename ρ) =
          sending.contains consumer := by
        rw [Bool.eq_iff_iff, List.contains_iff_mem, List.contains_iff_mem,
          List.mem_map_of_injective (Handle.rename_injective hρ)]
      have hindex : (consumer.rename ρ).index = consumer.index := rfl
      have hrest := summands_rename branches consumers
      simp only [List.map_cons, summands, hindex, hcontains]
      cases branches[consumer.index]? with
      | none => rfl
      | some b =>
          cases b with
          | generator name body => exact hrest sending
          | single own =>
              simp only [hrest sending]
              exact translate_bind fun _ => rfl
          | sync name receive =>
              simp only
              split_ifs
              · rw [hrest sending]
                exact translate_bind fun _ => rfl
              · have hnext := hrest (consumer :: sending)
                rw [List.map_cons] at hnext
                rw [hnext]
                exact translate_bind fun _ => rfl

theorem placeDefinitions_rename (branches : List Branch) :
    ∀ (places : List Place) (sending : List TransitionId),
      placeDefinitions (net.rename ρ) branches (places.map (Place.rename ρ))
          (sending.map (·.rename ρ)) =
        translate (NetError.rename ρ) id (placeDefinitions net branches places sending)
  | [], sending => rfl
  | place :: places, sending => by
      have hconsumers : (net.rename ρ).consumers (place.rename ρ).id = _ :=
        Net.consumers_rename hρ place.id
      simp only [List.map_cons, placeDefinitions, hconsumers, summands_rename hρ]
      refine translate_bind fun result => ?_
      refine bind_translate (translate_ofTerm _) fun name => ?_
      rw [placeDefinitions_rename branches places result.2]
      exact translate_bind fun _ => rfl

end Injective

end Encoding

namespace Net

variable {net : Net}

open Encoding in
/-- Tags do not show in an encoding. -/
theorem encode_rename (hρ : Function.Injective ρ) :
    (net.rename ρ).encode = translate (NetError.rename ρ) id net.encode := by
  have htransitions : (net.rename ρ).transitions.toList =
      net.transitions.toList.map (Transition.rename ρ) := Arena.toList_rename
  have hplaces : (net.rename ρ).places.toList = net.places.toList.map (Place.rename ρ) :=
    Arena.toList_rename
  have hbranch : ∀ transition : Transition, branch (net.rename ρ) (transition.rename ρ) =
      translate (NetError.rename ρ) id (branch net transition) := branch_rename hρ
  unfold encode
  rw [isTwoTauSynchronisation_rename, htransitions, hplaces, mapM_translate hbranch,
    List.map_id_fun, marked_rename]
  cases net.isTwoTauSynchronisation with
  | false => rfl
  | true =>
      refine translate_bind fun branches => ?_
      have hdefinitions : placeDefinitions (net.rename ρ) branches
          (net.places.toList.map (Place.rename ρ)) [] = _ :=
        placeDefinitions_rename hρ branches net.places.toList []
      rw [id, hdefinitions]
      exact translate_bind fun _ => translate_bind fun _ => rfl

/-- A copy has the encoding of the net. -/
theorem Consistent.encode_copy (h : net.Consistent) (tag : ℕ) {encoding : Encoding} :
    (net.copy tag).encode = .ok encoding ↔ net.encode = .ok encoding := by
  have hrename : net.copy tag = net.rename (Equiv.swap net.tag tag) := by
    rw [← h.copy_eq_rename, Equiv.swap_apply_left]
  rw [hrename, encode_rename (Equiv.injective _)]
  cases net.encode <;> simp [translate]

end Net
end PetriCcs
