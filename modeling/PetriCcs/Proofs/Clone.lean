import PetriCcs.Proofs.World

/-! # The contract of a copy

A copy that a program makes has a tag that no other net has, and is as well-formed as the original,
with the same contents at every position.  From then on it behaves as the original: the same calls
in translated handles have the translated replies and leave the translated nets behind
(`World.reachable_copy`). -/

namespace PetriCcs
namespace World

open Net (additionLimit SamePositions)

variable {world : World} {net : Net} {n : ℕ}

/-- A copy of a net of the world is fresh, well-formed and the same as the original at every
position, and no sequence of calls tells it from the original. -/
theorem reachable_copy (hworld : world.Reachable) (hroom : world.nets.length + 1 < 2 ^ 32) {i : ℕ}
    (hnet : world.nets[i]? = some net) (h : net.Reachable n) (hn : n < additionLimit) :
    ∃ clone : Net,
      (∀ (σ : Type) [RandomSource σ], (Call.copy i (tagOf world.nets.length) : Call σ).run world.nets =
        (.created, world.nets ++ [clone])) ∧
      (clone.WellFormed ∧ clone.check = .ok () ∧
        (∀ handle ∈ clone.mentions, handle.id.owner = clone.tag) ∧
        clone.tag = tagOf world.nets.length ∧ ∀ other ∈ world.nets, other.tag ≠ clone.tag) ∧
      (SamePositions net clone ∧ clone.placeNames = net.placeNames ∧
        clone.transitionNames = net.transitionNames) ∧
      ∀ ρ : ℕ → ℕ, Function.Injective ρ → ρ net.tag = clone.tag →
        ∀ (σ : Type) [RandomSource σ] (calls : List (Call σ)),
          Call.runAll (calls.map (Call.rename ρ)) [clone] =
            ((Call.runAll calls [net]).1.map (Reply.rename ρ),
              (Call.runAll calls [net]).2.map (Net.rename ρ)) := by
  have hclone : (net.copy (tagOf world.nets.length)).Reachable n := h.copy _
  refine ⟨_, fun σ _ => ?_, ⟨(hclone.named hn).wellFormed hclone.consistent,
    hclone.consistent.check, fun handle hmem => hclone.consistent.owner_of_mem_mentions hmem, rfl,
    fun other hother htag => ?_⟩, ⟨Net.samePositions_copy net _, rfl, rfl⟩,
    fun ρ hρ htag σ _ calls => ?_⟩
  · rw [Call.run, hnet]
  · obtain ⟨j, hj⟩ := List.mem_iff_getElem?.1 hother
    have hlt := (List.getElem?_eq_some_iff.1 hj).1
    rw [hworld.sound.tag hj] at htag
    have heq := (tagOf_inj (by omega) (by omega)).1 htag
    omega
  · have hrename : net.copy (tagOf world.nets.length) = net.rename ρ := by
      rw [← h.consistent.copy_eq_rename, htag]
      rfl
    have hnets : ∀ net' ∈ [net], net'.Consistent := fun net' hmem => by
      rw [List.mem_singleton.1 hmem]
      exact h.consistent
    rw [hrename]
    exact Call.runAll_rename hρ calls hnets

/-- A net with a gap in its names. -/
def gapped : Net :=
  [Change.addPlace none 2, .addPlace none 0, .addPlace (some 7) 1, .removePlace ⟨1, 0⟩].foldl
    (fun net change => (change.runOn net).2) (Net.empty (tagOf 0))

theorem gapped_reachable : gapped.Reachable 3 :=
  Net.Reachable.of_changes (by decide +kernel)

/-- The world in which this net is made. -/
def solitary : World :=
  [(Call.create (tagOf 0) : Call WordList), .change 0 (.addPlace none 2), .change 0 (.addPlace none 0),
    .change 0 (.addPlace (some 7) 1), .change 0 (.removePlace ⟨1, 0⟩)].foldl after {}

theorem solitary_reachable : solitary.Reachable :=
  ((((Reachable.start.call (Call.create (tagOf 0) : Call WordList) (by decide)).call
    (Call.change 0 (.addPlace none 2) : Call WordList) (by decide)).call
    (Call.change 0 (.addPlace none 0) : Call WordList) (by decide)).call
    (Call.change 0 (.addPlace (some 7) 1) : Call WordList) (by decide)).call
    (Call.change 0 (.removePlace ⟨1, 0⟩) : Call WordList) (by decide)

theorem nets_solitary : solitary.nets = [gapped] := by rfl

/-- Adding to a copy and removing the place that has moved into the gap. -/
theorem reachable_copy_gapped : solitary.Reachable ∧ solitary.nets.length + 1 < 2 ^ 32 ∧
    solitary.nets[0]? = some gapped ∧ gapped.Reachable 3 ∧ 3 < additionLimit ∧
    ∃ clone : Net, clone.WellFormed ∧
      Call.runAll [(Call.change 0 (.addPlace none 5) : Call WordList),
          .change 0 (.removePlace ⟨tagOf 1, 0⟩), .copy 0 3] [clone] =
        ((Call.runAll [(Call.change 0 (.addPlace none 5) : Call WordList),
            .change 0 (.removePlace ⟨tagOf 0, 0⟩), .copy 0 3] [gapped]).1.map
              (Reply.rename (Equiv.swap (tagOf 0) (tagOf 1))),
          (Call.runAll [(Call.change 0 (.addPlace none 5) : Call WordList),
            .change 0 (.removePlace ⟨tagOf 0, 0⟩), .copy 0 3] [gapped]).2.map
              (Net.rename (Equiv.swap (tagOf 0) (tagOf 1)))) := by
  have hroom : solitary.nets.length + 1 < 2 ^ 32 := by
    rw [nets_solitary]
    decide
  have hnet : solitary.nets[0]? = some gapped := by rw [nets_solitary]; rfl
  have hlimit : 3 < additionLimit := by decide
  obtain ⟨clone, -, ⟨hwell, -, -, htag, -⟩, -, hsame⟩ :=
    reachable_copy solitary_reachable hroom hnet gapped_reachable hlimit
  have hswap : Equiv.swap (tagOf 0) (tagOf 1) gapped.tag = clone.tag := by
    rw [htag, nets_solitary]
    exact Equiv.swap_apply_left _ _
  refine ⟨solitary_reachable, hroom, hnet, gapped_reachable, hlimit, clone, hwell, ?_⟩
  exact hsame _ (Equiv.injective _) hswap WordList [.change 0 (.addPlace none 5),
    .change 0 (.removePlace ⟨tagOf 0, 0⟩), .copy 0 3]

end World
end PetriCcs
