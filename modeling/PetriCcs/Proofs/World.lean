import PetriCcs.Proofs.Provenance

/-! # The nets of a program

A program makes nets by calls, each under the next tag of a counter of 32 bits, and goes on calling
them.  `World` holds all nets made so far and, as a ghost, every handle that calls have handed out
with the number of its net; `World.Reachable` are the worlds that calls lead to.  While fewer than
`2 ^ 32` nets are made, no two have the same tag, every handle that a net stores or has handed out
carries the tag of that net, and any other net refuses it (`World.reachable_provenance`). -/

namespace PetriCcs

/-- The tag of the net with a number: the counter starts at 1 and wraps around. -/
def tagOf (number : ℕ) : ℕ := (number + 1) % 2 ^ 32

theorem tagOf_inj {i j : ℕ} (hi : i < 2 ^ 32) (hj : j < 2 ^ 32) : tagOf i = tagOf j ↔ i = j := by
  unfold tagOf
  omega

/-- All nets made so far, and the handles handed out with the number of the net. -/
structure World where
  nets : List Net := []
  issued : List (ℕ × AnyHandle) := []

namespace Call

variable {σ : Type} [RandomSource σ] {nets : List Net} {handle : AnyHandle}

/-- The number of the net whose handles a reply shows, when `next` nets are made. -/
def issuer (next : ℕ) : Call σ → ℕ
  | .create _ | .build _ _ | .copy _ _ | .synchronise _ _ _ => next
  | .change number _ | .query number _ => number

/-- The handles in a reply are those of one net. -/
theorem owner_of_mem_mentions (h : ∀ net ∈ nets, net.Consistent) (call : Call σ)
    (hmem : handle ∈ (call.run nets).1.mentions) :
    ∃ net, (call.run nets).2[call.issuer nets.length]? = some net ∧ handle.id.owner = net.tag := by
  have hdoes := call.run_does nets
  generalize call.run nets = outcome at hdoes hmem ⊢
  cases hdoes with
  | absent => exact absurd hmem List.not_mem_nil
  | create => exact absurd hmem List.not_mem_nil
  | build _ => exact absurd hmem List.not_mem_nil
  | @refuse document tag error hbuilt =>
      have howner := @Document.owner_of_mem_mentions handle document tag
      rw [hbuilt] at howner
      exact ⟨.empty tag, by simp [issuer], howner hmem⟩
  | copy _ => exact absurd hmem List.not_mem_nil
  | @synchronise number tag source _ net result hnet hrun =>
      have hconsistent := h net (List.mem_of_getElem? hnet)
      have hevolves := (Net.synchronise_splits hconsistent hrun).1.evolves
      have howner := @Net.owner_of_mem_synchronise net handle σ _ hconsistent tag source
      rw [hrun] at howner
      exact ⟨result.net, by simp [issuer], (howner hmem).trans hevolves.tag.symm⟩
  | decline hnet hrun =>
      rw [(h _ (List.mem_of_getElem? hnet)).error_of_synchronise hrun] at hmem
      exact absurd hmem List.not_mem_nil
  | @change number made net hnet =>
      have hconsistent := h net (List.mem_of_getElem? hnet)
      refine ⟨_, List.getElem?_set_self (List.getElem?_eq_some_iff.1 hnet).1, ?_⟩
      rw [(made.evolves hconsistent).tag]
      exact made.owner_of_mem_mentions hconsistent hmem
  | @query number asked net hnet =>
      exact ⟨net, hnet, asked.owner_of_mem_mentions (h net (List.mem_of_getElem? hnet)) hmem⟩

end Call

namespace World

variable {world : World} {σ : Type} [RandomSource σ]

/-- The world after a call. -/
def after (world : World) (call : Call σ) : World where
  nets := (call.run world.nets).2
  issued := world.issued ++
    (call.run world.nets).1.mentions.map fun handle => (call.issuer world.nets.length, handle)

/-- The worlds that calls lead to; a call that makes a net draws the next tag. -/
inductive Reachable : World → Prop where
  | start : Reachable {}
  | call {σ : Type} [RandomSource σ] {world : World} (h : Reachable world) (call : Call σ)
      (hdraws : ∀ tag ∈ call.tag?, tag = tagOf world.nets.length) : Reachable (world.after call)

/-- What calls preserve: nets are consistent, carry the tag of their number, and have handed out
handles with that tag. -/
structure Sound (world : World) : Prop where
  consistent : ∀ net ∈ world.nets, net.Consistent
  tag : ∀ {i net}, world.nets[i]? = some net → net.tag = tagOf i
  issued : ∀ {i handle}, (i, handle) ∈ world.issued →
    i < world.nets.length ∧ handle.id.owner = tagOf i

theorem sound_start : Sound {} where
  consistent := fun _ hmem => absurd hmem List.not_mem_nil
  tag := fun hnet => absurd hnet (by simp)
  issued := fun hmem => absurd hmem List.not_mem_nil

/-- One call. -/
theorem Sound.after (h : world.Sound) (call : Call σ)
    (hdraws : ∀ tag ∈ call.tag?, tag = tagOf world.nets.length) : (world.after call).Sound := by
  have hleaves := call.run_leaves h.consistent
  have hconsistent := hleaves.consistent h.consistent
  have htag : ∀ {i net}, (call.run world.nets).2[i]? = some net → net.tag = tagOf i := by
    intro i net hnet
    rcases hleaves.tag_eq hnet with ⟨old, hold, heq⟩ | ⟨rfl, hdrawn⟩
    · exact heq.trans (h.tag hold)
    · exact hdraws _ hdrawn
  refine ⟨hconsistent, htag, ?_⟩
  intro i handle hmem
  rcases List.mem_append.1 hmem with hold | hnew
  · exact ⟨(h.issued hold).1.trans_le hleaves.length_le, (h.issued hold).2⟩
  · obtain ⟨handle, hmentions, heq⟩ := List.mem_map.1 hnew
    cases heq
    obtain ⟨net, hnet, howner⟩ := call.owner_of_mem_mentions h.consistent hmentions
    exact ⟨(List.getElem?_eq_some_iff.1 hnet).1, howner.trans (htag hnet)⟩

/-- All calls. -/
theorem Reachable.sound (h : world.Reachable) : world.Sound := by
  induction h with
  | start => exact sound_start
  | call _ call hdraws ih => exact ih.after call hdraws

/-- The net with a number stores a handle or has handed it out. -/
def Has (world : World) (number : ℕ) (handle : AnyHandle) : Prop :=
  (number, handle) ∈ world.issued ∨
    ∃ net, world.nets[number]? = some net ∧ handle ∈ net.mentions

/-- Every handle belongs to one net, whose tag it carries; no other net takes it, at whatever
position it points. -/
theorem reachable_provenance (h : world.Reachable) (hroom : world.nets.length < 2 ^ 32) :
    (∀ (i j : ℕ) (net net' : Net), world.nets[i]? = some net → world.nets[j]? = some net' →
      net.tag = net'.tag → i = j) ∧
    (∀ i handle, world.Has i handle → ∃ net, world.nets[i]? = some net ∧ handle.id.owner = net.tag) ∧
    ∀ i j handle net, world.Has i handle → i ≠ j → world.nets[j]? = some net →
      (∀ change : Change, handle ∈ change.mentions →
        ∃ error, change.Refuses error ∧ change.runOn net = (.error (.net error), net)) ∧
      ∀ query : Query, handle ∈ query.mentions → (query.answer net).IsVoid := by
  have hsound := h.sound
  have hlt : ∀ {i net}, world.nets[i]? = some net → i < 2 ^ 32 := fun hnet =>
    (List.getElem?_eq_some_iff.1 hnet).1.trans hroom
  have hdistinct : ∀ (i j : ℕ) (net net' : Net), world.nets[i]? = some net →
      world.nets[j]? = some net' → net.tag = net'.tag → i = j := by
    intro i j net net' hnet hnet' htag
    rw [hsound.tag hnet, hsound.tag hnet'] at htag
    exact (tagOf_inj (hlt hnet) (hlt hnet')).1 htag
  have howner : ∀ i handle, world.Has i handle →
      ∃ net, world.nets[i]? = some net ∧ handle.id.owner = net.tag := by
    rintro i handle (hissued | ⟨net, hnet, hstored⟩)
    · obtain ⟨hi, htag⟩ := hsound.issued hissued
      exact ⟨_, List.getElem?_eq_getElem hi, htag.trans (hsound.tag (List.getElem?_eq_getElem hi)).symm⟩
    · exact ⟨net, hnet, (hsound.consistent net (List.mem_of_getElem? hnet)).owner_of_mem_mentions
        hstored⟩
  refine ⟨hdistinct, howner, fun i j handle net hhas hne hnet => ?_⟩
  obtain ⟨net', hnet', htag⟩ := howner i handle hhas
  have hconsistent := hsound.consistent net (List.mem_of_getElem? hnet)
  have hforeign : handle.id.owner ≠ net.tag := fun heq =>
    hne (hdistinct i j net' net hnet' hnet (htag.symm.trans heq))
  exact ⟨fun change hmem => change.refused_of_foreign hconsistent hmem hforeign,
    fun query hmem => query.isVoid_of_foreign hconsistent hmem hforeign⟩

/-- A net with a visible transition that two places feed, and its synchronisation. -/
def joined : World :=
  [Call.create (tagOf 0), .change 0 (.addPlace none 1), .change 0 (.addPlace none 1),
    .change 0 (.addLabelledTransition none (.visible "a")),
    .change 0 (.addEdge (.place ⟨1, 0⟩) (.transition ⟨1, 0⟩) 1),
    .change 0 (.addEdge (.place ⟨1, 1⟩) (.transition ⟨1, 0⟩) 1),
    .synchronise 0 (tagOf 1) (WordList.mk [3, 1])].foldl after {}

theorem joined_reachable : joined.Reachable :=
  ((((((Reachable.start.call (Call.create (tagOf 0) : Call WordList) (by decide)).call
    (Call.change 0 (.addPlace none 1) : Call WordList) (by decide)).call
    (Call.change 0 (.addPlace none 1) : Call WordList) (by decide)).call
    (Call.change 0 (.addLabelledTransition none (.visible "a")) : Call WordList) (by decide)).call
    (Call.change 0 (.addEdge (.place ⟨1, 0⟩) (.transition ⟨1, 0⟩) 1) : Call WordList) (by decide)).call
    (Call.change 0 (.addEdge (.place ⟨1, 1⟩) (.transition ⟨1, 0⟩) 1) : Call WordList) (by decide)).call
    (Call.synchronise 0 (tagOf 1) (WordList.mk [3, 1])) (by decide)

/-- The first join of the synchronisation is recorded in handles of the new net, which the old net
refuses although it has a place at this position. -/
theorem reachable_provenance_joined : joined.Reachable ∧ joined.nets.length < 2 ^ 32 ∧
    joined.Has 1 ⟨.place, ⟨2, 0⟩⟩ ∧ ∃ net error, joined.nets[0]? = some net ∧
      net.contains (.place ⟨1, 0⟩) = true ∧
      (Change.removePlace ⟨2, 0⟩).runOn net = (.error (.net error), net) := by
  have hroom : joined.nets.length < 2 ^ 32 := by decide +kernel
  have hissued : (1, ⟨.place, ⟨2, 0⟩⟩) ∈ joined.issued := by decide +kernel
  have hplace : joined.nets[0]?.any (·.contains (.place ⟨1, 0⟩)) = true := by decide +kernel
  obtain ⟨net, hnet, hcontains⟩ := (Option.any_eq_true _ _).1 hplace
  obtain ⟨error, -, hrun⟩ := ((reachable_provenance joined_reachable hroom).2.2 1 0
    ⟨.place, ⟨2, 0⟩⟩ net (Or.inl hissued) (by decide) hnet).1 (.removePlace ⟨2, 0⟩)
      (List.mem_singleton_self _)
  exact ⟨joined_reachable, hroom, Or.inl hissued, net, error, hnet, hcontains, hrun⟩

end World
end PetriCcs
