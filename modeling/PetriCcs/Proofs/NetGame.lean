import PetriCcs.Proofs.Copy
import PetriCcs.Proofs.TokenGame

/-! # The token game of a net

`Net.Fires` is the firing rule of a net, `Net.game` its game as a table (`step_eq_game`), and
`Game.regroup` the same table with other presets for a group.  A copy plays the game of the net
under its own tag (`bisimilar_copy`). -/

namespace PetriCcs

/-- The game in which the transitions of a group take from the listed places. -/
def Game.regroup (g : Game) (ts : List TransitionId) (working : List PlaceId) : Game :=
  { g with takes := fun u p => if u ∈ ts then if p ∈ working then 1 else 0 else g.takes u p }

namespace Net

variable {net net' : Net} {t t' : TransitionId} {p p' : PlaceId}

/-- The weights of the arcs from a transition to a place. -/
def weights (net : Net) (t : TransitionId) (p : PlaceId) : List Weight :=
  (net.postset t).filterMap fun entry => if entry.1 = p then some entry.2 else none

/-- The tokens that a transition adds to a place. -/
def produces (net : Net) (t : TransitionId) (p : PlaceId) : ℕ :=
  ((net.weights t p).map UInt64.toNat).sum

/-- A transition fires: it takes a token from each place of its preset and adds the weight of each
outgoing arc to its target. -/
def Fires (net : Net) (m : Marking) (t : TransitionId) (m' : Marking) : Prop :=
  (∀ p ∈ net.preset t, 0 < m p) ∧
    ∀ p, m' p = (if p ∈ net.preset t then m p - 1 else m p) + net.produces t p

/-- What is left when a transition has taken its tokens. -/
def remaining (net : Net) (t : TransitionId) (m : Marking) : Marking := fun p =>
  if p ∈ net.preset t then m p - 1 else m p

/-- The marking after a transition. -/
def after (net : Net) (t : TransitionId) (m : Marking) : Marking := fun p =>
  net.remaining t m p + net.produces t p

theorem Fires.eq_after {m m' : Marking} (h : net.Fires m t m') : m' = net.after t m := funext h.2

theorem fires_after {m : Marking} (h : ∀ p ∈ net.preset t, 0 < m p) :
    net.Fires m t (net.after t m) :=
  ⟨h, fun _ => rfl⟩

/-- Some transition with a label fires. -/
def Step (net : Net) (m : Marking) (label : Label) (m' : Marking) : Prop :=
  ∃ t, net.label? t = some label ∧ net.Fires m t m'

/-- The game of a net. -/
def game (net : Net) : Game where
  label := net.label?
  takes t p := if p ∈ net.preset t then 1 else 0
  gives := net.produces

theorem fires_iff_game {m m' : Marking} : net.Fires m t m' ↔ net.game.Fires m t m' := by
  simp only [Fires, Game.Fires, game]
  constructor
  · rintro ⟨henabled, hm'⟩ p
    rw [hm' p]
    by_cases hp : p ∈ net.preset t
    · rw [if_pos hp, if_pos hp]
      exact ⟨henabled p hp, rfl⟩
    · rw [if_neg hp, if_neg hp]
      exact ⟨Nat.zero_le _, rfl⟩
  · intro h
    constructor
    · intro p hp
      have hle := (h p).1
      rwa [if_pos hp] at hle
    · intro p
      rw [(h p).2]
      by_cases hp : p ∈ net.preset t
      · rw [if_pos hp, if_pos hp]
      · rw [if_neg hp, if_neg hp, Nat.sub_zero]

theorem step_eq_game (net : Net) : net.Step = net.game.Step := by
  funext m label m'
  exact propext (exists_congr fun t => and_congr_right fun _ => fires_iff_game)

/-! ### Productions -/

theorem mem_weights_iff {weight : Weight} :
    weight ∈ net.weights t p ↔ (p, weight) ∈ net.postset t := by
  rw [weights, List.mem_filterMap]
  constructor
  · rintro ⟨⟨q, other⟩, hmem, heq⟩
    split_ifs at heq with hq
    cases heq
    exact hq ▸ hmem
  · exact fun hmem => ⟨_, hmem, if_pos rfl⟩

theorem Consistent.nodup_weights (h : net.Consistent) : (net.weights t p).Nodup := by
  refine List.Nodup.filterMap (fun entry entry' weight hentry hentry' => ?_)
    (List.Nodup.of_map _ (h.nodup_postset t))
  obtain ⟨q, w⟩ := entry
  obtain ⟨q', w'⟩ := entry'
  simp only [Option.mem_def] at hentry hentry'
  split_ifs at hentry hentry' with hq hq'
  cases hentry
  cases hentry'
  rw [hq, hq']

theorem produces_congr (h : net.Consistent) (h' : net'.Consistent)
    (hpostset : ∀ weight, (p', weight) ∈ net'.postset t' ↔ (p, weight) ∈ net.postset t) :
    net'.produces t' p' = net.produces t p := by
  have hperm := (List.perm_ext_iff_of_nodup h'.nodup_weights h.nodup_weights).2 fun weight =>
    (mem_weights_iff.trans (hpostset weight)).trans mem_weights_iff.symm
  exact (hperm.map _).sum_eq

theorem produces_of_not_contains (h : net.Consistent) (hp : ¬ net.contains (.place p) = true) :
    net.produces t p = 0 := by
  have hweights : net.weights t p = [] := by
    refine List.eq_nil_iff_forall_not_mem.2 fun weight hmem => hp ?_
    exact (h.mem_postset_iff.1 (mem_weights_iff.1 hmem)).contains h .target
  rw [produces, hweights]
  rfl

/-- What a transition with a single outgoing arc of weight 1 produces. -/
theorem produces_of_postset (h : net.Consistent) {place : PlaceId}
    (hpostset : ∀ p weight, (p, weight) ∈ net.postset t ↔ p = place ∧ weight = 1) (p : PlaceId) :
    net.produces t p = if p = place then 1 else 0 := by
  have hmem : ∀ weight, weight ∈ net.weights t p ↔ p = place ∧ weight = 1 := fun weight =>
    mem_weights_iff.trans (hpostset p weight)
  split_ifs with hp
  · have hperm := (List.perm_ext_iff_of_nodup h.nodup_weights (List.nodup_singleton 1)).2
      fun weight => (hmem weight).trans (by simp [hp])
    exact (hperm.map UInt64.toNat).sum_eq
  · have hnil : net.weights t p = [] :=
      List.eq_nil_iff_forall_not_mem.2 fun weight hw => hp ((hmem weight).1 hw).1
    rw [produces, hnil]
    rfl

/-! ### Copies -/

theorem label?_copy (h : net.Identified) (tag : ℕ) (t : TransitionId) :
    (net.copy tag).label? t = if t.owner = tag then net.label? (t.retag net.tag) else none := by
  rw [label?, transition?_copy h]
  by_cases ht : t.owner = tag
  · simp only [ht, if_true, Option.map_map]
    rfl
  · simp [ht]

theorem owner_of_label? (h : net.Identified) {label : Label} (ht : net.label? t = some label) :
    t.owner = net.tag :=
  h.owner_of_contains (show net.contains (.transition t) = true from
    contains_transition_iff.2 ⟨label, ht⟩)

/-- A transition of a copy takes and gives what the original does. -/
theorem game_copy (h : net.Consistent) (tag : ℕ) (ht : t.owner = net.tag) (hp : p.owner = net.tag) :
    (net.copy tag).game.takes (t.retag tag) (p.retag tag) = net.game.takes t p ∧
      (net.copy tag).game.gives (t.retag tag) (p.retag tag) = net.game.gives t p := by
  constructor
  · have hmem : p.retag tag ∈ (net.copy tag).preset (t.retag tag) ↔ p ∈ net.preset t := by
      rw [mem_preset_copy_iff h]
      simp [Handle.retag_of_owner ht, Handle.retag_of_owner hp]
    simp only [game, hmem]
  · refine produces_congr h (h.copy tag) fun weight => ?_
    rw [mem_postset_copy_iff h]
    simp [Handle.retag_of_owner ht, Handle.retag_of_owner hp]

/-- A net takes from and gives to its own places only. -/
theorem game_foreign (h : net.Consistent) (hp : p.owner ≠ net.tag) (t : TransitionId) :
    net.game.takes t p = 0 ∧ net.game.gives t p = 0 := by
  have hforeign : ¬ net.contains (.place p) = true := fun hc =>
    hp (h.identified.owner_of_contains hc)
  refine ⟨if_neg fun hmem => hforeign ?_, produces_of_not_contains h hforeign⟩
  exact (h.mem_preset_iff.1 hmem).contains h .source

theorem tokens_copy (h : net.Identified) (tag : ℕ) (hp : p.owner = net.tag) :
    (net.copy tag).tokens (p.retag tag) = net.tokens p := by
  rw [tokens, tokens, place?_copy h, Handle.owner_retag, if_pos rfl, Handle.retag_retag,
    Handle.retag_of_owner hp, Option.map_map]
  rfl

/-- The markings of a net and of its copy that put the same tokens in the places of the net. -/
def SameMarking (net : Net) (tag : ℕ) (m m' : Marking) : Prop :=
  ∀ p, p.owner = net.tag → m' (p.retag tag) = m p

/-- A transition is enabled in the copy when it is in the net. -/
theorem enabled_copy_iff (h : net.Consistent) {tag : ℕ} {m m' : Marking}
    (hm : net.SameMarking tag m m') (ht : t.owner = net.tag) :
    (∀ p, (net.copy tag).game.takes (t.retag tag) p ≤ m' p) ↔ ∀ p, net.game.takes t p ≤ m p := by
  constructor
  · intro henabled p
    by_cases hp : p.owner = net.tag
    · have hle := henabled (p.retag tag)
      rwa [(game_copy h tag ht hp).1, hm p hp] at hle
    · rw [(game_foreign h hp _).1]
      exact Nat.zero_le _
  · intro henabled p
    by_cases hp : p.owner = tag
    · have hback : (p.retag net.tag).retag tag = p := Handle.retag_of_owner hp
      rw [← hback, (game_copy h tag ht rfl).1, hm _ rfl]
      exact henabled _
    · rw [(game_foreign (h.copy tag) hp _).1]
      exact Nat.zero_le _

/-- Firing a transition does the same in the copy. -/
theorem SameMarking.fire (h : net.Consistent) {tag : ℕ} {m m' : Marking}
    (hm : net.SameMarking tag m m') (ht : t.owner = net.tag) :
    net.SameMarking tag (net.game.fire t m) ((net.copy tag).game.fire (t.retag tag) m') := by
  intro p hp
  obtain ⟨htakes, hgives⟩ := game_copy h tag ht hp
  simp only [Game.fire, htakes, hgives, hm p hp]

/-- A copy plays the same game. -/
theorem bisimilar_copy (h : net.Consistent) (tag : ℕ) :
    Bisimilar net.Step (net.copy tag).Step net.tokens (net.copy tag).tokens := by
  rw [step_eq_game, step_eq_game]
  refine ⟨net.SameMarking tag, ⟨?_, ?_⟩, fun p hp => tokens_copy h.identified tag hp⟩
  · rintro m m' label m₁ hm ⟨t, hlabel, hfires⟩
    obtain rfl := hfires.eq_fire
    have ht := owner_of_label? h.identified hlabel
    refine ⟨(net.copy tag).game.fire (t.retag tag) m', ⟨t.retag tag, ?_, Game.fires_fire
      ((enabled_copy_iff h hm ht).2 fun p => (hfires p).1)⟩, hm.fire h ht⟩
    change (net.copy tag).label? (t.retag tag) = some label
    rw [label?_copy h.identified, Handle.owner_retag, if_pos rfl, Handle.retag_retag,
      Handle.retag_of_owner ht]
    exact hlabel
  · rintro m m' label m₁ hm ⟨t', hlabel, hfires⟩
    obtain rfl := hfires.eq_fire
    have hlabel' : (net.copy tag).label? t' = some label := hlabel
    rw [label?_copy h.identified] at hlabel'
    split_ifs at hlabel' with htag
    have hback : (t'.retag net.tag).retag tag = t' := Handle.retag_of_owner htag
    rw [← hback] at hfires ⊢
    exact ⟨net.game.fire (t'.retag net.tag) m, ⟨t'.retag net.tag, hlabel', Game.fires_fire
      ((enabled_copy_iff h hm rfl).1 fun p => (hfires p).1)⟩, hm.fire h rfl⟩

end Net
end PetriCcs
