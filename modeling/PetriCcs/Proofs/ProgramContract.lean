import PetriCcs.Program
import PetriCcs.Proofs.LabelHistory
import PetriCcs.Proofs.SynchroniseContract

/-! # The contract of a run

From its classification on, a run on the net of a document prints the classes of the net, and then
an encoding exactly when the configuration grants the net one (`Program.Grants`).  It is refused
otherwise, and these are the only errors: the synchronisation, the encoder and the classification
test the same conditions at three places, and what the first returns the second accepts
(`Program.report_contract`). -/

namespace PetriCcs

open Net

namespace Document

/-- The history of the net of a document is the entries of the document, which hand in no label. -/
theorem reachableBy_of_toNet {document : Document} {tag : ℕ} {net : Net}
    (hnet : document.toNet tag = .ok net) :
    net.ReachableBy Change.Checked document.entryCount := by
  have hempty : (Net.empty tag).ReachableBy Change.Checked 0 := ReachableBy.empty tag
  have hchange := hempty.change (.importDocument document) (Change.checked_of_none rfl)
  rw [Change.importDocument_of_toNet hnet, Nat.zero_add] at hchange
  exact hchange

end Document

namespace Program

variable {σ : Type} [RandomSource σ] {config : Config} {net : Net} {source : σ} {n : ℕ}

/-- The nodes and edges that a run adds to the net that it has built. -/
def additions (config : Config) (net : Net) (source : σ) : ℕ :=
  if config.synchronise then
    match synchronisation config net source with
    | .ok result => result.additions
    | .error _ => 0
  else 0

/-- A net is granted an encoding when it is of the 2-τ-synchronisation class, or when it has group
choice and may be synchronised. -/
def Grants (config : Config) (net : Net) : Prop :=
  net.classify.twoTauSynchronisation = true ∨
    net.classify.groupChoice = true ∧ config.synchronise = true

/-- The line with the classes of a net. -/
def heading (net : Net) : String := "classes: " ++ net.classify.text ++ "\n"

/-- The synchronisation of a run is one of the net, from the source of the seed or from the given
one. -/
theorem synchronisation_ok (h : net.ReachableBy Change.Checked n)
    (hchoice : net.isGroupChoice = true) (config : Config) (source : σ) :
    ∃ result, synchronisation config net source = .ok result ∧
      result.net.isTwoTauSynchronisation = true ∧
      result.net.ReachableBy Change.Checked (n + result.additions) := by
  have hnet := h.reachable.consistent
  have hsync : ∀ {τ : Type} [RandomSource τ] (source : τ), ∃ result,
      Prod.fst <$> net.synchronise (net.tag + 1) source = .ok result ∧
        result.net.isTwoTauSynchronisation = true ∧
        result.net.ReachableBy Change.Checked (n + result.additions) := by
    intro τ _ source
    obtain ⟨result, rest, hrun, -⟩ := hnet.synchronise_ok (Or.inr hchoice) (net.tag + 1) source
    exact ⟨result, congrArg (Prod.fst <$> ·) hrun, (synchronise_splits hnet hrun).2,
      h.synchronise hrun⟩
  unfold synchronisation
  cases config.seed with
  | some seed => exact hsync (ChaCha.Stream.ofSeed seed)
  | none => exact hsync source

/-- What is prepared for a net that is granted an encoding: a net of the 2-τ-synchronisation class,
whose history is that of the net and what the run adds. -/
theorem prepare_ok (source : σ) (h : net.ReachableBy Change.Checked n)
    (hgrants : Grants config net) :
    ∃ prepared, prepare config net source = .ok prepared ∧
      prepared.isTwoTauSynchronisation = true ∧
      ∃ m ≤ n + additions config net source, prepared.ReachableBy Change.Checked m := by
  unfold prepare
  by_cases htwoTau : net.classify.twoTauSynchronisation = true
  · rw [if_pos htwoTau]
    exact ⟨net, rfl, htwoTau, n, Nat.le_add_right _ _, h⟩
  · obtain ⟨hchoice, hconfig⟩ := hgrants.resolve_left htwoTau
    obtain ⟨result, hrun, hclass, hresult⟩ := synchronisation_ok h hchoice config source
    have hadditions : additions config net source = result.additions := by
      unfold additions
      rw [if_pos hconfig, hrun]
    rw [if_neg htwoTau, if_pos hchoice, if_pos hconfig, hrun, hadditions]
    exact ⟨result.net, rfl, hclass, _, Nat.le_refl _, hresult⟩

theorem encode_ok (h : net.ReachableBy Change.Checked n)
    (hroom : n + additions config net source < additionLimit) (hgrants : Grants config net) :
    ∃ encoding, encode config net source = .ok encoding := by
  obtain ⟨prepared, hprepare, hclass, m, hm, hprepared⟩ := prepare_ok source h hgrants
  have hconsistent := hprepared.reachable.consistent
  have hwell := (hprepared.reachable.named (by omega)).wellFormed hconsistent
  obtain ⟨encoding, hencode, -⟩ :=
    Net.encode_ok hconsistent hwell hprepared.properLabels hclass
  refine ⟨encoding, ?_⟩
  unfold encode
  rw [hprepare]
  show (pure prepared >>= _) = _
  rw [pure_bind, hencode]

/-- The refusal of a net that is granted no encoding. -/
theorem encode_refused (hgrants : ¬ Grants config net) : encode config net source =
    .error (if net.classify.groupChoice then .synchronisationDisabled else .notEncodable) := by
  have htwoTau : ¬ net.classify.twoTauSynchronisation = true := fun h => hgrants (Or.inl h)
  unfold encode prepare
  rw [if_neg htwoTau]
  by_cases hchoice : net.classify.groupChoice = true
  · have hconfig : ¬ config.synchronise = true := fun h => hgrants (Or.inr ⟨hchoice, h⟩)
    rw [if_pos hchoice, if_neg hconfig, if_pos hchoice]
    rfl
  · rw [if_neg hchoice, if_neg hchoice]
    rfl

/-- A run on the net of a document prints its classes and, exactly when it is granted one, its
encoding; otherwise it is refused as disabled or as not encodable, and it ends in no other way,
whatever the seed and, without a seed, whatever the source. -/
theorem report_contract {document : Document} {tag : ℕ} (hnet : document.toNet tag = .ok net)
    (config : Config) (source : σ)
    (hroom : document.entryCount + additions config net source < additionLimit) :
    (Grants config net → ∃ encoding, encode config net source = .ok encoding ∧
      report config net source =
        (heading net ++ encoding.render config.render ++ "\n", .ok ())) ∧
    (¬ Grants config net → net.classify.groupChoice = true →
      report config net source = (heading net, .error .synchronisationDisabled)) ∧
    (¬ Grants config net → net.classify.groupChoice = false →
      report config net source = (heading net, .error .notEncodable)) := by
  refine ⟨fun hgrants => ?_, fun hgrants hchoice => ?_, fun hgrants hchoice => ?_⟩
  · obtain ⟨encoding, hencode⟩ :=
      encode_ok (Document.reachableBy_of_toNet hnet) hroom hgrants
    refine ⟨encoding, hencode, ?_⟩
    unfold report
    rw [hencode]
    rfl
  · unfold report
    rw [encode_refused hgrants, hchoice]
    rfl
  · unfold report
    rw [encode_refused hgrants, hchoice]
    rfl

/-- A document whose only transition consumes from three places. -/
def join : Document where
  places := [⟨"p1", 1⟩, ⟨"p2", 1⟩, ⟨"p3", 2⟩]
  transitions := [⟨"t1", tauSymbol⟩]
  arcs := [⟨"p1", "t1", 1⟩, ⟨"p2", "t1", 1⟩, ⟨"p3", "t1", 1⟩, ⟨"t1", "p1", 2⟩]

/-- The net of this document. -/
def joined : Net := (join.toNet 0).toOption.getD (Net.empty 0)

/-- Without a seed and with one. -/
theorem report_contract_joined : join.toNet 0 = .ok joined ∧
    joined.classify.twoTauSynchronisation = false ∧ Grants {} joined ∧
    join.entryCount + additions {} joined (⟨[3, 1]⟩ : WordList) < additionLimit ∧
    (∃ encoding : Encoding, report {} joined (⟨[3, 1]⟩ : WordList) =
      (heading joined ++ encoding.render .plain ++ "\n", .ok ())) ∧
    join.entryCount + additions { seed := some 7 } joined (⟨[]⟩ : WordList) < additionLimit ∧
    ∃ encoding : Encoding, report { seed := some 7 } joined (⟨[]⟩ : WordList) =
      (heading joined ++ encoding.render .plain ++ "\n", .ok ()) := by
  have hread : (join.toNet 0).toOption.isSome = true := by decide +kernel
  have hnet : join.toNet 0 = .ok joined := by
    unfold joined
    cases hrun : join.toNet 0 with
    | ok net => rfl
    | error error => simp [hrun, Except.toOption] at hread
  have hchoice : joined.classify.groupChoice = true := by decide +kernel
  have hroom : join.entryCount + additions {} joined (⟨[3, 1]⟩ : WordList) < additionLimit := by
    decide +kernel
  have hroom' : join.entryCount + additions { seed := some 7 } joined (⟨[]⟩ : WordList) <
      additionLimit := by decide +kernel
  obtain ⟨encoding, -, hreport⟩ :=
    (report_contract hnet {} (⟨[3, 1]⟩ : WordList) hroom).1 (Or.inr ⟨hchoice, rfl⟩)
  obtain ⟨encoding', -, hreport'⟩ :=
    (report_contract hnet { seed := some 7 } (⟨[]⟩ : WordList) hroom').1 (Or.inr ⟨hchoice, rfl⟩)
  exact ⟨hnet, by decide +kernel, Or.inr ⟨hchoice, rfl⟩, hroom, ⟨encoding, hreport⟩, hroom',
    encoding', hreport'⟩

end Program
end PetriCcs
