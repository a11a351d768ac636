import Mathlib.Data.Finset.Card
import Mathlib.Tactic
import PetriCcs.Net.NameTable

/-! # Soundness of a name table

`NameTable.Balanced` is the joint invariant of the three parts of a table: every positive name below
the counter is in use or given back, and the counter is free.  Claims and releases of any names keep it
(`Balanced.claim`, `Balanced.release`) as long as the counter has room, which `load`, the number of
names that the table remembers, bounds from below (`Balanced.next_le`).  A balanced table that holds no
zero is sound (`sound_iff`).  A sound table knows the smallest free name, so a table that tracks the
names of nodes grants a new one its hint or the smallest number that none of them bears
(`Tracks.resolve`). -/

namespace PetriCcs.NameTable

open scoped List

/-- Names start at 1; those below the counter are in use or given back, the counter is free. -/
structure Sound (table : NameTable) : Prop where
  used_nodup : table.used.Nodup
  released_nodup : table.released.Nodup
  used_pos : ∀ name ∈ table.used, 0 < name
  released_free : ∀ name ∈ table.released, 0 < name ∧ name < table.next ∧ name ∉ table.used
  next_pos : 0 < table.next
  next_free : table.next ∉ table.used
  covered : ∀ name, 0 < name → name < table.next → name ∈ table.used ∨ name ∈ table.released

/-- What holds of a table also when 0 is claimed like any other name: the positive names below the
counter are in use or given back, the counter is free. -/
structure Balanced (table : NameTable) : Prop where
  used_nodup : table.used.Nodup
  released_nodup : table.released.Nodup
  released_free : ∀ name ∈ table.released, name < table.next ∧ name ∉ table.used
  next_pos : 0 < table.next
  next_free : table.next ∉ table.used
  covered : ∀ name, 0 < name → name < table.next → name ∈ table.used ∨ name ∈ table.released

/-- The number of names that a table remembers. -/
def load (table : NameTable) : ℕ := table.used.length + table.released.length

/-- Without a zero a balanced table is sound. -/
theorem sound_iff {table : NameTable} : table.Sound ↔ table.Balanced ∧
    (∀ name ∈ table.used, 0 < name) ∧ ∀ name ∈ table.released, 0 < name := by
  constructor
  · intro h
    exact ⟨⟨h.used_nodup, h.released_nodup, fun name hname => (h.released_free name hname).2,
      h.next_pos, h.next_free, h.covered⟩, h.used_pos, fun name hname => (h.released_free name hname).1⟩
  · rintro ⟨h, hused, hreleased⟩
    exact ⟨h.used_nodup, h.released_nodup, hused,
      fun name hname => ⟨hreleased name hname, h.released_free name hname⟩, h.next_pos, h.next_free,
      h.covered⟩

theorem Sound.balanced {table : NameTable} (h : table.Sound) : table.Balanced := (sound_iff.1 h).1

theorem sound_empty : Sound .empty where
  used_nodup := List.nodup_nil
  released_nodup := List.nodup_nil
  used_pos := by simp [empty]
  released_free := by simp [empty]
  next_pos := by decide
  next_free := by simp [empty]
  covered := by
    intro name hpos hlt
    have hone : name < 1 := hlt
    rw [UInt32.lt_iff_toNat_lt] at hpos hone
    simp at hpos hone
    omega

/-! ### Counting -/

/-- A list that holds a whole interval of names is at least as long as the interval. -/
theorem interval_le_length {names : List NameIndex} {first last : ℕ} (hlast : last ≤ 2 ^ 32)
    (h : ∀ name : NameIndex, first ≤ name.toNat → name.toNat < last → name ∈ names) :
    last - first ≤ names.length := by
  have hsub : Finset.Ico first last ⊆ (names.map UInt32.toNat).toFinset := by
    intro n hn
    rw [Finset.mem_Ico] at hn
    have hn32 : (UInt32.ofNat n).toNat = n := UInt32.toNat_ofNat_of_lt' (by
      rw [UInt32.size]
      omega)
    rw [List.mem_toFinset, List.mem_map]
    exact ⟨UInt32.ofNat n, h _ (by omega) (by omega), hn32⟩
  calc
    last - first = (Finset.Ico first last).card := (Nat.card_Ico first last).symm
    _ ≤ (names.map UInt32.toNat).toFinset.card := Finset.card_le_card hsub
    _ ≤ (names.map UInt32.toNat).length := List.toFinset_card_le _
    _ = names.length := List.length_map _

/-- A counter is no larger than the number of names below it that are remembered, plus one. -/
theorem toNat_le_of_covered {used released : List NameIndex} {next : NameIndex}
    (h : ∀ name, 0 < name → name < next → name ∈ used ∨ name ∈ released) :
    next.toNat ≤ used.length + released.length + 1 := by
  have hlen := @interval_le_length (used ++ released) 1 next.toNat
    (Nat.le_of_lt next.toNat_lt) (fun name hpos hlt => List.mem_append.2
      (h name (UInt32.lt_iff_toNat_lt.2 hpos) (UInt32.lt_iff_toNat_lt.2 hlt)))
  rw [List.length_append] at hlen
  omega

theorem Balanced.next_le {table : NameTable} (h : table.Balanced) :
    table.next.toNat ≤ table.load + 1 :=
  toNat_le_of_covered h.covered

/-! ### The counter -/

theorem toNat_add_one {name : NameIndex} (h : name.toNat + 1 < 2 ^ 32) :
    (name + 1).toNat = name.toNat + 1 := by
  rw [UInt32.toNat_add]
  exact Nat.mod_eq_of_lt h

theorem lt_add_one_iff {name x : NameIndex} (h : name.toNat + 1 < 2 ^ 32) :
    x < name + 1 ↔ x = name ∨ x < name := by
  rw [UInt32.lt_iff_toNat_lt, UInt32.lt_iff_toNat_lt, toNat_add_one h, ← UInt32.toNat_inj]
  omega

theorem add_one_le_iff {name x : NameIndex} (h : name.toNat + 1 < 2 ^ 32) :
    name + 1 ≤ x ↔ name < x := by
  rw [UInt32.le_iff_toNat_le, UInt32.lt_iff_toNat_lt, toNat_add_one h]
  omega

theorem pos_add_one {name : NameIndex} (h : name.toNat + 1 < 2 ^ 32) : 0 < name + 1 := by
  rw [UInt32.lt_iff_toNat_lt, toNat_add_one h]
  exact Nat.succ_pos _

/-- Once a name is in use, the names up to it are covered. -/
theorem covered_add_one {used released : List NameIndex} {name : NameIndex}
    (h : name.toNat + 1 < 2 ^ 32) (hused : name ∈ used)
    (hcover : ∀ x, 0 < x → x < name → x ∈ used ∨ x ∈ released) :
    ∀ x, 0 < x → x < name + 1 → x ∈ used ∨ x ∈ released := by
  intro x hx hlt
  rcases (lt_add_one_iff h).1 hlt with rfl | hlt
  · exact Or.inl hused
  · exact hcover x hx hlt

/-- The counter only passes names in use, and stops early or after all its steps. -/
theorem skipUsed_spec (used released : List NameIndex) (hroom : used.length + released.length + 2 < 2 ^ 32) :
    ∀ (steps : ℕ) (name : NameIndex), 0 < name →
      (∀ x, 0 < x → x < name → x ∈ used ∨ x ∈ released) →
      name ≤ skipUsed used steps name ∧
      (∀ x, name ≤ x → x < skipUsed used steps name → x ∈ used) ∧
      (skipUsed used steps name ∉ used ∨
        (skipUsed used steps name).toNat = name.toNat + steps)
  | 0, name, _, _ => by
      refine ⟨UInt32.le_refl name, fun x hle hlt => ?_, Or.inr rfl⟩
      exact absurd hlt (UInt32.not_lt.2 hle)
  | steps + 1, name, hpos, hcover => by
      rw [skipUsed]
      by_cases hused : name ∈ used
      · have hbound := toNat_le_of_covered hcover
        have hlt : name.toNat + 1 < 2 ^ 32 := by omega
        rw [if_pos (by simpa using hused)]
        obtain ⟨hle, hall, hstop⟩ := skipUsed_spec used released hroom steps (name + 1)
          (pos_add_one hlt) (covered_add_one hlt hused hcover)
        refine ⟨UInt32.le_of_lt ((add_one_le_iff hlt).1 hle), fun x hx hxlt => ?_, ?_⟩
        · rcases UInt32.le_iff_lt_or_eq.1 hx with hx | rfl
          · exact hall x ((add_one_le_iff hlt).2 hx) hxlt
          · exact hused
        · rw [toNat_add_one hlt, Nat.add_right_comm, Nat.add_assoc] at hstop
          exact hstop
      · rw [if_neg (by simpa using hused)]
        refine ⟨UInt32.le_refl name, fun x hle hlt => ?_, Or.inl hused⟩
        exact absurd hlt (UInt32.not_lt.2 hle)

/-- With as many steps as there are names in use, the counter finds a free name. -/
theorem skipUsed_free {used released : List NameIndex}
    (hroom : used.length + released.length + 2 < 2 ^ 32) {name : NameIndex} (hpos : 0 < name)
    (hcover : ∀ x, 0 < x → x < name → x ∈ used ∨ x ∈ released) :
    skipUsed used used.length name ∉ used := by
  obtain ⟨hle, hall, hfree | hend⟩ := skipUsed_spec used released hroom used.length name hpos hcover
  · exact hfree
  · intro hused
    have hlen := @interval_le_length used name.toNat
      ((skipUsed used used.length name).toNat + 1) (UInt32.toNat_lt _) (by
        intro x hx hlt
        by_cases he : x = skipUsed used used.length name
        · exact he ▸ hused
        · refine hall x (UInt32.le_iff_toNat_le.2 hx) (UInt32.lt_iff_toNat_lt.2 ?_)
          have : x.toNat ≠ (skipUsed used used.length name).toNat := fun e =>
            he (UInt32.toNat_inj.1 e)
          omega)
    omega

/-! ### Taking a name into use -/

section Claim

variable {table : NameTable} {name : NameIndex}

theorem isTaken_iff : table.isTaken name = true ↔ name ∈ table.used := by
  simp [isTaken]

theorem used_claim (hfree : name ∉ table.used) : (table.claim name).used = name :: table.used := by
  rw [claim, if_neg (fun ht => hfree (isTaken_iff.1 ht))]
  split
  · rfl
  · split <;> rfl

theorem mem_used_claim_iff {other : NameIndex} :
    other ∈ (table.claim name).used ↔ other = name ∨ other ∈ table.used := by
  by_cases hname : name ∈ table.used
  · rw [claim, if_pos (isTaken_iff.2 hname)]
    refine ⟨Or.inr, fun hother => hother.elim (fun heq => ?_) id⟩
    rwa [heq]
  · rw [used_claim hname, List.mem_cons]

/-- A name in use is not given back. -/
theorem Balanced.mem_released_claim_iff (h : table.Balanced) {other : NameIndex} :
    other ∈ (table.claim name).released ↔ other ∈ table.released ∧ other ≠ name := by
  rw [claim]
  by_cases htaken : name ∈ table.used
  · rw [if_pos (isTaken_iff.2 htaken)]
    refine ⟨fun hother => ⟨hother, ?_⟩, And.left⟩
    rintro rfl
    exact (h.released_free _ hother).2 htaken
  · rw [if_neg (fun ht => htaken (isTaken_iff.1 ht))]
    by_cases hlt : name < table.next
    · rw [if_pos hlt]
      simp [List.mem_filter]
    · have hkept : other ∈ table.released ↔ other ∈ table.released ∧ other ≠ name := by
        refine ⟨fun hother => ⟨hother, ?_⟩, And.left⟩
        rintro rfl
        exact hlt (h.released_free _ hother).1
      rw [if_neg hlt]
      split <;> exact hkept

theorem Balanced.covered_cons (h : table.Balanced) (name : NameIndex) :
    ∀ x, 0 < x → x < table.next → x ∈ name :: table.used ∨ x ∈ table.released :=
  fun x hx hlt => (h.covered x hx hlt).imp_left (List.mem_cons_of_mem _)

/-- Below the counter the name leaves the names given back. -/
theorem Balanced.claim_below (h : table.Balanced) (hfree : name ∉ table.used)
    (hlt : name < table.next) : Balanced { table with
      used := name :: table.used
      released := table.released.filter (· ≠ name) } := by
  have hne : table.next ≠ name := fun e => UInt32.lt_irrefl _ (e ▸ hlt)
  refine ⟨List.nodup_cons.2 ⟨hfree, h.used_nodup⟩, h.released_nodup.filter _, ?_, h.next_pos, ?_, ?_⟩
  · intro x hx
    obtain ⟨hx, hxne⟩ := List.mem_filter.1 hx
    obtain ⟨hxlt, hxfree⟩ := h.released_free x hx
    exact ⟨hxlt, by simpa [hxfree] using hxne⟩
  · simpa [h.next_free] using hne
  · intro x hx hxlt
    by_cases he : x = name
    · exact Or.inl (by simp [he])
    · exact (h.covered_cons name x hx hxlt).imp_right fun hc =>
        List.mem_filter.2 ⟨hc, by simpa using he⟩

/-- At the counter it moves on to the next free name. -/
theorem Balanced.claim_next (h : table.Balanced) (hroom : table.load + 3 < 2 ^ 32) :
    Balanced { table with
      used := table.next :: table.used
      next := skipUsed (table.next :: table.used) (table.next :: table.used).length
        (table.next + 1) } := by
  have hroom' : (table.next :: table.used).length + table.released.length + 2 < 2 ^ 32 := by
    rw [List.length_cons]
    unfold load at hroom
    omega
  have hlt : table.next.toNat + 1 < 2 ^ 32 := by
    have hle := h.next_le
    omega
  have hpos := pos_add_one hlt
  have hcover := covered_add_one hlt (List.mem_cons_self (l := table.used)) (h.covered_cons _)
  obtain ⟨hle, hall, -⟩ := skipUsed_spec _ _ hroom' (table.next :: table.used).length
    (table.next + 1) hpos hcover
  refine ⟨List.nodup_cons.2 ⟨h.next_free, h.used_nodup⟩, h.released_nodup, ?_, ?_,
    skipUsed_free hroom' hpos hcover, ?_⟩
  · intro x hx
    obtain ⟨hxlt, hxfree⟩ := h.released_free x hx
    refine ⟨?_, ?_⟩
    · exact UInt32.lt_of_lt_of_le ((lt_add_one_iff hlt).2 (Or.inr hxlt)) hle
    · rw [List.mem_cons, not_or]
      exact ⟨fun e => UInt32.lt_irrefl _ (e ▸ hxlt), hxfree⟩
  · exact UInt32.lt_of_lt_of_le hpos hle
  · intro x hx hxlt
    by_cases hxnext : x < table.next + 1
    · exact hcover x hx hxnext
    · exact Or.inl (hall x (UInt32.not_lt.1 hxnext) hxlt)

/-- Above the counter the name is only recorded. -/
theorem Balanced.claim_above (h : table.Balanced) (hfree : name ∉ table.used)
    (hlt : ¬ name < table.next) (hne : name ≠ table.next) :
    Balanced { table with used := name :: table.used } := by
  refine ⟨List.nodup_cons.2 ⟨hfree, h.used_nodup⟩, h.released_nodup, ?_, h.next_pos, ?_,
    h.covered_cons name⟩
  · intro x hx
    obtain ⟨hxlt, hxfree⟩ := h.released_free x hx
    refine ⟨hxlt, ?_⟩
    rw [List.mem_cons, not_or]
    exact ⟨fun e => hlt (e ▸ hxlt), hxfree⟩
  · rw [List.mem_cons, not_or]
    exact ⟨fun e => hne e.symm, h.next_free⟩

/-- Taking a name into use keeps the table balanced. -/
theorem Balanced.claim (h : table.Balanced) (hroom : table.load + 3 < 2 ^ 32) (name : NameIndex) :
    (table.claim name).Balanced := by
  rw [NameTable.claim]
  by_cases htaken : name ∈ table.used
  · rwa [if_pos (isTaken_iff.2 htaken)]
  · rw [if_neg (fun ht => htaken (isTaken_iff.1 ht))]
    by_cases hlt : name < table.next
    · rw [if_pos hlt]
      exact h.claim_below htaken hlt
    · rw [if_neg hlt]
      by_cases heq : name = table.next
      · subst heq
        rw [if_pos rfl]
        exact h.claim_next hroom
      · rw [if_neg heq]
        exact h.claim_above htaken hlt heq

/-- Taking a positive name into use keeps the table sound. -/
theorem Sound.claim (h : table.Sound) (hroom : table.load + 3 < 2 ^ 32) (hpos : 0 < name) :
    (table.claim name).Sound := by
  refine sound_iff.2 ⟨h.balanced.claim hroom name, fun x hx => ?_, fun x hx => ?_⟩
  · rcases mem_used_claim_iff.1 hx with rfl | hx
    · exact hpos
    · exact h.used_pos x hx
  · exact (h.released_free x (h.balanced.mem_released_claim_iff.1 hx).1).1

end Claim

theorem load_claim_le (table : NameTable) (name : NameIndex) :
    (table.claim name).load ≤ table.load + 1 := by
  rw [claim]
  split
  · exact Nat.le_succ _
  · have hfilter : (table.released.filter (· ≠ name)).length ≤ table.released.length :=
      List.length_filter_le _ _
    split
    · simp only [load, List.length_cons]
      omega
    · split <;> simp only [load, List.length_cons] <;> omega

theorem filter_ne_eq_erase {names : List NameIndex} (h : names.Nodup) (name : NameIndex) :
    names.filter (· ≠ name) = names.erase name := by
  rw [h.erase_eq_filter]
  exact List.filter_congr fun x _ => Bool.eq_iff_iff.2 (by simp)

/-! ### Giving a name back -/

section Release

variable {table : NameTable} {name : NameIndex}

theorem used_release (table : NameTable) (name : NameIndex) :
    (table.release name).used = table.used.filter (· ≠ name) := by
  rw [release]
  split
  · split <;> rfl
  · rename_i htaken
    rw [isTaken_iff] at htaken
    refine (List.filter_eq_self.2 fun x hx => ?_).symm
    have hne : x ≠ name := fun e => htaken (e ▸ hx)
    simpa using hne

theorem mem_used_release_iff {other : NameIndex} :
    other ∈ (table.release name).used ↔ other ∈ table.used ∧ other ≠ name := by
  rw [used_release, List.mem_filter, decide_eq_true_iff]

/-- A name in use below the counter is remembered as given back. -/
theorem mem_released_release_iff {other : NameIndex} :
    other ∈ (table.release name).released ↔
      other ∈ table.released ∨ (other = name ∧ name ∈ table.used ∧ name < table.next) := by
  rw [release]
  by_cases htaken : name ∈ table.used
  · rw [if_pos (isTaken_iff.2 htaken)]
    by_cases hlt : name < table.next
    · rw [if_pos hlt]
      simp [htaken, hlt, or_comm]
    · rw [if_neg hlt]
      simp [hlt]
  · rw [if_neg (fun ht => htaken (isTaken_iff.1 ht))]
    simp [htaken]

theorem next_release (table : NameTable) (name : NameIndex) :
    (table.release name).next = table.next := by
  rw [release]
  split
  · split <;> rfl
  · rfl

theorem Balanced.nodup_released_release (h : table.Balanced) (name : NameIndex) :
    (table.release name).released.Nodup := by
  rw [NameTable.release]
  split
  · rename_i htaken
    split
    · exact List.nodup_cons.2
        ⟨fun hname => (h.released_free name hname).2 (isTaken_iff.1 htaken), h.released_nodup⟩
    · exact h.released_nodup
  · exact h.released_nodup

/-- Giving a name back keeps the table balanced. -/
theorem Balanced.release (h : table.Balanced) (name : NameIndex) :
    (table.release name).Balanced := by
  refine ⟨?_, h.nodup_released_release name, fun x hx => ?_, ?_, ?_, fun x hx hlt => ?_⟩
  · rw [used_release]
    exact h.used_nodup.filter _
  · rw [next_release, mem_used_release_iff]
    rcases mem_released_release_iff.1 hx with hx | ⟨rfl, -, hlt⟩
    · obtain ⟨hxlt, hxfree⟩ := h.released_free x hx
      exact ⟨hxlt, fun hused => hxfree hused.1⟩
    · exact ⟨hlt, fun hused => hused.2 rfl⟩
  · rw [next_release]
    exact h.next_pos
  · rw [next_release, mem_used_release_iff]
    exact fun hused => h.next_free hused.1
  · rw [next_release] at hlt
    rw [mem_used_release_iff, mem_released_release_iff]
    rcases h.covered x hx hlt with hused | hreleased
    · by_cases he : x = name
      · subst he
        exact Or.inr (Or.inr ⟨rfl, hused, hlt⟩)
      · exact Or.inl ⟨hused, he⟩
    · exact Or.inr (Or.inl hreleased)

/-- Giving a name back keeps the table sound. -/
theorem Sound.release (h : table.Sound) (name : NameIndex) : (table.release name).Sound := by
  refine sound_iff.2 ⟨h.balanced.release name, fun x hx => ?_, fun x hx => ?_⟩
  · exact h.used_pos x (mem_used_release_iff.1 hx).1
  · rcases mem_released_release_iff.1 hx with hx | ⟨rfl, hused, -⟩
    · exact (h.released_free x hx).1
    · exact h.used_pos x hused

theorem load_release_le (table : NameTable) (name : NameIndex) :
    (table.release name).load ≤ table.load := by
  rw [release]
  split
  · rename_i htaken
    have hlen : (table.used.filter (· ≠ name)).length < table.used.length :=
      List.length_filter_lt_length_iff_exists.2 ⟨name, isTaken_iff.1 htaken, by simp⟩
    split <;> simp only [load, List.length_cons] <;> omega
  · exact Nat.le_refl _

end Release

/-! ### Free names -/

/-- The smallest positive number that is none of the names. -/
def IsFirstFree (names : List NameIndex) (name : NameIndex) : Prop :=
  IsLeast {n : ℕ | 0 < n ∧ ∀ other ∈ names, other.toNat ≠ n} name.toNat

section Free

variable {table : NameTable} {name : NameIndex}

/-- Zero is the first free name exactly when it was given back. -/
theorem Balanced.firstFree_pos_iff (h : table.Balanced) :
    0 < table.firstFree ↔ 0 ∉ table.released := by
  rw [firstFree, UInt32.pos_iff_ne_zero]
  cases hmin : table.released.min? with
  | none =>
      rw [List.min?_eq_none_iff.1 hmin]
      simpa using UInt32.pos_iff_ne_zero.1 h.next_pos
  | some least =>
      obtain ⟨hleast, hle⟩ := List.min?_eq_some_iff.1 hmin
      rw [Option.getD_some]
      constructor
      · intro hne hzero
        have hle' := UInt32.le_iff_toNat_le.1 (hle 0 hzero)
        exact hne (UInt32.toNat_inj.1 (Nat.le_zero.1 hle'))
      · rintro hzero rfl
        exact hzero hleast

theorem Balanced.firstFree_free (h : table.Balanced) : table.firstFree ∉ table.used := by
  rw [firstFree]
  cases hmin : table.released.min? with
  | none => exact h.next_free
  | some name => exact (h.released_free name (List.min?_mem hmin)).2

/-- Every positive name below the first free one is in use. -/
theorem Balanced.firstFree_le (h : table.Balanced) (hpos : 0 < name) (hfree : name ∉ table.used) :
    table.firstFree ≤ name := by
  rw [firstFree]
  cases hmin : table.released.min? with
  | none =>
      refine UInt32.not_lt.1 fun hlt => ?_
      have hreleased := (h.covered name hpos hlt).resolve_left hfree
      rw [List.min?_eq_none_iff.1 hmin] at hreleased
      exact absurd hreleased List.not_mem_nil
  | some least =>
      obtain ⟨hleast, hle⟩ := List.min?_eq_some_iff.1 hmin
      by_cases hlt : name < table.next
      · exact hle name ((h.covered name hpos hlt).resolve_left hfree)
      · exact UInt32.le_of_lt
          (UInt32.lt_of_lt_of_le (h.released_free least hleast).1 (UInt32.not_lt.1 hlt))

/-- A balanced table knows the smallest free name unless zero was given back. -/
theorem Balanced.isFirstFree_iff (h : table.Balanced) :
    IsFirstFree table.used table.firstFree ↔ 0 ∉ table.released := by
  rw [← h.firstFree_pos_iff]
  constructor
  · exact fun hleast => UInt32.lt_iff_toNat_lt.2 hleast.1.1
  · intro hpos
    refine ⟨⟨UInt32.lt_iff_toNat_lt.1 hpos, fun other hother heq => h.firstFree_free ?_⟩, ?_⟩
    · rwa [← UInt32.toNat_inj.1 heq]
    · rintro n ⟨hnpos, hne⟩
      by_cases hn : n < 2 ^ 32
      · have hn32 : (UInt32.ofNat n).toNat = n := UInt32.toNat_ofNat_of_lt' hn
        have hle : table.firstFree ≤ UInt32.ofNat n := by
          refine h.firstFree_le (UInt32.lt_iff_toNat_lt.2 (by rw [hn32]; exact hnpos)) ?_
          exact fun hused => hne _ hused hn32
        rw [UInt32.le_iff_toNat_le, hn32] at hle
        exact hle
      · have hlt := table.firstFree.toNat_lt
        omega

theorem resolve_of_taken (htaken : name ∈ table.used) :
    table.resolve (some name) = table.firstFree := by
  rw [resolve, if_pos (isTaken_iff.2 htaken)]

theorem resolve_of_free (hfree : name ∉ table.used) : table.resolve (some name) = name := by
  rw [resolve, if_neg fun htaken => hfree (isTaken_iff.1 htaken)]

/-- A sound table knows the smallest free name. -/
theorem Sound.isFirstFree (h : table.Sound) : IsFirstFree table.used table.firstFree :=
  h.balanced.isFirstFree_iff.2 fun hzero => UInt32.lt_irrefl 0 (h.released_free 0 hzero).1

/-- A hint other than 0 resolves to a positive name that is free. -/
theorem Sound.resolve (h : table.Sound) {hint : Option NameIndex} (hhint : hint ≠ some 0) :
    0 < table.resolve hint ∧ table.resolve hint ∉ table.used := by
  have hfirst : 0 < table.firstFree ∧ table.firstFree ∉ table.used :=
    ⟨UInt32.lt_iff_toNat_lt.2 h.isFirstFree.1.1, h.balanced.firstFree_free⟩
  cases hint with
  | none => exact hfirst
  | some name =>
      by_cases htaken : name ∈ table.used
      · rw [resolve_of_taken htaken]
        exact hfirst
      · rw [resolve_of_free htaken]
        refine ⟨UInt32.pos_iff_ne_zero.2 ?_, htaken⟩
        rintro rfl
        exact hhint rfl

end Free

/-! ### The names of a collection -/

/-- A sound table whose names in use are the given ones, each once. -/
structure Tracks (table : NameTable) (names : List NameIndex) : Prop where
  sound : table.Sound
  perm : table.used ~ names

theorem Tracks.nodup {table : NameTable} {names : List NameIndex} (h : table.Tracks names) :
    names.Nodup :=
  h.perm.nodup_iff.1 h.sound.used_nodup

theorem tracks_empty : Tracks .empty [] := ⟨sound_empty, List.Perm.nil⟩

/-- A new node takes the name that its hint resolves to. -/
theorem Tracks.claim {table : NameTable} {names : List NameIndex} (h : table.Tracks names)
    (hroom : table.load + 3 < 2 ^ 32) {hint : Option NameIndex} (hhint : hint ≠ some 0) :
    (table.claim (table.resolve hint)).Tracks (names ++ [table.resolve hint]) := by
  obtain ⟨hpos, hfree⟩ := h.sound.resolve hhint
  refine ⟨h.sound.claim hroom hpos, ?_⟩
  rw [used_claim hfree]
  exact (h.perm.cons _).trans (List.perm_append_singleton _ _).symm

/-- A removed node gives its name back. -/
theorem Tracks.release {table : NameTable} {names rest : List NameIndex} {name : NameIndex}
    (h : table.Tracks names) (hperm : names ~ name :: rest) : (table.release name).Tracks rest := by
  refine ⟨h.sound.release name, ?_⟩
  have hused := h.perm.trans hperm
  rw [used_release, filter_ne_eq_erase h.sound.used_nodup]
  simpa using hused.erase name

theorem Tracks.isTaken_iff {table : NameTable} {names : List NameIndex} (h : table.Tracks names)
    {name : NameIndex} : table.isTaken name = true ↔ name ∈ names := by
  rw [NameTable.isTaken_iff, h.perm.mem_iff]

theorem Tracks.pos {table : NameTable} {names : List NameIndex} (h : table.Tracks names)
    {name : NameIndex} (hname : name ∈ names) : 0 < name :=
  h.sound.used_pos name (h.perm.mem_iff.2 hname)

/-! ### The name of a new node -/

/-- What a new node is called beside nodes with the given names: as hinted when that name is free,
else by the smallest positive number that is. -/
structure Grants (names : List NameIndex) (hint : Option NameIndex) (name : NameIndex) : Prop where
  hinted : ∀ hinted, hint = some hinted → hinted ∉ names → name = hinted
  first : (∀ hinted, hint = some hinted → hinted ∈ names) → IsFirstFree names name

theorem Tracks.isFirstFree {table : NameTable} {names : List NameIndex} (h : table.Tracks names) :
    IsFirstFree names table.firstFree := by
  have hfirst := h.sound.isFirstFree
  unfold IsFirstFree at hfirst ⊢
  simpa only [h.perm.mem_iff] using hfirst

theorem Tracks.resolve {table : NameTable} {names : List NameIndex} (h : table.Tracks names)
    (hint : Option NameIndex) : Grants names hint (table.resolve hint) := by
  cases hint with
  | none =>
      refine ⟨fun hinted heq => ?_, fun _ => h.isFirstFree⟩
      cases heq
  | some name =>
      by_cases hname : name ∈ names
      · refine ⟨fun hinted heq hfree => ?_, fun _ => ?_⟩
        · cases heq
          exact absurd hname hfree
        · rw [resolve_of_taken (h.perm.mem_iff.2 hname)]
          exact h.isFirstFree
      · refine ⟨fun hinted heq _ => ?_, fun hall => absurd (hall name rfl) hname⟩
        cases heq
        exact resolve_of_free fun hused => hname (h.perm.mem_iff.1 hused)

end PetriCcs.NameTable
