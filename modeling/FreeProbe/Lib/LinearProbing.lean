import Mathlib.Data.Finset.Card
import Mathlib.Data.Finset.Range

/-!
# `Lib.LinearProbing` — open addressing with linear probing

A table of `m` slots, each vacant or holding a key. A probe for a key starts at the key's home slot and goes
on, around the table, to the first slot that is vacant or holds the key.

* `probe_spec`: what each outcome says about the slots passed.
* `Chained`: no key sits behind a vacant slot of its own probe path. With it a probe finds every key there is
  (`probe_found`) and misses every other (`probe_not_found`); filling the vacant slot that a probe has found
  keeps it (`Chained.fill`).
* Vacating a slot keeps it exactly when no other key's path crosses the slot: `Chained.vacate`, and
  `probe_vacate` for what a probe then sees.
* `filledSlots`: how many slots are in use. `Stores`: the table and the values beside it hold a finite map, which
  a probe looks up (`Stores.lookup_found`, `Stores.lookup_none`).
-/

namespace Lib.LinearProbing

variable {κ : Type*} [DecidableEq κ]

/-- The `d`-th slot from `home` on. -/
def slotAt (m home d : Nat) : Nat := (home + d) % m

/-- How far slot `i` is from `home`. -/
def distance (m home i : Nat) : Nat := (i + m - home) % m

/-- The outcome of a probe. -/
inductive Probe where
  | vacant (i : Nat)
  | found (i : Nat)
  | exhausted
deriving DecidableEq, Repr

/-- A `do … while` loop over the slots from `i` on, back to `start` at most. -/
def probeFrom (tab : Nat → Option κ) (m : Nat) (key : κ) (start : Nat) : Nat → Nat → Probe
  | 0, _ => .exhausted
  | fuel + 1, i =>
    match tab i with
    | none => .vacant i
    | some k =>
      if k = key then .found i
      else if (i + 1) % m = start then .exhausted
      else probeFrom tab m key start fuel ((i + 1) % m)

/-- The whole loop: `m` rounds bring it back to its start. -/
def probe (tab : Nat → Option κ) (m : Nat) (key : κ) (home : Nat) : Probe := probeFrom tab m key home m home

/-! ## Slots and distances -/

/-- A slot of the table. -/
theorem slotAt_lt {m home d : Nat} (hm : 0 < m) : slotAt m home d < m := Nat.mod_lt _ hm

/-- Less than once around. -/
theorem distance_lt {m home i : Nat} (hm : 0 < m) : distance m home i < m := Nat.mod_lt _ hm

/-- The first slot is the home. -/
theorem slotAt_zero {m home : Nat} (h : home < m) : slotAt m home 0 = home := Nat.mod_eq_of_lt h

/-- The next slot. -/
theorem slotAt_succ (m home d : Nat) : (slotAt m home d + 1) % m = slotAt m home (d + 1) := by
  rw [slotAt, Nat.mod_add_mod]
  rfl

/-- The slot at a distance, and the distance of a slot, undo one another. -/
theorem slotAt_distance {m home i : Nat} (hh : home < m) (hi : i < m) : slotAt m home (distance m home i) = i := by
  unfold slotAt distance
  rw [Nat.add_mod_mod, show home + (i + m - home) = i + m by omega, Nat.add_mod_right, Nat.mod_eq_of_lt hi]

/-- How far a slot is from home. -/
theorem distance_slotAt {m home d : Nat} (hh : home < m) (hd : d < m) : distance m home (slotAt m home d) = d := by
  unfold slotAt distance
  rcases Nat.lt_or_ge (home + d) m with h | h
  · rw [Nat.mod_eq_of_lt h, show home + d + m - home = d + m by omega, Nat.add_mod_right, Nat.mod_eq_of_lt hd]
  · have hwrap : (home + d) % m = home + d - m := by
      rw [Nat.mod_eq_sub_mod h, Nat.mod_eq_of_lt (by omega)]
    rw [hwrap, show home + d - m + m - home = d by omega, Nat.mod_eq_of_lt hd]

/-- Slots less than once around are different. -/
theorem slotAt_injective {m home d e : Nat} (hh : home < m) (hd : d < m) (he : e < m)
    (h : slotAt m home d = slotAt m home e) : d = e := by
  rw [← distance_slotAt hh hd, h, distance_slotAt hh he]

/-- The slot before a probe is back at its start is the last one. -/
theorem slotAt_succ_eq_home {m home d : Nat} (hh : home < m) (hd : d < m) :
    slotAt m home (d + 1) = home ↔ d + 1 = m := by
  constructor
  · intro h
    by_contra hne
    have h0 : slotAt m home (d + 1) = slotAt m home 0 := h.trans (slotAt_zero hh).symm
    exact absurd (slotAt_injective hh (by omega) (by omega) h0) (by omega)
  · intro h
    rw [slotAt, h, Nat.add_mod_right, Nat.mod_eq_of_lt hh]

/-! ## What a probe passes -/

/-- The slots at distances below `d` hold keys, and none of them is `key`. -/
def Passed (tab : Nat → Option κ) (m : Nat) (key : κ) (home d : Nat) : Prop :=
  ∀ e, e < d → ∃ k, tab (slotAt m home e) = some k ∧ k ≠ key

/-- What the outcome of a probe says. -/
def ProbeSpec (tab : Nat → Option κ) (m : Nat) (key : κ) (home : Nat) : Probe → Prop
  | .vacant i => ∃ d, d < m ∧ i = slotAt m home d ∧ tab i = none ∧ Passed tab m key home d
  | .found i => ∃ d, d < m ∧ i = slotAt m home d ∧ tab i = some key ∧ Passed tab m key home d
  | .exhausted => Passed tab m key home m

omit [DecidableEq κ] in
/-- Passing one more slot. -/
theorem Passed.succ {tab : Nat → Option κ} {m home d : Nat} {key k : κ} (h : Passed tab m key home d)
    (hk : tab (slotAt m home d) = some k) (hne : k ≠ key) : Passed tab m key home (d + 1) := by
  intro e he
  rcases Nat.lt_succ_iff_lt_or_eq.mp he with he' | rfl
  · exact h e he'
  · exact ⟨k, hk, hne⟩

/-- **What a probe finds.** -/
theorem probeFrom_spec {tab : Nat → Option κ} {m home : Nat} {key : κ} (hh : home < m) {fuel d : Nat}
    (hfuel : d + fuel = m) (hp : Passed tab m key home d) :
    ProbeSpec tab m key home (probeFrom tab m key home fuel (slotAt m home d)) := by
  induction fuel generalizing d with
  | zero =>
      rw [Nat.add_zero] at hfuel
      subst hfuel
      exact hp
  | succ fuel ih =>
      have hd : d < m := by omega
      unfold probeFrom
      cases hk : tab (slotAt m home d) with
      | none => exact ⟨d, hd, rfl, hk, hp⟩
      | some k =>
          simp only
          split
          · next heq => exact ⟨d, hd, rfl, heq ▸ hk, hp⟩
          · next hne =>
              have hp' := hp.succ hk hne
              simp only [slotAt_succ, slotAt_succ_eq_home hh hd]
              split
              · next hlast => rw [hlast] at hp'; exact hp'
              · exact ih (by omega) hp'

/-- **A probe's outcome** is the first slot on the path that is vacant or holds the key, or that there is
    none. -/
theorem probe_spec (tab : Nat → Option κ) {m home : Nat} (key : κ) (hh : home < m) :
    ProbeSpec tab m key home (probe tab m key home) := by
  have hp : Passed tab m key home 0 := fun _ h => absurd h (by omega)
  have h := probeFrom_spec hh (Nat.zero_add m) hp
  rwa [slotAt_zero hh] at h

/-! ## Tables without broken chains -/

/-- No key sits behind a vacant slot of its path, and no key sits in two slots. -/
structure Chained (tab : Nat → Option κ) (m : Nat) (home : κ → Nat) : Prop where
  chain : ∀ j k, j < m → tab j = some k → ∀ i, i < m → distance m (home k) i < distance m (home k) j → tab i ≠ none
  once : ∀ i j k, i < m → j < m → tab i = some k → tab j = some k → i = j

variable {tab : Nat → Option κ} {m : Nat} {home : κ → Nat}

/-- **A probe finds what is there.** -/
theorem probe_found (hc : Chained tab m home) {key : κ} (hh : home key < m) {i : Nat} (hi : i < m)
    (h : tab i = some key) : probe tab m key (home key) = .found i := by
  have hspec := probe_spec tab key hh
  have hpos : slotAt m (home key) (distance m (home key) i) = i := slotAt_distance hh hi
  have hdist : distance m (home key) i < m := distance_lt (by omega)
  cases hp : probe tab m key (home key) with
  | vacant j =>
      rw [hp] at hspec
      obtain ⟨d, hd, rfl, hnone, hpass⟩ := hspec
      rcases Nat.lt_trichotomy d (distance m (home key) i) with hlt | heq | hgt
      · exact absurd hnone (hc.chain i key hi h _ (slotAt_lt (by omega)) (by rwa [distance_slotAt hh hd]))
      · rw [heq, hpos, h] at hnone
        cases hnone
      · obtain ⟨k, hk, hne⟩ := hpass _ hgt
        rw [hpos, h] at hk
        exact absurd (Option.some.inj hk).symm hne
  | found j =>
      rw [hp] at hspec
      obtain ⟨d, hd, rfl, hsome, -⟩ := hspec
      rw [hc.once _ _ key (slotAt_lt (by omega)) hi hsome h]
  | exhausted =>
      rw [hp] at hspec
      obtain ⟨k, hk, hne⟩ := hspec _ hdist
      rw [hpos, h] at hk
      exact absurd (Option.some.inj hk).symm hne

/-- A slot that a probe returns as found holds the key. -/
theorem probe_found_slot {key : κ} (hh : home key < m) {i : Nat} (h : probe tab m key (home key) = .found i) :
    i < m ∧ tab i = some key := by
  have hspec := probe_spec tab key hh
  rw [h] at hspec
  obtain ⟨d, hd, rfl, hsome, -⟩ := hspec
  exact ⟨slotAt_lt (by omega), hsome⟩

/-- A slot that a probe returns as vacant is. -/
theorem probe_vacant_slot {key : κ} (hh : home key < m) {i : Nat} (h : probe tab m key (home key) = .vacant i) :
    i < m ∧ tab i = none := by
  have hspec := probe_spec tab key hh
  rw [h] at hspec
  obtain ⟨d, hd, rfl, hnone, -⟩ := hspec
  exact ⟨slotAt_lt (by omega), hnone⟩

/-- **A probe that does not find a key shows its absence.** -/
theorem probe_not_found (hc : Chained tab m home) {key : κ} (hh : home key < m)
    (h : ∀ i, probe tab m key (home key) ≠ .found i) {i : Nat} (hi : i < m) : tab i ≠ some key :=
  fun hk => h i (probe_found hc hh hi hk)

/-- A full round shows that no slot is vacant. -/
theorem probe_exhausted {key : κ} (hh : home key < m) (h : probe tab m key (home key) = .exhausted) {i : Nat}
    (hi : i < m) : tab i ≠ none := by
  have hspec := probe_spec tab key hh
  rw [h] at hspec
  have hdist : distance m (home key) i < m := distance_lt (by omega)
  obtain ⟨k, hk, -⟩ := hspec _ hdist
  rw [slotAt_distance hh hi] at hk
  rw [hk]
  exact Option.some_ne_none k

/-- The path to a vacant slot that a probe has found has no vacancy. -/
theorem probe_vacant_path {key : κ} (hh : home key < m) {i : Nat} (h : probe tab m key (home key) = .vacant i)
    {j : Nat} (hj : j < m) (hlt : distance m (home key) j < distance m (home key) i) : tab j ≠ none := by
  have hspec := probe_spec tab key hh
  rw [h] at hspec
  obtain ⟨d, hd, rfl, -, hpass⟩ := hspec
  rw [distance_slotAt hh hd] at hlt
  obtain ⟨k, hk, -⟩ := hpass _ hlt
  rw [slotAt_distance hh hj] at hk
  rw [hk]
  exact Option.some_ne_none k

/-- **Filling** the vacant slot that the probe for a key has found keeps the chains. -/
theorem Chained.fill (hc : Chained tab m home) {key : κ} (hh : home key < m) {i : Nat}
    (h : probe tab m key (home key) = .vacant i) : Chained (Function.update tab i (some key)) m home := by
  have habsent : ∀ j, j < m → tab j ≠ some key := fun j hj =>
    probe_not_found hc hh (fun i' hf => by rw [h] at hf; cases hf) hj
  constructor
  · intro j k hj hk j' hj' hlt
    by_cases hji : j' = i
    · subst hji
      rw [Function.update_self]
      exact Option.some_ne_none key
    rw [Function.update_of_ne hji]
    by_cases hjj : j = i
    · subst hjj
      rw [Function.update_self] at hk
      obtain rfl := Option.some.inj hk
      exact probe_vacant_path hh h hj' hlt
    · rw [Function.update_of_ne hjj] at hk
      exact hc.chain j k hj hk j' hj' hlt
  · intro j j' k hj hj' hk hk'
    by_cases hji : j = i
    · by_cases hji' : j' = i
      · rw [hji, hji']
      · subst hji
        rw [Function.update_self] at hk
        obtain rfl := Option.some.inj hk
        rw [Function.update_of_ne hji'] at hk'
        exact absurd hk' (habsent j' hj')
    · rw [Function.update_of_ne hji] at hk
      by_cases hji' : j' = i
      · subst hji'
        rw [Function.update_self] at hk'
        obtain rfl := Option.some.inj hk'
        exact absurd hk (habsent j hj)
      · rw [Function.update_of_ne hji'] at hk'
        exact hc.once j j' k hj hj' hk hk'

/-- Some other key's path crosses slot `i`. -/
def Crossed (tab : Nat → Option κ) (m : Nat) (home : κ → Nat) (i : Nat) : Prop :=
  ∃ j k, j < m ∧ j ≠ i ∧ tab j = some k ∧ distance m (home k) i < distance m (home k) j

omit [DecidableEq κ] in
/-- **Vacating** a slot that no other key's path crosses keeps the chains. -/
theorem Chained.vacate (hc : Chained tab m home) {i : Nat} (h : ¬ Crossed tab m home i) :
    Chained (Function.update tab i none) m home := by
  have hold : ∀ {j k}, Function.update tab i none j = some k → j ≠ i ∧ tab j = some k := by
    intro j k hk
    by_cases hji : j = i
    · subst hji
      rw [Function.update_self] at hk
      cases hk
    · exact ⟨hji, by rwa [Function.update_of_ne hji] at hk⟩
  constructor
  · intro j k hj hk j' hj' hlt
    obtain ⟨hji, hk'⟩ := hold hk
    by_cases hji' : j' = i
    · exact absurd ⟨j, k, hj, hji, hk', hji' ▸ hlt⟩ h
    · rw [Function.update_of_ne hji']
      exact hc.chain j k hj hk' j' hj' hlt
  · intro j j' k hj hj' hk hk'
    exact hc.once j j' k hj hj' (hold hk).2 (hold hk').2

/-- Once a slot on its path is vacated, a probe for a key stops there. -/
theorem probe_vacate (hc : Chained tab m home) {i j : Nat} {key : κ} (hh : home key < m) (hi : i < m)
    (hj : j < m) (hk : tab j = some key) (hlt : distance m (home key) i < distance m (home key) j) :
    probe (Function.update tab i none) m key (home key) = .vacant i := by
  have hspec := probe_spec (Function.update tab i none) key hh
  have hslot : slotAt m (home key) (distance m (home key) i) = i := slotAt_distance hh hi
  have hdist : distance m (home key) i < m := distance_lt (by omega)
  -- slots before `i` are as before, and hold other keys
  have hvac : ∀ {d}, Passed (Function.update tab i none) m key (home key) d → d ≤ distance m (home key) i := by
    intro d hpass
    by_contra hgt
    obtain ⟨k, hk', -⟩ := hpass _ (Nat.lt_of_not_le hgt)
    rw [hslot, Function.update_self] at hk'
    cases hk'
  cases hp : probe (Function.update tab i none) m key (home key) with
  | vacant i' =>
      rw [hp] at hspec
      obtain ⟨d, hd, rfl, hnone, hpass⟩ := hspec
      rcases Nat.lt_or_eq_of_le (hvac hpass) with hlt' | heq
      · have hne : slotAt m (home key) d ≠ i := fun he => by
          rw [← he, distance_slotAt hh hd] at hlt'
          exact Nat.lt_irrefl _ hlt'
        rw [Function.update_of_ne hne] at hnone
        exact absurd hnone (hc.chain j key hj hk _ (slotAt_lt (by omega))
          (by rw [distance_slotAt hh hd]; exact Nat.lt_trans hlt' hlt))
      · rw [heq, hslot]
  | found i' =>
      rw [hp] at hspec
      obtain ⟨d, hd, rfl, hsome, hpass⟩ := hspec
      have hne : slotAt m (home key) d ≠ i := fun he => by
        rw [he, Function.update_self] at hsome
        cases hsome
      rw [Function.update_of_ne hne] at hsome
      have hjd := hc.once _ _ key (slotAt_lt (by omega)) hj hsome hk
      have hd' : d = distance m (home key) j := by rw [← hjd, distance_slotAt hh hd]
      exact absurd (hvac hpass) (by omega)
  | exhausted =>
      rw [hp] at hspec
      exact absurd (hvac hspec) (by omega)

omit [DecidableEq κ] in
/-- A path goes on only over slots that hold other keys. -/
theorem Passed.le {key : κ} {start d e : Nat} (h : Passed tab m key start e)
    (hstop : ∀ k, tab (slotAt m start d) = some k → k = key) : e ≤ d := by
  by_contra hlt
  obtain ⟨k, hk, hne⟩ := h d (Nat.lt_of_not_le hlt)
  exact hne (hstop k hk)

/-- A key that has been put where its probe has found a vacancy is found there, chains or not. -/
theorem probe_fill {key : κ} {start i : Nat} (hh : start < m) (h : probe tab m key start = .vacant i) :
    probe (Function.update tab i (some key)) m key start = .found i := by
  have hold := probe_spec tab key hh
  rw [h] at hold
  obtain ⟨d, hd, rfl, -, hpass⟩ := hold
  have hstop : ∀ k, Function.update tab (slotAt m start d) (some key) (slotAt m start d) = some k → k = key := by
    intro k hk
    rw [Function.update_self] at hk
    exact (Option.some.inj hk).symm
  -- a slot before is as it was
  have hbefore : ∀ {e}, e < d → ∃ k, Function.update tab (slotAt m start d) (some key) (slotAt m start e) = some k ∧ k ≠ key := by
    intro e he
    have hne : slotAt m start e ≠ slotAt m start d := fun heq =>
      absurd (slotAt_injective hh (he.trans hd) hd heq) (Nat.ne_of_lt he)
    rw [Function.update_of_ne hne]
    exact hpass e he
  have hnew := probe_spec (Function.update tab (slotAt m start d) (some key)) key hh
  cases hp : probe (Function.update tab (slotAt m start d) (some key)) m key start with
  | vacant i =>
      rw [hp] at hnew
      obtain ⟨e, he, rfl, hnone, hpass'⟩ := hnew
      rcases Nat.lt_or_eq_of_le (hpass'.le hstop) with hlt | rfl
      · obtain ⟨k, hk, -⟩ := hbefore hlt
        rw [hk] at hnone
        cases hnone
      · rw [Function.update_self] at hnone
        cases hnone
  | found i =>
      rw [hp] at hnew
      obtain ⟨e, he, rfl, hsome, hpass'⟩ := hnew
      rcases Nat.lt_or_eq_of_le (hpass'.le hstop) with hlt | rfl
      · obtain ⟨k, hk, hne⟩ := hbefore hlt
        rw [hk] at hsome
        exact absurd (Option.some.inj hsome) hne
      · rfl
  | exhausted =>
      rw [hp] at hnew
      exact absurd (Passed.le hnew hstop) (Nat.not_le_of_lt hd)

/-! ## The slots in use -/

section FilledSlots

omit [DecidableEq κ]

/-- The slots with a key. -/
def filledSlots (tab : Nat → Option κ) (m : Nat) : Finset Nat := (Finset.range m).filter fun i => (tab i).isSome

/-- A slot of them. -/
theorem mem_filledSlots {i : Nat} : i ∈ filledSlots tab m ↔ i < m ∧ (tab i).isSome := by
  rw [filledSlots, Finset.mem_filter, Finset.mem_range]

/-- One more slot in use. -/
theorem card_filledSlots_fill {i : Nat} (hi : i < m) (hnone : tab i = none) (key : κ) :
    (filledSlots (Function.update tab i (some key)) m).card = (filledSlots tab m).card + 1 := by
  have hnot : i ∉ filledSlots tab m := by
    rw [mem_filledSlots, hnone]
    exact fun h => by cases h.2
  rw [← Finset.card_insert_of_notMem hnot]
  congr 1
  ext j
  rw [Finset.mem_insert, mem_filledSlots, mem_filledSlots]
  by_cases hj : j = i
  · subst hj
    rw [Function.update_self]
    simp [hi]
  · rw [Function.update_of_ne hj]
    simp [hj]

/-- One less. -/
theorem card_filledSlots_vacate {i : Nat} {key : κ} (hi : i < m) (hsome : tab i = some key) :
    (filledSlots (Function.update tab i none) m).card = (filledSlots tab m).card - 1 := by
  have hmem : i ∈ filledSlots tab m := by
    rw [mem_filledSlots, hsome]
    exact ⟨hi, rfl⟩
  rw [← Finset.card_erase_of_mem hmem]
  congr 1
  ext j
  rw [Finset.mem_erase, mem_filledSlots, mem_filledSlots]
  by_cases hj : j = i
  · subst hj
    rw [Function.update_self]
    simp
  · rw [Function.update_of_ne hj]
    simp [hj]

/-- With a vacant slot there are fewer than all. -/
theorem card_filledSlots_lt {i : Nat} (hi : i < m) (hnone : tab i = none) : (filledSlots tab m).card < m := by
  have hsub : filledSlots tab m ⊂ Finset.range m := by
    refine Finset.filter_ssubset.mpr ⟨i, Finset.mem_range.mpr hi, ?_⟩
    rw [hnone]
    exact Bool.false_ne_true
  calc (filledSlots tab m).card < (Finset.range m).card := Finset.card_lt_card hsub
    _ = m := Finset.card_range m

/-- Without one they are all. -/
theorem card_filledSlots_full (hfull : ∀ i, i < m → tab i ≠ none) : (filledSlots tab m).card = m := by
  have hall : filledSlots tab m = Finset.range m := by
    refine Finset.filter_true_of_mem fun i hi => ?_
    exact Option.isSome_iff_ne_none.mpr (hfull i (Finset.mem_range.mp hi))
  rw [hall, Finset.card_range]

end FilledSlots

/-! ## The finite map in a table -/

/-- The table has unbroken chains, and holds the entries of a finite map, the values beside their keys. -/
structure Stores {ν : Type*} (tab : Nat → Option κ) (values : Nat → ν) (m : Nat) (home : κ → Nat)
    (reference : κ → Option ν) : Prop where
  chained : Chained tab m home
  entries : ∀ key value, reference key = some value ↔ ∃ i, i < m ∧ tab i = some key ∧ values i = value

section Stores

variable {ν : Type*} {values values' : Nat → ν} {reference : κ → Option ν}

omit [DecidableEq κ] in
/-- The empty table. -/
theorem stores_empty (values : Nat → ν) : Stores (fun _ => none) values m home fun _ => none where
  chained := by
    constructor
    · intro j k hj hk
      cases hk
    · intro i j k hi hj hk
      cases hk
  entries := by
    intro key value
    constructor
    · intro h
      cases h
    · rintro ⟨_, _, hk, _⟩
      cases hk

/-- What a probe finds is the reference's value. -/
theorem Stores.lookup_found (h : Stores tab values m home reference) {key : κ} (hh : home key < m) {i : Nat}
    (hf : probe tab m key (home key) = .found i) : reference key = some (values i) := by
  obtain ⟨hi, hk⟩ := probe_found_slot hh hf
  exact (h.entries key _).mpr ⟨i, hi, hk, rfl⟩

/-- What it does not find is not in the reference. -/
theorem Stores.lookup_none (h : Stores tab values m home reference) {key : κ} (hh : home key < m)
    (hf : ∀ i, probe tab m key (home key) ≠ .found i) : reference key = none := by
  cases hr : reference key with
  | none => rfl
  | some value =>
      obtain ⟨i, hi, hk, -⟩ := (h.entries key value).mp hr
      exact absurd (probe_found h.chained hh hi hk) (hf i)

/-- Filling the vacant slot that the probe for a key has found adds the key. -/
theorem Stores.fill (h : Stores tab values m home reference) {key : κ} (hh : home key < m) {i : Nat}
    (hf : probe tab m key (home key) = .vacant i) (hvalues : ∀ j, j ≠ i → tab j ≠ none → j < m → values' j = values j) :
    Stores (Function.update tab i (some key)) values' m home (Function.update reference key (some (values' i))) := by
  obtain ⟨hi, hnone⟩ := probe_vacant_slot hh hf
  have habsent : ∀ j, j < m → tab j ≠ some key := fun j hj =>
    probe_not_found h.chained hh (fun i' hf' => by rw [hf] at hf'; cases hf') hj
  refine ⟨h.chained.fill hh hf, fun key' value' => ?_⟩
  by_cases hkk : key' = key
  · subst hkk
    rw [Function.update_self]
    constructor
    · intro hv
      exact ⟨i, hi, Function.update_self .., Option.some.inj hv⟩
    · rintro ⟨j, hj, hk, rfl⟩
      by_cases hji : j = i
      · rw [hji]
      · rw [Function.update_of_ne hji] at hk
        exact absurd hk (habsent j hj)
  · rw [Function.update_of_ne hkk, h.entries]
    refine exists_congr fun j => and_congr_right fun hj => ?_
    by_cases hji : j = i
    · subst hji
      rw [Function.update_self, hnone]
      constructor
      · intro hx
        cases hx.1
      · intro hx
        exact absurd (Option.some.inj hx.1).symm hkk
    · rw [Function.update_of_ne hji]
      refine and_congr_right fun hk => ?_
      rw [hvalues j hji (by rw [hk]; exact Option.some_ne_none key') hj]

/-- A new value beside a key that is there. -/
theorem Stores.overwrite (h : Stores tab values m home reference) {key : κ} {i : Nat} (hi : i < m)
    (hk : tab i = some key) (hvalues : ∀ j, j ≠ i → tab j ≠ none → j < m → values' j = values j) :
    Stores tab values' m home (Function.update reference key (some (values' i))) := by
  refine ⟨h.chained, fun key' value' => ?_⟩
  by_cases hkk : key' = key
  · subst hkk
    rw [Function.update_self]
    constructor
    · intro hv
      exact ⟨i, hi, hk, Option.some.inj hv⟩
    · rintro ⟨j, hj, hk', rfl⟩
      rw [h.chained.once j i key' hj hi hk' hk]
  · rw [Function.update_of_ne hkk, h.entries]
    refine exists_congr fun j => and_congr_right fun hj => and_congr_right fun hk' => ?_
    have hji : j ≠ i := fun hji => by
      rw [hji, hk] at hk'
      exact hkk (Option.some.inj hk').symm
    rw [hvalues j hji (by rw [hk']; exact Option.some_ne_none key') hj]

/-- Vacating a slot that no other key's path crosses removes its key. -/
theorem Stores.vacate (h : Stores tab values m home reference) {key : κ} {i : Nat} (hi : i < m)
    (hk : tab i = some key) (hcross : ¬ Crossed tab m home i) :
    Stores (Function.update tab i none) values m home (Function.update reference key none) := by
  refine ⟨h.chained.vacate hcross, fun key' value' => ?_⟩
  by_cases hkk : key' = key
  · subst hkk
    rw [Function.update_self]
    constructor
    · intro hv
      cases hv
    · rintro ⟨j, hj, hk', -⟩
      by_cases hji : j = i
      · rw [hji, Function.update_self] at hk'
        cases hk'
      · rw [Function.update_of_ne hji] at hk'
        exact absurd (h.chained.once j i key' hj hi hk' hk) hji
  · rw [Function.update_of_ne hkk, h.entries]
    refine exists_congr fun j => and_congr_right fun hj => ?_
    by_cases hji : j = i
    · subst hji
      rw [Function.update_self, hk]
      constructor
      · intro hx
        exact absurd (Option.some.inj hx.1).symm hkk
      · intro hx
        cases hx.1
    · rw [Function.update_of_ne hji]

end Stores

end Lib.LinearProbing
