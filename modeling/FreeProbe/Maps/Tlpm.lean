import FreeProbe.Maps.LpmTrie
import Mathlib.Data.List.Pairwise

/-!
# `Maps.Tlpm` — the reference of the trie's tests

The list of `(key, n_bits)` entries that `test_lpm_trie_map.cpp` compares the trie with, here with the value
the trie stores beside each. An entry with the key's length and bits is overwritten, a new one goes to the
front, and a match is the first longest.
-/

namespace Maps

open Lib.RadixTree

variable {dataSize valueSize : Nat}

/-- `tlpm_node`: `n_bits` is `len`, `key` is `data`. -/
abbrev TlpmNode (dataSize valueSize : Nat) := Entry (Vector Byte dataSize) (Vector Byte valueSize)

/-- `for (i = 0; i < n_bits && i < list->n_bits; ++i)` -/
def tlpmMatchLength (node : TlpmNode dataSize valueSize) (key : Vector Byte dataSize) (nBits : Nat) : Nat :=
  matchLength (extractBit key) (extractBit node.data) (min nBits node.len)

/-- One round of the loop of `tlpm_match`. -/
def tlpmBetter (key : Vector Byte dataSize) (nBits : Nat) (best : Option (TlpmNode dataSize valueSize))
    (node : TlpmNode dataSize valueSize) : Option (TlpmNode dataSize valueSize) :=
  let i := tlpmMatchLength node key nBits
  if i ≥ node.len then
    match best with
    | none => some node
    | some b => if i > b.len then some node else some b
  else best

/-- `tlpm_match` -/
def tlpmMatch (list : List (TlpmNode dataSize valueSize)) (key : Vector Byte dataSize) (nBits : Nat) :
    Option (TlpmNode dataSize valueSize) := list.foldl (tlpmBetter key nBits) none

/-- `tlpm_add` -/
def tlpmAdd (list : List (TlpmNode dataSize valueSize)) (key : Vector Byte dataSize) (nBits : Nat)
    (value : Vector Byte valueSize) : List (TlpmNode dataSize valueSize) :=
  match tlpmMatch list key nBits with
  | some node => if node.len = nBits then list.replace node ⟨nBits, key, value⟩ else ⟨nBits, key, value⟩ :: list
  | none => ⟨nBits, key, value⟩ :: list

/-- `tlpm_delete` -/
def tlpmDelete (list : List (TlpmNode dataSize valueSize)) (key : Vector Byte dataSize) (nBits : Nat) :
    List (TlpmNode dataSize valueSize) :=
  match tlpmMatch list key nBits with
  | some best => if best.len ≠ nBits then list else list.erase best
  | none => list

/-! ## The match is a longest one -/

/-- A node matches if its whole prefix does. -/
theorem le_tlpmMatchLength_iff {node : TlpmNode dataSize valueSize} {key : Vector Byte dataSize} {nBits : Nat} :
    tlpmMatchLength node key nBits ≥ node.len ↔ Matches extractBit key nBits node := by
  constructor
  · intro h
    refine ⟨Nat.le_trans h (Nat.le_trans (matchLength_le _ _ _) (Nat.min_le_left _ _)), ?_⟩
    exact ((matchLength_agree _ _ _).mono h).symm
  · intro h
    exact le_matchLength h.2.symm (Nat.le_min.mpr ⟨h.1, Nat.le_refl _⟩)

/-- What one round keeps: `best` is a longest match of the entries seen. -/
theorem tlpmBetter_longest {key : Vector Byte dataSize} {nBits : Nat} {seen : List (TlpmNode dataSize valueSize)}
    {best : Option (TlpmNode dataSize valueSize)} (h : Longest extractBit key nBits seen best)
    (node : TlpmNode dataSize valueSize) :
    Longest extractBit key nBits (seen ++ [node]) (tlpmBetter key nBits best node) := by
  unfold tlpmBetter
  simp only
  split
  · next hmatch =>
      have hlen : tlpmMatchLength node key nBits = node.len :=
        Nat.le_antisymm (Nat.le_trans (matchLength_le _ _ _) (Nat.min_le_right _ _)) hmatch
      have hnode := le_tlpmMatchLength_iff.mp hmatch
      rw [hlen]
      -- the node matches and is the first to do so, or is longer than the best
      cases best with
      | none =>
          refine ⟨List.mem_append_right _ (List.mem_singleton_self node), hnode, fun x hx hm => ?_⟩
          rcases List.mem_append.mp hx with hx | hx
          · exact absurd hm (h x hx)
          · rw [List.mem_singleton.mp hx]
      | some b =>
          simp only
          split
          · next hlt =>
              refine ⟨List.mem_append_right _ (List.mem_singleton_self node), hnode, fun x hx hm => ?_⟩
              rcases List.mem_append.mp hx with hx | hx
              · exact Nat.le_of_lt (Nat.lt_of_le_of_lt (h.2.2 x hx hm) hlt)
              · rw [List.mem_singleton.mp hx]
          · next hge =>
              refine ⟨List.mem_append_left _ h.1, h.2.1, fun x hx hm => ?_⟩
              rcases List.mem_append.mp hx with hx | hx
              · exact h.2.2 x hx hm
              · rw [List.mem_singleton.mp hx]
                exact Nat.le_of_not_lt hge
  · next hmatch =>
      have hno : ¬ Matches extractBit key nBits node := fun hm => hmatch (le_tlpmMatchLength_iff.mpr hm)
      cases best with
      | none =>
          intro x hx hm
          rcases List.mem_append.mp hx with hx | hx
          · exact h x hx hm
          · exact hno (List.mem_singleton.mp hx ▸ hm)
      | some b =>
          refine ⟨List.mem_append_left _ h.1, h.2.1, fun x hx hm => ?_⟩
          rcases List.mem_append.mp hx with hx | hx
          · exact h.2.2 x hx hm
          · exact absurd (List.mem_singleton.mp hx ▸ hm) hno

/-- **`tlpm_match` finds a longest match.** -/
theorem tlpmMatch_longest (list : List (TlpmNode dataSize valueSize)) (key : Vector Byte dataSize) (nBits : Nat) :
    Longest extractBit key nBits list (tlpmMatch list key nBits) := by
  unfold tlpmMatch
  induction list using List.reverseRecOn with
  | nil => exact fun _ hx => nomatch hx
  | append_singleton seen node ih =>
      rw [List.foldl_append]
      exact tlpmBetter_longest ih node

/-! ## Adding and deleting -/

/-- The entry has the key's length and bits. -/
def HasPrefix {β : Type} (key : LpmTrieKey dataSize) (x : Entry (Vector Byte dataSize) β) : Prop :=
  x.len = key.prefixlen ∧ Agree (extractBit x.data) (extractBit key.data) x.len

/-- A node with the key's prefix matches the key. -/
theorem HasPrefix.matches {β : Type} {key : LpmTrieKey dataSize} {x : Entry (Vector Byte dataSize) β}
    (h : HasPrefix key x) : Matches extractBit key.data key.prefixlen x := ⟨Nat.le_of_eq h.1, h.2⟩

/-- Entries of one key have one prefix. -/
theorem HasPrefix.same {β : Type} {key : LpmTrieKey dataSize} {x y : Entry (Vector Byte dataSize) β}
    (hx : HasPrefix key x) (hy : HasPrefix key y) : SamePrefix extractBit x y := by
  have hlen : x.len = y.len := hx.1.trans hy.1.symm
  exact ⟨hlen, hx.2.trans (hlen ▸ hy.2.symm)⟩

/-- So does another with the same prefix. -/
theorem HasPrefix.of_same {β : Type} {key : LpmTrieKey dataSize} {x y : Entry (Vector Byte dataSize) β}
    (hx : HasPrefix key x) (h : SamePrefix extractBit y x) : HasPrefix key y :=
  ⟨h.1.trans hx.1, h.2.trans (h.1 ▸ hx.2)⟩

/-- No two entries have one prefix. -/
def Distinct {β : Type} (l : List (Entry (Vector Byte dataSize) β)) : Prop :=
  l.Pairwise fun x y => ¬ SamePrefix extractBit x y

/-- The order does not matter. -/
theorem Distinct.perm {β : Type} {l l' : List (Entry (Vector Byte dataSize) β)} (h : Distinct l) (hp : l.Perm l') :
    Distinct l' := (hp.pairwise_iff fun {_ _} hxy hyx => hxy hyx.symm).mp h

/-- A prefix has one node. -/
theorem Distinct.eq {β : Type} {l : List (Entry (Vector Byte dataSize) β)} (h : Distinct l)
    {x y : Entry (Vector Byte dataSize) β} (hx : x ∈ l) (hy : y ∈ l) (hs : SamePrefix extractBit x y) : x = y := by
  have hsymm : Std.Symm fun x y : Entry (Vector Byte dataSize) β => ¬ SamePrefix extractBit x y :=
    ⟨fun _ _ hxy hyx => hxy hyx.symm⟩
  by_contra hne
  exact List.Pairwise.forall h hx hy hne hs

/-- `l'` is `l` with the value at the key. -/
def Put (key : LpmTrieKey dataSize) (value : Vector Byte valueSize) (l l' : List (TlpmNode dataSize valueSize)) :
    Prop :=
  ∃ e, HasPrefix key e ∧ e.val = value ∧ ∀ x, x ∈ l' ↔ x = e ∨ (x ∈ l ∧ ¬ HasPrefix key x)

/-- `l'` is `l` without the key. -/
def Drop (key : LpmTrieKey dataSize) (l l' : List (TlpmNode dataSize valueSize)) : Prop :=
  ∀ x, x ∈ l' ↔ x ∈ l ∧ ¬ HasPrefix key x

variable {list : List (TlpmNode dataSize valueSize)} {key : LpmTrieKey dataSize}

/-- The match has the key's length exactly when the list has the key. -/
theorem tlpmMatch_hasPrefix {node : TlpmNode dataSize valueSize}
    (h : tlpmMatch list key.data key.prefixlen = some node) (hlen : node.len = key.prefixlen) :
    node ∈ list ∧ HasPrefix key node := by
  have hl := tlpmMatch_longest list key.data key.prefixlen
  rw [h] at hl
  exact ⟨hl.1, hlen, hl.2.1.2⟩

/-- No node has the prefix if the best match has not. -/
theorem tlpmMatch_absent
    (h : ∀ node, tlpmMatch list key.data key.prefixlen = some node → node.len ≠ key.prefixlen) :
    ∀ x ∈ list, ¬ HasPrefix key x := by
  intro x hx hp
  have hl := tlpmMatch_longest list key.data key.prefixlen
  cases hm : tlpmMatch list key.data key.prefixlen with
  | none =>
      rw [hm] at hl
      exact hl x hx hp.matches
  | some node =>
      rw [hm] at hl
      have := hl.2.2 x hx hp.matches
      exact h node hm (Nat.le_antisymm hl.2.1.1 (hp.1 ▸ this))

/-- Around an entry of the key there is no other. -/
theorem Distinct.erase {node : TlpmNode dataSize valueSize} (h : Distinct list) (hmem : node ∈ list)
    (hp : HasPrefix key node) :
    Distinct (list.erase node) ∧ ∀ x, x ∈ list.erase node ↔ x ∈ list ∧ ¬ HasPrefix key x := by
  have hperm := List.perm_cons_erase hmem
  have hpair := List.pairwise_cons.mp (h.perm hperm)
  refine ⟨hpair.2, fun x => ⟨fun hx => ⟨List.mem_of_mem_erase hx, fun hx' => hpair.1 x hx (hp.same hx')⟩, ?_⟩⟩
  rintro ⟨hx, hno⟩
  rcases List.mem_cons.mp (hperm.mem_iff.mp hx) with rfl | hx
  · exact absurd hp hno
  · exact hx

theorem replace_perm {α : Type} [DecidableEq α] {l : List α} {a b : α} (h : a ∈ l) :
    (l.replace a b).Perm (b :: l.erase a) := by
  induction l with
  | nil => exact nomatch h
  | cons c l ih =>
      by_cases hca : c = a
      · subst hca
        rw [List.replace_cons_self, List.erase_cons_head]
      · have hne : (a == c) = false := beq_false_of_ne (Ne.symm hca)
        have hne' : ¬ (c == a) = true := by simpa using hca
        rw [List.replace_cons, hne, List.erase_cons_tail hne']
        refine ((ih ?_).cons c).trans (List.Perm.swap b c _)
        exact (List.mem_cons.mp h).resolve_left (Ne.symm hca)

/-- A new entry goes to the front of the entries of other keys. -/
theorem Distinct.cons {rest : List (TlpmNode dataSize valueSize)} {e : TlpmNode dataSize valueSize}
    (h : Distinct rest) (he : HasPrefix key e) (hrest : ∀ x, x ∈ rest ↔ x ∈ list ∧ ¬ HasPrefix key x) :
    Distinct (e :: rest) ∧ ∀ x, x ∈ e :: rest ↔ x = e ∨ (x ∈ list ∧ ¬ HasPrefix key x) := by
  constructor
  · exact List.pairwise_cons.mpr ⟨fun x hx hs => ((hrest x).mp hx).2 (he.of_same hs.symm), h⟩
  · intro x
    rw [List.mem_cons, hrest]

/-- **`tlpm_add` sets the key.** -/
theorem tlpmAdd_put (h : Distinct list) (value : Vector Byte valueSize) :
    Distinct (tlpmAdd list key.data key.prefixlen value) ∧
      Put key value list (tlpmAdd list key.data key.prefixlen value) := by
  have hnew : HasPrefix key (⟨key.prefixlen, key.data, value⟩ : TlpmNode dataSize valueSize) :=
    ⟨rfl, Agree.refl _ _⟩
  have hfront (habsent : ∀ x ∈ list, ¬ HasPrefix key x) :
      Distinct (⟨key.prefixlen, key.data, value⟩ :: list) ∧
        Put key value list (⟨key.prefixlen, key.data, value⟩ :: list) := by
    obtain ⟨hd, hmem⟩ := h.cons hnew fun x => ⟨fun hx => ⟨hx, habsent x hx⟩, And.left⟩
    exact ⟨hd, _, hnew, rfl, hmem⟩
  unfold tlpmAdd
  split
  · next node hm =>
      split
      · next hlen =>
          obtain ⟨hmem, hp⟩ := tlpmMatch_hasPrefix hm hlen
          obtain ⟨herase, hrest⟩ := h.erase hmem hp
          obtain ⟨hd, hput⟩ := herase.cons hnew hrest
          have hperm := replace_perm (b := ⟨key.prefixlen, key.data, value⟩) hmem
          exact ⟨hd.perm hperm.symm, _, hnew, rfl, fun x => hperm.mem_iff.trans (hput x)⟩
      · next hlen =>
          refine hfront (tlpmMatch_absent fun node' hm' => ?_)
          rw [hm] at hm'
          exact Option.some.inj hm' ▸ hlen
  · next hm =>
      refine hfront (tlpmMatch_absent fun node' hm' => ?_)
      rw [hm] at hm'
      exact nomatch hm'

/-- **`tlpm_delete` removes the key.** -/
theorem tlpmDelete_drop (key : LpmTrieKey dataSize) (h : Distinct list) :
    Distinct (tlpmDelete list key.data key.prefixlen) ∧
      Drop key list (tlpmDelete list key.data key.prefixlen) := by
  have hsame (habsent : ∀ x ∈ list, ¬ HasPrefix key x) : Distinct list ∧ Drop key list list :=
    ⟨h, fun x => ⟨fun hx => ⟨hx, habsent x hx⟩, And.left⟩⟩
  unfold tlpmDelete
  split
  · next best hm =>
      split
      · next hlen =>
          refine hsame (tlpmMatch_absent fun node' hm' => ?_)
          rw [hm] at hm'
          exact Option.some.inj hm' ▸ hlen
      · next hlen =>
          obtain ⟨hmem, hp⟩ := tlpmMatch_hasPrefix hm (not_not.mp hlen)
          exact h.erase hmem hp
  · next hm =>
      refine hsame (tlpmMatch_absent fun node' hm' => ?_)
      rw [hm] at hm'
      exact nomatch hm'

end Maps
