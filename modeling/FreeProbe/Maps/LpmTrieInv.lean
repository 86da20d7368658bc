import FreeProbe.Maps.LpmTrie

/-!
# `Maps.LpmTrieInv` — the representation invariant of the trie

What an update can do to a trie is said once (`UpdateEffect`): it replaces a value, adds the key's node, or
adds the key's node and an intermediate one. The tree invariant, the counter and the reference of
`Maps.LpmTrieLookup` are all read off that.
-/

namespace Maps

open Lib.RadixTree Lib.RadixTree.Trie LpmTrie

variable {dataSize valueSize : Nat}

/-! ## `longest_prefix_match` -/

section LongestPrefixMatch

variable (node : LpmTrieNode dataSize valueSize) (key : LpmTrieKey dataSize)

/-- The match is no longer than the node's prefix. -/
theorem longestPrefixMatch_le_len : longestPrefixMatch node key ≤ node.len :=
  Nat.le_trans (matchLength_le _ _ _) (Nat.min_le_left _ _)

/-- Nor longer than the key's. -/
theorem longestPrefixMatch_le_prefixlen : longestPrefixMatch node key ≤ key.prefixlen :=
  Nat.le_trans (matchLength_le _ _ _) (Nat.min_le_right _ _)

/-- Up to it both agree. -/
theorem longestPrefixMatch_agree :
    Agree (extractBit node.data) (extractBit key.data) (longestPrefixMatch node key) := matchLength_agree _ _ _

variable {node key}

/-- And right behind it they differ, if it is shorter than both. -/
theorem longestPrefixMatch_differ (hlen : longestPrefixMatch node key < node.len)
    (hkey : longestPrefixMatch node key < key.prefixlen) :
    extractBit node.data (longestPrefixMatch node key) ≠ extractBit key.data (longestPrefixMatch node key) :=
  matchLength_differ (Nat.lt_min.mpr ⟨hlen, hkey⟩)

/-- There is no longer one. -/
theorem le_longestPrefixMatch {n : Nat} (h : Agree (extractBit node.data) (extractBit key.data) n)
    (hlen : n ≤ node.len) (hkey : n ≤ key.prefixlen) : n ≤ longestPrefixMatch node key :=
  le_matchLength h (Nat.le_min.mpr ⟨hlen, hkey⟩)

/-- Where the node matches, the count reaches its length. -/
theorem longestPrefixMatch_of_matches (h : Matches extractBit key.data key.prefixlen node) :
    longestPrefixMatch node key = node.len :=
  Nat.le_antisymm (longestPrefixMatch_le_len node key) (le_longestPrefixMatch h.2 (Nat.le_refl _) h.1)

end LongestPrefixMatch

/-! ## What an update does -/

/-- The node an update makes for its key. -/
def keyNode (args : UpdateArgs dataSize valueSize) : LpmTrieNode dataSize valueSize :=
  ⟨args.key.prefixlen, args.key.data, some args.value⟩

/-- The node a split puts above it. -/
def imNode (args : UpdateArgs dataSize valueSize) (matchlen : Nat) : LpmTrieNode dataSize valueSize :=
  ⟨matchlen, args.key.data, none⟩

/-- The nodes before and after, and whether `n_entries` goes up. -/
inductive UpdateEffect (args : UpdateArgs dataSize valueSize) (l l' : List (LpmTrieNode dataSize valueSize)) :
    Bool → Prop where
  | replace (x : LpmTrieNode dataSize valueSize) (hedit : Edit [x] [{ x with val := some args.value }] l l')
      (hsame : SamePrefix extractBit x (keyNode args)) (hfull : x.val = none → args.full = false) :
      UpdateEffect args l l' (! x.val.isSome)
  | insert (hedit : Edit [] [keyNode args] l l') (hnew : ∀ x ∈ l, ¬ SamePrefix extractBit x (keyNode args))
      (hfull : args.full = false) : UpdateEffect args l l' true
  | split (y : LpmTrieNode dataSize valueSize) (hy : y ∈ l)
      (hshort : longestPrefixMatch y args.key < args.key.prefixlen)
      (hedit : Edit [] [imNode args (longestPrefixMatch y args.key), keyNode args] l l')
      (hnew : ∀ x ∈ l, ¬ SamePrefix extractBit x (keyNode args)) (hfull : args.full = false) :
      UpdateEffect args l l' true

/-- `create_new_node` fails for a full trie only. -/
theorem createNewNode_ok {args : UpdateArgs dataSize valueSize} {node : LpmTrieNode dataSize valueSize}
    (h : createNewNode args = .ok node) : node = keyNode args ∧ args.full = false := by
  unfold createNewNode at h
  split at h
  · cases h
  split at h
  · cases h
  split at h
  · next hfull _ => exact ⟨(Except.ok.inj h).symm, Bool.eq_false_iff.mpr hfull⟩
  · cases h

/-- A split puts an intermediate node above the new one and the old one. -/
theorem splitSlot_ok {args : UpdateArgs dataSize valueSize} {matchlen : Nat} {slot t : LpmTree dataSize valueSize}
    (h : splitSlot args matchlen slot = .ok t) :
    args.full = false ∧ ∃ child, t = .node (imNode args matchlen) child ∧
      child (extractBit args.key.data matchlen) = .node (keyNode args) noChildren ∧
      child (! extractBit args.key.data matchlen) = slot := by
  unfold splitSlot at h
  obtain ⟨node, hnew, h⟩ := bind_ok h
  obtain ⟨rfl, hfull⟩ := createNewNode_ok hnew
  refine ⟨hfull, ?_⟩
  split at h
  · simp only at h
    split at h
    · next hbit => exact ⟨_, (Except.ok.inj h).symm, by rw [hbit]; rfl, by rw [hbit]; rfl⟩
    · next hbit =>
        rw [Bool.not_eq_true] at hbit
        exact ⟨_, (Except.ok.inj h).symm, by rw [hbit]; rfl, by rw [hbit]; rfl⟩
  · cases h

/-- A replacement takes an entry if the node had no value. -/
theorem replaceNode_ok {args : UpdateArgs dataSize valueSize} {node node' : LpmTrieNode dataSize valueSize}
    {added : Bool} (h : replaceNode args node = .ok (node', added)) :
    node' = { node with val := some args.value } ∧ added = ! node.val.isSome ∧
      (node.val = none → args.full = false) := by
  unfold replaceNode at h
  simp only at h
  split at h
  · cases h
  split at h
  · cases h
  split at h
  · cases h
  · next hfull =>
      obtain ⟨rfl, rfl⟩ := Prod.mk.inj (Except.ok.inj h)
      refine ⟨rfl, rfl, fun hnone => ?_⟩
      rw [hnone] at hfull
      simpa using hfull

/-- What the subtree of a slot and the key extend, the subtree after the update extends. -/
theorem UpdateEffect.extends {args : UpdateArgs dataSize valueSize} {l l' : List (LpmTrieNode dataSize valueSize)}
    {added : Bool} (h : UpdateEffect args l l' added) {e : LpmTrieNode dataSize valueSize} {b : Bool}
    (hl : ∀ x ∈ l, Extends extractBit e b x) (hkey : Extends extractBit e b (keyNode args)) :
    ∀ x ∈ l', Extends extractBit e b x := by
  intro x hx
  -- by what the update did to the nodes
  cases h with
  | replace y hedit _ _ =>
      rcases hedit.mem hx with hx | hx
      · obtain rfl := List.mem_singleton.mp hx
        have hy := hl y (hedit.old_mem (List.mem_singleton_self y))
        exact ⟨hy.longer, hy.agree, hy.next⟩
      · exact hl x hx
  | insert hedit _ _ =>
      rcases hedit.mem hx with hx | hx
      · obtain rfl := List.mem_singleton.mp hx
        exact hkey
      · exact hl x hx
  | split y hy _ hedit _ _ =>
      rcases hedit.mem hx with hx | hx
      · rcases List.mem_pair.mp hx with rfl | rfl
        · -- the key and `y` go on alike at the bit that leads here, so they share more than `e.len` bits
          have hyext := hl y hy
          refine ⟨le_longestPrefixMatch (n := e.len + 1) (fun i hi => ?_) hyext.longer hkey.longer, hkey.agree,
            hkey.next⟩
          rcases Nat.lt_succ_iff_lt_or_eq.mp hi with hi | rfl
          · exact (hyext.agree i hi).trans (hkey.agree i hi).symm
          · exact hyext.next.trans hkey.next.symm
        · exact hkey
      · exact hl x hx

/-! ## The walk

An update goes down to the slot for its key and does one of four things there. -/

/-- A node without children is well formed. -/
theorem wf_leaf (node : LpmTrieNode dataSize valueSize) : WF extractBit (Trie.node node noChildren) :=
  fun _ => ⟨trivial, fun _ hx => nomatch hx⟩

/-- And is all there is. -/
theorem nodes_leaf (node : LpmTrieNode dataSize valueSize) : (Trie.node node noChildren).nodes = [node] := rfl

/-- Where the walk goes on, the key extends the node. -/
theorem extends_keyNode {args : UpdateArgs dataSize valueSize} {node : LpmTrieNode dataSize valueSize}
    (hlen : node.len = longestPrefixMatch node args.key) (hne : node.len ≠ args.key.prefixlen) :
    Extends extractBit node (extractBit args.key.data node.len) (keyNode args) := by
  refine ⟨?_, ?_, rfl⟩
  · have := longestPrefixMatch_le_prefixlen node args.key
    show node.len < args.key.prefixlen
    omega
  · have := longestPrefixMatch_agree node args.key
    rw [← hlen] at this
    exact this.symm

/-- Under a node that does not match, no node has the key's prefix. -/
theorem no_samePrefix {args : UpdateArgs dataSize valueSize} {node : LpmTrieNode dataSize valueSize}
    {child : Bool → LpmTree dataSize valueSize} (hwf : WF extractBit (.node node child))
    (hlen : longestPrefixMatch node args.key < node.len) :
    ∀ x ∈ (Trie.node node child).nodes, ¬ SamePrefix extractBit x (keyNode args) := by
  intro x hx hsame
  have hmatch : Matches extractBit args.key.data args.key.prefixlen node := by
    rcases hwf.matches_child hx ⟨Nat.le_of_eq hsame.1, hsame.2⟩ with rfl | ⟨hm, _, _⟩
    · exact ⟨Nat.le_of_eq hsame.1, hsame.2⟩
    · exact hm
  exact absurd (longestPrefixMatch_of_matches hmatch) (Nat.ne_of_lt hlen)

/-- A split. -/
theorem splitSlot_spec {args : UpdateArgs dataSize valueSize} {node : LpmTrieNode dataSize valueSize}
    {child : Bool → LpmTree dataSize valueSize} {t : LpmTree dataSize valueSize}
    (hwf : WF extractBit (.node node child)) (hlen : longestPrefixMatch node args.key < node.len)
    (hkey : longestPrefixMatch node args.key < args.key.prefixlen)
    (h : splitSlot args (longestPrefixMatch node args.key) (.node node child) = .ok t) :
    WF extractBit t ∧ UpdateEffect args (Trie.node node child).nodes t.nodes true := by
  obtain ⟨hfull, ch, rfl, hself, hother⟩ := splitSlot_ok h
  have hdiffer := longestPrefixMatch_differ hlen hkey
  have hagree := longestPrefixMatch_agree node args.key
  constructor
  · intro b
    -- the new node on the side of its next bit, the old one on the other
    by_cases hb : b = extractBit args.key.data (longestPrefixMatch node args.key)
    · subst hb
      rw [hself]
      refine ⟨wf_leaf _, fun x hx => ?_⟩
      obtain rfl := List.mem_singleton.mp hx
      exact ⟨hkey, Agree.refl _ _, rfl⟩
    · obtain rfl : b = ! extractBit args.key.data _ := Bool.eq_not_of_ne hb
      rw [hother]
      refine ⟨hwf, hwf.extends_of_root fun r hr => ?_⟩
      obtain rfl := Option.some.inj hr
      exact ⟨hlen, hagree, Bool.eq_not_of_ne hdiffer⟩
  · refine .split node List.mem_cons_self hkey ⟨(Trie.node node child).nodes, List.Perm.refl _, ?_⟩
      (no_samePrefix hwf hlen) hfull
    rw [nodes]
    refine List.Perm.cons _ ?_
    cases hbit : extractBit args.key.data (longestPrefixMatch node args.key) with
    | false =>
        rw [hbit] at hself hother
        rw [hself, show ch true = _ from hother, nodes_leaf]
        exact List.Perm.refl _
    | true =>
        rw [hbit] at hself hother
        rw [hself, show ch false = _ from hother, nodes_leaf]
        exact List.perm_append_comm

/-- An exact match. -/
theorem replaceNode_spec {args : UpdateArgs dataSize valueSize} {node node' : LpmTrieNode dataSize valueSize}
    {child : Bool → LpmTree dataSize valueSize} {added : Bool} (hwf : WF extractBit (.node node child))
    (hlen : node.len = args.key.prefixlen) (hexact : longestPrefixMatch node args.key = args.key.prefixlen)
    (h : replaceNode args node = .ok (node', added)) :
    WF extractBit (.node node' child) ∧
      UpdateEffect args (Trie.node node child).nodes (Trie.node node' child).nodes added := by
  obtain ⟨rfl, rfl, hfull⟩ := replaceNode_ok h
  constructor
  · exact fun b => ⟨(hwf b).1, fun x hx => ⟨((hwf b).2 x hx).longer, ((hwf b).2 x hx).agree, ((hwf b).2 x hx).next⟩⟩
  · have hagree := longestPrefixMatch_agree node args.key
    rw [hexact, ← hlen] at hagree
    exact .replace node ⟨_, List.Perm.refl _, List.Perm.refl _⟩ ⟨hlen, hagree⟩ hfull

/-- The new node as the parent of the slot's subtree. -/
theorem ancestor_spec {args : UpdateArgs dataSize valueSize} {node : LpmTrieNode dataSize valueSize}
    {child : Bool → LpmTree dataSize valueSize} (hwf : WF extractBit (.node node child))
    (hlen : args.key.prefixlen < node.len) (hanc : longestPrefixMatch node args.key = args.key.prefixlen)
    (hfull : args.full = false) :
    WF extractBit (.node (keyNode args)
        (Function.update noChildren (extractBit node.data args.key.prefixlen) (.node node child))) ∧
      UpdateEffect args (Trie.node node child).nodes (Trie.node (keyNode args)
        (Function.update noChildren (extractBit node.data args.key.prefixlen) (.node node child))).nodes true := by
  have hagree := longestPrefixMatch_agree node args.key
  rw [hanc] at hagree
  constructor
  · refine (wf_leaf (keyNode args)).update hwf (hwf.extends_of_root fun r hr => ?_)
    obtain rfl := Option.some.inj hr
    exact ⟨hlen, hagree, rfl⟩
  · refine .insert ⟨(Trie.node node child).nodes, List.Perm.refl _, ?_⟩ (no_samePrefix hwf (hanc ▸ hlen)) hfull
    rw [nodes]
    refine List.Perm.cons _ ?_
    -- the old node goes below the new one, on the side of its next bit
    cases extractBit node.data args.key.prefixlen with
    | false =>
        rw [Function.update_self, Function.update_of_ne (by decide)]
        exact List.Perm.of_eq (List.append_nil _)
    | true =>
        rw [Function.update_self, Function.update_of_ne (by decide)]
        exact List.Perm.refl _

/-- An update of a child. -/
theorem descend_spec {args : UpdateArgs dataSize valueSize} {node : LpmTrieNode dataSize valueSize}
    {child : Bool → LpmTree dataSize valueSize} {slot : LpmTree dataSize valueSize} {added : Bool}
    (hwf : WF extractBit (.node node child)) (hlen : node.len = longestPrefixMatch node args.key)
    (hne : node.len ≠ args.key.prefixlen) (hslot : WF extractBit slot)
    (heff : UpdateEffect args (child (extractBit args.key.data node.len)).nodes slot.nodes added) :
    WF extractBit (.node node (Function.update child (extractBit args.key.data node.len) slot)) ∧
      UpdateEffect args (Trie.node node child).nodes
        (Trie.node node (Function.update child (extractBit args.key.data node.len) slot)).nodes added := by
  have hkey := extends_keyNode hlen hne
  refine ⟨hwf.update hslot (heff.extends (hwf _).2 hkey), ?_⟩
  -- a node of the other slot differs from the key at the bit that leads here
  have hnew (h : ∀ x ∈ (child (extractBit args.key.data node.len)).nodes, ¬ SamePrefix extractBit x (keyNode args)) :
      ∀ x ∈ (Trie.node node child).nodes, ¬ SamePrefix extractBit x (keyNode args) := by
    intro x hx hsame
    rcases hwf.matches_child hx ⟨Nat.le_of_eq hsame.1, hsame.2⟩ with rfl | ⟨_, _, hx⟩
    · exact hne hsame.1
    · exact h x hx hsame
  cases heff with
  | replace x hedit hsame hfull => exact .replace x hedit.child hsame hfull
  | insert hedit h hfull => exact .insert hedit.child (hnew h) hfull
  | split y hy hshort hedit h hfull =>
      exact .split y (mem_nodes.mpr (.inr ⟨_, hy⟩)) hshort hedit.child (hnew h) hfull

/-- **One spec for the walk and its cases.** -/
theorem updateSlot_spec {args : UpdateArgs dataSize valueSize} (hmax : args.key.prefixlen ≤ args.maxPrefixlen)
    {t t' : LpmTree dataSize valueSize} {added : Bool} (hwf : WF extractBit t)
    (h : updateSlot args t = .ok (t', added)) :
    WF extractBit t' ∧ UpdateEffect args t.nodes t'.nodes added := by
  -- along the walk: it ends in an empty slot, or at a node that it splits, replaces or puts one above, or goes on
  induction t generalizing t' added with
  | nil =>
      rw [updateSlot] at h
      obtain ⟨node, hnew, h⟩ := bind_ok h
      obtain ⟨rfl, hfull⟩ := createNewNode_ok hnew
      obtain ⟨rfl, rfl⟩ := Prod.mk.inj (Except.ok.inj h)
      exact ⟨wf_leaf _, .insert ⟨[], List.Perm.refl _, List.Perm.refl _⟩ (fun _ hx => nomatch hx) hfull⟩
  | node node child ih =>
      have hle := longestPrefixMatch_le_len node args.key
      have hlk := longestPrefixMatch_le_prefixlen node args.key
      rw [updateSlot] at h
      simp only at h
      split at h
      · next hbreak =>
          split at h
          · next hlen =>
              split at h
              · next hexact =>
                  obtain ⟨⟨node', _⟩, hrep, h⟩ := bind_ok h
                  obtain ⟨rfl, rfl⟩ := Prod.mk.inj (Except.ok.inj h)
                  exact replaceNode_spec hwf hlen hexact hrep
              · next hexact =>
                  obtain ⟨t, hsplit, h⟩ := bind_ok h
                  obtain ⟨rfl, rfl⟩ := Prod.mk.inj (Except.ok.inj h)
                  exact splitSlot_spec hwf (by omega) (by omega) hsplit
          · next hlen =>
              split at h
              · next hanc =>
                  obtain ⟨new, hnew, h⟩ := bind_ok h
                  obtain ⟨rfl, hfull⟩ := createNewNode_ok hnew
                  obtain ⟨rfl, rfl⟩ := Prod.mk.inj (Except.ok.inj h)
                  rw [hanc]
                  exact ancestor_spec hwf (by omega) hanc hfull
              · next hanc =>
                  obtain ⟨t, hsplit, h⟩ := bind_ok h
                  obtain ⟨rfl, rfl⟩ := Prod.mk.inj (Except.ok.inj h)
                  exact splitSlot_spec hwf (by omega) (by omega) hsplit
      · next hgo =>
          push Not at hgo
          obtain ⟨⟨slot, _⟩, hslot, h⟩ := bind_ok h
          obtain ⟨rfl, rfl⟩ := Prod.mk.inj (Except.ok.inj h)
          obtain ⟨hwf', heff⟩ := ih _ (hwf _).1 hslot
          exact descend_spec hwf hgo.1 hgo.2.1 hwf' heff

/-! ## What a delete does

A delete marks its node as intermediate and leaves it in the trie. -/

/-- The node a delete marks. -/
structure DeleteEffect (key : LpmTrieKey dataSize) (l l' : List (LpmTrieNode dataSize valueSize)) : Prop where
  mark : ∃ x, x.val.isSome ∧ x.len = key.prefixlen ∧ Agree (extractBit x.data) (extractBit key.data) x.len ∧
    Edit [x] [{ x with val := none }] l l'

/-- What a delete leaves was there. -/
theorem DeleteEffect.extends {key : LpmTrieKey dataSize} {l l' : List (LpmTrieNode dataSize valueSize)}
    (h : DeleteEffect key l l') {e : LpmTrieNode dataSize valueSize} {b : Bool}
    (hl : ∀ x ∈ l, Extends extractBit e b x) : ∀ x ∈ l', Extends extractBit e b x := by
  obtain ⟨y, _, _, _, hedit⟩ := h.mark
  intro x hx
  rcases hedit.mem hx with hx | hx
  · obtain rfl := List.mem_singleton.mp hx
    have hy := hl y (hedit.old_mem (List.mem_singleton_self y))
    exact ⟨hy.longer, hy.agree, hy.next⟩
  · exact hl x hx

/-- **One spec for the walk and the mark.** -/
theorem deleteSlot_spec {key : LpmTrieKey dataSize} {t t' : LpmTree dataSize valueSize} (hwf : WF extractBit t)
    (h : deleteSlot key t = some t') : WF extractBit t' ∧ DeleteEffect key t.nodes t'.nodes := by
  -- along the walk to the node of the key
  induction t generalizing t' with
  | nil => cases h
  | node node child ih =>
      rw [deleteSlot] at h
      simp only at h
      split at h
      · split at h
        · cases h
        · next hmark =>
            push Not at hmark
            obtain ⟨hlen, hexact, hval⟩ := hmark
            obtain rfl := Option.some.inj h
            refine ⟨fun b => ⟨(hwf b).1, fun x hx => ?_⟩, ⟨node, ?_, hlen, ?_, _, List.Perm.refl _, List.Perm.refl _⟩⟩
            · have := (hwf b).2 x hx
              exact ⟨this.longer, this.agree, this.next⟩
            · exact Option.isSome_iff_ne_none.mpr (by simpa using hval)
            · rw [← hexact]
              exact longestPrefixMatch_agree node key
      · obtain ⟨slot, hslot, rfl⟩ := Option.map_eq_some_iff.mp h
        obtain ⟨hwf', heff⟩ := ih _ (hwf _).1 hslot
        refine ⟨hwf.update hwf' (heff.extends (hwf _).2), ?_⟩
        obtain ⟨x, hval, hlen, hagree, hedit⟩ := heff.mark
        exact ⟨x, hval, hlen, hagree, hedit.child⟩

/-! ## The invariant

Of the tree and of the counter, which is the number of nodes with a value. -/

/-- What holds of every reachable trie. -/
structure LpmTrieValid (trie : LpmTrie dataSize valueSize) : Prop where
  /-- A child's prefix is longer than its parent's, extends it, and goes on with the slot's bit. -/
  child : ∀ parent slot node, ChildOf parent slot node trie.root → Extends extractBit parent slot node
  distinct : trie.root.nodes.Pairwise fun x y => ¬ SamePrefix extractBit x y
  count : trie.nEntries = trie.root.nodes.countP fun node => node.val.isSome
  bounded : trie.nEntries ≤ trie.maxEntries

/-- The tree part of the invariant, in the form one step preserves, and the counter. -/
structure LpmTrieInv (trie : LpmTrie dataSize valueSize) : Prop where
  wf : WF extractBit trie.root
  count : trie.nEntries = trie.root.nodes.countP fun node => node.val.isSome
  bounded : trie.nEntries ≤ trie.maxEntries

/-- The invariant says that the trie is valid. -/
theorem LpmTrieInv.valid {trie : LpmTrie dataSize valueSize} (h : LpmTrieInv trie) : LpmTrieValid trie :=
  ⟨fun _ _ _ hchild => h.wf.childOf hchild, h.wf.distinct, h.count, h.bounded⟩

/-! ## The operations keep the invariant -/

/-- An update adds as many non-intermediate nodes as it says. -/
theorem UpdateEffect.countP {args : UpdateArgs dataSize valueSize} {l l' : List (LpmTrieNode dataSize valueSize)}
    {added : Bool} (h : UpdateEffect args l l' added) :
    l'.countP (fun node => node.val.isSome) = l.countP (fun node => node.val.isSome) + added.toNat := by
  cases h with
  | replace x hedit _ _ =>
      have := hedit.countP fun node => node.val.isSome
      cases hval : x.val with
      | none => simpa [hval] using this
      | some v => simpa [hval] using this
  | insert hedit _ _ => simpa [keyNode] using hedit.countP fun node => node.val.isSome
  | split y _ _ hedit _ _ => simpa [keyNode, imNode] using hedit.countP fun node => node.val.isSome

/-- It adds one only where the trie is not full. -/
theorem UpdateEffect.not_full {args : UpdateArgs dataSize valueSize} {l l' : List (LpmTrieNode dataSize valueSize)}
    (h : UpdateEffect args l l' true) : args.full = false := by
  generalize hadded : true = added at h
  cases h with
  | replace x _ _ hfull => exact hfull (by simpa using hadded.symm)
  | insert _ _ hfull => exact hfull
  | split _ _ _ _ _ hfull => exact hfull

/-- A delete takes one away. -/
theorem DeleteEffect.countP {key : LpmTrieKey dataSize} {l l' : List (LpmTrieNode dataSize valueSize)}
    (h : DeleteEffect key l l') :
    l'.countP (fun node => node.val.isSome) + 1 = l.countP fun node => node.val.isSome := by
  obtain ⟨x, hval, _, _, hedit⟩ := h.mark
  simpa [hval] using hedit.countP fun node => node.val.isSome

variable {trie trie' : LpmTrie dataSize valueSize}

/-- An update that succeeds has changed the root and perhaps the count. -/
theorem elemUpdate_ok {key : LpmTrieKey dataSize} {value : Vector Byte valueSize} {flags : BitVec 64}
    {alloc : NodeAlloc} (h : trie.elemUpdate key value flags alloc = .ok trie') :
    key.prefixlen ≤ dataSize * 8 ∧ ∃ root added,
      updateSlot (trie.updateArgs key value flags alloc) trie.root = .ok (root, added) ∧
      trie' = { trie with root := root, nEntries := if added then trie.nEntries + 1 else trie.nEntries } := by
  unfold elemUpdate at h
  split at h
  · cases h
  split at h
  · cases h
  · next hlen =>
      obtain ⟨⟨root, added⟩, hslot, h⟩ := bind_ok h
      exact ⟨Nat.le_of_not_lt hlen, root, added, hslot, (Except.ok.inj h).symm⟩

/-- And so has a delete. -/
theorem elemDelete_ok {key : LpmTrieKey dataSize} (h : trie.elemDelete key = .ok trie') :
    ∃ root, deleteSlot key trie.root = some root ∧
      trie' = { trie with root := root, nEntries := if trie.nEntries > 0 then trie.nEntries - 1 else trie.nEntries } := by
  unfold elemDelete at h
  split at h
  · cases h
  split at h
  · cases h
  · next root hslot => exact ⟨root, hslot, (Except.ok.inj h).symm⟩

/-- **`elem_update` keeps the invariant.** -/
theorem lpmTrieInv_elemUpdate (hinv : LpmTrieInv trie) {key : LpmTrieKey dataSize} {value : Vector Byte valueSize}
    {flags : BitVec 64} {alloc : NodeAlloc} (h : trie.elemUpdate key value flags alloc = .ok trie') :
    LpmTrieInv trie' := by
  obtain ⟨hlen, root, added, hslot, rfl⟩ := elemUpdate_ok h
  obtain ⟨hwf, heff⟩ := updateSlot_spec hlen hinv.wf hslot
  have hcount := heff.countP
  rw [← hinv.count] at hcount
  refine ⟨hwf, ?_, ?_⟩
  · show (if added then trie.nEntries + 1 else trie.nEntries) = _
    rw [hcount]
    cases added <;> rfl
  · show (if added then trie.nEntries + 1 else trie.nEntries) ≤ trie.maxEntries
    cases added with
    | false => exact hinv.bounded
    | true => exact Nat.lt_of_not_le (of_decide_eq_false heff.not_full)

/-- **`elem_delete` keeps it.** -/
theorem lpmTrieInv_elemDelete (hinv : LpmTrieInv trie) {key : LpmTrieKey dataSize}
    (h : trie.elemDelete key = .ok trie') : LpmTrieInv trie' := by
  obtain ⟨root, hslot, rfl⟩ := elemDelete_ok h
  obtain ⟨hwf, heff⟩ := deleteSlot_spec hinv.wf hslot
  have hcount := heff.countP
  rw [← hinv.count] at hcount
  have hpos : trie.nEntries > 0 := by omega
  refine ⟨hwf, ?_, ?_⟩
  · show (if trie.nEntries > 0 then trie.nEntries - 1 else trie.nEntries) = root.nodes.countP _
    rw [if_pos hpos]
    exact Nat.sub_eq_of_eq_add hcount.symm
  · show (if trie.nEntries > 0 then trie.nEntries - 1 else trie.nEntries) ≤ trie.maxEntries
    rw [if_pos hpos]
    exact Nat.le_trans (Nat.sub_le _ _) hinv.bounded

/-- So does each operation: one that fails changes nothing. -/
theorem lpmTrieInv_apply (hinv : LpmTrieInv trie) (op : LpmTrieOp dataSize valueSize) :
    LpmTrieInv (trie.apply op) := by
  unfold LpmTrie.apply
  split
  · next trie' h =>
      cases op with
      | update key value flags alloc => exact lpmTrieInv_elemUpdate hinv h
      | delete key => exact lpmTrieInv_elemDelete hinv h
  · exact hinv

/-- The constructor's trie. -/
theorem new_eq_some {maxEntries : Nat} (h : LpmTrie.new dataSize valueSize maxEntries = some trie) :
    trie = ⟨maxEntries, .nil, 0⟩ := by
  unfold LpmTrie.new at h
  simp only at h
  split at h
  · cases h
  split at h
  · cases h
  · exact (Option.some.inj h).symm

/-- The empty trie has it. -/
theorem lpmTrieInv_new {maxEntries : Nat} (h : LpmTrie.new dataSize valueSize maxEntries = some trie) :
    LpmTrieInv trie := by
  obtain rfl := new_eq_some h
  exact ⟨trivial, rfl, Nat.zero_le _⟩

/-- And so does any run. -/
theorem lpmTrieInv_run (hinv : LpmTrieInv trie) (ops : List (LpmTrieOp dataSize valueSize)) :
    LpmTrieInv (ops.foldl LpmTrie.apply trie) := by
  induction ops generalizing trie with
  | nil => exact hinv
  | cons op ops ih => exact ih (lpmTrieInv_apply hinv op)

/-- **Every reachable trie is valid.** -/
theorem lpmTrie_valid {maxEntries : Nat} (h : LpmTrie.new dataSize valueSize maxEntries = some trie)
    (ops : List (LpmTrieOp dataSize valueSize)) : LpmTrieValid (ops.foldl LpmTrie.apply trie) :=
  (lpmTrieInv_run (lpmTrieInv_new h) ops).valid

/-- A trie of one byte and two entries. -/
theorem new_one_byte : LpmTrie.new 1 1 2 = some ⟨2, .nil, 0⟩ := rfl

/-- A split and a delete, in a trie of one-byte prefixes with room for two. -/
theorem lpmTrie_valid_split :
    LpmTrieValid (([.update ⟨8, #v[0x80]⟩ #v[1] BPF_ANY ⟨true, true⟩,
      .update ⟨8, #v[0xC0]⟩ #v[2] BPF_ANY ⟨true, true⟩,
      .delete ⟨8, #v[0x80]⟩] : List (LpmTrieOp 1 1)).foldl LpmTrie.apply ⟨2, .nil, 0⟩) :=
  lpmTrie_valid new_one_byte _

end Maps
