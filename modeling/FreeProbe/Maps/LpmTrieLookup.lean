import FreeProbe.Maps.LpmTrieInv
import FreeProbe.Maps.Tlpm

/-!
# `Maps.LpmTrieLookup` — longest-prefix match against the reference list

A run carries the trie, the reference of the trie's tests, and the keys whose update succeeded. The trie
stores what the reference stores (`LpmRunInv`), so the walk of `elem_lookup` finds the reference's match,
except where it stops early: at a node of the full length that a delete has left as an intermediate one.
-/

namespace Maps

open Lib.RadixTree Lib.RadixTree.Trie LpmTrie

variable {dataSize valueSize : Nat}

/-! ## Runs -/

/-- A trie beside its reference. -/
structure LpmRun (dataSize valueSize : Nat) where
  trie       : LpmTrie dataSize valueSize
  reference  : List (TlpmNode dataSize valueSize)
  everStored : List (LpmTrieKey dataSize)

/-- One operation on both: a successful update is a `tlpm_add`, a delete a `tlpm_delete`. -/
def LpmRun.step (s : LpmRun dataSize valueSize) : LpmTrieOp dataSize valueSize → LpmRun dataSize valueSize
  | .update key value flags alloc =>
    match s.trie.elemUpdate key value flags alloc with
    | .ok trie => ⟨trie, tlpmAdd s.reference key.data key.prefixlen value, key :: s.everStored⟩
    | .error _ => s
  | .delete key =>
    ⟨s.trie.apply (.delete key), tlpmDelete s.reference key.data key.prefixlen, s.everStored⟩

/-- A run from a new trie. -/
def lpmRun (trie : LpmTrie dataSize valueSize) (ops : List (LpmTrieOp dataSize valueSize)) :
    LpmRun dataSize valueSize := ops.foldl LpmRun.step ⟨trie, [], []⟩

/-- The reference's answer; a key longer than the trie's data is no key. -/
def tlpmLookup (reference : List (TlpmNode dataSize valueSize)) (key : LpmTrieKey dataSize) :
    Except Errno (Vector Byte valueSize) :=
  if key.prefixlen > dataSize * 8 then .error .einval
  else
    match tlpmMatch reference key.data key.prefixlen with
    | none => .error .enoent
    | some best => .ok best.val

/-- A key of the full length that was stored and is no longer, while a shorter stored prefix matches it. -/
structure DeletedAbove (s : LpmRun dataSize valueSize) (key : LpmTrieKey dataSize) : Prop where
  fullLength : key.prefixlen = dataSize * 8
  everStored : ∃ k ∈ s.everStored, k.prefixlen = key.prefixlen ∧
    Agree (extractBit k.data) (extractBit key.data) k.prefixlen
  deleted : ∀ e ∈ s.reference, ¬ HasPrefix key e
  shorter : ∃ e ∈ s.reference, Matches extractBit key.data key.prefixlen e

/-! ## What a list of entries stores -/

/-- The list has the value at the key. -/
def Stores (l : List (TlpmNode dataSize valueSize)) (key : LpmTrieKey dataSize) (value : Vector Byte valueSize) :
    Prop := ∃ e ∈ l, HasPrefix key e ∧ e.val = value

/-- Two lists that store the same still do after the same key is taken out of both. -/
theorem Stores.drop {l l' r r' : List (TlpmNode dataSize valueSize)} {key : LpmTrieKey dataSize}
    (h : ∀ k value, Stores l k value → Stores r k value) (hl : Drop key l l') (hr : Drop key r r') :
    ∀ k value, Stores l' k value → Stores r' k value := by
  rintro k value ⟨a, ha, hka, rfl⟩
  obtain ⟨hal, hno⟩ := (hl a).mp ha
  obtain ⟨b, hb, hkb, hval⟩ := h k a.val ⟨a, hal, hka, rfl⟩
  exact ⟨b, (hr b).mpr ⟨hb, fun hb' => hno (hb'.of_same (hka.same hkb))⟩, hkb, hval⟩

/-- And after the same pair is put into both. -/
theorem Stores.put {l l' r r' : List (TlpmNode dataSize valueSize)} {key : LpmTrieKey dataSize}
    {value : Vector Byte valueSize} (h : ∀ k v, Stores l k v → Stores r k v) (hl : Put key value l l')
    (hr : Put key value r r') : ∀ k v, Stores l' k v → Stores r' k v := by
  obtain ⟨e, he, hev, hl⟩ := hl
  obtain ⟨f, hf, hfv, hr⟩ := hr
  rintro k v ⟨a, ha, hka, rfl⟩
  rcases (hl a).mp ha with rfl | ⟨hal, hno⟩
  · exact ⟨f, (hr f).mpr (.inl rfl), hka.of_same (hf.same he), hfv.trans hev.symm⟩
  · obtain ⟨b, hb, hkb, hval⟩ := h k a.val ⟨a, hal, hka, rfl⟩
    exact ⟨b, (hr b).mpr (.inr ⟨hb, fun hb' => hno (hb'.of_same (hka.same hkb))⟩), hkb, hval⟩

/-- The entries of the nodes that are not intermediate. -/
def storedNodes (l : List (LpmTrieNode dataSize valueSize)) : List (TlpmNode dataSize valueSize) :=
  l.filterMap fun node => node.val.map fun value => ⟨node.len, node.data, value⟩

/-- The stored nodes are those that have a value. -/
theorem mem_storedNodes {l : List (LpmTrieNode dataSize valueSize)} {e : TlpmNode dataSize valueSize} :
    e ∈ storedNodes l ↔ ⟨e.len, e.data, some e.val⟩ ∈ l := by
  unfold storedNodes
  rw [List.mem_filterMap]
  constructor
  · rintro ⟨⟨len, data, val⟩, hx, he⟩
    obtain ⟨value, hval, rfl⟩ := Option.map_eq_some_iff.mp he
    have hval : val = some value := hval
    exact hval ▸ hx
  · exact fun h => ⟨_, h, rfl⟩

/-- So no prefix is in them twice. -/
theorem distinct_storedNodes {l : List (LpmTrieNode dataSize valueSize)} (h : Distinct l) :
    Distinct (storedNodes l) := by
  refine List.Pairwise.filterMap _ (fun x y hxy e he e' he' hs => hxy ?_) h
  obtain ⟨_, _, rfl⟩ := Option.map_eq_some_iff.mp he
  obtain ⟨_, _, rfl⟩ := Option.map_eq_some_iff.mp he'
  exact hs

/-! ## What the operations do to it -/

/-- Around the node of the key, the others are the nodes of other keys. -/
theorem mem_rest {key : LpmTrieKey dataSize} {l rest : List (LpmTrieNode dataSize valueSize)}
    {x : LpmTrieNode dataSize valueSize} (hdistinct : Distinct l) (hl : l.Perm ([x] ++ rest)) (hx : HasPrefix key x)
    (y : LpmTrieNode dataSize valueSize) : y ∈ rest ↔ y ∈ l ∧ ¬ HasPrefix key y := by
  have hpair := List.pairwise_cons.mp (hdistinct.perm hl)
  constructor
  · intro hy
    exact ⟨hl.mem_iff.mpr (List.mem_append_right _ hy), fun hy' => hpair.1 y hy (hx.same hy')⟩
  · rintro ⟨hy, hno⟩
    rcases List.mem_cons.mp (hl.mem_iff.mp hy) with rfl | hy
    · exact absurd hx hno
    · exact hy

/-- An update of the trie sets the key. -/
theorem UpdateEffect.put {args : UpdateArgs dataSize valueSize} {l l' : List (LpmTrieNode dataSize valueSize)}
    {added : Bool} (h : UpdateEffect args l l' added) (hdistinct : Distinct l) :
    Put args.key args.value (storedNodes l) (storedNodes l') := by
  cases h with
  | replace x hedit hsame _ =>
      obtain ⟨rest, hl, hl'⟩ := hedit
      refine ⟨⟨x.len, x.data, args.value⟩, hsame, rfl, fun a => ?_⟩
      rw [mem_storedNodes, mem_storedNodes, hl'.mem_iff, List.mem_append, List.mem_singleton,
        mem_rest hdistinct hl hsame]
      refine or_congr ?_ Iff.rfl
      obtain ⟨len, data, value⟩ := a
      simp only [Entry.mk.injEq, Option.some.injEq]
  | insert hedit hnew _ =>
      obtain ⟨rest, hl, hl'⟩ := hedit
      rw [List.nil_append] at hl
      refine ⟨⟨args.key.prefixlen, args.key.data, args.value⟩, ⟨rfl, Agree.refl _ _⟩, rfl, fun a => ?_⟩
      rw [mem_storedNodes, mem_storedNodes, hl'.mem_iff, List.mem_append, List.mem_singleton, ← hl.mem_iff]
      refine or_congr ?_ ⟨fun ha => ⟨ha, hnew _ ha⟩, And.left⟩
      obtain ⟨len, data, value⟩ := a
      simp only [keyNode, Entry.mk.injEq, Option.some.injEq]
  | split y _ _ hedit hnew _ =>
      obtain ⟨rest, hl, hl'⟩ := hedit
      rw [List.nil_append] at hl
      refine ⟨⟨args.key.prefixlen, args.key.data, args.value⟩, ⟨rfl, Agree.refl _ _⟩, rfl, fun a => ?_⟩
      rw [mem_storedNodes, mem_storedNodes, hl'.mem_iff, List.mem_append, List.mem_pair, ← hl.mem_iff]
      refine or_congr ?_ ⟨fun ha => ⟨ha, hnew _ ha⟩, And.left⟩
      obtain ⟨len, data, value⟩ := a
      -- the intermediate node stores nothing
      simp only [keyNode, imNode, Entry.mk.injEq, Option.some.injEq, reduceCtorEq, and_false, false_or]

/-- A delete removes it. -/
theorem DeleteEffect.drop {key : LpmTrieKey dataSize} {l l' : List (LpmTrieNode dataSize valueSize)}
    (h : DeleteEffect key l l') (hdistinct : Distinct l) : Drop key (storedNodes l) (storedNodes l') := by
  obtain ⟨x, hval, hlen, hagree, rest, hl, hl'⟩ := h.mark
  intro a
  rw [mem_storedNodes, mem_storedNodes, hl'.mem_iff, List.mem_append, List.mem_singleton,
    mem_rest hdistinct hl ⟨hlen, hagree⟩]
  constructor
  · rintro (ha | ha)
    · exact nomatch (congrArg Entry.val ha : some a.val = none)
    · exact ha
  · exact .inr

/-- Where a delete fails, no node stores the key. -/
theorem deleteSlot_none {key : LpmTrieKey dataSize} {t : LpmTree dataSize valueSize} (hwf : WF extractBit t)
    (h : deleteSlot key t = none) : ∀ x ∈ t.nodes, HasPrefix key x → x.val = none := by
  induction t with
  | nil => exact fun _ hx => nomatch hx
  | node node child ih =>
      intro x hx hp
      rw [deleteSlot] at h
      simp only at h
      have hle := longestPrefixMatch_le_len node key
      rcases hwf.matches_child hx hp.matches with rfl | ⟨hm, hlt, hx⟩
      · have hge := longestPrefixMatch_of_matches hp.matches
        have hlen := hp.1
        rw [if_pos (.inr hlen)] at h
        split at h
        · next hcond =>
            rcases hcond with hne | hne | hnone
            · omega
            · omega
            · exact Option.isNone_iff_eq_none.mp hnone
        · cases h
      · have hge := longestPrefixMatch_of_matches hm
        rw [if_neg (by omega)] at h
        exact ih _ (hwf _).1 (Option.map_eq_none_iff.mp h) x hx hp

/-! ## The walk of a lookup -/

variable (maxPrefixlen : Nat) {key : LpmTrieKey dataSize}

/-- At a node of the full length that matches, the walk stops, whatever the node holds. -/
theorem lookupWalk_full {t : LpmTree dataSize valueSize} (hwf : WF extractBit t)
    (hkey : key.prefixlen ≤ maxPrefixlen) {x : LpmTrieNode dataSize valueSize} (hx : x ∈ t.nodes)
    (hm : Matches extractBit key.data key.prefixlen x) (hlen : x.len = maxPrefixlen)
    (found : Option (LpmTrieNode dataSize valueSize)) : lookupWalk maxPrefixlen key t found = some x := by
  induction t generalizing found with
  | nil => exact nomatch hx
  | node node child ih =>
      have hle := longestPrefixMatch_le_len node key
      rw [lookupWalk]
      simp only
      rcases hwf.matches_child hx hm with rfl | ⟨hmn, hlt, hx⟩
      · have hge := longestPrefixMatch_of_matches hm
        rw [if_pos (by omega)]
      · have hge := longestPrefixMatch_of_matches hmn
        rw [if_neg (by omega), if_neg (by omega), if_pos (by omega)]
        exact ih _ (hwf _).1 hx _

/-- What the walk returns where no node of the full length matches: the longest match among the nodes that
    are not intermediate, or what it came with. -/
theorem lookupWalk_longest {t : LpmTree dataSize valueSize} (hwf : WF extractBit t)
    (hlen : ∀ x ∈ t.nodes, x.len ≤ maxPrefixlen)
    (hfull : ∀ x ∈ t.nodes, Matches extractBit key.data key.prefixlen x → x.len ≠ maxPrefixlen)
    (found : Option (LpmTrieNode dataSize valueSize)) :
    (lookupWalk maxPrefixlen key t found = found ∧
        ∀ x ∈ t.nodes, Matches extractBit key.data key.prefixlen x → x.val = none) ∨
      ∃ e value, lookupWalk maxPrefixlen key t found = some e ∧ e ∈ t.nodes ∧ e.val = some value ∧
        Matches extractBit key.data key.prefixlen e ∧
        ∀ x ∈ t.nodes, Matches extractBit key.data key.prefixlen x → x.val ≠ none → x.len ≤ e.len := by
  induction t generalizing found with
  | nil => exact .inl ⟨rfl, fun _ hx => nomatch hx⟩
  | node node child ih =>
      have hle := longestPrefixMatch_le_len node key
      have hnodeLen := hlen node List.mem_cons_self
      rw [lookupWalk]
      simp only
      by_cases hlt : longestPrefixMatch node key < node.len
      · -- the node does not match, so nothing below it does
        rw [if_neg (by omega), if_pos hlt]
        refine .inl ⟨rfl, fun x hx hm => ?_⟩
        have hmn : Matches extractBit key.data key.prefixlen node := by
          rcases hwf.matches_child hx hm with rfl | ⟨hmn, _, _⟩
          · exact hm
          · exact hmn
        exact absurd (longestPrefixMatch_of_matches hmn) (Nat.ne_of_lt hlt)
      · have hmatchlen : longestPrefixMatch node key = node.len := by omega
        have hmn : Matches extractBit key.data key.prefixlen node := by
          refine ⟨hmatchlen ▸ longestPrefixMatch_le_prefixlen node key, ?_⟩
          exact hmatchlen ▸ longestPrefixMatch_agree node key
        have hne := hfull node List.mem_cons_self hmn
        rw [if_neg (by omega), if_neg hlt]
        split
        · have hext := (hwf (extractBit key.data node.len)).2
          rcases ih (extractBit key.data node.len) (hwf _).1 (fun x hx => hlen x (mem_nodes.mpr (.inr ⟨_, hx⟩)))
              (fun x hx => hfull x (mem_nodes.mpr (.inr ⟨_, hx⟩))) (if node.val.isSome then some node else found) with
            ⟨heq, hnone⟩ | ⟨e, value, heq, he, hval, hme, hbest⟩
          · rw [heq]
            cases hval : node.val with
            | none =>
                refine .inl ⟨rfl, fun x hx hm => ?_⟩
                rcases hwf.matches_child hx hm with rfl | ⟨_, _, hx⟩
                · exact hval
                · exact hnone x hx hm
            | some value =>
                refine .inr ⟨node, value, rfl, List.mem_cons_self, hval, hmn, fun x hx hm hx' => ?_⟩
                rcases hwf.matches_child hx hm with rfl | ⟨_, _, hx⟩
                · exact Nat.le_refl _
                · exact absurd (hnone x hx hm) hx'
          · refine .inr ⟨e, value, heq, mem_nodes.mpr (.inr ⟨_, he⟩), hval, hme, fun x hx hm hx' => ?_⟩
            rcases hwf.matches_child hx hm with rfl | ⟨_, _, hx⟩
            · exact Nat.le_of_lt (hext e he).longer
            · exact hbest x hx hm hx'
        · -- the node has the key's whole prefix
          have honly : ∀ x ∈ (Trie.node node child).nodes, Matches extractBit key.data key.prefixlen x → x = node := by
            intro x hx hm
            rcases hwf.matches_child hx hm with rfl | ⟨_, hlt', _⟩
            · rfl
            · omega
          cases hval : node.val with
          | none => exact .inl ⟨rfl, fun x hx hm => honly x hx hm ▸ hval⟩
          | some value =>
              exact .inr ⟨node, value, rfl, List.mem_cons_self, hval, hmn, fun x hx hm _ =>
                Nat.le_of_eq (congrArg Entry.len (honly x hx hm))⟩

/-! ## The invariant of a run -/

/-- The trie stores what the reference stores, and its nodes of the full length are those of the keys ever
    stored. -/
structure LpmRunInv (s : LpmRun dataSize valueSize) : Prop where
  inv : LpmTrieInv s.trie
  len : ∀ x ∈ s.trie.root.nodes, x.len ≤ dataSize * 8
  distinct : Distinct s.reference
  refines : ∀ key value, Stores (storedNodes s.trie.root.nodes) key value ↔ Stores s.reference key value
  ever : ∀ k ∈ s.everStored, ∃ x ∈ s.trie.root.nodes, HasPrefix k x
  full : ∀ x ∈ s.trie.root.nodes, x.len = dataSize * 8 → ∃ k ∈ s.everStored, HasPrefix k x

/-- Every node stays, with its prefix. -/
theorem UpdateEffect.keeps {args : UpdateArgs dataSize valueSize} {l l' : List (LpmTrieNode dataSize valueSize)}
    {added : Bool} (h : UpdateEffect args l l' added) {k : LpmTrieKey dataSize}
    (hk : ∃ x ∈ l, HasPrefix k x) : ∃ x ∈ l', HasPrefix k x := by
  obtain ⟨x, hx, hp⟩ := hk
  cases h with
  | replace y hedit _ _ =>
      rcases hedit.kept hx with hx | hx
      · obtain rfl := List.mem_singleton.mp hx
        exact ⟨_, hedit.new_mem (List.mem_singleton_self _), hp⟩
      · exact ⟨x, hx, hp⟩
  | insert hedit _ _ => exact ⟨x, (hedit.kept hx).resolve_left List.not_mem_nil, hp⟩
  | split _ _ _ hedit _ _ => exact ⟨x, (hedit.kept hx).resolve_left List.not_mem_nil, hp⟩

/-- The key has a node afterwards. -/
theorem UpdateEffect.has_key {args : UpdateArgs dataSize valueSize} {l l' : List (LpmTrieNode dataSize valueSize)}
    {added : Bool} (h : UpdateEffect args l l' added) : ∃ x ∈ l', HasPrefix args.key x := by
  cases h with
  | replace y hedit hsame _ => exact ⟨_, hedit.new_mem (List.mem_singleton_self _), hsame⟩
  | insert hedit _ _ => exact ⟨_, hedit.new_mem (List.mem_singleton_self _), rfl, Agree.refl _ _⟩
  | split _ _ _ hedit _ _ =>
      exact ⟨_, hedit.new_mem (List.mem_cons_of_mem _ (List.mem_singleton_self _)), rfl, Agree.refl _ _⟩

/-- A node afterwards has the prefix of one before, or of the key, or is shorter than the key. -/
theorem UpdateEffect.origin {args : UpdateArgs dataSize valueSize} {l l' : List (LpmTrieNode dataSize valueSize)}
    {added : Bool} (h : UpdateEffect args l l' added) {x : LpmTrieNode dataSize valueSize} (hx : x ∈ l') :
    (∃ y ∈ l, y.len = x.len ∧ y.data = x.data) ∨ HasPrefix args.key x ∨ x.len < args.key.prefixlen := by
  cases h with
  | replace y hedit hsame _ =>
      rcases hedit.mem hx with hx | hx
      · obtain rfl := List.mem_singleton.mp hx
        exact .inr (.inl hsame)
      · exact .inl ⟨x, hx, rfl, rfl⟩
  | insert hedit _ _ =>
      rcases hedit.mem hx with hx | hx
      · obtain rfl := List.mem_singleton.mp hx
        exact .inr (.inl ⟨rfl, Agree.refl _ _⟩)
      · exact .inl ⟨x, hx, rfl, rfl⟩
  | split y _ hshort hedit _ _ =>
      rcases hedit.mem hx with hx | hx
      · rcases List.mem_pair.mp hx with rfl | rfl
        · exact .inr (.inr hshort)
        · exact .inr (.inl ⟨rfl, Agree.refl _ _⟩)
      · exact .inl ⟨x, hx, rfl, rfl⟩

variable {s : LpmRun dataSize valueSize}

/-- An update that succeeds keeps the invariant: the trie and the reference get the same pair. -/
theorem lpmRunInv_update (h : LpmRunInv s) {key : LpmTrieKey dataSize} {value : Vector Byte valueSize}
    {flags : BitVec 64} {alloc : NodeAlloc} {trie : LpmTrie dataSize valueSize}
    (hok : s.trie.elemUpdate key value flags alloc = .ok trie) :
    LpmRunInv ⟨trie, tlpmAdd s.reference key.data key.prefixlen value, key :: s.everStored⟩ := by
  have hinv := lpmTrieInv_elemUpdate h.inv hok
  obtain ⟨hlen, root, added, hslot, rfl⟩ := elemUpdate_ok hok
  obtain ⟨hwf, heff⟩ := updateSlot_spec hlen h.inv.wf hslot
  have htrie := heff.put h.inv.wf.distinct
  obtain ⟨hdistinct, hreference⟩ := tlpmAdd_put h.distinct value
  refine ⟨hinv, fun x hx => ?_, hdistinct, fun k v => ?_, fun k hk => ?_, fun x hx hfull => ?_⟩
  -- no node is longer than the key: it was there, it is the new one, or it is shorter than the key
  · rcases heff.origin hx with ⟨y, hy, hyx, _⟩ | hp | hlt
    · exact hyx ▸ h.len y hy
    · exact hp.1 ▸ hlen
    · exact Nat.le_of_lt (Nat.lt_of_lt_of_le hlt hlen)
  · constructor
    · exact Stores.put (fun k v => (h.refines k v).mp) htrie hreference k v
    · exact Stores.put (fun k v => (h.refines k v).mpr) hreference htrie k v
  · rcases List.mem_cons.mp hk with rfl | hk
    · exact heff.has_key
    · exact heff.keeps (h.ever k hk)
  · rcases heff.origin hx with ⟨y, hy, hyx, hyd⟩ | hp | hlt
    · obtain ⟨k, hk, hp⟩ := h.full y hy (hyx.trans hfull)
      exact ⟨k, List.mem_cons_of_mem _ hk, hyx ▸ hp.1, hyx ▸ hyd ▸ hp.2⟩
    · exact ⟨key, List.mem_cons_self, hp⟩
    · -- an intermediate node is shorter than a key
      exact absurd hlt (Nat.not_lt_of_le (hfull ▸ hlen))

/-- A trie that lost the key and no node. -/
theorem lpmRunInv_drop (h : LpmRunInv s) {key : LpmTrieKey dataSize} {trie : LpmTrie dataSize valueSize}
    (hinv : LpmTrieInv trie)
    (hto : ∀ x ∈ trie.root.nodes, ∃ y ∈ s.trie.root.nodes, y.len = x.len ∧ y.data = x.data)
    (hfrom : ∀ y ∈ s.trie.root.nodes, ∃ x ∈ trie.root.nodes, y.len = x.len ∧ y.data = x.data)
    (hdrop : Drop key (storedNodes s.trie.root.nodes) (storedNodes trie.root.nodes)) :
    LpmRunInv ⟨trie, tlpmDelete s.reference key.data key.prefixlen, s.everStored⟩ := by
  obtain ⟨hdistinct, hreference⟩ := tlpmDelete_drop key h.distinct
  refine ⟨hinv, fun x hx => ?_, hdistinct, fun k v => ?_, fun k hk => ?_, fun x hx hfull => ?_⟩
  · obtain ⟨y, hy, hlen, _⟩ := hto x hx
    exact hlen ▸ h.len y hy
  · constructor
    · exact Stores.drop (fun k v => (h.refines k v).mp) hdrop hreference k v
    · exact Stores.drop (fun k v => (h.refines k v).mpr) hreference hdrop k v
  · obtain ⟨y, hy, hp⟩ := h.ever k hk
    obtain ⟨x, hx, hlen, hdata⟩ := hfrom y hy
    exact ⟨x, hx, hlen ▸ hp.1, hlen ▸ hdata ▸ hp.2⟩
  · obtain ⟨y, hy, hlen, hdata⟩ := hto x hx
    obtain ⟨k, hk, hp⟩ := h.full y hy (hlen.trans hfull)
    exact ⟨k, hk, hlen ▸ hp.1, hlen ▸ hdata ▸ hp.2⟩

/-- A delete keeps it: a key that is not found is not in the reference either. -/
theorem lpmRunInv_delete (h : LpmRunInv s) (key : LpmTrieKey dataSize) : LpmRunInv (s.step (.delete key)) := by
  have hinv := lpmTrieInv_apply h.inv (.delete key)
  cases hok : s.trie.elemDelete key with
  | ok trie =>
      have happly : s.trie.apply (.delete key) = trie := by rw [LpmTrie.apply, LpmTrie.result, hok]
      obtain ⟨root, hslot, rfl⟩ := elemDelete_ok hok
      obtain ⟨_, heff⟩ := deleteSlot_spec h.inv.wf hslot
      obtain ⟨x₀, _, _, _, hedit⟩ := heff.mark
      rw [LpmRun.step, happly]
      refine lpmRunInv_drop h (happly ▸ hinv) (fun x hx => ?_) (fun y hy => ?_) (heff.drop h.inv.wf.distinct)
      · rcases hedit.mem hx with hx | hx
        · obtain rfl := List.mem_singleton.mp hx
          exact ⟨x₀, hedit.old_mem (List.mem_singleton_self _), rfl, rfl⟩
        · exact ⟨x, hx, rfl, rfl⟩
      · rcases hedit.kept hy with hy | hy
        · obtain rfl := List.mem_singleton.mp hy
          exact ⟨_, hedit.new_mem (List.mem_singleton_self _), rfl, rfl⟩
        · exact ⟨y, hy, rfl, rfl⟩
  | error e =>
      have happly : s.trie.apply (.delete key) = s.trie := by rw [LpmTrie.apply, LpmTrie.result, hok]
      rw [LpmRun.step, happly]
      refine lpmRunInv_drop h h.inv (fun x hx => ⟨x, hx, rfl, rfl⟩) (fun y hy => ⟨y, hy, rfl, rfl⟩) fun a => ?_
      -- the delete failed because the trie does not store the key
      refine ⟨fun ha => ⟨ha, fun hp => ?_⟩, And.left⟩
      have ha := mem_storedNodes.mp ha
      unfold elemDelete at hok
      split at hok
      · next hlong => exact absurd (h.len _ ha) (Nat.not_le_of_lt (hp.1 ▸ hlong))
      split at hok
      · next hnone => exact absurd (deleteSlot_none h.inv.wf hnone _ ha hp) (Option.some_ne_none a.val)
      · cases hok

/-- Every operation keeps it. -/
theorem lpmRunInv_step (h : LpmRunInv s) (op : LpmTrieOp dataSize valueSize) : LpmRunInv (s.step op) := by
  cases op with
  | update key value flags alloc =>
      rw [LpmRun.step]
      split
      · next trie hok => exact lpmRunInv_update h hok
      · exact h
  | delete key => exact lpmRunInv_delete h key

/-- **It holds after every run of a new trie.** -/
theorem lpmRunInv_run {trie : LpmTrie dataSize valueSize} {maxEntries : Nat}
    (h : LpmTrie.new dataSize valueSize maxEntries = some trie) (ops : List (LpmTrieOp dataSize valueSize)) :
    LpmRunInv (lpmRun trie ops) := by
  unfold lpmRun
  -- from the empty trie, one operation at a time
  induction ops using List.reverseRecOn with
  | nil =>
      have hinv := lpmTrieInv_new h
      obtain rfl := new_eq_some h
      exact ⟨hinv, fun _ hx => (nomatch hx), List.Pairwise.nil,
        fun _ _ => ⟨fun ⟨_, ha, _⟩ => (nomatch ha), fun ⟨_, hb, _⟩ => (nomatch hb)⟩, fun _ hk => (nomatch hk),
        fun _ hx => (nomatch hx)⟩
  | append_singleton ops op ih =>
      rw [List.foldl_append]
      exact lpmRunInv_step ih op

/-! ## Lookups -/

/-- A stored longest match is the reference's answer. -/
theorem LpmRunInv.tlpmMatch_eq (h : LpmRunInv s) {key : LpmTrieKey dataSize} {e : LpmTrieNode dataSize valueSize}
    {value : Vector Byte valueSize} (he : e ∈ s.trie.root.nodes) (hval : e.val = some value)
    (hm : Matches extractBit key.data key.prefixlen e)
    (hbest : ∀ x ∈ s.trie.root.nodes, Matches extractBit key.data key.prefixlen x → x.val ≠ none → x.len ≤ e.len) :
    ∃ best, tlpmMatch s.reference key.data key.prefixlen = some best ∧ best.val = value := by
  have hlongest := tlpmMatch_longest s.reference key.data key.prefixlen
  have hstored : Stores (storedNodes s.trie.root.nodes) ⟨e.len, e.data⟩ value :=
    ⟨⟨e.len, e.data, value⟩, mem_storedNodes.mpr (hval ▸ he), ⟨rfl, Agree.refl _ _⟩, rfl⟩
  obtain ⟨b, hb, hbp, hbv⟩ := (h.refines _ _).mp hstored
  have hbm : Matches extractBit key.data key.prefixlen b := by
    have hlen : b.len = e.len := hbp.1
    exact ⟨hlen ▸ hm.1, hbp.2.trans (hlen ▸ hm.2)⟩
  cases hmatch : tlpmMatch s.reference key.data key.prefixlen with
  | none =>
      rw [hmatch] at hlongest
      exact absurd hbm (hlongest b hb)
  | some best =>
      rw [hmatch] at hlongest
      obtain ⟨hmem, hbestm, hmax⟩ := hlongest
      -- the two matches have one length, hence one prefix, and the trie stores one value there
      obtain ⟨a, ha, hap, hav⟩ := (h.refines ⟨best.len, best.data⟩ best.val).mpr
        ⟨best, hmem, ⟨rfl, Agree.refl _ _⟩, rfl⟩
      have halen : a.len = best.len := hap.1
      have ham : Matches extractBit key.data key.prefixlen a :=
        ⟨halen ▸ hbestm.1, hap.2.trans (halen ▸ hbestm.2)⟩
      have hle : a.len ≤ e.len := hbest _ (mem_storedNodes.mp ha) ham (Option.some_ne_none _)
      have hge := hmax b hb hbm
      have hblen : b.len = e.len := hbp.1
      have hlen : a.len = e.len := by omega
      have hsame : (⟨a.len, a.data, some a.val⟩ : LpmTrieNode dataSize valueSize) = e :=
        Distinct.eq h.inv.wf.distinct (mem_storedNodes.mp ha) he (Matches.same ham hm hlen)
      have hvalue : some a.val = some value := hval ▸ congrArg Entry.val hsame
      exact ⟨best, rfl, hav.symm.trans (Option.some.inj hvalue)⟩

/-- Without a match in the trie there is none in the reference. -/
theorem LpmRunInv.tlpmMatch_none (h : LpmRunInv s) {key : LpmTrieKey dataSize}
    (hnone : ∀ x ∈ s.trie.root.nodes, Matches extractBit key.data key.prefixlen x → x.val = none) :
    tlpmMatch s.reference key.data key.prefixlen = none := by
  have hlongest := tlpmMatch_longest s.reference key.data key.prefixlen
  cases hmatch : tlpmMatch s.reference key.data key.prefixlen with
  | none => rfl
  | some best =>
      rw [hmatch] at hlongest
      obtain ⟨hmem, hbestm, _⟩ := hlongest
      obtain ⟨a, ha, hap, _⟩ := (h.refines ⟨best.len, best.data⟩ best.val).mpr
        ⟨best, hmem, ⟨rfl, Agree.refl _ _⟩, rfl⟩
      have halen : a.len = best.len := hap.1
      exact nomatch hnone _ (mem_storedNodes.mp ha) ⟨halen ▸ hbestm.1, hap.2.trans (halen ▸ hbestm.2)⟩

/-- The trie's answer is the reference's. -/
def LookupAgrees (s : LpmRun dataSize valueSize) (key : LpmTrieKey dataSize) : Prop :=
  s.trie.elemLookup key = tlpmLookup s.reference key

/-- What the trie stores at a key, the reference has an entry for. -/
theorem LpmRunInv.reference_of_node (h : LpmRunInv s) {key : LpmTrieKey dataSize}
    {x : LpmTrieNode dataSize valueSize} (hx : x ∈ s.trie.root.nodes) (hp : HasPrefix key x)
    {value : Vector Byte valueSize} (hval : x.val = some value) : ∃ e ∈ s.reference, HasPrefix key e := by
  obtain ⟨e, he, hpe, _⟩ := (h.refines key value).mp
    ⟨⟨x.len, x.data, value⟩, mem_storedNodes.mpr (hval ▸ hx), hp, rfl⟩
  exact ⟨e, he, hpe⟩

/-- What the trie has left as an intermediate node, the reference has no entry for. -/
theorem LpmRunInv.reference_of_intermediate (h : LpmRunInv s) {key : LpmTrieKey dataSize}
    {x : LpmTrieNode dataSize valueSize} (hx : x ∈ s.trie.root.nodes) (hp : HasPrefix key x) (hval : x.val = none) :
    ∀ e ∈ s.reference, ¬ HasPrefix key e := by
  intro e he hpe
  obtain ⟨a, ha, hpa, _⟩ := (h.refines key e.val).mpr ⟨e, he, hpe, rfl⟩
  have ha := mem_storedNodes.mp ha
  have hpa : HasPrefix key (⟨a.len, a.data, some a.val⟩ : LpmTrieNode dataSize valueSize) := hpa
  obtain rfl := Distinct.eq h.inv.wf.distinct ha hx (hpa.same hp)
  exact nomatch hval

/-- A lookup that ends at a node of the full length. -/
theorem lookup_full (h : LpmRunInv s) {key : LpmTrieKey dataSize} (hkey : key.prefixlen ≤ dataSize * 8)
    {x : LpmTrieNode dataSize valueSize} (hx : x ∈ s.trie.root.nodes)
    (hm : Matches extractBit key.data key.prefixlen x) (hlen : x.len = dataSize * 8) :
    LookupAgrees s key ↔ ¬ DeletedAbove s key := by
  have hkeyLen : key.prefixlen = dataSize * 8 := Nat.le_antisymm hkey (hlen ▸ hm.1)
  have hp : HasPrefix key x := ⟨hlen.trans hkeyLen.symm, hm.2⟩
  have hwalk := lookupWalk_full s.trie.maxPrefixlen h.inv.wf hkey hx hm hlen none
  unfold LookupAgrees elemLookup tlpmLookup
  rw [if_neg (show ¬ key.prefixlen > s.trie.maxPrefixlen from Nat.not_lt.mpr hkey), hwalk,
    if_neg (Nat.not_lt.mpr hkey)]
  simp only
  cases hval : x.val with
  | some value =>
      obtain ⟨best, hmatch, hbest⟩ := h.tlpmMatch_eq hx hval hm fun y hy _ _ => hlen ▸ h.len y hy
      rw [hmatch]
      refine ⟨fun _ hdel => ?_, fun _ => by rw [← hbest]⟩
      obtain ⟨e, he, hpe⟩ := h.reference_of_node hx hp hval
      exact hdel.deleted e he hpe
  | none =>
      have hlongest := tlpmMatch_longest s.reference key.data key.prefixlen
      cases hmatch : tlpmMatch s.reference key.data key.prefixlen with
      | none =>
          rw [hmatch] at hlongest
          refine ⟨fun _ hdel => ?_, fun _ => rfl⟩
          obtain ⟨e, he, hme⟩ := hdel.shorter
          exact hlongest e he hme
      | some best =>
          rw [hmatch] at hlongest
          refine ⟨fun heq => (nomatch heq), fun hno => absurd ?_ hno⟩
          obtain ⟨k, hk, hpk⟩ := h.full x hx hlen
          exact
            { fullLength := hkeyLen
              everStored := ⟨k, hk, hpk.1.symm.trans hp.1, hpk.1 ▸ hpk.2.symm.trans hm.2⟩
              deleted := h.reference_of_intermediate hx hp hval
              shorter := ⟨best, hlongest.1, hlongest.2.1⟩ }

/-- A lookup that meets no such node. -/
theorem lookup_longest (h : LpmRunInv s) {key : LpmTrieKey dataSize} (hkey : key.prefixlen ≤ dataSize * 8)
    (hfull : ∀ x ∈ s.trie.root.nodes, Matches extractBit key.data key.prefixlen x → x.len ≠ dataSize * 8) :
    LookupAgrees s key := by
  unfold LookupAgrees elemLookup tlpmLookup
  rw [if_neg (show ¬ key.prefixlen > s.trie.maxPrefixlen from Nat.not_lt.mpr hkey), if_neg (Nat.not_lt.mpr hkey)]
  rcases lookupWalk_longest s.trie.maxPrefixlen h.inv.wf h.len hfull none with
    ⟨hwalk, hnone⟩ | ⟨e, value, hwalk, he, hval, hm, hbest⟩
  · rw [hwalk, h.tlpmMatch_none hnone]
  · obtain ⟨best, hmatch, hbestVal⟩ := h.tlpmMatch_eq he hval hm hbest
    rw [hwalk, hmatch]
    simp only [hval, hbestVal]

/-- **A lookup gives the reference's answer, except for a key of the full length that was stored, is deleted,
    and has a shorter match.** -/
theorem lpmTrie_lookup_iff {trie : LpmTrie dataSize valueSize} {maxEntries : Nat}
    (h : LpmTrie.new dataSize valueSize maxEntries = some trie) (ops : List (LpmTrieOp dataSize valueSize))
    (key : LpmTrieKey dataSize) :
    LookupAgrees (lpmRun trie ops) key ↔ ¬ DeletedAbove (lpmRun trie ops) key := by
  have hinv := lpmRunInv_run h ops
  generalize lpmRun trie ops = s at *
  by_cases hkey : key.prefixlen ≤ dataSize * 8
  · by_cases hfull : ∃ x ∈ s.trie.root.nodes, Matches extractBit key.data key.prefixlen x ∧ x.len = dataSize * 8
    · obtain ⟨x, hx, hm, hlen⟩ := hfull
      exact lookup_full hinv hkey hx hm hlen
    · push Not at hfull
      refine ⟨fun _ hdel => ?_, fun _ => lookup_longest hinv hkey hfull⟩
      -- a key ever stored still has its node
      obtain ⟨k, hk, hlen, hagree⟩ := hdel.everStored
      obtain ⟨x, hx, hp⟩ := hinv.ever k hk
      have hxlen : x.len = key.prefixlen := hp.1.trans hlen
      exact hfull x hx ⟨Nat.le_of_eq hxlen, hp.2.trans (hp.1 ▸ hagree)⟩ (hxlen.trans hdel.fullLength)
  · refine ⟨fun _ hdel => hkey (Nat.le_of_eq hdel.fullLength), fun _ => ?_⟩
    unfold LookupAgrees elemLookup tlpmLookup
    rw [if_pos (show key.prefixlen > s.trie.maxPrefixlen from Nat.lt_of_not_le hkey), if_pos (Nat.lt_of_not_le hkey)]

/-- A key of full length, deleted under a shorter prefix of it. -/
def deletedFullLength : List (LpmTrieOp 1 1) :=
  [.update ⟨4, #v[0x80]⟩ #v[1] BPF_ANY ⟨true, true⟩, .update ⟨8, #v[0x80]⟩ #v[2] BPF_ANY ⟨true, true⟩,
    .delete ⟨8, #v[0x80]⟩]

/-- The other keys are still found. -/
theorem lpmTrie_lookup_deletedFullLength :
    LookupAgrees (lpmRun ⟨2, .nil, 0⟩ deletedFullLength) ⟨8, #v[0x81]⟩ ↔
      ¬ DeletedAbove (lpmRun ⟨2, .nil, 0⟩ deletedFullLength) ⟨8, #v[0x81]⟩ :=
  lpmTrie_lookup_iff new_one_byte deletedFullLength _

/-- The deleted key is not, though the shorter prefix matches it. -/
theorem lpmTrie_lookup_not_longest :
    ¬ ∀ (dataSize valueSize maxEntries : Nat) (trie : LpmTrie dataSize valueSize),
      LpmTrie.new dataSize valueSize maxEntries = some trie →
        ∀ (ops : List (LpmTrieOp dataSize valueSize)) (key : LpmTrieKey dataSize),
          LookupAgrees (lpmRun trie ops) key := by
  intro h
  have hagree := h 1 1 2 _ new_one_byte deletedFullLength ⟨8, #v[0x80]⟩
  have htrie : (lpmRun ⟨2, .nil, 0⟩ deletedFullLength).trie.elemLookup ⟨8, #v[0x80]⟩ = .error .enoent := by decide
  have hreference : tlpmLookup (lpmRun ⟨2, .nil, 0⟩ deletedFullLength).reference ⟨8, #v[0x80]⟩ = .ok #v[1] := by decide
  rw [LookupAgrees, htrie, hreference] at hagree
  cases hagree

end Maps
