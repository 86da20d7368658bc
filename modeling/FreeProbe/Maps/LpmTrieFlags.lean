import FreeProbe.Maps.LpmTrieLookup

/-!
# `Maps.LpmTrieFlags` — the flags of an update, and what a failed one leaves

An update ends in one of two ways. Where the trie has a node of the key, the walk ends there and
`replaceNode` answers; elsewhere `createNewNode` does, whatever the shape of the insertion. The reference of
`Maps.Tlpm` says which prefixes are stored. A node of the key that is only intermediate is the one place
where `BPF_NOEXIST` and the reference disagree.
-/

namespace Maps

open Lib.RadixTree Lib.RadixTree.Trie LpmTrie

variable {dataSize valueSize : Nat}

/-! ## What an update answers -/

/-- A step that cannot fail passes an error on. -/
theorem bind_pure_error {α β : Type} {x : Except Errno α} {f : α → β} {e : Errno} :
    (x >>= fun a => pure (f a)) = .error e ↔ x = .error e := by
  cases x with
  | error e' => exact ⟨fun h => congrArg _ (Except.error.inj h), fun h => congrArg _ (Except.error.inj h)⟩
  | ok a => exact ⟨fun h => (nomatch h), fun h => (nomatch h)⟩

section Walk

variable {args : UpdateArgs dataSize valueSize} {t : LpmTree dataSize valueSize} {e : Errno}

theorem splitSlot_error {matchlen : Nat} (he : e ≠ .enomem) :
    splitSlot args matchlen t = .error e ↔ createNewNode args = .error e := by
  unfold splitSlot
  cases hnew : createNewNode args with
  | error e' => exact ⟨fun h => congrArg _ (Except.error.inj h), fun h => congrArg _ (Except.error.inj h)⟩
  | ok node =>
      refine ⟨fun h => absurd h ?_, fun h => (nomatch h)⟩
      show (if args.alloc.imNode then _ else _) ≠ _
      split
      · split
        · exact fun h => nomatch h
        · exact fun h => nomatch h
      · exact fun h => he (Except.error.inj h).symm

/-- With a node of the key, the walk ends there. -/
theorem updateSlot_of_hasPrefix (hmax : args.key.prefixlen ≤ args.maxPrefixlen) (hwf : WF extractBit t)
    {x : LpmTrieNode dataSize valueSize} (hx : x ∈ t.nodes) (hp : HasPrefix args.key x) :
    updateSlot args t = .error e ↔ replaceNode args x = .error e := by
  induction t with
  | nil => exact nomatch hx
  | node node child ih =>
      rw [updateSlot]
      simp only
      rcases hwf.matches_child hx hp.matches with rfl | ⟨hm, hlt, hx⟩
      · have hlen := hp.1
        have hmatch := longestPrefixMatch_of_matches hp.matches
        rw [if_pos (.inr (.inl hlen)), if_pos hlen, if_pos (hmatch.trans hlen)]
        exact bind_pure_error
      · have hmatch := longestPrefixMatch_of_matches hm
        rw [if_neg (by omega)]
        exact bind_pure_error.trans (ih _ (hwf _).1 hx)

/-- Without one, every insertion starts alike. -/
theorem updateSlot_of_new (hnew : ∀ x ∈ t.nodes, ¬ HasPrefix args.key x) (he : e ≠ .enomem) :
    updateSlot args t = .error e ↔ createNewNode args = .error e := by
  induction t with
  | nil => exact bind_pure_error
  | node node child ih =>
      have hlk := longestPrefixMatch_le_prefixlen node args.key
      rw [updateSlot]
      simp only
      split
      · split
        · next hlen =>
            split
            · next hexact =>
                -- the match reaches the key's length, so the node has the key's prefix
                have hagree := longestPrefixMatch_agree node args.key
                rw [hexact, ← hlen] at hagree
                exact absurd ⟨hlen, hagree⟩ (hnew node List.mem_cons_self)
            · exact bind_pure_error.trans (splitSlot_error he)
        · split
          · exact bind_pure_error
          · exact bind_pure_error.trans (splitSlot_error he)
      · exact bind_pure_error.trans (ih _ fun x hx => hnew x (mem_nodes.mpr (.inr ⟨_, hx⟩)))

theorem createNewNode_enoent : createNewNode args = .error .enoent ↔ args.flags = BPF_EXIST := by
  unfold createNewNode
  split
  · next h => exact ⟨fun _ => h, fun _ => rfl⟩
  · next h =>
      refine ⟨fun heq => ?_, fun h' => absurd h' h⟩
      split at heq
      · cases heq
      · split at heq <;> cases heq

theorem createNewNode_ne_eexist : createNewNode args ≠ .error .eexist := by
  unfold createNewNode
  intro h
  split at h
  · cases h
  · split at h
    · cases h
    · split at h <;> cases h

theorem createNewNode_enospc (h : args.flags ≠ BPF_EXIST) :
    createNewNode args = .error .enospc ↔ args.full = true := by
  unfold createNewNode
  rw [if_neg h]
  split
  · next hfull => exact ⟨fun _ => hfull, fun _ => rfl⟩
  · next hfull =>
      refine ⟨fun heq => ?_, fun h' => absurd h' hfull⟩
      split at heq <;> cases heq

end Walk

/-! ## What is stored -/

/-- A list that stores no more is no longer. -/
theorem length_le_of_stores {l r : List (TlpmNode dataSize valueSize)} (hl : Distinct l)
    (h : ∀ k value, Stores l k value → Stores r k value) : l.length ≤ r.length := by
  induction l generalizing r with
  | nil => exact Nat.zero_le _
  | cons a l ih =>
      obtain ⟨hhead, htail⟩ := List.pairwise_cons.mp hl
      obtain ⟨b, hb, hpb, _⟩ := h ⟨a.len, a.data⟩ a.val ⟨a, List.mem_cons_self, ⟨rfl, Agree.refl _ _⟩, rfl⟩
      -- without the entry of `a`, the other list still stores what the tail does
      have hrest : ∀ k value, Stores l k value → Stores (r.erase b) k value := by
        rintro k value ⟨c, hc, hpc, hval⟩
        obtain ⟨d, hd, hpd, hdval⟩ := h k value ⟨c, List.mem_cons_of_mem _ hc, hpc, hval⟩
        refine ⟨d, (List.mem_erase_of_ne fun hdb => ?_).mpr hd, hpd, hdval⟩
        subst hdb
        have hself : HasPrefix ⟨a.len, a.data⟩ a := ⟨rfl, Agree.refl _ _⟩
        exact hhead c hc (hself.same (hpb.of_same (hpc.same hpd)))
      have hlen := ih htail hrest
      rw [List.length_erase_of_mem hb] at hlen
      have hpos := List.length_pos_of_mem hb
      rw [List.length_cons]
      omega

theorem length_storedNodes (l : List (LpmTrieNode dataSize valueSize)) :
    (storedNodes l).length = l.countP fun node => node.val.isSome := by
  unfold storedNodes
  rw [List.length_filterMap_eq_countP]
  simp only [Option.isSome_map]

section Stored

variable {s : LpmRun dataSize valueSize} {key : LpmTrieKey dataSize}

/-- The reference has an entry of the key. -/
def IsStored (s : LpmRun dataSize valueSize) (key : LpmTrieKey dataSize) : Prop :=
  ∃ e ∈ s.reference, HasPrefix key e

/-- `n_entries` counts the stored prefixes. -/
theorem LpmRunInv.length_reference (h : LpmRunInv s) : s.reference.length = s.trie.nEntries := by
  rw [h.inv.count, ← length_storedNodes]
  exact Nat.le_antisymm (length_le_of_stores h.distinct fun k v => (h.refines k v).mpr)
    (length_le_of_stores (distinct_storedNodes h.inv.wf.distinct) fun k v => (h.refines k v).mp)

/-- A node of the key says whether the key is stored. -/
theorem LpmRunInv.isStored_of_node (h : LpmRunInv s) {x : LpmTrieNode dataSize valueSize}
    (hx : x ∈ s.trie.root.nodes) (hp : HasPrefix key x) : IsStored s key ↔ x.val.isSome := by
  cases hval : x.val with
  | some value => exact ⟨fun _ => rfl, fun _ => h.reference_of_node hx hp hval⟩
  | none =>
      refine ⟨fun ⟨e, he, hpe⟩ => absurd hpe (h.reference_of_intermediate hx hp hval e he), fun hsome => ?_⟩
      cases hsome

/-- Without one, it is not. -/
theorem LpmRunInv.not_isStored (h : LpmRunInv s) (hnew : ∀ x ∈ s.trie.root.nodes, ¬ HasPrefix key x) :
    ¬ IsStored s key := by
  rintro ⟨e, he, hpe⟩
  obtain ⟨a, ha, hpa, _⟩ := (h.refines key e.val).mpr ⟨e, he, hpe, rfl⟩
  exact hnew _ (mem_storedNodes.mp ha) hpa

end Stored

/-! ## Updates of a run -/

section Update

variable {trie : LpmTrie dataSize valueSize} {key : LpmTrieKey dataSize} {value : Vector Byte valueSize}
  {flags : BitVec 64} {alloc : NodeAlloc} {e : Errno}

/-- The flags the code takes. -/
def ValidFlags (flags : BitVec 64) : Prop := flags = BPF_ANY ∨ flags = BPF_NOEXIST ∨ flags = BPF_EXIST

/-- Past the checks of the arguments, the walk answers. -/
theorem elemUpdate_error (hflags : ValidFlags flags) (hlen : key.prefixlen ≤ dataSize * 8) :
    trie.elemUpdate key value flags alloc = .error e ↔
      updateSlot (trie.updateArgs key value flags alloc) trie.root = .error e := by
  unfold elemUpdate
  have hvalid : ¬ (flags ≠ BPF_ANY ∧ flags ≠ BPF_NOEXIST ∧ flags ≠ BPF_EXIST) := by
    rintro ⟨hany, hno, hexist⟩
    rcases hflags with h | h | h
    · exact hany h
    · exact hno h
    · exact hexist h
  rw [if_neg hvalid, if_neg (show ¬ key.prefixlen > trie.maxPrefixlen from Nat.not_lt.mpr hlen)]
  exact bind_pure_error

/-- A longer prefix than the data has bits is refused. -/
theorem elemUpdate_long (hlen : dataSize * 8 < key.prefixlen) :
    trie.elemUpdate key value flags alloc = .error .einval := by
  unfold elemUpdate
  split
  · rfl
  · exact if_pos hlen

/-- **A failed operation leaves the trie as it was.** -/
theorem LpmTrie.apply_of_error {op : LpmTrieOp dataSize valueSize} (h : trie.result op = .error e) : trie.apply op = trie := by
  unfold LpmTrie.apply
  rw [h]

theorem LpmTrie.apply_maxEntries (trie : LpmTrie dataSize valueSize) (op : LpmTrieOp dataSize valueSize) :
    (trie.apply op).maxEntries = trie.maxEntries := by
  unfold LpmTrie.apply
  cases hres : trie.result op with
  | error e => rfl
  | ok trie' =>
      cases op with
      | update key value flags alloc =>
          obtain ⟨_, root, added, _, rfl⟩ := elemUpdate_ok hres
          rfl
      | delete key =>
          obtain ⟨root, _, rfl⟩ := elemDelete_ok hres
          rfl

end Update

/-- The trie of a run takes the same steps as the trie alone. -/
theorem LpmRun.step_trie (s : LpmRun dataSize valueSize) (op : LpmTrieOp dataSize valueSize) :
    (s.step op).trie = s.trie.apply op := by
  cases op with
  | delete key => rfl
  | update key value flags alloc =>
      rw [LpmRun.step, LpmTrie.apply, LpmTrie.result]
      cases s.trie.elemUpdate key value flags alloc with
      | error e => rfl
      | ok trie => rfl

theorem lpmRun_maxEntries {trie : LpmTrie dataSize valueSize} {maxEntries : Nat}
    (h : LpmTrie.new dataSize valueSize maxEntries = some trie) (ops : List (LpmTrieOp dataSize valueSize)) :
    (lpmRun trie ops).trie.maxEntries = maxEntries := by
  unfold lpmRun
  induction ops using List.reverseRecOn with
  | nil =>
      obtain rfl := new_eq_some h
      rfl
  | append_singleton ops op ih =>
      rw [List.foldl_append]
      exact (congrArg LpmTrie.maxEntries (LpmRun.step_trie _ op)).trans ((LpmTrie.apply_maxEntries _ op).trans ih)

/-! ## What the flags promise -/

/-- An update at a key, in a run of a trie with room for `maxEntries` prefixes. -/
structure FlagsKept (s : LpmRun dataSize valueSize) (maxEntries : Nat) (key : LpmTrieKey dataSize)
    (value : Vector Byte valueSize) (alloc : NodeAlloc) : Prop where
  /-- A prefix longer than the data is no prefix, and refused as such. -/
  long : dataSize * 8 < key.prefixlen → ∀ flags, s.trie.elemUpdate key value flags alloc = .error .einval
  noexist : s.trie.elemUpdate key value BPF_NOEXIST alloc = .error .eexist ↔ IsStored s key
  exist : key.prefixlen ≤ dataSize * 8 →
    (s.trie.elemUpdate key value BPF_EXIST alloc = .error .enoent ↔ ¬ IsStored s key)
  nospace : key.prefixlen ≤ dataSize * 8 → ¬ IsStored s key → ∀ flags, flags = BPF_ANY ∨ flags = BPF_NOEXIST →
    (s.trie.elemUpdate key value flags alloc = .error .enospc ↔ s.reference.length = maxEntries)
  /-- A failure, whatever the flags and the error, changes no lookup, now or after later operations. -/
  unchanged : ∀ flags e, s.trie.elemUpdate key value flags alloc = .error e →
    ∀ (later : List (LpmTrieOp dataSize valueSize)) (k : LpmTrieKey dataSize),
      (later.foldl LpmTrie.apply (s.trie.apply (.update key value flags alloc))).elemLookup k =
        (later.foldl LpmTrie.apply s.trie).elemLookup k

/-- The trie has a node of the key that stores nothing: a split left it, or a delete. -/
def HasIntermediate (trie : LpmTrie dataSize valueSize) (key : LpmTrieKey dataSize) : Prop :=
  ∃ x ∈ trie.root.nodes, HasPrefix key x ∧ x.val = none

section Law

variable {s : LpmRun dataSize valueSize} {key : LpmTrieKey dataSize} {value : Vector Byte valueSize}
  {alloc : NodeAlloc}

theorem updateArgs_full_iff (h : LpmRunInv s) {flags : BitVec 64} :
    (s.trie.updateArgs key value flags alloc).full = true ↔ s.reference.length = s.trie.maxEntries := by
  have hbounded := h.inv.bounded
  have hlength := h.length_reference
  show decide (s.trie.nEntries ≥ s.trie.maxEntries) = true ↔ _
  rw [decide_eq_true_iff]
  omega

/-- `BPF_NOEXIST` fails at a node of the key, whatever it holds. -/
theorem noexist_of_node (h : LpmRunInv s) {x : LpmTrieNode dataSize valueSize} (hx : x ∈ s.trie.root.nodes)
    (hp : HasPrefix key x) : s.trie.elemUpdate key value BPF_NOEXIST alloc = .error .eexist := by
  have hlen : key.prefixlen ≤ dataSize * 8 := hp.1 ▸ h.len x hx
  refine (elemUpdate_error (.inr (.inl rfl)) hlen).mpr ?_
  refine (updateSlot_of_hasPrefix hlen h.inv.wf hx hp).mpr ?_
  unfold replaceNode
  exact if_pos rfl

/-- The flags at a node that stores the key. -/
theorem flagsKept_of_stored (h : LpmRunInv s) {x : LpmTrieNode dataSize valueSize} (hx : x ∈ s.trie.root.nodes)
    (hp : HasPrefix key x) (hval : x.val.isSome) : FlagsKept s s.trie.maxEntries key value alloc where
  long hlong := absurd (h.len x hx) (Nat.not_le_of_lt (hp.1 ▸ hlong))
  noexist := iff_of_true (noexist_of_node h hx hp) ((h.isStored_of_node hx hp).mpr hval)
  exist hlen := by
    refine iff_of_false (fun herr => ?_) (not_not.mpr ((h.isStored_of_node hx hp).mpr hval))
    have hrep := (updateSlot_of_hasPrefix hlen h.inv.wf hx hp).mp ((elemUpdate_error (.inr (.inr rfl)) hlen).mp herr)
    unfold replaceNode at hrep
    simp only [hval] at hrep
    have hflags : (s.trie.updateArgs key value BPF_EXIST alloc).flags ≠ BPF_NOEXIST :=
      show BPF_EXIST ≠ BPF_NOEXIST by decide
    rw [if_neg hflags, if_neg (by simp), if_neg (by simp)] at hrep
    cases hrep
  nospace _ hno := absurd ((h.isStored_of_node hx hp).mpr hval) hno
  unchanged flags e herr later k := by
    have hres : s.trie.result (.update key value flags alloc) = .error e := herr
    rw [LpmTrie.apply_of_error hres]

/-- The flags where the trie has no node of the key. -/
theorem flagsKept_of_new (h : LpmRunInv s) (hnew : ∀ x ∈ s.trie.root.nodes, ¬ HasPrefix key x) :
    FlagsKept s s.trie.maxEntries key value alloc where
  long hlong _ := elemUpdate_long hlong
  noexist := by
    refine iff_of_false (fun herr => ?_) (h.not_isStored hnew)
    by_cases hlen : key.prefixlen ≤ dataSize * 8
    · have hslot := (elemUpdate_error (.inr (.inl rfl)) hlen).mp herr
      exact createNewNode_ne_eexist ((updateSlot_of_new hnew (by decide)).mp hslot)
    · rw [elemUpdate_long (Nat.lt_of_not_le hlen)] at herr
      cases herr
  exist hlen := by
    refine iff_of_true ((elemUpdate_error (.inr (.inr rfl)) hlen).mpr ?_) (h.not_isStored hnew)
    exact (updateSlot_of_new hnew (by decide)).mpr (createNewNode_enoent.mpr rfl)
  nospace hlen _ flags hflags := by
    have hvalid : ValidFlags flags := hflags.elim .inl fun h => .inr (.inl h)
    have hexist : flags ≠ BPF_EXIST := by rcases hflags with rfl | rfl <;> decide
    rw [elemUpdate_error hvalid hlen, updateSlot_of_new hnew (by decide), createNewNode_enospc hexist]
    exact updateArgs_full_iff h
  unchanged flags e herr later k := by
    have hres : s.trie.result (.update key value flags alloc) = .error e := herr
    rw [LpmTrie.apply_of_error hres]

/-- **In every run an update keeps its flags' promise, except at a key with an intermediate node**: there
    `BPF_NOEXIST` reports as existing what is not stored. -/
theorem lpmTrie_flagsKept_iff {trie : LpmTrie dataSize valueSize} {maxEntries : Nat}
    (h : LpmTrie.new dataSize valueSize maxEntries = some trie) (ops : List (LpmTrieOp dataSize valueSize))
    (key : LpmTrieKey dataSize) (value : Vector Byte valueSize) (alloc : NodeAlloc) :
    FlagsKept (lpmRun trie ops) maxEntries key value alloc ↔ ¬ HasIntermediate (lpmRun trie ops).trie key := by
  have hinv := lpmRunInv_run h ops
  rw [← lpmRun_maxEntries h ops]
  generalize lpmRun trie ops = s at *
  constructor
  · rintro hkept ⟨x, hx, hp, hval⟩
    have hstored := hkept.noexist.mp (noexist_of_node hinv hx hp)
    have hsome := (hinv.isStored_of_node hx hp).mp hstored
    rw [hval] at hsome
    cases hsome
  · intro hno
    by_cases hnode : ∃ x ∈ s.trie.root.nodes, HasPrefix key x
    · obtain ⟨x, hx, hp⟩ := hnode
      cases hval : x.val with
      | none => exact absurd ⟨x, hx, hp, hval⟩ hno
      | some value => exact flagsKept_of_stored hinv hx hp (by rw [hval]; rfl)
    · push Not at hnode
      exact flagsKept_of_new hinv hnode

/-- Another key of the run below. -/
theorem lpmTrie_flagsKept_deletedFullLength :
    FlagsKept (lpmRun ⟨2, .nil, 0⟩ deletedFullLength) 2 ⟨8, #v[0x81]⟩ #v[3] ⟨true, true⟩ ↔
      ¬ HasIntermediate (lpmRun ⟨2, .nil, 0⟩ deletedFullLength).trie ⟨8, #v[0x81]⟩ :=
  lpmTrie_flagsKept_iff new_one_byte deletedFullLength _ _ _

/-- The key just deleted exists for `BPF_NOEXIST`. -/
theorem lpmTrie_flags_not_kept :
    ¬ ∀ (dataSize valueSize maxEntries : Nat) (trie : LpmTrie dataSize valueSize),
      LpmTrie.new dataSize valueSize maxEntries = some trie →
        ∀ (ops : List (LpmTrieOp dataSize valueSize)) (key : LpmTrieKey dataSize) (value : Vector Byte valueSize)
          (alloc : NodeAlloc), FlagsKept (lpmRun trie ops) maxEntries key value alloc := by
  intro h
  have hkept := h 1 1 2 _ new_one_byte deletedFullLength ⟨8, #v[0x80]⟩ #v[3] ⟨true, true⟩
  have herr : (lpmRun ⟨2, .nil, 0⟩ deletedFullLength).trie.elemUpdate ⟨8, #v[0x80]⟩ #v[3] BPF_NOEXIST
      ⟨true, true⟩ = .error .eexist := by
    have hmem : (⟨8, #v[0x80], none⟩ : LpmTrieNode 1 1) ∈ (lpmRun ⟨2, .nil, 0⟩ deletedFullLength).trie.root.nodes := by
      decide
    exact noexist_of_node (lpmRunInv_run new_one_byte _) hmem ⟨rfl, Agree.refl _ _⟩
  obtain ⟨e, he, hlen, _⟩ := hkept.noexist.mp herr
  have hreference : (lpmRun ⟨2, .nil, 0⟩ deletedFullLength).reference = [⟨4, #v[0x80], #v[1]⟩] := by decide
  rw [hreference] at he
  obtain rfl := List.mem_singleton.mp he
  cases hlen

end Law

end Maps
