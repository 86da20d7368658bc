import Mathlib.Data.List.Perm.Basic
import Mathlib.Logic.Function.Basic

/-!
# `Lib.RadixTree` — path-compressed binary trees of bit prefixes

A node carries a length, data whose first bits are its prefix, and a payload. In a well-formed tree every
node below slot `b` of a node has a longer prefix that extends the node's and goes on with bit `b`.

* `matchLength`: the loop that counts the bits two strings share.
* `WF` and what it gives: no two nodes of one prefix (`WF.distinct`), and the nodes whose prefix matches a
  key lie on one path (`WF.matches_child`).
* `Edit`: how an operation changes the nodes of a tree, as a permutation, and that this carries over to the
  trees above (`Edit.child`).
-/

namespace Lib.RadixTree

variable {D β : Type*}

/-! ## Bits -/

/-- Two strings agree on their first `n` bits. -/
def Agree (f g : Nat → Bool) (n : Nat) : Prop := ∀ i, i < n → f i = g i

theorem Agree.refl (f : Nat → Bool) (n : Nat) : Agree f f n := fun _ _ => rfl

theorem Agree.symm {f g : Nat → Bool} {n : Nat} (h : Agree f g n) : Agree g f n := fun i hi => (h i hi).symm

theorem Agree.trans {f g k : Nat → Bool} {n : Nat} (h : Agree f g n) (h' : Agree g k n) : Agree f k n :=
  fun i hi => (h i hi).trans (h' i hi)

theorem Agree.mono {f g : Nat → Bool} {n m : Nat} (h : Agree f g n) (hm : m ≤ n) : Agree f g m :=
  fun i hi => h i (Nat.lt_of_lt_of_le hi hm)

/-- `for (; matched < limit; ++matched) if (f(matched) != g(matched)) break;` -/
def matchLoop (f g : Nat → Bool) (limit : Nat) : Nat → Nat → Nat
  | 0, matched => matched
  | fuel + 1, matched =>
    if matched < limit then if f matched ≠ g matched then matched else matchLoop f g limit fuel (matched + 1)
    else matched

/-- How many of the first `limit` bits come before the first difference. -/
def matchLength (f g : Nat → Bool) (limit : Nat) : Nat := matchLoop f g limit limit 0

theorem matchLoop_spec {f g : Nat → Bool} {limit fuel matched : Nat} (hfuel : matched + fuel = limit)
    (h : Agree f g matched) :
    matchLoop f g limit fuel matched ≤ limit ∧ Agree f g (matchLoop f g limit fuel matched) ∧
      (matchLoop f g limit fuel matched < limit →
        f (matchLoop f g limit fuel matched) ≠ g (matchLoop f g limit fuel matched)) := by
  induction fuel generalizing matched with
  | zero => exact ⟨by rw [matchLoop]; omega, h, fun hlt => by rw [matchLoop] at hlt; omega⟩
  | succ fuel ih =>
      have hlt : matched < limit := by omega
      unfold matchLoop
      rw [if_pos hlt]
      by_cases hd : f matched ≠ g matched
      · rw [if_pos hd]
        exact ⟨Nat.le_of_lt hlt, h, fun _ => hd⟩
      · rw [if_neg hd]
        refine ih (by omega) fun i hi => ?_
        rcases Nat.lt_succ_iff_lt_or_eq.mp hi with hi' | rfl
        · exact h i hi'
        · exact not_not.mp hd

theorem matchLength_le (f g : Nat → Bool) (limit : Nat) : matchLength f g limit ≤ limit :=
  (matchLoop_spec (Nat.zero_add limit) fun _ hi => absurd hi (Nat.not_lt_zero _)).1

theorem matchLength_agree (f g : Nat → Bool) (limit : Nat) : Agree f g (matchLength f g limit) :=
  (matchLoop_spec (Nat.zero_add limit) fun _ hi => absurd hi (Nat.not_lt_zero _)).2.1

/-- The bits differ where the count stops short of its limit. -/
theorem matchLength_differ {f g : Nat → Bool} {limit : Nat} (h : matchLength f g limit < limit) :
    f (matchLength f g limit) ≠ g (matchLength f g limit) :=
  (matchLoop_spec (Nat.zero_add limit) fun _ hi => absurd hi (Nat.not_lt_zero _)).2.2 h

/-- Agreement is a lower bound of the count. -/
theorem le_matchLength {f g : Nat → Bool} {limit n : Nat} (h : Agree f g n) (hn : n ≤ limit) :
    n ≤ matchLength f g limit := by
  by_contra hlt
  exact matchLength_differ (by omega) (h _ (Nat.lt_of_not_le hlt))

/-! ## Trees -/

/-- What a node carries. -/
structure Entry (D β : Type*) where
  len  : Nat
  data : D
  val  : β
deriving DecidableEq, Repr

/-- `nil` is a null pointer. -/
inductive Trie (D β : Type*) where
  | nil
  | node (entry : Entry D β) (child : Bool → Trie D β)

namespace Trie

/-- The entries of the nodes, each before those below it. -/
def nodes : Trie D β → List (Entry D β)
  | nil => []
  | node entry child => entry :: ((child false).nodes ++ (child true).nodes)

/-- A tree's root, as far as there is one. -/
def rootEntry : Trie D β → Option (Entry D β)
  | nil => none
  | node entry _ => some entry

/-- `c` is the node in slot `b` of `p`, somewhere in the tree. -/
inductive ChildOf (p : Entry D β) (b : Bool) (c : Entry D β) : Trie D β → Prop where
  | here {child : Bool → Trie D β} (h : (child b).rootEntry = some c) : ChildOf p b c (node p child)
  | deeper {entry : Entry D β} {child : Bool → Trie D β} (b' : Bool) (h : ChildOf p b c (child b')) :
      ChildOf p b c (node entry child)

theorem rootEntry_mem {t : Trie D β} {e : Entry D β} (h : t.rootEntry = some e) : e ∈ t.nodes := by
  cases t with
  | nil => cases h
  | node entry child =>
      obtain rfl := Option.some.inj h
      exact List.mem_cons_self

theorem mem_nodes {e : Entry D β} {entry : Entry D β} {child : Bool → Trie D β} :
    e ∈ (node entry child).nodes ↔ e = entry ∨ ∃ b, e ∈ (child b).nodes := by
  rw [nodes, List.mem_cons, List.mem_append, Bool.exists_bool]

end Trie

open Trie

variable (bit : D → Nat → Bool)

/-- `x` has a longer prefix than `e`, which extends `e`'s and goes on with bit `b`. -/
structure Extends (e : Entry D β) (b : Bool) (x : Entry D β) : Prop where
  longer : e.len < x.len
  agree : Agree (bit x.data) (bit e.data) e.len
  next : bit x.data e.len = b

/-- The two entries have the same prefix. -/
def SamePrefix (x y : Entry D β) : Prop := x.len = y.len ∧ Agree (bit x.data) (bit y.data) x.len

variable {bit} in
theorem SamePrefix.symm {x y : Entry D β} (h : SamePrefix bit x y) : SamePrefix bit y x :=
  ⟨h.1.symm, (h.1 ▸ h.2).symm⟩

/-- The prefix of `x` is one of the prefixes of the first `n` bits of `q`. -/
def Matches (q : D) (n : Nat) (x : Entry D β) : Prop := x.len ≤ n ∧ Agree (bit x.data) (bit q) x.len

variable {bit} in
/-- Matches of one length have one prefix. -/
theorem Matches.same {q : D} {n : Nat} {x y : Entry D β} (hx : Matches bit q n x) (hy : Matches bit q n y)
    (hlen : x.len = y.len) : SamePrefix bit x y := ⟨hlen, hx.2.trans (hlen ▸ hy.2.symm)⟩

/-- `best` is an entry with a longest prefix of `q` among those of `l`, and `none` where no entry has one. -/
def Longest (q : D) (n : Nat) (l : List (Entry D β)) : Option (Entry D β) → Prop
  | none => ∀ x ∈ l, ¬ Matches bit q n x
  | some best => best ∈ l ∧ Matches bit q n best ∧ ∀ x ∈ l, Matches bit q n x → x.len ≤ best.len

/-- Every node extends all nodes above it. -/
def WF : Trie D β → Prop
  | nil => True
  | node entry child => ∀ b, WF (child b) ∧ ∀ x ∈ (child b).nodes, Extends bit entry b x

variable {bit}

theorem WF.childOf {t : Trie D β} {p c : Entry D β} {b : Bool} (h : WF bit t) (hc : ChildOf p b c t) :
    Extends bit p b c := by
  induction hc with
  | here hchild => exact (h b).2 c (rootEntry_mem hchild)
  | deeper b' _ ih => exact ih (h b').1

/-- Nodes of different slots differ at the bit that tells the slots apart. -/
theorem Extends.not_same {e x y : Entry D β} {b b' : Bool} (hx : Extends bit e b x) (hy : Extends bit e b' y)
    (hb : b ≠ b') : ¬ SamePrefix bit x y := by
  intro hs
  exact hb (hx.next.symm.trans ((hs.2 e.len hx.longer).trans hy.next))

/-- **No two nodes of a well-formed tree have one prefix.** -/
theorem WF.distinct {t : Trie D β} (h : WF bit t) : t.nodes.Pairwise fun x y => ¬ SamePrefix bit x y := by
  induction t with
  | nil => exact List.Pairwise.nil
  | node entry child ih =>
      rw [nodes, List.pairwise_cons, List.pairwise_append]
      refine ⟨fun x hx => ?_, ih false (h false).1, ih true (h true).1, fun x hx y hy => ?_⟩
      · intro hs
        rcases List.mem_append.mp hx with hx | hx
        · exact absurd hs.1 (Nat.ne_of_lt ((h false).2 x hx).longer)
        · exact absurd hs.1 (Nat.ne_of_lt ((h true).2 x hx).longer)
      · exact ((h false).2 x hx).not_same ((h true).2 y hy) Bool.false_ne_true

theorem Extends.trans {e x y : Entry D β} {b b' : Bool} (h : Extends bit e b x) (h' : Extends bit x b' y) :
    Extends bit e b y where
  longer := Nat.lt_trans h.longer h'.longer
  agree := (h'.agree.mono (Nat.le_of_lt h.longer)).trans h.agree
  next := (h'.agree e.len h.longer).trans h.next

/-- What the root of a tree extends, every node of it does. -/
theorem WF.extends_of_root {t : Trie D β} {e : Entry D β} {b : Bool} (h : WF bit t)
    (hroot : ∀ r, t.rootEntry = some r → Extends bit e b r) : ∀ x ∈ t.nodes, Extends bit e b x := by
  cases t with
  | nil => exact fun x hx => nomatch hx
  | node entry child =>
      intro x hx
      have hentry := hroot entry rfl
      rcases mem_nodes.mp hx with rfl | ⟨b', hb'⟩
      · exact hentry
      · exact hentry.trans ((h b').2 x hb')

/-- Below a node that does not match, nothing does. -/
theorem Extends.matches_parent {e x : Entry D β} {b : Bool} {q : D} {n : Nat} (h : Extends bit e b x)
    (hm : Matches bit q n x) : Matches bit q n e ∧ e.len < n ∧ bit q e.len = b :=
  ⟨⟨Nat.le_of_lt (Nat.lt_of_lt_of_le h.longer hm.1), h.agree.symm.trans (hm.2.mono (Nat.le_of_lt h.longer))⟩,
    Nat.lt_of_lt_of_le h.longer hm.1, (hm.2 e.len h.longer).symm.trans h.next⟩

/-- **The nodes that match a key lie on one path**: at each node, in the slot of the key's next bit. -/
theorem WF.matches_child {entry : Entry D β} {child : Bool → Trie D β} (h : WF bit (node entry child)) {q : D}
    {n : Nat} {x : Entry D β} (hx : x ∈ (node entry child).nodes) (hm : Matches bit q n x) :
    x = entry ∨ (Matches bit q n entry ∧ entry.len < n ∧ x ∈ (child (bit q entry.len)).nodes) := by
  rcases mem_nodes.mp hx with rfl | ⟨b, hb⟩
  · exact .inl rfl
  · obtain ⟨hp, hlt, hbit⟩ := ((h b).2 x hb).matches_parent hm
    exact .inr ⟨hp, hlt, hbit ▸ hb⟩

/-- Putting a well-formed tree into a slot. -/
theorem WF.update {entry : Entry D β} {child : Bool → Trie D β} (h : WF bit (node entry child)) {b : Bool}
    {t : Trie D β} (ht : WF bit t) (hext : ∀ x ∈ t.nodes, Extends bit entry b x) :
    WF bit (node entry (Function.update child b t)) := by
  intro b'
  by_cases hb : b' = b
  · subst hb
    rw [Function.update_self]
    exact ⟨ht, hext⟩
  · rw [Function.update_of_ne hb]
    exact h b'

/-! ## Edits -/

/-- The nodes `l'` are the nodes `l` with `old` taken out and `new` put in. -/
def Edit (old new l l' : List (Entry D β)) : Prop :=
  ∃ rest, l.Perm (old ++ rest) ∧ l'.Perm (new ++ rest)

theorem Edit.mem {old new l l' : List (Entry D β)} (h : Edit old new l l') {x : Entry D β} (hx : x ∈ l') :
    x ∈ new ∨ x ∈ l := by
  obtain ⟨rest, hl, hl'⟩ := h
  rcases List.mem_append.mp (hl'.mem_iff.mp hx) with hx | hx
  · exact .inl hx
  · exact .inr (hl.mem_iff.mpr (List.mem_append_right _ hx))

theorem Edit.kept {old new l l' : List (Entry D β)} (h : Edit old new l l') {x : Entry D β} (hx : x ∈ l) :
    x ∈ old ∨ x ∈ l' := by
  obtain ⟨rest, hl, hl'⟩ := h
  rcases List.mem_append.mp (hl.mem_iff.mp hx) with hx | hx
  · exact .inl hx
  · exact .inr (hl'.mem_iff.mpr (List.mem_append_right _ hx))

theorem Edit.new_mem {old new l l' : List (Entry D β)} (h : Edit old new l l') {x : Entry D β} (hx : x ∈ new) :
    x ∈ l' := by
  obtain ⟨rest, _, hl'⟩ := h
  exact hl'.mem_iff.mpr (List.mem_append_left _ hx)

theorem Edit.old_mem {old new l l' : List (Entry D β)} (h : Edit old new l l') {x : Entry D β} (hx : x ∈ old) :
    x ∈ l := by
  obtain ⟨rest, hl, _⟩ := h
  exact hl.mem_iff.mpr (List.mem_append_left _ hx)

/-- An edit changes a count by what it puts in and takes out. -/
theorem Edit.countP {old new l l' : List (Entry D β)} (h : Edit old new l l') (p : Entry D β → Bool) :
    l'.countP p + old.countP p = l.countP p + new.countP p := by
  obtain ⟨rest, hl, hl'⟩ := h
  rw [hl.countP_eq, hl'.countP_eq, List.countP_append, List.countP_append]
  omega

/-- **An edit below a node is an edit at it.** -/
theorem Edit.child {old new : List (Entry D β)} {entry : Entry D β} {child : Bool → Trie D β} {b : Bool}
    {t : Trie D β} (h : Edit old new (child b).nodes t.nodes) :
    Edit old new (node entry child).nodes (node entry (Function.update child b t)).nodes := by
  obtain ⟨rest, hl, hl'⟩ := h
  have hmove : ∀ old' other : List (Entry D β), (entry :: (old' ++ rest ++ other)).Perm
      (old' ++ entry :: (rest ++ other)) := fun old' other => by
    rw [List.append_assoc]
    exact List.perm_middle.symm
  cases b with
  | false =>
      refine ⟨entry :: (rest ++ (child true).nodes), ?_, ?_⟩
      · exact ((hl.append_right _).cons entry).trans (hmove old _)
      · rw [nodes, Function.update_self, Function.update_of_ne (by decide)]
        exact ((hl'.append_right _).cons entry).trans (hmove new _)
  | true =>
      refine ⟨entry :: (rest ++ (child false).nodes), ?_, ?_⟩
      · exact ((List.perm_append_comm.trans (hl.append_right _)).cons entry).trans (hmove old _)
      · rw [nodes, Function.update_self, Function.update_of_ne (by decide)]
        exact ((List.perm_append_comm.trans (hl'.append_right _)).cons entry).trans (hmove new _)

end Lib.RadixTree
