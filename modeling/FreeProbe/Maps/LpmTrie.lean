import FreeProbe.Lib.RadixTree
import FreeProbe.Maps.Common

/-!
# `Maps.LpmTrie` — `lpm_trie_map_impl`

The longest-prefix-match trie. A node is an entry of a radix tree; its payload is the value, and a node
without one is marked intermediate. The walks of the source go down from `root` through the slots a node's
prefix length and the key's bits select; here each is a recursion over the tree, whose result puts the
changed slot back.
-/

namespace Maps

open Lib.RadixTree

/-! ## Constants -/

def LPM_DATA_SIZE_MAX : Nat := 256

def LPM_DATA_SIZE_MIN : Nat := 1

/-- `sizeof(uint32_t) + LPM_DATA_SIZE_MIN` -/
def LPM_KEY_SIZE_MIN : Nat := 4 + LPM_DATA_SIZE_MIN

def LPM_KEY_SIZE_MAX : Nat := 4 + LPM_DATA_SIZE_MAX

/-! ## Data -/

/-- `bpf_lpm_trie_key` -/
structure LpmTrieKey (dataSize : Nat) where
  prefixlen : Nat
  data      : Vector Byte dataSize
deriving DecidableEq

/-- `lpm_trie_node`, less its children: `is_intermediate` is `val = none`. -/
abbrev LpmTrieNode (dataSize valueSize : Nat) := Entry (Vector Byte dataSize) (Option (Vector Byte valueSize))

abbrev LpmTree (dataSize valueSize : Nat) := Trie (Vector Byte dataSize) (Option (Vector Byte valueSize))

/-- `lpm_trie_map_impl` -/
structure LpmTrie (dataSize valueSize : Nat) where
  maxEntries : Nat
  root       : LpmTree dataSize valueSize
  nEntries   : Nat

/-- Whether the two calls of `create_node` in an update return a node. -/
structure NodeAlloc where
  newNode : Bool
  imNode  : Bool

variable {dataSize valueSize : Nat}

/-- Bit `index` of the prefix data, the most significant bit of a byte first. -/
def extractBit (data : Vector Byte dataSize) (index : Nat) : Bool :=
  if index ≥ dataSize * 8 then false
  else (data.getD (index / 8) 0).getLsbD (7 - index % 8)

/-- How many bits of the node's prefix the key shares. -/
def longestPrefixMatch (node : LpmTrieNode dataSize valueSize) (key : LpmTrieKey dataSize) : Nat :=
  matchLength (extractBit node.data) (extractBit key.data) (min node.len key.prefixlen)

/-- The two slots of a node. -/
def children (child0 child1 : LpmTree dataSize valueSize) : Bool → LpmTree dataSize valueSize
  | false => child0
  | true => child1

/-- The slots of a node that `create_node` returns. -/
def noChildren : Bool → LpmTree dataSize valueSize := fun _ => .nil

namespace LpmTrie

/-- `_max_prefixlen` -/
def maxPrefixlen (_trie : LpmTrie dataSize valueSize) : Nat := dataSize * 8

/-- The constructor; `none` stands for its exceptions. -/
def new (dataSize valueSize maxEntries : Nat) : Option (LpmTrie dataSize valueSize) :=
  let keySize := dataSize + 4
  if keySize < LPM_KEY_SIZE_MIN ∨ keySize > LPM_KEY_SIZE_MAX then none
  else if valueSize = 0 ∨ maxEntries = 0 then none
  else some ⟨maxEntries, .nil, 0⟩

/-! ## `elem_lookup` -/

/-- The walk, with the node found so far. -/
def lookupWalk (maxPrefixlen : Nat) (key : LpmTrieKey dataSize) :
    LpmTree dataSize valueSize → Option (LpmTrieNode dataSize valueSize) →
      Option (LpmTrieNode dataSize valueSize)
  | .nil, found => found
  | .node node child, found =>
    let matchlen := longestPrefixMatch node key
    if matchlen = maxPrefixlen then some node
    else if matchlen < node.len then found
    else
      let found := if node.val.isSome then some node else found
      if matchlen < key.prefixlen then
        lookupWalk maxPrefixlen key (child (extractBit key.data node.len)) found
      else found

def elemLookup (trie : LpmTrie dataSize valueSize) (key : LpmTrieKey dataSize) :
    Except Errno (Vector Byte valueSize) :=
  if key.prefixlen > trie.maxPrefixlen then .error .einval
  else
    match lookupWalk trie.maxPrefixlen key trie.root none with
    | none => .error .enoent
    | some node =>
      match node.val with
      | none => .error .enoent
      | some value => .ok value

/-! ## `elem_update` -/

/-- The arguments of an update, and what its walk reads besides the nodes. -/
structure UpdateArgs (dataSize valueSize : Nat) where
  key          : LpmTrieKey dataSize
  value        : Vector Byte valueSize
  flags        : BitVec 64
  alloc        : NodeAlloc
  maxPrefixlen : Nat
  /-- `n_entries >= _max_entries` -/
  full         : Bool

/-- What every insertion starts with: the checks, and the new node. -/
def createNewNode (args : UpdateArgs dataSize valueSize) : Except Errno (LpmTrieNode dataSize valueSize) :=
  if args.flags = BPF_EXIST then .error .enoent
  else if args.full then .error .enospc
  else if args.alloc.newNode then .ok ⟨args.key.prefixlen, args.key.data, some args.value⟩
  else .error .enomem

/-- An intermediate node takes the slot, over its subtree and the new node. -/
def splitSlot (args : UpdateArgs dataSize valueSize) (matchlen : Nat) (slot : LpmTree dataSize valueSize) :
    Except Errno (LpmTree dataSize valueSize) := do
  let newNode ← createNewNode args
  if args.alloc.imNode then
    let imNode : LpmTrieNode dataSize valueSize := ⟨matchlen, args.key.data, none⟩
    if extractBit args.key.data matchlen then
      return .node imNode (children slot (.node newNode noChildren))
    else
      return .node imNode (children (.node newNode noChildren) slot)
  else .error .enomem

/-- The exact match of case 1: the new node, and whether `n_entries` goes up. -/
def replaceNode (args : UpdateArgs dataSize valueSize) (node : LpmTrieNode dataSize valueSize) :
    Except Errno (LpmTrieNode dataSize valueSize × Bool) :=
  let existsReal := node.val.isSome
  if args.flags = BPF_NOEXIST then .error .eexist
  else if args.flags = BPF_EXIST ∧ ¬ existsReal then .error .enoent
  else if ¬ existsReal ∧ args.full then .error .enospc
  else .ok ({ node with val := some args.value }, ! existsReal)

/-- The walk and the four cases after it: the new slot, and whether `n_entries` goes up. An empty tree is
    an empty slot. -/
def updateSlot (args : UpdateArgs dataSize valueSize) :
    LpmTree dataSize valueSize → Except Errno (LpmTree dataSize valueSize × Bool)
  | .nil => do
    let newNode ← createNewNode args
    return (.node newNode noChildren, true)
  | .node node child =>
    let matchlen := longestPrefixMatch node args.key
    if node.len ≠ matchlen ∨ node.len = args.key.prefixlen ∨ node.len = args.maxPrefixlen then
      if node.len = args.key.prefixlen then
        -- Case 1
        if matchlen = args.key.prefixlen then do
          let (node', added) ← replaceNode args node
          return (.node node' child, added)
        else do
          return (← splitSlot args matchlen (.node node child), true)
      else if matchlen = args.key.prefixlen then do
        -- Case 3
        let newNode ← createNewNode args
        return (.node newNode (Function.update noChildren (extractBit node.data matchlen) (.node node child)), true)
      else do
        -- Case 4
        return (← splitSlot args matchlen (.node node child), true)
    else do
      let nextBit := extractBit args.key.data node.len
      let (slot, added) ← updateSlot args (child nextBit)
      return (.node node (Function.update child nextBit slot), added)

/-- The update as the walk sees it. -/
def updateArgs (trie : LpmTrie dataSize valueSize) (key : LpmTrieKey dataSize) (value : Vector Byte valueSize)
    (flags : BitVec 64) (alloc : NodeAlloc) : UpdateArgs dataSize valueSize where
  key := key
  value := value
  flags := flags
  alloc := alloc
  maxPrefixlen := trie.maxPrefixlen
  full := trie.nEntries ≥ trie.maxEntries

def elemUpdate (trie : LpmTrie dataSize valueSize) (key : LpmTrieKey dataSize) (value : Vector Byte valueSize)
    (flags : BitVec 64) (alloc : NodeAlloc) : Except Errno (LpmTrie dataSize valueSize) :=
  if flags ≠ BPF_ANY ∧ flags ≠ BPF_NOEXIST ∧ flags ≠ BPF_EXIST then .error .einval
  else if key.prefixlen > trie.maxPrefixlen then .error .einval
  else do
    let (root, added) ← updateSlot (trie.updateArgs key value flags alloc) trie.root
    return { trie with root := root, nEntries := if added then trie.nEntries + 1 else trie.nEntries }

/-! ## `elem_delete` -/

/-- The walk, and the mark that makes the node intermediate. -/
def deleteSlot (key : LpmTrieKey dataSize) : LpmTree dataSize valueSize → Option (LpmTree dataSize valueSize)
  | .nil => none
  | .node node child =>
    let matchlen := longestPrefixMatch node key
    if node.len ≠ matchlen ∨ node.len = key.prefixlen then
      if node.len ≠ key.prefixlen ∨ matchlen ≠ node.len ∨ node.val.isNone then none
      else some (.node { node with val := none } child)
    else
      let nextBit := extractBit key.data node.len
      (deleteSlot key (child nextBit)).map fun slot => .node node (Function.update child nextBit slot)

def elemDelete (trie : LpmTrie dataSize valueSize) (key : LpmTrieKey dataSize) :
    Except Errno (LpmTrie dataSize valueSize) :=
  if key.prefixlen > trie.maxPrefixlen then .error .einval
  else
    match deleteSlot key trie.root with
    | none => .error .enoent
    | some root =>
      .ok { trie with root := root, nEntries := if trie.nEntries > 0 then trie.nEntries - 1 else trie.nEntries }

/-! ## Runs -/

end LpmTrie

/-- An operation that changes the trie. -/
inductive LpmTrieOp (dataSize valueSize : Nat) where
  | update (key : LpmTrieKey dataSize) (value : Vector Byte valueSize) (flags : BitVec 64) (alloc : NodeAlloc)
  | delete (key : LpmTrieKey dataSize)

namespace LpmTrie

def result (trie : LpmTrie dataSize valueSize) : LpmTrieOp dataSize valueSize → Except Errno (LpmTrie dataSize valueSize)
  | .update key value flags alloc => trie.elemUpdate key value flags alloc
  | .delete key => trie.elemDelete key

/-- An operation that fails leaves the trie as it was. -/
def apply (trie : LpmTrie dataSize valueSize) (op : LpmTrieOp dataSize valueSize) : LpmTrie dataSize valueSize :=
  match trie.result op with
  | .ok trie' => trie'
  | .error _ => trie

end LpmTrie

end Maps
