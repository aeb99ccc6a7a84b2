import Mathlib.Data.List.FinRange
import MiniEthNode.Host
import MiniEthNode.RlpCodec.Traits

namespace MiniEthNode
open Rust

inductive TrieNode where
  | leaf (remainingNibbles : List UInt8) (value : Bytes)
  | extension (sharedNibbles : List UInt8) (child : TrieNode)
  | branch (children : Fin 16 → Option TrieNode) (value : Option Bytes)

inductive NodeRef where
  | inline (bytes : Bytes)
  | hash (digest : B256)

inductive TrieError where
  | invalidKey
  | encode (error : RlpError)
  deriving DecidableEq

structure MerkleTrie where
  root : Option TrieNode

def bytesToNibbles (bytes : Bytes) : List UInt8 :=
  bytes.flatMap fun byte : UInt8 => [byte >>> 4, byte &&& 0x0f]

/-- The loop over `chunks(2)` that packs two nibbles into a byte. -/
def packPairs : List UInt8 → Outcome TrieError Bytes
  | [] => .ok []
  | [_] => .panic
  | high :: low :: rest => do
    let packed ← packPairs rest
    .ok (((high <<< 4) ||| low) :: packed)

/-- The arms of `hp_encode` for one kind of node: `even` and `odd` are the flags the
source writes in front of a path of even and of odd length. -/
def hpEncodeWith (even odd : UInt8) (nibbles : List UInt8) : Outcome TrieError Bytes :=
  if nibbles.length % 2 = 0 then do
    let packed ← packPairs nibbles
    .ok ((even <<< 4) :: packed)
  else do
    let first ← index nibbles 0
    let rest ← sliceFrom nibbles 1
    let packed ← packPairs rest
    .ok ((odd <<< 4 ||| first) :: packed)

def hpEncode (nibbles : List UInt8) (isLeaf : Bool) : Outcome TrieError Bytes :=
  match isLeaf with
  | false => hpEncodeWith 0x0 0x1 nibbles
  | true => hpEncodeWith 0x2 0x3 nibbles

/-- The end of `encode_node`: short encodings are inlined and all others hashed. -/
def nodeRef (host : Host) (bytes : Bytes) : NodeRef :=
  if bytes.length < 32 then .inline bytes else .hash (host.keccak256 bytes)

/-- `encode` with its error converted by `?`. -/
def encodeInto (item : RlpItem) (buffer : Bytes) : Outcome TrieError Bytes :=
  (encode item buffer).mapErr .encode

mutual
/-- The buffer that `encode_node` fills for a node. -/
def nodeBuffer (host : Host) : TrieNode → Outcome TrieError Bytes
  | .leaf remainingNibbles value => do
    let remainingNibblesRlp ← hpEncode remainingNibbles true
    encodeInto (.list [toRlpItem remainingNibblesRlp, toRlpItem value]) []
  | .branch children value => do
    let encodedItems ← (List.finRange 16).foldlM (fun items i => childInto host (children i) items) []
    let encodedItems ← match value with
      | none => encodeInto (toRlpItem ([] : Bytes)) encodedItems
      | some value => encodeInto (toRlpItem value) encodedItems
    .ok (addRlpListPrefix [] encodedItems.length ++ encodedItems)
  | .extension sharedNibbles child => do
    let sharedNibblesRlp ← hpEncode sharedNibbles false
    let childBuffer ← nodeBuffer host child
    match nodeRef host childBuffer with
    | .inline bytes => do
      let encodedItems ← encodeInto (toRlpItem sharedNibblesRlp) []
      let encodedItems := encodedItems ++ bytes
      .ok (addRlpListPrefix [] encodedItems.length ++ encodedItems)
    | .hash digest => encodeInto (.list [toRlpItem sharedNibblesRlp, toRlpItem digest]) []

/-- One round of the loop over the children of a branch. -/
def childInto (host : Host) : Option TrieNode → Bytes → Outcome TrieError Bytes
  | none, encodedItems => encodeInto (toRlpItem ([] : Bytes)) encodedItems
  | some node, encodedItems => do
    let buffer ← nodeBuffer host node
    match nodeRef host buffer with
    | .inline bytes => .ok (encodedItems ++ bytes)
    | .hash digest => encodeInto (toRlpItem digest) encodedItems
end

def encodeNode (host : Host) (node : TrieNode) : Outcome TrieError NodeRef := do
  let bytes ← nodeBuffer host node
  .ok (nodeRef host bytes)

/-- The `take_while` over the zipped paths. -/
def sharedPrefixLen (a b : List UInt8) : Nat :=
  ((a.zip b).takeWhile fun pair => pair.1 == pair.2).length

def noChildren : Fin 16 → Option TrieNode := fun _ => none

/-- The assignment `children[nibble as usize] = Some(node)`. -/
def setChild (children : Fin 16 → Option TrieNode) (nibble : UInt8) (node : TrieNode) :
    Outcome TrieError (Fin 16 → Option TrieNode) :=
  if inside : nibble.toNat < 16 then .ok (Function.update children ⟨nibble.toNat, inside⟩ (some node))
  else .panic

/-- The arm of `recursive_insert` for a leaf. -/
def insertIntoLeaf (remainingNibbles : List UInt8) (oldValue : Bytes) (nibbles : List UInt8) (newValue : Bytes) :
    Outcome TrieError TrieNode :=
  if nibbles = remainingNibbles then .ok (.leaf nibbles newValue)
  else
    let sharedLen := sharedPrefixLen remainingNibbles nibbles
    if remainingNibbles.length = sharedLen then do
      let child ← index nibbles sharedLen
      let rest ← sliceFrom nibbles (sharedLen + 1)
      let children ← setChild noChildren child (.leaf rest newValue)
      .ok (.branch children (some oldValue))
    else if nibbles.length = sharedLen then do
      let child ← index remainingNibbles sharedLen
      let rest ← sliceFrom remainingNibbles (sharedLen + 1)
      let children ← setChild noChildren child (.leaf rest oldValue)
      .ok (.branch children (some newValue))
    else do
      let oldChild ← index remainingNibbles sharedLen
      let oldRest ← sliceFrom remainingNibbles (sharedLen + 1)
      let newChild ← index nibbles sharedLen
      let newRest ← sliceFrom nibbles (sharedLen + 1)
      let children ← setChild noChildren oldChild (.leaf oldRest oldValue)
      let children ← setChild children newChild (.leaf newRest newValue)
      if sharedLen = 0 then .ok (.branch children none)
      else do
        let sharedNibbles ← sliceTo nibbles sharedLen
        .ok (.extension sharedNibbles (.branch children none))

/-- The arm of `recursive_insert` for an extension that the new path leaves early. -/
def splitExtension (sharedNibbles : List UInt8) (oldChild : TrieNode) (nibbles : List UInt8) (newValue : Bytes) :
    Outcome TrieError TrieNode := do
  let sharedLen := sharedPrefixLen sharedNibbles nibbles
  let newSharedPrefix ← sliceTo sharedNibbles sharedLen
  let (children, branchValue) ←
    if nibbles.length = sharedLen then Outcome.ok (noChildren, some newValue)
    else do
      let newChildIndex ← index nibbles sharedLen
      let rest ← sliceFrom nibbles (sharedLen + 1)
      let children ← setChild noChildren newChildIndex (.leaf rest newValue)
      Outcome.ok (children, none)
  let oldChildIndex ← index sharedNibbles sharedLen
  let children ←
    if sharedNibbles.length = sharedLen + 1 then setChild children oldChildIndex oldChild
    else do
      let rest ← sliceFrom sharedNibbles (sharedLen + 1)
      setChild children oldChildIndex (.extension rest oldChild)
  if sharedLen = 0 then .ok (.branch children branchValue)
  else .ok (.extension newSharedPrefix (.branch children branchValue))

mutual
/-- `recursive_insert` at an occupied slot, whose node has been taken: the slot at the end. -/
def insertNode : TrieNode → List UInt8 → Bytes → Outcome TrieError (Option TrieNode)
  | .leaf remainingNibbles oldValue, nibbles, newValue => do
    let node ← insertIntoLeaf remainingNibbles oldValue nibbles newValue
    .ok (some node)
  | .extension sharedNibbles oldChild, nibbles, newValue =>
    if sharedPrefixLen sharedNibbles nibbles = sharedNibbles.length then do
      let rest ← sliceFrom nibbles (sharedPrefixLen sharedNibbles nibbles)
      match ← insertNode oldChild rest newValue with
      | some node => .ok (some (.extension sharedNibbles node))
      -- nothing is put back into the slot
      | none => .ok none
    else do
      let node ← splitExtension sharedNibbles oldChild nibbles newValue
      .ok (some node)
  | .branch children _, [], newValue => .ok (some (.branch children (some newValue)))
  | .branch children value, nibble :: rest, newValue =>
    if inside : nibble.toNat < 16 then do
      let slot ← recursiveInsert (children ⟨nibble.toNat, inside⟩) rest newValue
      .ok (some (.branch (Function.update children ⟨nibble.toNat, inside⟩ slot) value))
    else .panic

def recursiveInsert : Option TrieNode → List UInt8 → Bytes → Outcome TrieError (Option TrieNode)
  | none, nibbles, newValue => .ok (some (.leaf nibbles newValue))
  | some node, nibbles, newValue => insertNode node nibbles newValue
end

namespace MerkleTrie

def new : MerkleTrie := ⟨none⟩

def insert (trie : MerkleTrie) (key : Bytes) (newValue : Bytes) : Outcome TrieError MerkleTrie :=
  if key.isEmpty then .err .invalidKey
  else do
    let root ← recursiveInsert trie.root (bytesToNibbles key) newValue
    .ok ⟨root⟩

def rootHash (host : Host) (trie : MerkleTrie) : Outcome TrieError B256 :=
  match trie.root with
  | none => .ok (host.keccak256 [0x80])
  | some node => do
    match ← encodeNode host node with
    | .inline bytes => .ok (host.keccak256 bytes)
    | .hash digest => .ok digest

/-- A sequence of `insert` calls, ending at the first failure. -/
def insertMany (trie : MerkleTrie) (entries : List (Bytes × Bytes)) : Outcome TrieError MerkleTrie :=
  entries.foldlM (fun trie entry => trie.insert entry.1 entry.2) trie

end MerkleTrie

mutual
/-- The pairs of a path from here and the value stored at its end. -/
def nodeContents : TrieNode → List (List UInt8 × Bytes)
  | .leaf remainingNibbles value => [(remainingNibbles, value)]
  | .extension sharedNibbles child =>
    (nodeContents child).map fun entry => (sharedNibbles ++ entry.1, entry.2)
  | .branch children value =>
    (value.map fun held => (([] : List UInt8), held)).toList ++
      (List.finRange 16).flatMap fun i =>
        (slotContents (children i)).map fun entry => (UInt8.ofNat i.val :: entry.1, entry.2)

def slotContents : Option TrieNode → List (List UInt8 × Bytes)
  | none => []
  | some node => nodeContents node
end

/-- The entries of a trie under their paths from the root. -/
def MerkleTrie.contents (trie : MerkleTrie) : List (List UInt8 × Bytes) := slotContents trie.root

end MiniEthNode
