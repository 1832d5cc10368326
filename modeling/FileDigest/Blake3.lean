import FileDigest.Bytes.Basic

/-!
# BLAKE3

The 32-byte hash of a byte string. The input is cut into chunks of 1024 bytes
and these into blocks of 64; the chunks are the leaves of a binary tree whose
left subtrees are full. Every node is a last compression that has not been run
yet: run plainly it gives the chaining value for the node above, and run with
the root flag it gives the hash.

The tree is built level by level. Neighbours are paired from the left and a last
node without a partner moves up unchanged, which gives exactly the tree with
full left subtrees.
-/

namespace FileDigest.Blake3

/-- The eight words of a chaining value. -/
structure Chain where
  (a b c d e f g h : UInt32)
deriving DecidableEq

abbrev Block := Vector UInt32 16

/-- The initial chaining value. -/
def iv : Chain :=
  ⟨0x6a09e667, 0xbb67ae85, 0x3c6ef372, 0xa54ff53a, 0x510e527f, 0x9b05688c,
    0x1f83d9ab, 0x5be0cd19⟩

def chunkStart : UInt32 := 1
def chunkEnd : UInt32 := 2
def parent : UInt32 := 4
def root : UInt32 := 8

def rotate (x : UInt32) (n : UInt32) : UInt32 :=
  (x >>> n) ||| (x <<< (32 - n))

/-- The sixteen words that a compression works on. -/
structure Lanes where
  (v0 v1 v2 v3 v4 v5 v6 v7 v8 v9 v10 v11 v12 v13 v14 v15 : UInt32)

structure Quad where
  (a b c d : UInt32)

@[inline] def mix (q : Quad) (x y : UInt32) : Quad :=
  let a := q.a + q.b + x
  let d := rotate (q.d ^^^ a) 16
  let c := q.c + d
  let b := rotate (q.b ^^^ c) 12
  let a := a + b + y
  let d := rotate (d ^^^ a) 8
  let c := c + d
  let b := rotate (b ^^^ c) 7
  ⟨a, b, c, d⟩

/-- One round: the four columns of the lanes, then the four diagonals. -/
def mixAll (v : Lanes) (m : Block) : Lanes :=
  let c0 := mix ⟨v.v0, v.v4, v.v8, v.v12⟩ m[0] m[1]
  let c1 := mix ⟨v.v1, v.v5, v.v9, v.v13⟩ m[2] m[3]
  let c2 := mix ⟨v.v2, v.v6, v.v10, v.v14⟩ m[4] m[5]
  let c3 := mix ⟨v.v3, v.v7, v.v11, v.v15⟩ m[6] m[7]
  let d0 := mix ⟨c0.a, c1.b, c2.c, c3.d⟩ m[8] m[9]
  let d1 := mix ⟨c1.a, c2.b, c3.c, c0.d⟩ m[10] m[11]
  let d2 := mix ⟨c2.a, c3.b, c0.c, c1.d⟩ m[12] m[13]
  let d3 := mix ⟨c3.a, c0.b, c1.c, c2.d⟩ m[14] m[15]
  ⟨d0.a, d1.a, d2.a, d3.a, d3.b, d0.b, d1.b, d2.b,
    d2.c, d3.c, d0.c, d1.c, d1.d, d2.d, d3.d, d0.d⟩

/-- The message words in the order of the next round. -/
def permute (m : Block) : Block :=
  #v[m[2], m[6], m[3], m[10], m[7], m[0], m[4], m[13],
    m[1], m[11], m[12], m[5], m[9], m[14], m[15], m[8]]

/-- The given number of rounds, each with the message permuted once more. -/
def rounds : Nat → Lanes → Block → Lanes
  | 0, v, _ => v
  | n + 1, v, m => rounds n (mixAll v m) (permute m)

/-- A compression that is still to be run. -/
structure Node where
  chain : Chain
  block : Block
  /-- The number of the chunk, zero above the chunks. -/
  counter : UInt64
  /-- How many bytes of the block belong to the message. -/
  length : UInt32
  flags : UInt32

def Node.compress (n : Node) (extra : UInt32) : Chain :=
  let k := n.chain
  let v := rounds 7
    ⟨k.a, k.b, k.c, k.d, k.e, k.f, k.g, k.h, iv.a, iv.b, iv.c, iv.d,
      n.counter.toUInt32, (n.counter >>> 32).toUInt32, n.length,
      n.flags ||| extra⟩ n.block
  ⟨v.v0 ^^^ v.v8, v.v1 ^^^ v.v9, v.v2 ^^^ v.v10, v.v3 ^^^ v.v11,
    v.v4 ^^^ v.v12, v.v5 ^^^ v.v13, v.v6 ^^^ v.v14, v.v7 ^^^ v.v15⟩

def byteAt (input : ByteArray) (i : Nat) : UInt32 :=
  if h : i < input.size then input[i].toUInt32 else 0

def wordAt (input : ByteArray) (i : Nat) : UInt32 :=
  byteAt input i ||| byteAt input (i + 1) <<< 8 ||| byteAt input (i + 2) <<< 16
    ||| byteAt input (i + 3) <<< 24

def blockAt (input : ByteArray) (start : Nat) : Block :=
  Vector.ofFn fun i => wordAt input (start + 4 * i.val)

/-- The node of the chunk with a number. Its blocks are chained, and the last
one is left to be run. -/
def chunk (input : ByteArray) (number : Nat) : Node :=
  let start := 1024 * number
  let size := min 1024 (input.size - start)
  let last := (size - 1) / 64
  let counter := UInt64.ofNat number
  let flags (i : Nat) : UInt32 := if i = 0 then chunkStart else 0
  let chain := (List.range last).foldl (fun chain i =>
    Node.compress ⟨chain, blockAt input (start + 64 * i), counter, 64,
      flags i⟩ 0) iv
  { chain
    block := blockAt input (start + 64 * last)
    counter
    length := UInt32.ofNat (size - 64 * last)
    flags := flags last ||| chunkEnd }

def join (left right : Node) : Node :=
  let l := left.compress 0
  let r := right.compress 0
  { chain := iv
    block := #v[l.a, l.b, l.c, l.d, l.e, l.f, l.g, l.h, r.a, r.b, r.c, r.d, r.e,
      r.f, r.g, r.h]
    counter := 0
    length := 64
    flags := parent }

def pairUp : List Node → List Node
  | left :: right :: rest => join left right :: pairUp rest
  | rest => rest

theorem length_pairUp_le : ∀ nodes : List Node,
    (pairUp nodes).length ≤ nodes.length
  | [] => Nat.le_refl _
  | [_] => Nat.le_refl _
  | _ :: _ :: rest => by
      have := length_pairUp_le rest
      simp only [pairUp, List.length_cons]
      omega

def top (first : Node) : List Node → Node
  | [] => first
  | second :: rest => top (join first second) (pairUp rest)
termination_by rest => rest.length
decreasing_by
  have := length_pairUp_le rest
  simp only [List.length_cons]
  omega

def wordBytes (w : UInt32) : Bytes :=
  Bytes.littleEndian 4 w.toNat

def Chain.bytes (k : Chain) : Bytes :=
  [k.a, k.b, k.c, k.d, k.e, k.f, k.g, k.h].flatMap wordBytes

def hash (input : Bytes) : Bytes :=
  let bytes := input.toArray
  let chunks := (bytes.size + 1023) / 1024
  let later := (List.range (chunks - 1)).map fun i => chunk bytes (i + 1)
  ((top (chunk bytes 0) later).compress root).bytes

@[simp] theorem length_hash (input : Bytes) : (hash input).length = 32 := by
  simp [hash, Chain.bytes, wordBytes]

end FileDigest.Blake3
