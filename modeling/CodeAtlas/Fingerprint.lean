import CodeAtlas.Json.Printer
/-!
# Fingerprints

The fingerprint of a file is the BLAKE3 hash of its bytes. Bytes are cut into chunks and chunks into blocks; a block is mixed
into a chaining value by `compress`. Two subtrees are joined by hashing their chaining values, where the left one holds as many chunks as the
largest power of two below the whole allows. The last compression is marked as the root.
-/

namespace CodeAtlas

namespace Fingerprint

/-- Words of the state. -/
abbrev Words := Array UInt32

/-- The word at an index; there are no words beyond the end. -/
def word (ws : Words) (i : Nat) : UInt32 := ws.getD i 0

/-- The initial chaining value. -/
def initial : Words :=
  #[0x6A09E667, 0xBB67AE85, 0x3C6EF372, 0xA54FF53A, 0x510E527F, 0x9B05688C, 0x1F83D9AB, 0x5BE0CD19]

/-- The order of message words from one round to the next. -/
def permutation : List Nat := [2, 6, 3, 10, 7, 0, 4, 13, 1, 11, 12, 5, 9, 14, 15, 8]

/-- The number of rounds. -/
def rounds : Nat := 7

/-- Marks the first block of a chunk. -/
def chunkStart : UInt32 := 1

/-- Marks the last block of a chunk. -/
def chunkEnd : UInt32 := 2

/-- Marks a block that joins two subtrees. -/
def parent : UInt32 := 4

/-- Marks the last compression of all. -/
def root : UInt32 := 8

/-- Bytes of a block. -/
def blockSize : Nat := 64

/-- Bytes of a chunk. -/
def chunkSize : Nat := 1024

/-- Rotation to the right. -/
def rotate (x : UInt32) (n : UInt32) : UInt32 := (x >>> n) ||| (x <<< (32 - n))

/-- Mixes two message words into four words of the state. -/
def mix (s : Words) (a b c d : Nat) (x y : UInt32) : Words :=
  let va := word s a + word s b + x
  let vd := rotate (word s d ^^^ va) 16
  let vc := word s c + vd
  let vb := rotate (word s b ^^^ vc) 12
  let va := va + vb + y
  let vd := rotate (vd ^^^ va) 8
  let vc := vc + vd
  let vb := rotate (vb ^^^ vc) 7
  (((s.setIfInBounds a va).setIfInBounds b vb).setIfInBounds c vc).setIfInBounds d vd

/-- The places that are mixed in a round: columns first, then diagonals. -/
def places : List (Nat × Nat × Nat × Nat) :=
  [(0, 4, 8, 12), (1, 5, 9, 13), (2, 6, 10, 14), (3, 7, 11, 15),
    (0, 5, 10, 15), (1, 6, 11, 12), (2, 7, 8, 13), (3, 4, 9, 14)]

/-- One round; the message words are used in pairs. -/
def mixAll (m : Words) : Nat → List (Nat × Nat × Nat × Nat) → Words → Words
  | _, [], s => s
  | i, (a, b, c, d) :: rest, s => mixAll m (i + 2) rest (mix s a b c d (word m i) (word m (i + 1)))

/-- The message words in the order of the next round. -/
def permute (m : Words) : Words := (permutation.map (word m)).toArray

/-- A number of rounds. -/
def mixRounds : Nat → Words → Words → Words
  | 0, _, s => s
  | n + 1, m, s => mixRounds n (permute m) (mixAll m 0 places s)

/-- A compression that has not been done yet: chaining value, block, counter, number of bytes in the block, and marks. -/
structure Node where
  chain : Words
  block : Words
  counter : Nat
  size : Nat
  marks : UInt32

/-- Does a compression with further marks and gives the first half of the state, which is the next chaining value. -/
def compress (n : Node) (marks : UInt32) : Words :=
  let s := n.chain ++ initial.extract 0 4 ++
    #[n.counter.toUInt32, (n.counter >>> 32).toUInt32, n.size.toUInt32, n.marks ||| marks]
  let s := mixRounds rounds n.block s
  ((List.range 8).map fun i => word s i ^^^ word s (i + 8)).toArray

/-- The words of a block, least byte first, with zeros after its end. -/
def blockWords : Nat → List UInt8 → List UInt32
  | 0, _ => []
  | n + 1, bs =>
    let byte (i : Nat) : UInt32 := (bs.getD i 0).toUInt32
    (byte 0 ||| (byte 1 <<< 8) ||| (byte 2 <<< 16) ||| (byte 3 <<< 24)) :: blockWords n (bs.drop 4)

/-- Cuts a list into pieces of a size; an empty list is one empty piece. -/
def pieces {α : Type} (size : Nat) (xs : List α) : List (List α) :=
  if _h : size = 0 ∨ xs.length ≤ size then [xs]
  else xs.take size :: pieces size (xs.drop size)
termination_by xs.length
decreasing_by
  simp only [List.length_drop]
  omega

/-- Takes in the blocks of a chunk; the last one is left to be compressed. -/
def chunkFrom (counter : Nat) : Words → UInt32 → List (List UInt8) → Node
  | chain, marks, [] => ⟨chain, (blockWords 16 []).toArray, counter, 0, marks ||| chunkEnd⟩
  | chain, marks, [last] => ⟨chain, (blockWords 16 last).toArray, counter, last.length, marks ||| chunkEnd⟩
  | chain, marks, block :: rest =>
    let node : Node := ⟨chain, (blockWords 16 block).toArray, counter, block.length, marks⟩
    chunkFrom counter (compress node 0) 0 rest

/-- The node of a chunk. -/
def chunk (counter : Nat) (bs : List UInt8) : Node := chunkFrom counter initial chunkStart (pieces blockSize bs)

/-- The node that joins two. -/
def join (left right : Node) : Node :=
  ⟨initial, compress left 0 ++ compress right 0, 0, blockSize, parent⟩

/-- The largest power of two below `n`, for `n` above one. -/
def leftCount (n : Nat) : Nat := 1 <<< (n - 1).log2

/-- The node of a list of chunks, where the first has a given number. `fuel` bounds the height. -/
def tree : Nat → Nat → List (List UInt8) → Node
  | _, counter, [] => chunk counter []
  | _, counter, [only] => chunk counter only
  | 0, counter, only :: _ => chunk counter only
  | fuel + 1, counter, chunks =>
    let n := leftCount chunks.length
    join (tree fuel counter (chunks.take n)) (tree fuel (counter + n) (chunks.drop n))

/-- The bytes of a word in hexadecimal, least byte first. -/
def wordText (w : UInt32) : List Char :=
  [0, 1, 2, 3].flatMap fun i =>
    let byte := (w.toNat >>> (8 * i)) % 256
    [Json.hexChar (byte / 16), Json.hexChar byte]

end Fingerprint

/-- The fingerprint of bytes, in hexadecimal. Halving the chunks ends within their number of steps. -/
def fingerprint (bytes : List UInt8) : String :=
  let chunks := Fingerprint.pieces Fingerprint.chunkSize bytes
  let node := Fingerprint.tree chunks.length 0 chunks
  String.ofList ((Fingerprint.compress node Fingerprint.root).toList.flatMap Fingerprint.wordText)

end CodeAtlas
