/-
# Deflated data

Data is deflated into blocks, either stored or written in two prefix codes: one for bytes and the
lengths of repetitions, one for how far back a repetition starts.  A code is given by the length of
each symbol's word; words of one length are in the order of their symbols.
-/

namespace ShaderFabric

namespace Deflate

/-! ## 1. Bits -/

/-- What is left to read: the bits of the byte begun, and the bytes after it. -/
structure Bits where
  held : List Bool
  rest : List UInt8

/-- Reading from the bits; nothing comes out of data that ends early or is not sound. -/
abbrev Reader := StateT Bits Option

/-- The next bit; a byte gives its lowest bit first. -/
def bit : Reader Bool := fun bits =>
  match bits with
  | ⟨b :: held, rest⟩ => some (b, ⟨held, rest⟩)
  | ⟨[], byte :: rest⟩ =>
    some (byte.toNat.testBit 0, ⟨(List.range' 1 7).map byte.toNat.testBit, rest⟩)
  | ⟨[], []⟩ => none

/-- A number of `count` bits, the lowest first. -/
def number : Nat → Reader Nat
  | 0 => return 0
  | count + 1 => do
    let low ← bit
    let high ← number count
    return low.toNat + 2 * high

/-- The next `count` bytes, after the byte begun. -/
def bytes (count : Nat) : Reader (List UInt8) := fun bits =>
  if bits.rest.length < count then none
  else some (bits.rest.take count, ⟨[], bits.rest.drop count⟩)

/-! ## 2. Prefix codes -/

/-- A code: how many words there are of each length from one on, and the symbols in the order of
their words. -/
structure Code where
  counts : List Nat
  symbols : Array Nat

namespace Code

/-- The lengths a word may have. -/
def wordLengths : List Nat := List.range' 1 15

/-- The code in which symbol `i` has a word of the `i`th length; zero stands for no word. -/
def ofLengths (lengths : List Nat) : Code where
  counts := wordLengths.map fun n => lengths.count n
  symbols :=
    (wordLengths.flatMap fun n =>
      lengths.zipIdx.filterMap fun (length, symbol) =>
        if length = n then some symbol else none).toArray

/-- Whether each sequence of bits starts with exactly one word. -/
def isFull (code : Code) : Bool :=
  let room := code.counts.foldl
    (fun room count => room.bind fun r => if count ≤ 2 * r then some (2 * r - count) else none)
    (some 1)
  room = some 0

/-- Whether the code has at most one word, and that of one bit. -/
def isSingle (code : Code) : Bool :=
  code.symbols.size = 0 || (code.symbols.size = 1 && code.counts.head? = some 1)

/-- Reads on in a word: `word` is what it has so far, `first` the first word of its length, and
`index` the place of that word's symbol. -/
def follow (symbols : Array Nat) : List Nat → Nat → Nat → Nat → Reader Nat
  | [], _, _, _ => failure
  | count :: counts, word, first, index => do
    let next := 2 * word + (← bit).toNat
    if next < first + count then
      let some symbol := symbols[index + (next - first)]? | failure
      return symbol
    else follow symbols counts next (2 * (first + count)) (index + count)

/-- The symbol of the next word. -/
def read (code : Code) : Reader Nat := follow code.symbols code.counts 0 0 0

end Code

/-! ## 3. Blocks -/

/-- The lengths of repetitions: the least of each symbol, and how many bits add to it. -/
def lengthRanges : List (Nat × Nat) :=
  [(3, 0), (4, 0), (5, 0), (6, 0), (7, 0), (8, 0), (9, 0), (10, 0), (11, 1), (13, 1), (15, 1),
    (17, 1), (19, 2), (23, 2), (27, 2), (31, 2), (35, 3), (43, 3), (51, 3), (59, 3), (67, 4),
    (83, 4), (99, 4), (115, 4), (131, 5), (163, 5), (195, 5), (227, 5), (258, 0)]

/-- How far back repetitions start, in the same form. -/
def distanceRanges : List (Nat × Nat) :=
  [(1, 0), (2, 0), (3, 0), (4, 0), (5, 1), (7, 1), (9, 2), (13, 2), (17, 3), (25, 3), (33, 4),
    (49, 4), (65, 5), (97, 5), (129, 6), (193, 6), (257, 7), (385, 7), (513, 8), (769, 8),
    (1025, 9), (1537, 9), (2049, 10), (3073, 10), (4097, 11), (6145, 11), (8193, 12), (12289, 12),
    (16385, 13), (24577, 13)]

/-- A number of a range. -/
def inRange (ranges : List (Nat × Nat)) (symbol : Nat) : Reader Nat := do
  let some (least, extra) := ranges[symbol]? | failure
  return least + (← number extra)

/-- Repeats `count` bytes from `distance` back; a byte just written may be repeated in turn. -/
def repeatBack (distance : Nat) : Nat → Array UInt8 → Option (Array UInt8)
  | 0, out => some out
  | count + 1, out =>
    if out.size < distance then none
    else out[out.size - distance]?.bind fun byte => repeatBack distance count (out.push byte)

/-- The symbol that ends a block. -/
def endOfBlock : Nat := 256

/-- The data of a block in two codes.  Every turn reads a bit, so there are no more turns than
bits. -/
def coded (literals distances : Code) : Nat → Array UInt8 → Reader (Array UInt8)
  | 0, _ => failure
  | turns + 1, out => do
    let symbol ← literals.read
    if symbol < endOfBlock then coded literals distances turns (out.push (UInt8.ofNat symbol))
    else if symbol = endOfBlock then return out
    else
      let count ← inRange lengthRanges (symbol - endOfBlock - 1)
      let distance ← inRange distanceRanges (← distances.read)
      let some longer := repeatBack distance count out | failure
      coded literals distances turns longer

/-- A stored block: its size, the size again with every bit changed, and the bytes. -/
def stored (out : Array UInt8) : Reader (Array UInt8) := do
  match ← bytes 4 with
  | [a, b, c, d] =>
    if c ≠ ~~~a ∨ d ≠ ~~~b then failure
    return out ++ (← bytes (a.toNat + 256 * b.toNat)).toArray
  | _ => failure

/-- The codes of a block that does not bring its own. -/
def commonCodes : Code × Code :=
  (Code.ofLengths (List.replicate 144 8 ++ List.replicate 112 9 ++ List.replicate 24 7
      ++ List.replicate 8 8),
    Code.ofLengths (List.replicate 30 5))

/-- The order in which a block gives the lengths of the code for lengths. -/
def lengthOrder : List Nat := [16, 17, 18, 0, 8, 7, 9, 6, 10, 5, 11, 4, 12, 3, 13, 2, 14, 1, 15]

/-- Reads lengths until there are `wanted`; every turn gives one or more. -/
def codeLengths (code : Code) (wanted : Nat) : Nat → List Nat → Reader (List Nat)
  | 0, lengths => if lengths.length = wanted then return lengths else failure
  | turns + 1, lengths =>
    if wanted ≤ lengths.length then codeLengths code wanted 0 lengths
    else do
      let symbol ← code.read
      let more ←
        if symbol < 16 then pure [symbol]
        else if symbol = 16 then
          match lengths.getLast? with
          | some last => (fun n => List.replicate (3 + n) last) <$> number 2
          | none => failure
        else if symbol = 17 then (fun n => List.replicate (3 + n) 0) <$> number 3
        else (fun n => List.replicate (11 + n) 0) <$> number 7
      codeLengths code wanted turns (lengths ++ more)

/-- The `count` numbers of three bits at the start of a block's codes. -/
def smallNumbers : Nat → Reader (List Nat)
  | 0 => return []
  | count + 1 => do
    let n ← number 3
    return n :: (← smallNumbers count)

/-- The codes a block brings. -/
def ownCodes : Reader (Code × Code) := do
  let literals := 257 + (← number 5)
  let distances := 1 + (← number 5)
  let given := 4 + (← number 4)
  let small ← smallNumbers given
  let named := lengthOrder.zip small
  let lengthCode := Code.ofLengths ((List.range 19).map fun n => (named.lookup n).getD 0)
  if !lengthCode.isFull ∨ 286 < literals ∨ 30 < distances then failure
  let lengths ← codeLengths lengthCode (literals + distances) (literals + distances) []
  let literalCode := Code.ofLengths (lengths.take literals)
  let distanceCode := Code.ofLengths (lengths.drop literals)
  if !literalCode.isFull ∨ (!distanceCode.isFull ∧ !distanceCode.isSingle) then failure
  return (literalCode, distanceCode)

/-- The data of blocks up to the last; every block starts with three bits. -/
def blocks (size : Nat) : Nat → Array UInt8 → Reader (Array UInt8)
  | 0, _ => failure
  | turns + 1, out => do
    let last ← bit
    let kind ← number 2
    let longer ←
      if kind = 0 then stored out
      else if kind = 1 then coded commonCodes.1 commonCodes.2 size out
      else if kind = 2 then do
        let codes ← ownCodes
        coded codes.1 codes.2 size out
      else failure
    if last then return longer else blocks size turns longer

/-- The data deflated at the start of bytes, and the bytes after it. -/
def inflate (data : List UInt8) : Option (List UInt8 × List UInt8) := do
  let size := 8 * data.length
  let (out, bits) ← (blocks size size #[]).run ⟨[], data⟩
  return (out.toList, bits.rest)

end Deflate

end ShaderFabric
