import CrossBuild.Archive.Bytes

/-!
Decompression of deflated data: blocks that are stored as they are or coded with Huffman codes, in
which lengths and distances repeat what was written before.
-/

namespace CrossBuild.Archive.Inflate

/-- Why decompression stops before the end of the last block. -/
inductive Fault where
  | truncated
  | corrupt
  deriving DecidableEq, Repr

/-- The data, the next bit to read and what is written so far. -/
structure State where
  data : ByteArray
  position : Nat
  out : ByteArray

/-- A step of decompression. What is written before a fault is kept. -/
abbrev Step := ExceptT Fault (StateM State)

def bit : Step Nat := do
  let s ← get
  if s.position < s.data.size * 8 then
    set { s with position := s.position + 1 }
    return Bytes.at? s.data (s.position / 8) >>> (s.position % 8) % 2
  else throw .truncated

/-- A number of so many bits, the least significant first. -/
def bits : Nat → Step Nat
  | 0 => return 0
  | n + 1 => do
    let low ← bit
    return low + 2 * (← bits n)

/-- A canonical Huffman code: how many symbols there are of each length from 1 on, and the symbols in
the order of their codes. -/
structure Code where
  counts : List Nat
  symbols : Array Nat

def longestCode : Nat := 15

/-- The symbols with codes of one length. -/
def symbolsOfLength (lengths : List Nat) (length : Nat) : List Nat :=
  lengths.zipIdx.filterMap fun (l, symbol) => if l == length then some symbol else none

def Code.ofLengths (lengths : List Nat) : Code :=
  let groups := (List.range longestCode).map fun n => symbolsOfLength lengths (n + 1)
  ⟨groups.map List.length, (groups.flatten).toArray⟩

/-- The share of all codes of the greatest length that a code uses. -/
def Code.share (c : Code) : Nat := c.counts.foldl (fun total count => (total + count) * 2) 0

/-- Whether every sequence of bits begins with a code, or there is at most one symbol. -/
def Code.isUsable (c : Code) : Bool := c.share == Nat.pow 2 (longestCode + 1) || c.symbols.size ≤ 1

/-- Reads bits until they are a code: `first` is the first code of the current length and `index` the
number of symbols with shorter codes. -/
def symbolFrom (symbols : Array Nat) : List Nat → Nat → Nat → Nat → Step Nat
  | [], _, _, _ => throw .corrupt
  | count :: counts, code, first, index => do
    let code := code + (← bit)
    if code < first + count then
      match symbols[index + (code - first)]? with
      | some symbol => return symbol
      | none => throw .corrupt
    else symbolFrom symbols counts (code * 2) ((first + count) * 2) (index + count)

def Code.symbol (c : Code) : Step Nat := symbolFrom c.symbols c.counts 0 0 0

def write (b : UInt8) : Step Unit := modify fun s => { s with out := s.out.push b }

/-- Repeats what was written some distance back; before the beginning there are zeros. -/
def repeatBack (distance : Nat) : Nat → Step Unit
  | 0 => return
  | n + 1 => do
    let out := (← get).out
    write (if distance ≤ out.size then (Bytes.at? out (out.size - distance)).toUInt8 else 0)
    repeatBack distance n

/-- Base values and numbers of further bits of the symbols for lengths. -/
def lengthTable : Array (Nat × Nat) := #[(3, 0), (4, 0), (5, 0), (6, 0), (7, 0), (8, 0), (9, 0), (10, 0),
  (11, 1), (13, 1), (15, 1), (17, 1), (19, 2), (23, 2), (27, 2), (31, 2), (35, 3), (43, 3), (51, 3), (59, 3),
  (67, 4), (83, 4), (99, 4), (115, 4), (131, 5), (163, 5), (195, 5), (227, 5), (258, 0)]

/-- The same of the symbols for distances. -/
def distanceTable : Array (Nat × Nat) := #[(1, 0), (2, 0), (3, 0), (4, 0), (5, 1), (7, 1), (9, 2), (13, 2),
  (17, 3), (25, 3), (33, 4), (49, 4), (65, 5), (97, 5), (129, 6), (193, 6), (257, 7), (385, 7), (513, 8),
  (769, 8), (1025, 9), (1537, 9), (2049, 10), (3073, 10), (4097, 11), (6145, 11), (8193, 12), (12289, 12),
  (16385, 13), (24577, 13)]

/-- The value of a symbol with its further bits. -/
def extended (table : Array (Nat × Nat)) (symbol : Nat) : Step Nat := do
  match table[symbol]? with
  | some (base, extra) => return base + (← bits extra)
  | none => throw .corrupt

/-- The symbols of a coded block up to its end. -/
def codedBlock (literals distances : Code) : Nat → Step Unit
  | 0 => throw .truncated
  | fuel + 1 => do
    let symbol ← literals.symbol
    if symbol < 256 then
      write symbol.toUInt8
      codedBlock literals distances fuel
    else if symbol == 256 then return
    else
      let length ← extended lengthTable (symbol - 257)
      let distance ← extended distanceTable (← distances.symbol)
      repeatBack distance length
      codedBlock literals distances fuel

def fixedLiterals : Code :=
  .ofLengths (List.replicate 144 8 ++ List.replicate 112 9 ++ List.replicate 24 7 ++ List.replicate 8 8)

def fixedDistances : Code := .ofLengths (List.replicate 32 5)

/-- The order in which the lengths of the code for lengths are written. -/
def lengthOrder : List Nat := [16, 17, 18, 0, 8, 7, 9, 6, 10, 5, 11, 4, 12, 3, 13, 2, 14, 1, 15]

/-- The lengths of `total` codes, some of them by repetition; `done` holds those read, last first. -/
def codeLengths (code : Code) (total : Nat) : Nat → List Nat → Step (List Nat)
  | 0, _ => throw .corrupt
  | fuel + 1, done => do
    if done.length > total then throw .corrupt
    else if done.length == total then return done.reverse
    else
      let symbol ← code.symbol
      if symbol < 16 then codeLengths code total fuel (symbol :: done)
      else if symbol == 16 then
        match done with
        | [] => throw .corrupt
        | last :: _ => codeLengths code total fuel (List.replicate (3 + (← bits 2)) last ++ done)
      else if symbol == 17 then codeLengths code total fuel (List.replicate (3 + (← bits 3)) 0 ++ done)
      else codeLengths code total fuel (List.replicate (11 + (← bits 7)) 0 ++ done)

def lengthsOfLengths : Nat → Step (List Nat)
  | 0 => return []
  | n + 1 => do
    let length ← bits 3
    return length :: (← lengthsOfLengths n)

/-- The lengths of the codes for lengths in the order of their symbols. -/
def inOrder (lengths : List Nat) : List Nat :=
  (List.range 19).map fun symbol =>
    ((lengthOrder.zip lengths).find? (·.1 == symbol)).elim 0 (·.2)

/-- A block whose codes are written before it. -/
def dynamicBlock (fuel : Nat) : Step Unit := do
  let literalCount := 257 + (← bits 5)
  let distanceCount := 1 + (← bits 5)
  let lengths ← lengthsOfLengths (4 + (← bits 4))
  if literalCount > 286 || distanceCount > 30 then throw .corrupt
  let code := Code.ofLengths (inOrder lengths)
  if code.share != Nat.pow 2 (longestCode + 1) then throw .corrupt
  let all ← codeLengths code (literalCount + distanceCount) (literalCount + distanceCount + 1) []
  let literals := Code.ofLengths (all.take literalCount)
  let distances := Code.ofLengths (all.drop literalCount)
  if literals.isUsable && distances.isUsable then codedBlock literals distances fuel
  else throw .corrupt

/-- Bytes as they are. -/
def storedBytes : Nat → Step Unit
  | 0 => return
  | n + 1 => do
    let b ← bits 8
    write b.toUInt8
    storedBytes n

/-- A block of bytes as they are, whose length is written twice, the second time inverted. -/
def storedBlock : Step Unit := do
  modify fun s => { s with position := (s.position + 7) / 8 * 8 }
  let length ← bits 16
  let inverted ← bits 16
  if length + inverted == 65535 then storedBytes length else throw .corrupt

/-- Blocks up to the one marked as the last. -/
def blocks (fuel : Nat) : Nat → Step Unit
  | 0 => throw .truncated
  | n + 1 => do
    let isLast ← bit
    match ← bits 2 with
    | 0 => storedBlock
    | 1 => codedBlock fixedLiterals fixedDistances fuel
    | 2 => dynamicBlock fuel
    | _ => throw .corrupt
    if isLast == 1 then return else blocks fuel n

/-- Data is handed on in windows; of the window that a fault is in nothing is. -/
def windowSize : Nat := 32768

/-- What data from a place on decompresses to, and where it ends, if it ends well. -/
def inflate (data : ByteArray) (start : Nat) : ByteArray × Option Nat :=
  let fuel := data.size * 8 + 1
  match (blocks fuel fuel) ⟨data, start * 8, .empty⟩ with
  | (.ok (), s) => (s.out, some ((s.position + 7) / 8))
  | (.error .truncated, s) => (s.out, none)
  | (.error .corrupt, s) => (s.out.extract 0 (s.out.size / windowSize * windowSize), none)

end CrossBuild.Archive.Inflate
