import Multiplex.Bytes

/-! # Huffman-coded strings

Strings in header blocks may be written in a fixed prefix code. The code is canonical: given how many
bits each symbol takes, the codes of one length are consecutive numbers in the order of the symbols,
and each length goes on where the shorter one stopped. So the lengths alone (`lengths`) determine the
code, and reading walks down the tree of its codes. -/

namespace Multiplex.Hpack

/-- Why a Huffman-coded string cannot be read. -/
inductive HuffmanError where
  | paddingTooLarge
  | invalidPadding
  | endOfString
  deriving DecidableEq

namespace Huffman

/-- The symbol that ends a string and must not occur in one. -/
def endSymbol : Nat := 256

/-- The symbols by the length of their codes, each length with its symbols in order. -/
def lengths : List (Nat × List Nat) :=
  [(5, [48, 49, 50, 97, 99, 101, 105, 111, 115, 116]),
   (6, [32, 37, 45, 46, 47, 51, 52, 53, 54, 55, 56, 57, 61, 65, 95, 98, 100, 102, 103, 104, 108,
        109, 110, 112, 114, 117]),
   (7, [58, 66, 67, 68, 69, 70, 71, 72, 73, 74, 75, 76, 77, 78, 79, 80, 81, 82, 83, 84, 85, 86, 87,
        89, 106, 107, 113, 118, 119, 120, 121, 122]),
   (8, [38, 42, 44, 59, 88, 90]),
   (10, [33, 34, 40, 41, 63]),
   (11, [39, 43, 124]),
   (12, [35, 62]),
   (13, [0, 36, 64, 91, 93, 126]),
   (14, [94, 125]),
   (15, [60, 96, 123]),
   (19, [92, 195, 208]),
   (20, [128, 130, 131, 162, 184, 194, 224, 226]),
   (21, [153, 161, 167, 172, 176, 177, 179, 209, 216, 217, 227, 229, 230]),
   (22, [129, 132, 133, 134, 136, 146, 154, 156, 160, 163, 164, 169, 170, 173, 178, 181, 185, 186,
         187, 189, 190, 196, 198, 228, 232, 233]),
   (23, [1, 135, 137, 138, 139, 140, 141, 143, 147, 149, 150, 151, 152, 155, 157, 158, 165, 166,
         168, 174, 175, 180, 182, 183, 188, 191, 197, 231, 239]),
   (24, [9, 142, 144, 145, 148, 159, 171, 206, 215, 225, 236, 237]),
   (25, [199, 207, 234, 235]),
   (26, [192, 193, 200, 201, 202, 205, 210, 213, 218, 219, 238, 240, 242, 243, 255]),
   (27, [203, 204, 211, 212, 214, 221, 222, 223, 241, 244, 245, 246, 247, 248, 250, 251, 252, 253,
         254]),
   (28, [2, 3, 4, 5, 6, 7, 8, 11, 12, 14, 15, 16, 17, 18, 19, 20, 21, 23, 24, 25, 26, 27, 28, 29, 30,
         31, 127, 220, 249]),
   (30, [10, 13, 22, 256])]

/-- The `length` low bits of `n`, the highest first. -/
def bits : (length n : Nat) → List Bool
  | 0, _ => []
  | length + 1, n => n.testBit length :: bits length n

/-- Each symbol with its code, when the next free code is `next` at length `length`. -/
def codesFrom (length next : Nat) : List (Nat × List Nat) → List (Nat × List Bool)
  | [] => []
  | (longer, symbols) :: rest =>
    let first := next <<< (longer - length)
    symbols.mapIdx (fun i symbol => (symbol, bits longer (first + i))) ++
      codesFrom longer (first + symbols.length) rest

/-- Each symbol with its code. -/
def codes : List (Nat × List Bool) := codesFrom 0 0 lengths

/-- A tree of codes: the left child goes on with the bit 0, the right child with the bit 1. -/
inductive Tree where
  | empty
  | leaf (symbol : Nat)
  | node (zero one : Tree)

namespace Tree

/-- Hangs `symbol` at the end of the path `code`. -/
def insert (symbol : Nat) : List Bool → Tree → Tree
  | [], _ => leaf symbol
  | false :: code, node zero one => node (insert symbol code zero) one
  | true :: code, node zero one => node zero (insert symbol code one)
  | false :: code, _ => node (insert symbol code empty) empty
  | true :: code, _ => node empty (insert symbol code empty)

/-- The child that a bit leads to. -/
def child (bit : Bool) : Tree → Tree
  | node zero one => if bit then one else zero
  | _ => empty

end Tree

/-- The tree of all codes. -/
def tree : Tree := codes.foldl (fun t c => t.insert c.1 c.2) .empty

/-- Whether the bits after the last symbol are a padding: fewer than eight bits, all of them ones. -/
def checkPadding (path : List Bool) : Except HuffmanError Unit :=
  if 7 < path.length then .error .paddingTooLarge
  else if path.all (· == true) then .ok ()
  else .error .invalidPadding

/-- Reads bits from the place `here` of the tree, which `path` leads to from the last symbol; the
    bytes read so far are in `done`, the latest first. -/
def readBits (here : Tree) (path : List Bool) (done : Bytes) : List Bool → Except HuffmanError Bytes
  | [] => (checkPadding path).map fun _ => done.reverse
  | bit :: rest =>
    match here.child bit with
    | .leaf symbol =>
      if symbol = endSymbol then .error .endOfString
      else readBits tree [] (UInt8.ofNat symbol :: done) rest
    | next => readBits next (bit :: path) done rest

/-- The bytes that a Huffman-coded string stands for. -/
def decode (coded : Bytes) : Except HuffmanError Bytes :=
  readBits tree [] [] (coded.flatMap fun b => bits 8 b.toNat)

end Huffman

end Multiplex.Hpack
