/-!
# UTF-8

Texts as bytes. `encode` writes code points, surrogates excepted; `pieces` reads any bytes at all,
splitting them into the characters they spell and the faults between them, so that the strict
reader `decode?`, the forgiving reader `decodeForgiving` and the position of the first fault all
come from one reading.
-/

namespace ScriptScrub

/-- The content of a file, or an encoded text. -/
abbrev Bytes := List UInt8

/-- A code point of a text that was not checked for unpaired surrogates. -/
abbrev CodePoint := Nat

namespace Text

/-- The code points that stand for no character of their own. -/
def isSurrogate (c : CodePoint) : Bool := 0xD800 ≤ c && c ≤ 0xDFFF

/-- The byte `0x80 + n % 64` that continues a character. -/
def tailByte (n : Nat) : UInt8 := UInt8.ofNat (0x80 + n % 64)

/-- The bytes of one code point. -/
def encodeCodePoint (c : CodePoint) : Bytes :=
  if c < 0x80 then [UInt8.ofNat c]
  else if c < 0x800 then [UInt8.ofNat (0xC0 + c / 64), tailByte c]
  else if c < 0x10000 then [UInt8.ofNat (0xE0 + c / 4096), tailByte (c / 64), tailByte c]
  else [UInt8.ofNat (0xF0 + c / 262144), tailByte (c / 4096), tailByte (c / 64), tailByte c]

/-- The bytes of a list of code points, unless one of them is a surrogate. -/
def encode? (text : List CodePoint) : Option Bytes :=
  if text.any isSurrogate then none else some (text.flatMap encodeCodePoint)

/-- The bytes of a list of characters. -/
def encodeChars (cs : List Char) : Bytes := cs.flatMap fun c => encodeCodePoint c.toNat

/-- The bytes of a text. -/
def encode (s : String) : Bytes := encodeChars s.toList

/-- Why a sequence of bytes spells no character. -/
inductive Utf8Fault where
  /-- No character begins with this byte. -/
  | badStart
  /-- The next byte does not continue the character. -/
  | badContinuation
  /-- The bytes end inside a character. -/
  | truncated
deriving Repr, DecidableEq

/-- What is wrong, in words. -/
def Utf8Fault.reason : Utf8Fault → String
  | .badStart => "invalid start byte"
  | .badContinuation => "invalid continuation byte"
  | .truncated => "unexpected end of data"

/-- One step of reading: a character, or a fault with the number of bytes that it covers. -/
inductive Piece where
  | char (c : Char)
  | fault (why : Utf8Fault) (width : Nat)
deriving Repr, DecidableEq

/-- The number of bytes of a character. -/
def width (c : CodePoint) : Nat :=
  if c < 0x80 then 1 else if c < 0x800 then 2 else if c < 0x10000 then 3 else 4

/-- The number of bytes that a piece was read from. -/
def Piece.width : Piece → Nat
  | .char c => Text.width c.toNat
  | .fault _ n => n

/-- Reads the remaining `count` bytes of a character whose value so far is `value`; `lo` and `hi`
bound the next of them, `taken` counts those read. -/
def continuation (value lo hi taken : Nat) : Nat → Bytes → Piece
  | 0, _ => .char (Char.ofNat value)
  | _ + 1, [] => .fault .truncated taken
  | count + 1, b :: rest =>
    if lo ≤ b.toNat ∧ b.toNat ≤ hi then
      continuation (value * 64 + (b.toNat - 0x80)) 0x80 0xBF (taken + 1) count rest
    else .fault .badContinuation taken

/-- The piece at the front of `first :: rest`. The bounds on the second byte leave out overlong
spellings, surrogates and values above the last code point. -/
def firstPiece (first : UInt8) (rest : Bytes) : Piece :=
  let b := first.toNat
  if b < 0x80 then .char (Char.ofNat b)
  else if b < 0xC2 then .fault .badStart 1
  else if b < 0xE0 then continuation (b - 0xC0) 0x80 0xBF 1 1 rest
  else if b < 0xF0 then
    continuation (b - 0xE0) (if b = 0xE0 then 0xA0 else 0x80) (if b = 0xED then 0x9F else 0xBF)
      1 2 rest
  else if b < 0xF5 then
    continuation (b - 0xF0) (if b = 0xF0 then 0x90 else 0x80) (if b = 0xF4 then 0x8F else 0xBF)
      1 3 rest
  else .fault .badStart 1

/-- The pieces of the bytes that follow the first `skip` ones. -/
def piecesAfter : Nat → Bytes → List Piece
  | _, [] => []
  | skip + 1, _ :: rest => piecesAfter skip rest
  | 0, b :: rest => firstPiece b rest :: piecesAfter ((firstPiece b rest).width - 1) rest

/-- The characters and faults that the bytes consist of. -/
def pieces (bytes : Bytes) : List Piece := piecesAfter 0 bytes

/-- The characters of `ps`, if it holds no fault. -/
def charsOf? : List Piece → Option (List Char)
  | [] => some []
  | .char c :: ps => (charsOf? ps).map (c :: ·)
  | .fault _ _ :: _ => none

/-- The characters that the bytes spell, if they spell nothing else. -/
def decodeChars? (bytes : Bytes) : Option (List Char) := charsOf? (pieces bytes)

/-- The text that the bytes spell, if they spell nothing else. -/
def decode? (bytes : Bytes) : Option String := (decodeChars? bytes).map String.ofList

/-- The text that the bytes spell, a replacement character standing for each fault. -/
def decodeForgiving (bytes : Bytes) : String :=
  String.ofList <| (pieces bytes).map fun
    | .char c => c
    | .fault _ _ => '\uFFFD'

/-- The first fault of `ps` with its position, counted from `at_`. -/
def firstFault? : Nat → List Piece → Option (Nat × Nat × Utf8Fault)
  | _, [] => none
  | pos, .char c :: ps => firstFault? (pos + width c.toNat) ps
  | pos, .fault why n :: _ => some (pos, n, why)

/-- The digit of a value below sixteen. -/
def hexDigit (n : Nat) : Char := "0123456789abcdef".toList.getD n '0'

/-- A byte as two hexadecimal digits. -/
def hexByte (b : UInt8) : String :=
  String.ofList [hexDigit (b.toNat / 16), hexDigit (b.toNat % 16)]

/-- The complaint about the first fault of `bytes`. -/
def faultMessage (bytes : Bytes) : String :=
  match firstFault? 0 (pieces bytes) with
  | none => ""
  | some (pos, n, why) =>
    let place :=
      if n ≤ 1 then s!"byte 0x{hexByte (bytes.getD pos 0)} in position {pos}"
      else s!"bytes in position {pos}-{pos + n - 1}"
    "'utf-8' codec can't decode " ++ place ++ ": " ++ why.reason

end Text

end ScriptScrub
