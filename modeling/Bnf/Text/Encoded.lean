import Bnf.Text.Pieces

/-!
# Encoded text that is read in chunks

A file that is encoded in UTF-8 is decoded chunk by chunk. A character may be unfinished at the end
of a chunk, and a carriage return may be the first half of a line end there. If the encoding is
broken somewhere, the lines that were complete before the broken chunk have been read all the same.
-/

namespace Bnf.Text

/-- The number of bytes that are decoded at a time. -/
def chunkSize : Nat := 8192

/-- Whether bytes are the beginning of the encoding of a character. It is enough to try the smallest
and the largest bytes that can follow. -/
def isUnfinished (bytes : List UInt8) : Bool :=
  [0x80, 0xBF].any fun filling => [1, 2, 3].any fun count =>
    (String.fromUTF8? (ByteArray.mk (bytes ++ List.replicate count filling).toArray)).any
      (·.length = 1)

/-- The text that bytes encode, apart from a character that is unfinished at their end. -/
def decodeStart? (bytes : ByteArray) : Option String :=
  [0, 1, 2, 3].findSome? fun left =>
    let finish := bytes.size - left
    if left = 0 ∨ isUnfinished (bytes.extract finish bytes.size).toList then
      String.fromUTF8? (bytes.extract 0 finish)
    else none

/-- The text that has been decoded before the first chunk that cannot be decoded. The end of the
bytes counts as a chunk of its own, at which no character may be unfinished. -/
def decodedChunks (bytes : ByteArray) : String :=
  let ends := (List.range (bytes.size / chunkSize + 1)).map (· * chunkSize) ++ [bytes.size]
  (ends.reverse.findSome? fun finish => decodeStart? (bytes.extract 0 finish)).getD ""

/-- The lines of the beginning of a text that are complete whatever follows. -/
def completeLines (text : List Char) : List (List Char) :=
  let text := if text.getLast? = some '\r' then text.dropLast else text
  lines ((unifyLineEnds text).reverse.dropWhile (· ≠ '\n')).reverse

end Bnf.Text
