/-
Percent encoding and form queries.

A percent sign with two hexadecimal digits stands for a byte; a broken escape stands for itself. A query is a list of
pairs between ampersands, each cut at its first equals sign, with a plus for a space; bytes that are no text are
replaced.
-/
import Corkboard.Json.Reader
import Corkboard.Web.Utf8

namespace Corkboard.Percent

/-- the bytes that percent-encoded characters stand for -/
def bytes : List Char → List UInt8
  | [] => []
  | '%' :: a :: b :: cs =>
    match Json.hexValue? a, Json.hexValue? b with
    | some x, some y => .ofNat (16 * x + y) :: bytes cs
    | _, _ => 0x25 :: bytes (a :: b :: cs)
  | c :: cs => String.utf8EncodeChar c ++ bytes cs

/-- the text of percent-encoded characters, if their bytes are one -/
def decode? (cs : List Char) : Option String := (Utf8.decode? (bytes cs)).map .ofList

/-- the text of one part of a form query -/
def formText (cs : List Char) : String :=
  .ofList (Utf8.decodeLenient (bytes (cs.map fun c => if c = '+' then ' ' else c)))

def formPair (cs : List Char) : String × String :=
  (formText (cs.takeWhile (· ≠ '=')), formText ((cs.dropWhile (· ≠ '=')).drop 1))

def formPairs (cs : List Char) : List (String × String) :=
  ((cs.splitOnP (· = '&')).filter (· ≠ [])).map formPair

end Corkboard.Percent
