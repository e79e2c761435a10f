/-
Characters as UTF-8 bytes.

Bytes are read one character at a time. Where no character can be read, the bytes that could still have begun one are
taken together as one fault; strict reading fails at a fault, lenient reading puts the replacement character in its
place.
-/
namespace Corkboard.Utf8

def encode (cs : List Char) : List UInt8 := cs.flatMap String.utf8EncodeChar

def between (low high : Nat) (b : UInt8) : Bool := low ≤ b.toNat && b.toNat ≤ high

/-- a byte that continues a character -/
def continues (b : UInt8) : Bool := between 0x80 0xBF b

/-- the bounds of the byte after the first, where they are narrower or wider -/
def secondBounds (first : UInt8) : Nat × Nat :=
  if first = 0xE0 then (0xA0, 0xBF)
  else if first = 0xED then (0x80, 0x9F)
  else if first = 0xF0 then (0x90, 0xBF)
  else if first = 0xF4 then (0x80, 0x8F)
  else (0x80, 0xBF)

/-- the code point bits of a continuing byte -/
def low6 (b : UInt8) : Nat := b.toNat % 0x40

/-- how many further bytes a first byte calls for; none when it can begin no character -/
def following? (b : UInt8) : Option Nat :=
  if between 0 0x7F b then some 0
  else if between 0xC2 0xDF b then some 1
  else if between 0xE0 0xEF b then some 2
  else if between 0xF0 0xF4 b then some 3
  else none

/-- the bits of a first byte that is followed by `n` others -/
def highBits (n : Nat) (b : UInt8) : Nat :=
  match n with
  | 0 => b.toNat
  | 1 => b.toNat % 0x20
  | 2 => b.toNat % 0x10
  | _ => b.toNat % 0x08

/-- continuing bytes read into a code point; none at a byte that does not continue it -/
def continueWith (acc : Nat) : Nat → List UInt8 → Option Char × List UInt8
  | 0, bs => (some (.ofNat acc), bs)
  | _ + 1, [] => (none, [])
  | n + 1, b :: bs => if continues b then continueWith (acc * 0x40 + low6 b) n bs else (none, b :: bs)

/-- the first character or fault of a list of bytes, and the bytes after it -/
def next (b : UInt8) (bs : List UInt8) : Option Char × List UInt8 :=
  match following? b with
  | none => (none, bs)
  | some 0 => (some (.ofNat b.toNat), bs)
  | some (n + 1) =>
    match bs with
    | [] => (none, [])
    | c :: cs =>
      let (low, high) := secondBounds b
      if between low high c then continueWith (highBits (n + 1) b * 0x40 + low6 c) n cs else (none, c :: cs)

theorem length_continueWith (acc n : Nat) (bs : List UInt8) : (continueWith acc n bs).2.length ≤ bs.length := by
  induction n generalizing acc bs with
  | zero => simp [continueWith]
  | succ n ih =>
    cases bs with
    | nil => simp [continueWith]
    | cons b bs =>
      unfold continueWith
      split
      · exact Nat.le_succ_of_le (ih _ _)
      · simp

theorem length_next (b : UInt8) (bs : List UInt8) : (next b bs).2.length ≤ bs.length := by
  unfold next
  split
  · simp
  · simp
  · split
    · simp
    · dsimp only
      split
      · exact Nat.le_succ_of_le (length_continueWith _ _ _)
      · simp

/-- the characters and faults of a list of bytes -/
def chars : List UInt8 → List (Option Char)
  | [] => []
  | b :: bs =>
    have := length_next b bs
    (next b bs).1 :: chars (next b bs).2
  termination_by bs => bs.length

/-- the text of bytes without fault -/
def decode? (bs : List UInt8) : Option (List Char) := (chars bs).mapM id

/-- the text of any bytes -/
def decodeLenient (bs : List UInt8) : List Char := (chars bs).map fun c => c.getD (.ofNat 0xFFFD)

end Corkboard.Utf8
