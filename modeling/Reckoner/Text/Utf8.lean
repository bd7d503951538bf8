/-!
# Utf8 — bytes and characters

The decoder is a machine that takes one byte at a time, so cutting the bytes into chunks changes
nothing. It yields a character, or `none` for a maximal part that is malformed: the longest start of
a character that the next byte does not continue, or one byte that starts none.

* `decodeLossy` puts U+FFFD for each malformed part.
* `decode?` refuses the whole if any part is malformed.
-/

namespace Reckoner.Text.Utf8

/-- Where the decoder stands: `missing` further bytes are due, the next one between `low` and
`high`, and `sofar` holds the bits read. With nothing missing it stands between two characters. -/
structure Decoder where
  missing : Nat
  sofar : Nat
  low : Nat
  high : Nat

namespace Decoder

/-- Between two characters. -/
def ready : Decoder := ⟨0, 0, 0, 0⟩

/-- What a byte does that starts a character, and the character or malformed part that it is on its
own. The bounds of the second byte exclude overlong forms, surrogates and what is above U+10FFFF. -/
def start (byte : Nat) : Decoder × List (Option Char) :=
  if byte < 0x80 then (ready, [some (Char.ofNat byte)])
  else if 0xC2 ≤ byte ∧ byte ≤ 0xDF then (⟨1, byte - 0xC0, 0x80, 0xBF⟩, [])
  else if byte = 0xE0 then (⟨2, 0, 0xA0, 0xBF⟩, [])
  else if byte = 0xED then (⟨2, 0xD, 0x80, 0x9F⟩, [])
  else if 0xE1 ≤ byte ∧ byte ≤ 0xEF then (⟨2, byte - 0xE0, 0x80, 0xBF⟩, [])
  else if byte = 0xF0 then (⟨3, 0, 0x90, 0xBF⟩, [])
  else if byte = 0xF4 then (⟨3, 4, 0x80, 0x8F⟩, [])
  else if 0xF1 ≤ byte ∧ byte ≤ 0xF3 then (⟨3, byte - 0xF0, 0x80, 0xBF⟩, [])
  else (ready, [none])

/-- What one byte does. A byte that does not continue the character ends a malformed part and is
looked at again as a start. -/
def step (d : Decoder) (byte : UInt8) : Decoder × List (Option Char) :=
  match d.missing with
  | 0 => start byte.toNat
  | missing + 1 =>
    if d.low ≤ byte.toNat ∧ byte.toNat ≤ d.high then
      let value := d.sofar * 64 + (byte.toNat - 0x80)
      if missing = 0 then (ready, [some (Char.ofNat value)])
      else (⟨missing, value, 0x80, 0xBF⟩, [])
    else
      -- The malformed part ends before this byte.
      let again := start byte.toNat
      (again.1, none :: again.2)

/-- What the end of the bytes yields: a character that is not complete is malformed. -/
def close (d : Decoder) : List (Option Char) := if d.missing = 0 then [] else [none]

end Decoder

/-- The parts of the bytes from a state on; `done` is what precedes them, last part first. -/
def partsFrom (d : Decoder) (done : List (Option Char)) : List UInt8 → List (Option Char)
  | [] => (d.close.reverse ++ done).reverse
  | byte :: rest =>
    let next := d.step byte
    partsFrom next.1 (next.2.reverse ++ done) rest

/-- The bytes as characters and malformed parts. -/
def parts (bytes : List UInt8) : List (Option Char) := partsFrom .ready [] bytes

/-- The bytes as characters, U+FFFD for each malformed part. -/
def decodeLossy (bytes : List UInt8) : List Char := (parts bytes).map (·.getD '\uFFFD')

/-- The bytes as characters, if no part is malformed. -/
def decode? (bytes : List UInt8) : Option (List Char) :=
  let found := parts bytes
  if found.all Option.isSome then some (found.filterMap id) else none

/-- The bytes of characters. -/
def encode (cs : List Char) : List UInt8 := cs.flatMap String.utf8EncodeChar

end Reckoner.Text.Utf8
