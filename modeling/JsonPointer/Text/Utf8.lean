/-!
# Decoding UTF-8

The decoder is a machine that takes one byte at a time. Its state is the sequence it is in the
middle of, if any: the bits read so far, how many bytes are still to come, and the range in which
the next byte must lie. That range is what rules out overlong forms, surrogates and numbers past
the last code point, so a sequence that completes always names a character.

A byte that does not continue the open sequence ends it as malformed and is then looked at afresh.
One malformed sequence is one `none` in the answer: `lossy` puts a replacement character for each,
`decode?` refuses the text.
-/

namespace JsonPointer
namespace Utf8

/-- A sequence of which `pending + 1` bytes are still to come. -/
structure Open where
  /-- The bits read so far. -/
  bits : Nat
  /-- The number of bytes that follow the next one. -/
  pending : Nat
  /-- The least value that the next byte may have. -/
  low : Nat
  /-- The greatest value that the next byte may have. -/
  high : Nat
  deriving DecidableEq, Repr

/-- The state of the decoder: between characters, or inside a sequence. -/
abbrev State := Option Open

/-- The character, or the malformed sequence, that a step completes. -/
abbrev Output := List (Option Char)

/-- Look at `byte` between two characters: it is a character of its own, it opens a sequence, or it
can start nothing. -/
def start (byte : Nat) : Output × State :=
  if byte < 0x80 then ([some (Char.ofNat byte)], none)
  else if byte < 0xc2 then ([none], none)
  else if byte < 0xe0 then ([], some ⟨byte - 0xc0, 0, 0x80, 0xbf⟩)
  else if byte < 0xf0 then
    ([], some ⟨byte - 0xe0, 1, if byte = 0xe0 then 0xa0 else 0x80,
      if byte = 0xed then 0x9f else 0xbf⟩)
  else if byte < 0xf5 then
    ([], some ⟨byte - 0xf0, 2, if byte = 0xf0 then 0x90 else 0x80,
      if byte = 0xf4 then 0x8f else 0xbf⟩)
  else ([none], none)

/-- Look at the next byte. -/
def step (state : State) (byte : Nat) : Output × State :=
  match state with
  | none => start byte
  | some seq =>
    if seq.low ≤ byte ∧ byte ≤ seq.high then
      let bits := seq.bits * 64 + (byte - 0x80)
      match seq.pending with
      | 0 => ([some (Char.ofNat bits)], none)
      | pending + 1 => ([], some ⟨bits, pending, 0x80, 0xbf⟩)
    else
      let (output, next) := start byte
      (none :: output, next)

/-- The end of the bytes: a sequence that is still open is malformed. -/
def finish : State → Output
  | none => []
  | some _ => [none]

/-- Decode `bytes` from `state` on. -/
def run (state : State) : List UInt8 → Output
  | [] => finish state
  | byte :: bytes =>
    let (output, next) := step state byte.toNat
    output ++ run next bytes

def replacement : Char := Char.ofNat 0xfffd

/-- The characters of an output, the replacement character where it has a malformed sequence. -/
def lossy (output : Output) : List Char := output.map (·.getD replacement)

/-- The text that `bytes` spell, if no sequence in them is malformed. -/
def decode? (bytes : List UInt8) : Option (List Char) := (run none bytes).mapM id

end Utf8
end JsonPointer
