/-!
# Names from bytes

Bytes that are not the encoding of any character do not stop the decoding. Every
longest run of bytes that begins an encoding and breaks off, and every byte that
begins none, is decoded as one replacement character.
-/
namespace DiceBot

def replacement : Char := '\uFFFD'

/-- An encoding that has begun: the bits so far, the least and the greatest byte that
may come next, and how many bytes follow after that one. -/
structure Begun where
  bits : Nat
  low : Nat
  high : Nat
  more : Nat
  deriving DecidableEq, Repr

/-- What a byte begins, if it is the first of several. The second byte is restricted
where it would encode a surrogate, a number too large or a shorter encoding. -/
def Begun.ofFirst? (b : Nat) : Option Begun :=
  if b < 0xC2 then none
  else if b < 0xE0 then some ⟨b - 0xC0, 0x80, 0xBF, 0⟩
  else if b = 0xE0 then some ⟨0x0, 0xA0, 0xBF, 1⟩
  else if b = 0xED then some ⟨0xD, 0x80, 0x9F, 1⟩
  else if b < 0xF0 then some ⟨b - 0xE0, 0x80, 0xBF, 1⟩
  else if b = 0xF0 then some ⟨0, 0x90, 0xBF, 2⟩
  else if b < 0xF4 then some ⟨b - 0xF0, 0x80, 0xBF, 2⟩
  else if b = 0xF4 then some ⟨4, 0x80, 0x8F, 2⟩
  else none

/-- The characters that a byte completes, and what it begins, where nothing has begun. -/
def decodeFirst (b : Nat) : List Char × Option Begun :=
  if b < 0x80 then ([Char.ofNat b], none)
  else match Begun.ofFirst? b with
    | some begun => ([], some begun)
    | none => ([replacement], none)

/-- The same where an encoding has begun; a byte that cannot follow begins anew. -/
def Begun.decodeNext (p : Begun) (b : Nat) : List Char × Option Begun :=
  if p.low ≤ b ∧ b ≤ p.high then
    let bits := p.bits * 64 + (b - 0x80)
    match p.more with
    | 0 => ([Char.ofNat bits], none)
    | more + 1 => ([], some ⟨bits, 0x80, 0xBF, more⟩)
  else
    let (chars, begun) := decodeFirst b
    (replacement :: chars, begun)

def decodeAfter : Option Begun → List UInt8 → List Char
  | none, [] => []
  | some _, [] => [replacement]
  | begun, b :: bytes =>
      let (chars, begun) := match begun with
        | none => decodeFirst b.toNat
        | some p => p.decodeNext b.toNat
      chars ++ decodeAfter begun bytes

/-- The text that bytes encode, with replacements where they encode nothing. -/
def decodeName (bytes : List UInt8) : String := String.ofList (decodeAfter none bytes)

end DiceBot
