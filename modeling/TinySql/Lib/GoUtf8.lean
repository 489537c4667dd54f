import TinySql.Lib.GoInt
import Mathlib

/-!
# Go's UTF-8 runes over bytes

What Go's `unicode/utf8` and `bytes.Runes` do with a byte slice: `utf8.DecodeRune` reads the
first rune, and a byte that starts no valid sequence, or a sequence that is cut short or malformed,
is read as `utf8.RuneError` one byte wide. `bytes.Runes` decodes a whole slice that way,
`utf8.RuneCount` counts what it decodes, and `utf8.EncodeRune` writes a rune back, `RuneError` for
what is no Unicode scalar value.
A byte is a `Fin 256`, a rune a natural number.
-/

namespace TinySql.Lib

def runeError : Nat := 0xFFFD

/-- The bounds of the second byte of a sequence that starts with `b0` (`acceptRanges`). -/
def acceptRange (b0 : Nat) : Nat × Nat :=
  if b0 = 0xE0 then (0xA0, 0xBF)
  else if b0 = 0xED then (0x80, 0x9F)
  else if b0 = 0xF0 then (0x90, 0xBF)
  else if b0 = 0xF4 then (0x80, 0x8F)
  else (0x80, 0xBF)

/-- The length of the sequence a first byte starts (`first`), `0` for a byte that starts none. -/
def seqSize (b0 : Nat) : Nat :=
  if b0 < 0x80 then 1
  else if b0 < 0xC2 then 0
  else if b0 < 0xE0 then 2
  else if b0 < 0xF0 then 3
  else if b0 < 0xF5 then 4
  else 0

/-- A continuation byte, `locb ≤ b ≤ hicb`. -/
def isCont (b : Fin 256) : Bool :=
  0x80 ≤ b.val && b.val ≤ 0xBF

/-- `utf8.DecodeRune`: the first rune of `p` and its width in bytes. -/
def decodeRune : List (Fin 256) → Nat × Nat
  | [] => (runeError, 0)
  | p0 :: rest =>
    let sz := seqSize p0.val
    if sz = 1 then (p0.val, 1)
    else if sz = 0 then (runeError, 1)
    else if rest.length + 1 < sz then (runeError, 1)
    else
      match rest with
      | b1 :: rest =>
        if b1.val < (acceptRange p0.val).1 || (acceptRange p0.val).2 < b1.val then (runeError, 1)
        else if sz ≤ 2 then ((p0.val % 0x20) * 0x40 + b1.val % 0x40, 2)
        else
          match rest with
          | b2 :: rest =>
            if !isCont b2 then (runeError, 1)
            else if sz ≤ 3 then ((p0.val % 0x10) * 0x1000 + (b1.val % 0x40) * 0x40 + b2.val % 0x40, 3)
            else
              match rest with
              | b3 :: _ =>
                if !isCont b3 then (runeError, 1)
                else ((p0.val % 0x08) * 0x40000 + (b1.val % 0x40) * 0x1000 +
                  (b2.val % 0x40) * 0x40 + b3.val % 0x40, 4)
              | [] => (runeError, 1)
          | [] => (runeError, 1)
      | [] => (runeError, 1)

/-- Decoding rune after rune; every rune is at least one byte wide, so `fuel` at the length of
the slice is enough. -/
def decodeRunes : Nat → List (Fin 256) → List Nat
  | 0, _ => []
  | _ + 1, [] => []
  | n + 1, p =>
    let r := decodeRune p
    r.1 :: decodeRunes n (p.drop r.2)

/-- `bytes.Runes`. -/
def runes (p : List (Fin 256)) : List Nat :=
  decodeRunes p.length p

/-- `utf8.RuneCount`: erroneous and short encodings count as one rune each. -/
def runeCount (p : List (Fin 256)) : Nat :=
  (runes p).length

/-- `utf8.EncodeRune`. -/
def encodeRune (r : Nat) : List (Fin 256) :=
  if r ≤ 0x7F then [Fin.ofNat 256 r]
  else if r ≤ 0x7FF then [Fin.ofNat 256 (0xC0 + r / 0x40), Fin.ofNat 256 (0x80 + r % 0x40)]
  else
    let r := if 0x10FFFF < r ∨ (0xD800 ≤ r ∧ r ≤ 0xDFFF) then runeError else r
    if r ≤ 0xFFFF then
      [Fin.ofNat 256 (0xE0 + r / 0x1000), Fin.ofNat 256 (0x80 + r / 0x40 % 0x40),
        Fin.ofNat 256 (0x80 + r % 0x40)]
    else
      [Fin.ofNat 256 (0xF0 + r / 0x40000), Fin.ofNat 256 (0x80 + r / 0x1000 % 0x40),
        Fin.ofNat 256 (0x80 + r / 0x40 % 0x40), Fin.ofNat 256 (0x80 + r % 0x40)]

/-- `string(rs)` for a slice of runes. -/
def encodeRunes (rs : List Nat) : List (Fin 256) :=
  rs.flatMap encodeRune

example : runeCount [0xE4, 0xB8, 0xAD, 0x61] = 2 := by decide
example : encodeRunes ((runes [0xE4, 0xB8, 0xAD, 0x61]).take 1) = [0xE4, 0xB8, 0xAD] := by decide
example : encodeRunes (runes [0xFF]) = [0xEF, 0xBF, 0xBD] := by decide

end TinySql.Lib
