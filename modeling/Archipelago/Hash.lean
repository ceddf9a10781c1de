/-! # Hashes that name templates and islands -/

namespace Archipelago.Hash

/-- The seed of template names. -/
def templateSeed : UInt64 := 0x7e55e7a01d5eed00

/-- Combines a seed with a value and a slot number, and finishes as splitmix64 does. -/
def mix (seed value slot : UInt64) : UInt64 :=
  let z := seed + value * 0x9e3779b97f4a7c15 + slot * 0xd1b54a32d192ed03
  let z := (z ^^^ (z >>> 30)) * 0xbf58476d1ce4e5b9
  let z := (z ^^^ (z >>> 27)) * 0x94d049bb133111eb
  z ^^^ (z >>> 31)

/-- FNV-1a over the bytes from position `i` on, mixed anew after every eighth byte. -/
def absorb (seed : UInt64) : (i : Nat) → UInt64 → List UInt8 → UInt64
  | _, h, [] => h
  | i, h, b :: bs =>
    let h := (h ^^^ b.toUInt64) * 0x100000001b3
    absorb seed (i + 1) (if i % 8 = 7 then mix seed h (UInt64.ofNat i) else h) bs

/-- The hash of some bytes, from a seed. -/
def bytes (seed : UInt64) (bs : List UInt8) : UInt64 :=
  mix seed (absorb seed 0 seed bs) (UInt64.ofNat bs.length)

/-- The hash of a text is that of its bytes. -/
def text (seed : UInt64) (s : String) : UInt64 := bytes seed s.toUTF8.toList

/-- Sixteen hexadecimal digits behind a label. -/
def toId (label : String) (h : UInt64) : String :=
  let digits := Nat.toDigits 16 h.toNat
  label ++ "-" ++ String.ofList (List.replicate (16 - digits.length) '0' ++ digits)

end Archipelago.Hash
