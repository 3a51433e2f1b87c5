/-
Texts of bytes that need not be UTF-8.

Bytes that start no character, or that break off inside one, are read as one
replacement character each time.

* **`decodeLossy_ascii`** — bytes below 128 are their own characters.
-/

namespace ScreenHooks.Text

/-- What stands for bytes that are no character. -/
def replacementChar : Char := '\ufffd'

/-- The ranges of the bytes after the first byte of a character; none if no
character starts so. -/
def followers? (first : Nat) : Option (List (Nat × Nat)) :=
  let tail := (0x80, 0xBF)
  if first < 0x80 then some []
  else if 0xC2 ≤ first ∧ first ≤ 0xDF then some [tail]
  else if first = 0xE0 then some [(0xA0, 0xBF), tail]
  else if first = 0xED then some [(0x80, 0x9F), tail]
  else if 0xE1 ≤ first ∧ first ≤ 0xEF then some [tail, tail]
  else if first = 0xF0 then some [(0x90, 0xBF), tail, tail]
  else if 0xF1 ≤ first ∧ first ≤ 0xF3 then some [tail, tail, tail]
  else if first = 0xF4 then some [(0x80, 0x8F), tail, tail]
  else none

/-- How many bytes at the front lie in the given ranges, one after the other. -/
def countInRanges : List (Nat × Nat) → List UInt8 → Nat
  | (low, high) :: ranges, b :: rest =>
    if low ≤ b.toNat ∧ b.toNat ≤ high then countInRanges ranges rest + 1 else 0
  | _, _ => 0

/-- The character of a whole sequence of bytes. -/
def charOfBytes (first : Nat) (rest : List UInt8) : Char :=
  let lead := match rest.length with
    | 0 => first
    | 1 => first % 0x20
    | 2 => first % 0x10
    | _ => first % 0x08
  Char.ofNat (rest.foldl (fun acc b => acc * 64 + b.toNat % 64) lead)

/-- The text of bytes; the first argument counts the bytes that belong to the
character before. -/
def decodeFrom : Nat → List UInt8 → List Char
  | _, [] => []
  | k + 1, _ :: rest => decodeFrom k rest
  | 0, b :: rest =>
    match followers? b.toNat with
    | none => replacementChar :: decodeFrom 0 rest
    | some ranges =>
      let count := countInRanges ranges rest
      (if count = ranges.length then charOfBytes b.toNat (rest.take count) else replacementChar) ::
        decodeFrom count rest

/-- The text of bytes. -/
def decodeLossy (bytes : List UInt8) : String := String.ofList (decodeFrom 0 bytes)

theorem decodeLossy_ascii (bytes : List UInt8) (h : ∀ b ∈ bytes, b.toNat < 0x80) :
    decodeLossy bytes = String.ofList (bytes.map fun b => Char.ofNat b.toNat) := by
  suffices hchars : decodeFrom 0 bytes = bytes.map fun b => Char.ofNat b.toNat by
    simp [decodeLossy, hchars]
  induction bytes with
  | nil => rfl
  | cons b rest ih =>
    have hb : followers? b.toNat = some [] := by simp [followers?, h b (by simp)]
    simp [decodeFrom, hb, countInRanges, charOfBytes, ih fun x hx => h x (by simp [hx])]

end ScreenHooks.Text
