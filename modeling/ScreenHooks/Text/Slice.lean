/-
Parts of a text by byte offsets.

An offset inside the encoding of a character gives no part.

* **`slice?_whole`** — the whole text is a part of itself.
-/

namespace ScreenHooks.Text

/-- The text after its first `n` bytes. -/
def dropBytes? : Nat → List Char → Option (List Char)
  | 0, cs => some cs
  | _ + 1, [] => none
  | n + 1, c :: r => if c.utf8Size ≤ n + 1 then dropBytes? (n + 1 - c.utf8Size) r else none

/-- The first `n` bytes of a text. -/
def takeBytes? : Nat → List Char → Option (List Char)
  | 0, _ => some []
  | _ + 1, [] => none
  | n + 1, c :: r =>
    if c.utf8Size ≤ n + 1 then (takeBytes? (n + 1 - c.utf8Size) r).map (c :: ·) else none

/-- The part of `s` from the byte `start` to before the byte `stop`. -/
def slice? (s : String) (start stop : Nat) : Option String :=
  if start ≤ stop then
    ((dropBytes? start s.toList).bind (takeBytes? (stop - start))).map String.ofList
  else none

/-- The number of bytes of a text. -/
def byteCount : List Char → Nat
  | [] => 0
  | c :: r => c.utf8Size + byteCount r

theorem takeBytes?_all (cs : List Char) : takeBytes? (byteCount cs) cs = some cs := by
  induction cs with
  | nil => rfl
  | cons c r ih =>
    have hc : 0 < c.utf8Size := c.utf8Size_pos
    obtain ⟨n, hn⟩ : ∃ n, c.utf8Size + byteCount r = n + 1 :=
      ⟨c.utf8Size + byteCount r - 1, by omega⟩
    have hrest : n + 1 - c.utf8Size = byteCount r := by omega
    have hle : c.utf8Size ≤ n + 1 := by omega
    simp [byteCount, hn, takeBytes?, hle, hrest, ih]

theorem slice?_whole (s : String) : slice? s 0 (byteCount s.toList) = some s := by
  simp [slice?, dropBytes?, takeBytes?_all]

end ScreenHooks.Text
