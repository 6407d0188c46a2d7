/-!
Text from bytes that need not be well-formed UTF-8.
-/

namespace CrossBuild.Text

/-- The length of the well-formed character that bytes start with, or of the longest part of one that
they start with, and whether it is well-formed. -/
def charSpan (bytes : List UInt8) : Nat × Bool :=
  match bytes with
  | [] => (0, false)
  | a :: rest =>
    let a := a.toNat
    let follows := fun (low high : Nat) (b : UInt8) => low ≤ b.toNat && b.toNat ≤ high
    let count := fun (low high more : Nat) =>
      match rest with
      | b :: rest =>
        if follows low high b then 2 + ((rest.take more).takeWhile (follows 0x80 0xBF)).length else 1
      | [] => 1
    if a < 0x80 then (1, true)
    else if 0xC2 ≤ a && a ≤ 0xDF then (count 0x80 0xBF 0, count 0x80 0xBF 0 == 2)
    else if 0xE0 ≤ a && a ≤ 0xEF then
      let n := count (if a == 0xE0 then 0xA0 else 0x80) (if a == 0xED then 0x9F else 0xBF) 1
      (n, n == 3)
    else if 0xF0 ≤ a && a ≤ 0xF4 then
      let n := count (if a == 0xF0 then 0x90 else 0x80) (if a == 0xF4 then 0x8F else 0xBF) 2
      (n, n == 4)
    else (1, false)

/-- The characters of bytes, with a replacement character for each longest part that is none. -/
def charsOf : Nat → List UInt8 → List String
  | 0, _ => []
  | _, [] => []
  | fuel + 1, bytes =>
    let (n, _) := charSpan bytes
    let shown := (String.fromUTF8? ⟨(bytes.take n).toArray⟩).getD "\uFFFD"
    shown :: charsOf fuel (bytes.drop n)

/-- The text of bytes, with replacement characters where they are no UTF-8. -/
def ofBytes (bytes : ByteArray) : String :=
  match String.fromUTF8? bytes with
  | some s => s
  | none => String.join (charsOf bytes.size bytes.toList)

end CrossBuild.Text
