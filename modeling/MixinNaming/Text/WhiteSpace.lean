/-! The characters that count as white space in a selector: the Unicode property White_Space.
Neither U+200B nor U+FEFF has it. -/
namespace MixinNaming.Text

def whiteSpaceRanges : List (Nat × Nat) :=
  [(0x09, 0x0D), (0x20, 0x20), (0x85, 0x85), (0xA0, 0xA0), (0x1680, 0x1680), (0x2000, 0x200A),
    (0x2028, 0x2029), (0x202F, 0x202F), (0x205F, 0x205F), (0x3000, 0x3000)]

def isWhiteSpace (c : Char) : Bool :=
  whiteSpaceRanges.any fun range => range.1 ≤ c.toNat && c.toNat ≤ range.2

def withoutWhiteSpace (cs : List Char) : List Char := cs.filter fun c => !isWhiteSpace c

theorem mem_withoutWhiteSpace {c : Char} {cs : List Char} :
    c ∈ withoutWhiteSpace cs ↔ c ∈ cs ∧ isWhiteSpace c = false := by
  simp [withoutWhiteSpace]

end MixinNaming.Text
