/-!
# Blank characters

The characters with the Unicode property `White_Space`, the ones skipped around and inside declared
types.
-/

namespace TemplateContracts.Text

/-- The code points with the property `White_Space`, in order. -/
def blankCodes : List Nat :=
  [0x09, 0x0A, 0x0B, 0x0C, 0x0D, 0x20, 0x85, 0xA0, 0x1680, 0x2000, 0x2001, 0x2002, 0x2003, 0x2004,
   0x2005, 0x2006, 0x2007, 0x2008, 0x2009, 0x200A, 0x2028, 0x2029, 0x202F, 0x205F, 0x3000]

/-- A blank character. -/
def isBlank (c : Char) : Bool := blankCodes.contains c.toNat

/-- What holds of the blank characters, one by one, holds of a blank. -/
theorem forall_of_isBlank {P : Char → Prop} (h : ∀ k ∈ blankCodes, P (Char.ofNat k)) {c : Char}
    (hc : isBlank c = true) : P c := by
  have hmem : c.toNat ∈ blankCodes := by rwa [isBlank, List.contains_iff_mem] at hc
  rw [← Char.ofNat_toNat c]
  exact h c.toNat hmem

/-- A text without its leading blanks. -/
def trimStart (s : String) : List Char := s.toList.dropWhile isBlank

end TemplateContracts.Text
