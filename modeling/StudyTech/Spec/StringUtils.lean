import Mathlib.Tactic.Common

/-!
# `StringUtils`

What the sources use of commons-lang. A string that is `null` is `none`.
-/

namespace StudyTech

/-- `Character.isWhitespace`. -/
def isWhitespace (c : Char) : Bool :=
  c.toNat ∈ [0x09, 0x0a, 0x0b, 0x0c, 0x0d, 0x1c, 0x1d, 0x1e, 0x1f, 0x20, 0x1680, 0x180e, 0x2000, 0x2001,
    0x2002, 0x2003, 0x2004, 0x2005, 0x2006, 0x2008, 0x2009, 0x200a, 0x2028, 0x2029, 0x205f, 0x3000]

/-- `StringUtils.isBlank`. -/
def isBlank : Option String → Bool
  | none => true
  | some s => s.toList.all isWhitespace

/-- `StringUtils.defaultIfBlank`. -/
def defaultIfBlank (s : Option String) (default : String) : String :=
  if isBlank s then default else s.getD default

/-- `StringUtils.trim`: the control characters and blanks at both ends go. -/
def trim (s : String) : String :=
  String.ofList ((s.toList.dropWhile (·.toNat ≤ 32)).reverse.dropWhile (·.toNat ≤ 32)).reverse

end StudyTech
