/-
Names of screens and of generated bindings.

A screen class has a file-path form in kebab case. `Naming.kebab` first
replaces the configured acronyms, in order, then puts a hyphen between a
lowercase letter or digit and the uppercase letter after it, then lowers the
text; `pascal` joins the capitalized segments of a kebab name. The two are not
inverse: an acronym comes back with its first letter capital only.

* **`escape_eq_of_not_reserved`**, **`escape_of_reserved`** — a binding that
  would be a reserved word gets a suffix.
-/
import ScreenHooks.Text.Case
import ScreenHooks.Text.Search

namespace ScreenHooks

open Text

/-- The naming rules of a run: acronym replacements in order, and the suffix
of bindings that would be reserved words. -/
structure Naming where
  acronyms : List (String × String) := [("WebAuthn", "Webauthn"), ("OTP", "Otp")]
  reservedSuffix : String := "Method"

/-- The words of the script language that cannot name a binding. -/
def reservedWords : List String :=
  ["break", "case", "catch", "class", "const", "continue", "debugger", "default", "delete",
   "do", "else", "enum", "export", "extends", "false", "finally", "for", "function", "if",
   "import", "in", "instanceof", "new", "null", "return", "super", "switch", "this", "throw",
   "true", "try", "typeof", "var", "void", "while", "with"]

/-- Whether `name` is a reserved word. -/
def isReserved (name : String) : Bool := reservedWords.contains name

/-! ### Hyphenation -/

/-- An ASCII lowercase letter or digit. -/
def isLowerOrDigit (c : Char) : Bool := c.isLower || c.isDigit

/-- Puts a hyphen between a lowercase letter or digit and an uppercase letter. -/
def hyphenate : List Char → List Char
  | a :: b :: r =>
    if isLowerOrDigit a && b.isUpper then a :: '-' :: hyphenate (b :: r)
    else a :: hyphenate (b :: r)
  | cs => cs

/-- The text with one acronym replaced wherever it occurs. -/
def replaceAcronym (cs : List Char) (acronym : String × String) : List Char :=
  replaceAllChars acronym.1.toList acronym.2.toList cs

/-- The kebab form of a class name. -/
def Naming.kebabChars (naming : Naming) (cs : List Char) : List Char :=
  toLowerChars (hyphenate (naming.acronyms.foldl replaceAcronym cs))

/-- The kebab form of a class name: `LoginPasswordlessSmsOtp` gives
`login-passwordless-sms-otp`. -/
def Naming.kebab (naming : Naming) (name : String) : String :=
  String.ofList (naming.kebabChars name.toList)

/-! ### Capitals -/

/-- Raises the first character. -/
def capitalizeChars : List Char → List Char
  | [] => []
  | c :: r => upperChars c ++ r

/-- Raises the first character of `s`. -/
def capitalize (s : String) : String := String.ofList (capitalizeChars s.toList)

/-- Joins the capitalized segments of a kebab name. -/
def pascalChars (cs : List Char) : List Char :=
  (splitBy (· == '-') cs).flatMap capitalizeChars

/-- The class-name form of a kebab name: `mfa-otp-challenge` gives
`MfaOtpChallenge`. -/
def pascal (s : String) : String := String.ofList (pascalChars s.toList)

/-! ### Reserved words -/

/-- The name of a generated binding; a reserved word gets the suffix. -/
def Naming.escape (naming : Naming) (name : String) : String :=
  if isReserved name then name ++ naming.reservedSuffix else name

theorem Naming.escape_eq_of_not_reserved (naming : Naming) {name : String}
    (h : isReserved name = false) : naming.escape name = name := by
  simp [escape, h]

theorem Naming.escape_of_reserved (naming : Naming) {name : String}
    (h : isReserved name = true) : naming.escape name = name ++ naming.reservedSuffix := by
  simp [escape, h]

end ScreenHooks
