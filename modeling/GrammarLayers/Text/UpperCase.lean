import GrammarLayers.Text.CaseTable

/-!
# Upper case

Full upper-casing: a character becomes one or more characters, whatever stands around it.

## Main definitions

* `upperChar` — the upper-case form of a character
* `upperChars`, `upper` — the upper-case form of a text
-/

namespace GrammarLayers

/-- The upper-case form of a character; a character without one stands for itself. -/
def upperChar (c : Char) : List Char :=
  match upperExpansions.lookup c.toNat with
  | some forms => forms.map Char.ofNat
  | none =>
    match upperRuns.find? (·.holds c.toNat) with
    | some run => [Char.ofNat (c.toNat + run.shift).toNat]
    | none => [c]

/-- The upper-case form of a text, character by character. -/
def upperChars (text : List Char) : List Char := text.flatMap upperChar

@[simp] theorem upperChars_append (a b : List Char) :
    upperChars (a ++ b) = upperChars a ++ upperChars b := by
  simp [upperChars]

/-- The upper-case form of a name. -/
def upper (name : String) : String := String.ofList (upperChars name.toList)

end GrammarLayers
