/-! Letters of either case taken as one, for the 26 letters of ASCII only. -/
namespace WorkflowLint.Text

/-- `Char.toLower` knows the ASCII letters only, which is what names are compared by. -/
def asciiLower (name : String) : String := String.ofList (name.toList.map Char.toLower)

def sameName (a b : String) : Bool := a.toList.map Char.toLower == b.toList.map Char.toLower

theorem sameName_refl (a : String) : sameName a a = true := by simp [sameName]

end WorkflowLint.Text
