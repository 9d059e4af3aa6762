import WorkflowLint.Text.Span

/-! Characters and the bytes of their UTF-8 form. -/
namespace WorkflowLint.Text

def byteLength : List Char → Nat
  | [] => 0
  | c :: cs => c.utf8Size + byteLength cs

theorem byteLength_append (a b : List Char) :
    byteLength (a ++ b) = byteLength a + byteLength b := by
  induction a with
  | nil => simp [byteLength]
  | cons c cs ih => simp [byteLength, ih, Nat.add_assoc]

def charOffset : List Char → Nat → Nat
  | [], _ => 0
  | c :: cs, byte => if c.utf8Size ≤ byte then charOffset cs (byte - c.utf8Size) + 1 else 0

theorem charOffset_le_length (text : List Char) (byte : Nat) :
    charOffset text byte ≤ text.length := by
  induction text generalizing byte with
  | nil => simp [charOffset]
  | cons c cs ih =>
    simp only [charOffset, List.length_cons]
    split
    · exact Nat.add_le_add_right (ih _) 1
    · omega

/-- From byte offsets to character offsets. A text of single bytes needs no table; any other
has one entry for every byte and one for the end. -/
structure CharIndex where
  table : Option (Array Nat)
  size : Nat

namespace CharIndex

def entries (first : Nat) : List Char → List Nat
  | [] => []
  | c :: cs => List.replicate c.utf8Size first ++ entries (first + 1) cs

def ofText (text : List Char) : CharIndex :=
  if text.all (fun c => c.toNat < 128) then ⟨none, text.length⟩
  else ⟨some (entries 0 text ++ [text.length]).toArray, text.length⟩

/-- The character that holds a byte; the end for an offset past it. -/
def toChar (index : CharIndex) (byte : Nat) : Nat :=
  match index.table with
  | none => min byte index.size
  | some table => table[byte]?.getD index.size

def isEmpty (index : CharIndex) : Bool := index.size == 0

@[simp] theorem size_ofText (text : List Char) : (ofText text).size = text.length := by
  unfold ofText
  split <;> rfl

end CharIndex
end WorkflowLint.Text
