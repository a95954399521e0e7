/-!
# The order of texts

Texts are ordered by their code points, character by character.
-/

namespace Curriculum

namespace Text

/-- Texts in the order of their code points. -/
def sorted (texts : List String) : List String :=
  texts.mergeSort fun a b => decide (a ≤ b)

end Text

end Curriculum
