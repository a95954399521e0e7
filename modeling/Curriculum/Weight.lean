import Curriculum.Number
import Curriculum.Requirement.Basic

/-!
# How strongly a course is needed

A requirement hands a weight down to the courses in it. A group that asks for all its parts hands
each the whole weight; one that asks for one part divides the weight by the number of parts; one
that asks for two doubles it first. Leaves that ask for no course take their share with them.

What a share is hangs on the numbers used, so the descent takes it as a parameter (`weights`), and
sharing may fail, as it does for integers too large to divide. The numbers of a document are shared
as they come (`Number.share`); a graph starts with the floating-point number 1 and shares nothing
else, and these are shared without faults (`Binary64.share`). That the two agree on floating-point
numbers is `Number.share_float`.
-/

namespace Curriculum

/-- How a group divides a weight among a number of parts. -/
abbrev Sharing (m : Type → Type) (α : Type) : Type := Logic → α → Nat → m α

/-- What a group of `n` parts hands on of a number of a document. Integers stay integers until they
are divided, and `n` may be any integer. -/
def Number.handOn (logic : Logic) (w : Number) (n : Int) : Except DivisionFault Number :=
  match logic with
  | .allOf => .ok w
  | .oneOf => w.divideBy n
  | .twoOf => w.double.divideBy n

/-- Sharing numbers of a document. -/
def Number.share : Sharing (Except DivisionFault) Number :=
  fun logic w n => Number.handOn logic w n

/-- Sharing floating-point numbers among at least one part. -/
def Binary64.share : Sharing Id Binary64
  | .allOf, w, _ => w
  | .oneOf, w, n => w.div (.ofCount n)
  | .twoOf, w, n => (w.mul (.ofNat 2)).div (.ofCount n)

namespace Requirement

variable {m : Type → Type} [Monad m] {α : Type}

mutual

/-- The courses that a requirement names, from left to right and as often as it names them, with
their weights. -/
def weights (share : Sharing m α) (w : α) : Requirement → m (List (String × α))
  | course id .. => pure [(id.text, w)]
  | group logic first rest => do
    let part ← share logic w (rest.length + 1)
    let found ← weights share part first
    let more ← weightsOfList share part rest
    pure (found ++ more)
  | _ => pure []

/-- The courses that some requirements name, each requirement having the same weight. -/
def weightsOfList (share : Sharing m α) (w : α) : List Requirement → m (List (String × α))
  | [] => pure []
  | t :: rest => do
    let found ← weights share w t
    let more ← weightsOfList share w rest
    pure (found ++ more)

end

/-- The courses of a requirement with their weights, the whole having weight 1. -/
def dependencies (t : Requirement) : List (String × Binary64) :=
  Id.run (weights Binary64.share (.ofNat 1) t)

end Requirement

end Curriculum
