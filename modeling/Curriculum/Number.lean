import Curriculum.Binary64.Text

/-!
# Numbers of a document

A number in a JSON document is an integer of any size or a binary floating-point number, and the
two stay apart: integers keep every digit, are doubled and compared exactly, and are written
without a point. Dividing always gives a floating-point number.
-/

namespace Curriculum

/-- An integer of any size or a binary floating-point number. -/
inductive Number where
  | int (n : Int)
  | float (x : Binary64)
  deriving DecidableEq

/-- Why a quotient has no value. -/
inductive DivisionFault where
  | byZero
  /-- The quotient of two integers is beyond the range of finite numbers. -/
  | quotientTooLarge
  /-- A floating-point number is divided by an integer beyond that range. -/
  | divisorTooLarge
  deriving DecidableEq, Repr

/-- The wording of a fault. -/
def DivisionFault.message : DivisionFault → String
  | byZero => "division by zero"
  | quotientTooLarge => "integer division result too large for a float"
  | divisorTooLarge => "int too large to convert to float"

namespace Number

instance : Inhabited Number := ⟨.int 0⟩

/-- The nearest floating-point number; none for an integer beyond the range of finite ones. -/
def toBinary64? : Number → Option Binary64
  | .int n => Binary64.ofInt? n
  | .float x => some x

/-! ## Exact order -/

/-- A number against the integers of a scale fine enough for every finite floating-point number. -/
inductive Place where
  | belowAll
  | finite (units : Int)
  | aboveAll

/-- Where a number stands; nothing for what is not a number. -/
def place? : Number → Option Place
  | .int n => some (.finite (n * Binary64.unit))
  | .float .nan => none
  | .float (.number negative rank _) =>
    if rank = Binary64.top then some (if negative then .belowAll else .aboveAll)
    else
      let u : Int := Binary64.units rank
      some (.finite (if negative then -u else u))

/-- Whether a place is at most another. -/
def Place.le : Place → Place → Bool
  | .belowAll, _ => true
  | _, .aboveAll => true
  | .finite a, .finite b => decide (a ≤ b)
  | _, _ => false

/-- Whether one number is at most another, compared exactly; nothing is at most or at least what is
not a number. -/
def le (x y : Number) : Bool :=
  match x.place?, y.place? with
  | some a, some b => a.le b
  | _, _ => false

/-- Whether one number is less than another. -/
def lt (x y : Number) : Bool :=
  match x.place?, y.place? with
  | some a, some b => !b.le a
  | _, _ => false

/-- Whether a number has a place in the order. -/
def isNumber (x : Number) : Bool := x.place?.isSome

theorem Place.le_trans {a b c : Place} (hab : a.le b = true) (hbc : b.le c = true) :
    a.le c = true := by
  cases a <;> cases b <;> cases c <;> simp_all [Place.le]
  omega

theorem Place.le_total (a b : Place) : a.le b = true ∨ b.le a = true := by
  cases a <;> cases b <;> simp [Place.le]
  omega

/-- What is not a number is at most nothing. -/
theorem le_iff {x y : Number} :
    x.le y = true ↔ ∃ a b, x.place? = some a ∧ y.place? = some b ∧ a.le b = true := by
  unfold le
  cases x.place? <;> cases y.place? <;> simp

theorem le_trans {x y z : Number} (hxy : x.le y = true) (hyz : y.le z = true) :
    x.le z = true := by
  obtain ⟨a, b, ha, hb, hab⟩ := le_iff.mp hxy
  obtain ⟨b', c, hb', hc, hbc⟩ := le_iff.mp hyz
  obtain rfl : b = b' := Option.some.inj (hb.symm.trans hb')
  exact le_iff.mpr ⟨a, c, ha, hc, Place.le_trans hab hbc⟩

/-- Of two numbers one is at most the other. -/
theorem le_total {x y : Number} (hx : x.isNumber = true) (hy : y.isNumber = true) :
    x.le y = true ∨ y.le x = true := by
  obtain ⟨a, ha⟩ := Option.isSome_iff_exists.mp hx
  obtain ⟨b, hb⟩ := Option.isSome_iff_exists.mp hy
  rcases Place.le_total a b with h | h
  · exact Or.inl (le_iff.mpr ⟨a, b, ha, hb, h⟩)
  · exact Or.inr (le_iff.mpr ⟨b, a, hb, ha, h⟩)

/-- Every floating-point number but one has a place. -/
theorem isNumber_float {x : Binary64} (h : x ≠ .nan) : (float x).isNumber = true := by
  cases x with
  | nan => exact absurd rfl h
  | number negative rank bounded =>
    simp only [isNumber, place?]
    split <;> rfl

/-- Whether a number is zero. -/
def isZero : Number → Bool
  | .int n => n = 0
  | .float x => x.isZero

/-! ## Arithmetic -/

/-- Twice a number. -/
def double : Number → Number
  | .int n => .int (n * 2)
  | .float x => .float (x.mul (.ofNat 2))

/-- A number divided by an integer. An integer is divided exactly and the quotient rounded once; a
quotient of zero keeps the sign that the two give it. -/
def divideBy (x : Number) (n : Int) : Except DivisionFault Number :=
  if n = 0 then .error .byZero
  else
    match x with
    | .int k =>
      let q := Binary64.ofRatio (decide (k < 0) != decide (n < 0)) k.natAbs n.natAbs
      if q.isFinite then .ok (.float q) else .error .quotientTooLarge
    | .float x =>
      match Binary64.ofInt? n with
      | some d => .ok (.float (x.div d))
      | none => .error .divisorTooLarge

/-- A number rounded to a given number of places; integers stay as they are. -/
def roundTo (places : Nat) : Number → Number
  | .int n => .int n
  | .float x => .float (x.roundTo places)

/-! ## Text -/

/-- An integer in decimal digits, a floating-point number with the fewest digits that read back. -/
def text : Number → String
  | .int n => toString n
  | .float x => x.text

end Number

end Curriculum
