import Curriculum.Csv

/-!
# Reading rows of fields

A reader of rows goes through a text character by character. A field that begins with a quotation
mark runs to the mark that closes it, a doubled mark standing for one; any other field runs to the
next comma or line feed. A comma ends a field, a line feed ends the row as well, and the text has to
end after a row.

The writer puts every field in quotation marks that could be misread without them, so nothing that
is written is taken for an end of a field but the commas and line feeds that are put between fields
(`run_field`). A carriage return ends no field, so it comes through whether the release of the
writer puts it between marks or not. Rows are read one field after the other (`run_row`), tables one
row after the other.

> `decode?_render`: a table whose rows have fields is read back from its text.
-/

namespace Curriculum

namespace Csv

/-! ## The reader -/

/-- Where the reader stands in a field. The characters of the field so far stand in reverse. -/
inductive Place where
  /-- Before the field. -/
  | start
  /-- In a field without quotation marks around it. -/
  | plain (seen : List Char)
  /-- Between quotation marks. -/
  | quoted (seen : List Char)
  /-- After a mark between quotation marks, which closes the field or is the first of two. -/
  | marked (seen : List Char)

/-- What was read so far; the fields of the row and the rows stand in reverse. -/
structure Progress where
  place : Place
  fields : List String
  rows : List (List String)

/-- Whether a character ends a field. -/
def endsField (c : Char) : Bool := c = ',' || c = '\n'

namespace Progress

/-- End a field; unless a comma ends it, the row ends with it. -/
def close (p : Progress) (seen : List Char) (c : Char) : Progress :=
  let fields := String.ofList seen.reverse :: p.fields
  if c = ',' then ⟨.start, fields, p.rows⟩ else ⟨.start, [], fields.reverse :: p.rows⟩

/-- Read one character more. -/
def step? (p : Progress) (c : Char) : Option Progress :=
  match p.place with
  | .start =>
    if endsField c then some (p.close [] c)
    else if c = '"' then some { p with place := .quoted [] }
    else some { p with place := .plain [c] }
  | .plain seen =>
    if endsField c then some (p.close seen c) else some { p with place := .plain (c :: seen) }
  | .quoted seen =>
    if c = '"' then some { p with place := .marked seen }
    else some { p with place := .quoted (c :: seen) }
  | .marked seen =>
    if c = '"' then some { p with place := .quoted ('"' :: seen) }
    else if endsField c then some (p.close seen c)
    else none

/-- Read some characters. -/
def run (p : Progress) (cs : List Char) : Option Progress := cs.foldlM step? p

/-- The rows that were read, if nothing was begun after them. -/
def rows? : Progress → Option (List (List String))
  | ⟨.start, [], rows⟩ => some rows.reverse
  | _ => none

end Progress

/-- The rows of a text. -/
def decode? (text : String) : Option (List (List String)) :=
  (Progress.run ⟨.start, [], []⟩ text.toList).bind Progress.rows?

/-! ## Fields -/

namespace Progress

variable {fields : List String} {rows : List (List String)} {release : Release}

theorem run_cons (p : Progress) (c : Char) (cs : List Char) :
    p.run (c :: cs) = (p.step? c).bind fun p' => p'.run cs := rfl

theorem run_of_step? {p p' : Progress} {c : Char} (h : p.step? c = some p') (cs : List Char) :
    p.run (c :: cs) = p'.run cs := by
  rw [run_cons, h, Option.bind_some]

/-- A field without quotation marks runs to the next comma or line feed. -/
theorem run_plain {cs : List Char} (h : ∀ c ∈ cs, endsField c = false) {c : Char}
    (hc : endsField c = true) (seen rest : List Char) :
    run ⟨.plain seen, fields, rows⟩ (cs ++ c :: rest)
      = run (close ⟨.start, fields, rows⟩ (cs.reverse ++ seen) c) rest := by
  induction cs generalizing seen with
  | nil =>
    have hstep : step? ⟨.plain seen, fields, rows⟩ c
        = some (close ⟨.start, fields, rows⟩ seen c) := by
      simp [step?, hc, close]
    exact run_of_step? hstep rest
  | cons d cs ih =>
    obtain ⟨hd, hcs⟩ := List.forall_mem_cons.mp h
    have hstep : step? ⟨.plain seen, fields, rows⟩ d = some ⟨.plain (d :: seen), fields, rows⟩ := by
      simp [step?, hd]
    rw [List.cons_append, run_of_step? hstep, ih hcs, List.reverse_cons, List.append_assoc]
    rfl

/-- Between quotation marks a doubled mark is one of the field. -/
theorem run_double (seen : List Char) (d : Char) (rest : List Char) :
    run ⟨.quoted seen, fields, rows⟩ (double d ++ rest)
      = run ⟨.quoted (d :: seen), fields, rows⟩ rest := by
  unfold double
  split
  · next h =>
    subst h
    exact (run_of_step? rfl _).trans (run_of_step? rfl rest)
  · next h =>
    have hstep : step? ⟨.quoted seen, fields, rows⟩ d
        = some ⟨.quoted (d :: seen), fields, rows⟩ := by
      simp [step?, h]
    exact run_of_step? hstep rest

/-- A field in quotation marks runs to the mark that closes it. -/
theorem run_quoted {c : Char} (hc : endsField c = true) (cs seen rest : List Char) :
    run ⟨.quoted seen, fields, rows⟩ (cs.flatMap double ++ '"' :: c :: rest)
      = run (close ⟨.start, fields, rows⟩ (cs.reverse ++ seen) c) rest := by
  induction cs generalizing seen with
  | nil =>
    have hmark : c ≠ '"' := by
      intro he
      rw [he] at hc
      exact absurd hc (by decide)
    have hstep : step? ⟨.marked seen, fields, rows⟩ c
        = some (close ⟨.start, fields, rows⟩ seen c) := by
      simp [step?, hmark, hc, close]
    exact (run_of_step? rfl _).trans (run_of_step? hstep rest)
  | cons d cs ih =>
    rw [List.flatMap_cons, List.append_assoc, run_double, ih, List.reverse_cons, List.append_assoc]
    rfl

/-- Before a comma or a line feed, a field is read as it was before it was written. -/
theorem run_field (s : String) {c : Char} (hc : endsField c = true) (rest : List Char) :
    run ⟨.start, fields, rows⟩ (field release s ++ c :: rest)
      = run (close ⟨.start, fields, rows⟩ s.toList.reverse c) rest := by
  unfold field
  dsimp only
  split
  · have hstep : step? ⟨.start, fields, rows⟩ '"' = some ⟨.quoted [], fields, rows⟩ := rfl
    rw [List.cons_append, List.append_assoc, List.singleton_append, run_of_step? hstep,
      run_quoted hc, List.append_nil]
  · next hplain =>
    have hsafe : ∀ d ∈ s.toList, endsField d = false ∧ d ≠ '"' := by
      intro d hd
      have hquote : needsQuotes release d = false := by
        rw [Bool.not_eq_true, List.any_eq_false] at hplain
        simpa using hplain d hd
      simp only [needsQuotes, Bool.or_eq_false_iff, decide_eq_false_iff_not] at hquote
      obtain ⟨⟨⟨hcomma, hmark⟩, hline⟩, -⟩ := hquote
      exact ⟨by simp [endsField, hcomma, hline], hmark⟩
    generalize s.toList = cs at hsafe
    cases cs with
    | nil =>
      have hstep : step? ⟨.start, fields, rows⟩ c = some (close ⟨.start, fields, rows⟩ [] c) := by
        simp [step?, hc]
      exact run_of_step? hstep rest
    | cons d cs =>
      obtain ⟨⟨hd, hmark⟩, hcs⟩ := List.forall_mem_cons.mp hsafe
      have hstep : step? ⟨.start, fields, rows⟩ d = some ⟨.plain [d], fields, rows⟩ := by
        simp [step?, hd, hmark]
      rw [List.cons_append, run_of_step? hstep, run_plain (fun e he => (hcs e he).1) hc,
        List.reverse_cons]

/-! ## Rows -/

theorem run_row (s : String) (more : List String) (rest : List Char) :
    run ⟨.start, fields, rows⟩ (row release (s :: more) ++ rest)
      = run ⟨.start, [], (fields.reverse ++ s :: more) :: rows⟩ rest := by
  rw [row, List.append_assoc, List.append_assoc]
  induction more generalizing s fields with
  | nil =>
    show run _ (field release s ++ '\n' :: rest) = _
    rw [run_field s (by decide)]
    simp [close]
  | cons t more ih =>
    show run _ (field release s
      ++ ',' :: (field release t ++ moreFields release more ++ (['\n'] ++ rest))) = _
    rw [run_field s (by decide), List.append_assoc]
    have hclose : close ⟨.start, fields, rows⟩ s.toList.reverse ','
        = ⟨.start, s :: fields, rows⟩ := by
      simp [close]
    rw [hclose, ih, List.reverse_cons, List.append_assoc]
    rfl

theorem run_rows {table : List (List String)} (h : ∀ r ∈ table, r ≠ []) :
    run ⟨.start, [], rows⟩ (table.flatMap (row release))
      = some ⟨.start, [], table.reverse ++ rows⟩ := by
  induction table generalizing rows with
  | nil => rfl
  | cons r table ih =>
    obtain ⟨hr, htable⟩ := List.forall_mem_cons.mp h
    obtain ⟨s, more, rfl⟩ := List.exists_cons_of_ne_nil hr
    rw [List.flatMap_cons, run_row, ih htable, List.reverse_cons, List.append_assoc]
    rfl

end Progress

/-- **A table is read back from its text** if each of its rows has a field, whichever release has
written it. -/
theorem decode?_render (release : Release) {table : List (List String)} (h : ∀ r ∈ table, r ≠ []) :
    decode? (render release table) = some table := by
  rw [decode?, render, String.toList_ofList, Progress.run_rows h, Option.bind_some, Progress.rows?,
    List.append_nil, List.reverse_reverse]

example : decode? "a,\"b \"\"c\"\"\n,\",\n" = some [["a", "b \"c\"\n,", ""]] := by decide +kernel

example : render .earlier [["\r", ""]] = "\r,\n" ∧ render .later [["\r", ""]] = "\"\r\",\n" := by
  decide +kernel

end Csv

end Curriculum
