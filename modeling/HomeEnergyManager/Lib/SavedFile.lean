import Mathlib.Data.Nat.Notation

/-! # A document that is kept in a file

A writer puts the whole document into a temporary file and renames it over the old one; a reader
takes it back if the file is small enough. A write is told by what its steps returned. Whether the
bytes that were put have reached the file is a result of its own, since a writer that does not look
at it renames a file that was cut short.
-/

namespace SavedFile

variable {α : Type*}

/-- What is in the file: the text of a document, or a part of one, which is none. -/
inductive File (α : Type*) where
  | text (v : α)
  | cut

/-- What the steps of a write returned. -/
structure Write where
  printed : Bool := true
  opened : Bool := true
  put : Bool := true
  flushed : Bool := true
  renamed : Bool := true
deriving DecidableEq

/-- The writer reports success. -/
def Write.reported (w : Write) : Bool := w.printed && w.opened && w.put && w.renamed

/-- The file was replaced by a part of the document. -/
def Write.cuts (w : Write) : Bool := w.reported && !w.flushed

/-- The file after a write of `v`. -/
def Write.replace (w : Write) (v : α) (disk : Option (File α)) : Option (File α) :=
  if w.reported then some (if w.flushed then .text v else .cut) else disk

/-- The document that a reader finds; `readable` is false if the file cannot be opened or read. -/
def load (size : α → ℕ) (limit : ℕ) (readable : Bool) : Option (File α) → Option α
  | some (.text v) => if readable && decide (0 < size v ∧ size v ≤ limit) then some v else none
  | _ => none

section

variable {w : Write} {v : α} {disk : Option (File α)} {size : α → ℕ} {limit : ℕ}
  {readable : Bool}

/-- A write that reports success leaves the document or a part of it. -/
theorem Write.replace_of_reported (h : w.reported = true) :
    w.replace v disk = some (.text v) ∨ w.replace v disk = some .cut := by
  rw [replace, if_pos h]
  cases w.flushed
  · exact Or.inr rfl
  · exact Or.inl rfl

/-- Unless it cuts the file, a write leaves the document or what was there. -/
theorem Write.replace_of_not_cuts (h : w.cuts = false) :
    w.replace v disk = disk ∨ w.replace v disk = some (.text v) := by
  rw [replace]
  cases hw : w.reported
  · exact Or.inl rfl
  · have hflushed : w.flushed = true := by simpa [cuts, hw] using h
    exact Or.inr (by rw [if_pos rfl, if_pos hflushed])

theorem Write.replace_of_cuts (h : w.cuts = true) : w.replace v disk = some .cut := by
  rw [cuts, Bool.and_eq_true] at h
  rw [replace, if_pos h.1]
  simpa using h.2

/-- A reader finds nothing in a part of a document. -/
theorem load_cut : load size limit readable (some .cut) = none := rfl

/-- A document is found if and only if the file can be read and is small enough. -/
theorem load_text (hpos : 0 < size v) : load size limit readable (some (.text v)) =
    if readable = true ∧ size v ≤ limit then some v else none := by
  simp [load, hpos]

end

end SavedFile
