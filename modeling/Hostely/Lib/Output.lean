import Mathlib.Logic.Basic
/-!
# Output streams that fail

A file is opened, which empties it, written through a stream, and closed. Every
step may fail, a write or a close after some of the data.
-/

namespace Hostely.Lib

universe u v

/-- Files by their paths. -/
abbrev Files (P : Type u) (C : Type v) := P → Option C

/-- How the steps of one file go. -/
structure Output where
  opens : Bool
  /-- So much reached the file when the write failed. -/
  write : Option Nat
  /-- So much is in the file when the close failed. -/
  close : Option Nat
deriving DecidableEq, Repr

namespace Output

/-- No step failed. -/
def ok (o : Output) : Bool := o.opens && o.write.isNone && o.close.isNone

variable {α : Type u}

/-- What an opened file holds at the end. -/
def left (o : Output) (data : List α) : List α :=
  match o.write, o.close with
  | some k, _ => data.take k
  | none, some k => data.take k
  | none, none => data

theorem left_of_ok {o : Output} (h : o.ok = true) (data : List α) : o.left data = data := by
  obtain ⟨opens, write, close⟩ := o
  cases write <;> cases close <;> simp_all [ok, left]

theorem opens_of_ok {o : Output} (h : o.ok = true) : o.opens = true := by
  simp only [ok, Bool.and_eq_true] at h
  exact h.1.1

end Output

end Hostely.Lib
