/-!
The report: what was removed, in the order of removal, and how many passes ran.
-/

namespace DeadCode

/-- What sort of construct a removal took out. -/
inductive Removed where
  | declaration | declarator | function | importName | assignment
  | other (label : String)
  deriving DecidableEq, Inhabited

namespace Removed

def label : Removed → String
  | .declaration => "declaration"
  | .declarator => "declarator"
  | .function => "function"
  | .importName => "import"
  | .assignment => "assignment"
  | .other label => label

/-- The sorts that are counted. -/
def counted : List Removed := [.declaration, .declarator, .function, .importName, .assignment]

def ofLabel (s : String) : Removed := (counted.find? fun r => r.label = s).getD (.other s)

theorem label_ofLabel (s : String) : (ofLabel s).label = s := by
  unfold ofLabel
  cases h : counted.find? fun r => r.label = s with
  | none => rfl
  | some r => simpa using List.find?_some h

end Removed

structure Removal where
  name : String
  what : Removed
  line : Int
  deriving DecidableEq, Inhabited

structure Report where
  removals : List Removal := []
  passes : Nat := 0
  deriving DecidableEq, Inhabited

namespace Report

def record (r : Report) (removal : Removal) : Report :=
  { r with removals := r.removals ++ [removal] }

def count (r : Report) (what : Removed) : Nat := r.removals.countP (·.what = what)

def total (r : Report) : Nat := r.removals.length

/-- Names removed, those of one sort or all. -/
def names (r : Report) (what : Option Removed := none) : List String :=
  (r.removals.filter fun m => what.all (· = m.what)).map Removal.name

@[simp] theorem total_record (r : Report) (removal : Removal) :
    (r.record removal).total = r.total + 1 := by
  simp [total, record]

end Report
end DeadCode
