import DeadCode.Path

/-!
Grammars of the parser and the extensions that choose them. Plain TypeScript has its own grammar, so that
a cast `<T>value` is not read as an element; everything else takes the widest one.
-/

namespace DeadCode

inductive Grammar where
  | tsx | typescript | javascript
  deriving DecidableEq, Inhabited

structure UnknownGrammar where
  given : String
  deriving DecidableEq

def UnknownGrammar.message (e : UnknownGrammar) : String := "Unsupported language: " ++ e.given

namespace Grammar

def name : Grammar → String
  | .tsx => "tsx"
  | .typescript => "typescript"
  | .javascript => "javascript"

def ofName (s : String) : Except UnknownGrammar Grammar :=
  match [tsx, typescript, javascript].find? fun g => g.name = s with
  | some g => .ok g
  | none => .error ⟨s⟩

theorem ofName_name (g : Grammar) : ofName g.name = .ok g := by
  cases g <;> simp [ofName, name]

def ofExtension (extension : String) : Grammar :=
  if [".ts", ".mts", ".cts"].contains extension then .typescript else .tsx

/-- The name that leaves the choice to the extension. -/
def auto : String := "auto"

/-- The grammar asked for by name, or the one of the path's extension in any case of its letters. -/
def choose (path : Path) (given : String) : Except UnknownGrammar Grammar :=
  if given = auto then .ok (ofExtension (Text.lower path.suffix)) else ofName given

end Grammar
end DeadCode
