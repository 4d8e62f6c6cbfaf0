/-!
Field names: the role a node fills in its parent. `label_ofLabel`: no field name is lost.
-/

namespace DeadCode

inductive Field where
  | name | kind | left | right | value | pattern | parameters | parameter | alias | body
  | consequence | initializer | source | declaration
  | other (label : String)
  deriving DecidableEq, Inhabited

namespace Field

def label : Field → String
  | .name => "name"
  | .kind => "kind"
  | .left => "left"
  | .right => "right"
  | .value => "value"
  | .pattern => "pattern"
  | .parameters => "parameters"
  | .parameter => "parameter"
  | .alias => "alias"
  | .body => "body"
  | .consequence => "consequence"
  | .initializer => "initializer"
  | .source => "source"
  | .declaration => "declaration"
  | .other label => label

def known : List Field :=
  [.name, .kind, .left, .right, .value, .pattern, .parameters, .parameter, .alias, .body,
   .consequence, .initializer, .source, .declaration]

def ofLabel (s : String) : Field := (known.find? fun k => k.label = s).getD (.other s)

theorem label_ofLabel (s : String) : (ofLabel s).label = s := by
  unfold ofLabel
  cases h : known.find? fun k => k.label = s with
  | none => rfl
  | some k => simpa using List.find?_some h

end Field
end DeadCode
