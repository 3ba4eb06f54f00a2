import LatinToScript.Program.Walk

/-!
# Native words

The words of the script language for those of the source language. Numerals and quoted texts carry
their values from the start, so keywords, literals and operators are all that is left to exchange.
Words that are not of the source language stay as they are.

The exchange is a relabeling: it changes what single nodes hold, each by itself, and leaves the shape of
the tree alone.
-/

namespace LatinToScript

/-! ## Relabelings -/

/-- For each thing that a node can hold, what is put in its place; the first argument of each
function is the kind of the node's parent. -/
structure Relabeling where
  declarationKind : NodeKind → DeclarationKind → DeclarationKind := fun _ kind => kind
  name : NodeKind → String → String := fun _ name => name
  number : NodeKind → Int → Int := fun _ value => value
  text : NodeKind → String → String := fun _ text => text
  boolean : NodeKind → BooleanValue → BooleanValue := fun _ value => value
  null : NodeKind → NullValue → NullValue := fun _ value => value
  operator : NodeKind → String → String := fun _ word => word

/-- A relabeling as a visitor. -/
def Relabeling.visitor (r : Relabeling) : Visitor Id :=
  { Visitor.idle with
    declaration := fun parent d =>
      ⟨{ d with kind := r.declarationKind parent d.kind }, Nat.le_refl _⟩
    name := r.name
    number := r.number
    text := r.text
    boolean := r.boolean
    null := r.null
    relation := fun parent x =>
      ⟨{ x with operator := r.operator parent x.operator }, Nat.le_refl _⟩ }

/-- A program after one walk with a relabeling. -/
def Program.relabel (r : Relabeling) (p : Program) : Program :=
  Id.run (p.walk r.visitor)

/-! ## Words -/

/-- The symbol for an operator word, if it is one. -/
def operatorSymbol? : String → Option String
  | "sit" => some "=="
  | "nonest" => some "!="
  | "maior" => some ">"
  | "minor" => some "<"
  | "additum" => some "+"
  | "detractum" => some "-"
  | "multiplicatum" => some "*"
  | "divisum" => some "/"
  | _ => none

/-- The native wording of a declaration. -/
def DeclarationKind.toNative : DeclarationKind → DeclarationKind
  | .latin b => .native b
  | .native b => .native b

/-- The native form of a boolean literal. -/
def BooleanValue.toNative : BooleanValue → BooleanValue
  | .word "verum" => .native true
  | .word "falsum" => .native false
  | value => value

/-- The native form of a null literal. -/
def NullValue.toNative (value : NullValue) : NullValue :=
  if value = .word nullWord then .native else value

/-- The relabeling that puts native words in the place of Latin ones. -/
def nativeWords : Relabeling where
  declarationKind _ kind := kind.toNative
  boolean _ value := value.toNative
  null _ value := value.toNative
  operator _ word := (operatorSymbol? word).getD word

/-- A program with native words in the place of Latin ones. -/
def Program.toNative (p : Program) : Program :=
  p.relabel nativeWords

end LatinToScript
