import LatinToScript.Program.Basic

/-!
# The grammar

The grammar of programs as derivations over the kinds of tokens, so that places play no part:

* `Program ::= (';' | Stmt)*`
* `Stmt ::= ('si' | 'dum') Expr Block | Decl | Declarator | Block | literal | Paren`, where the `Expr`
  is a relation
* `Decl ::= ('dico' | 'constituo' | 'pono') Declarator+ (';' | before '}' | at the end)`
* `Declarator ::= Name 'esse' Expr`
* `Expr ::= Operand (Operator Operand)?`
* `Operand ::= literal | Name | Paren`
* `Paren ::= '(' Operand Operator Operand ')'`
* `Block ::= '{' (';' | Stmt)* '}'`

A declaration may end in front of a closing brace or of the end of the tokens without taking a token
for its end. The relations from `DerivesDeclaration` on therefore also mention the tokens that follow
the derived ones. How deep brackets may be nested is no part of the grammar.
-/

namespace LatinToScript

/-! ## Expressions -/

/-- Tokens that are values by themselves. -/
inductive DerivesLiteral : List TokenKind → Expression → Prop where
  | number {value} :
    DerivesLiteral [.number value] (.number value)
  | text {text} :
    DerivesLiteral [.text text] (.text text)
  | boolean {word} :
    DerivesLiteral [.boolean word] (.boolean (.word word))
  | null :
    DerivesLiteral [.null] (.null (.word nullWord))

mutual

/-- `Operand ::= literal | Name | Paren`. -/
inductive DerivesOperand : List TokenKind → Expression → Prop where
  | literal {ks e} :
    DerivesLiteral ks e →
    DerivesOperand ks e
  | name {n} :
    DerivesOperand [.name n] (.name n)
  | paren {ks e} :
    DerivesParen ks e →
    DerivesOperand ks e

/-- `Paren ::= '(' Operand Operator Operand ')'`. -/
inductive DerivesParen : List TokenKind → Expression → Prop where
  | relation {ks ls left word right} :
    DerivesOperand ks left →
    DerivesOperand ls right →
    DerivesParen
      (.opening .parenthesis :: (ks ++ .operator word :: (ls ++ [.closing .parenthesis])))
      (.relation left word right)

end

/-- `Expr ::= Operand (Operator Operand)?`. -/
inductive DerivesExpression : List TokenKind → Expression → Prop where
  | operand {ks e} :
    DerivesOperand ks e →
    DerivesExpression ks e
  | relation {ks ls left word right} :
    DerivesOperand ks left →
    DerivesOperand ls right →
    DerivesExpression (ks ++ .operator word :: ls) (.relation left word right)

/-! ## Declarations -/

/-- `Declarator ::= Name 'esse' Expr`. -/
inductive DerivesDeclarator : List TokenKind → Declarator → Prop where
  | bind {ks n e} :
    DerivesExpression ks e →
    DerivesDeclarator (.name n :: .copula :: ks) ⟨n, e⟩

/-- `Declarator+`. -/
inductive DerivesDeclarators : List TokenKind → List Declarator → Prop where
  | one {ks d} :
    DerivesDeclarator ks d →
    DerivesDeclarators ks [d]
  | cons {ks ls d ds} :
    DerivesDeclarator ks d →
    DerivesDeclarators ls ds →
    DerivesDeclarators (ks ++ ls) (d :: ds)

/-- The end of a declaration: the tokens taken for it, and those that follow. -/
inductive EndsDeclaration : List TokenKind → List TokenKind → Prop where
  | semicolon {rest} :
    EndsDeclaration [.semicolon] rest
  | brace {rest} :
    EndsDeclaration [] (.closing .brace :: rest)
  | finish :
    EndsDeclaration [] []

/-- `Decl`, in front of some tokens. -/
inductive DerivesDeclaration : List TokenKind → List TokenKind → Declaration → Prop where
  | declare {ks ending rest binding ds} :
    DerivesDeclarators ks ds →
    EndsDeclaration ending rest →
    DerivesDeclaration (.keyword (.declare binding) :: (ks ++ ending)) rest ⟨.latin binding, ds⟩

/-! ## Statements -/

/-- The statement that a control keyword makes of a relation and a block. -/
def Control.statement : Control → Relation → List Statement → Statement
  | .si, test, body => .conditional test body none
  | .dum, test, body => .loop test body

mutual

/-- `Stmt`, in front of some tokens. -/
inductive DerivesStatement : List TokenKind → List TokenKind → Statement → Prop where
  | control {ks ls rest control left word right body} :
    DerivesExpression ks (.relation left word right) →
    DerivesBlock ls rest body →
    DerivesStatement (.keyword (.control control) :: (ks ++ ls)) rest
      (control.statement ⟨left, word, right⟩ body)
  | declaration {ks rest d} :
    DerivesDeclaration ks rest d →
    DerivesStatement ks rest (.declaration d)
  | binding {ks rest d} :
    DerivesDeclarator ks d →
    DerivesStatement ks rest (.binding d)
  | block {ks rest body} :
    DerivesBlock ks rest body →
    DerivesStatement ks rest (.block body)
  | literal {ks rest e} :
    DerivesLiteral ks e →
    DerivesStatement ks rest (.expression e)
  | paren {ks rest e} :
    DerivesParen ks e →
    DerivesStatement ks rest (.expression e)

/-- `Block ::= '{' (';' | Stmt)* '}'`, in front of some tokens. -/
inductive DerivesBlock : List TokenKind → List TokenKind → List Statement → Prop where
  | braces {ks rest body} :
    DerivesStatements ks (.closing .brace :: rest) body →
    DerivesBlock (.opening .brace :: (ks ++ [.closing .brace])) rest body

/-- `(';' | Stmt)*`, in front of some tokens. -/
inductive DerivesStatements : List TokenKind → List TokenKind → List Statement → Prop where
  | nil {rest} :
    DerivesStatements [] rest []
  | semicolon {ks rest ss} :
    DerivesStatements ks rest ss →
    DerivesStatements (.semicolon :: ks) rest ss
  | cons {ks ls rest s ss} :
    DerivesStatement ks (ls ++ rest) s →
    DerivesStatements ls rest ss →
    DerivesStatements (ks ++ ls) rest (s :: ss)

end

/-- `Program ::= (';' | Stmt)*`, with nothing after it. -/
def DerivesProgram (ks : List TokenKind) (p : Program) : Prop :=
  DerivesStatements ks [] p.body

end LatinToScript
