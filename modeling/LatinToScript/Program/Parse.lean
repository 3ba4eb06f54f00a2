import LatinToScript.Program.ParseError

/-!
# From tokens to programs

Each rule of the grammar is a production: it takes the tokens that it needs from the front of a
token list and leaves the others, or it fails. A production takes at least one token, which is why
the loops below end. `Program.ofTokens` reads a whole token list.

Blocks and parentheses may enclose one another up to a limit. The argument `room` is the number of
levels that are left.
-/

namespace LatinToScript

/-- What is left of a token list after at least one token has been taken from its front. -/
abbrev Rest (tokens : List Token) :=
  { rest : List Token // rest.length < tokens.length }

/-- A rule of the grammar: the thing read and the tokens after it, or the first fault. -/
abbrev Production (α : Type) :=
  (tokens : List Token) → Except ParseError (α × Rest tokens)

namespace Production

variable {α β : Type}

/-- Takes one token, as the function given reads it. -/
def token (read : Token → Except ParseError α) : Production α
  | [] => .error .unexpectedEnd
  | t :: tokens =>
    match read t with
    | .error e => .error e
    | .ok a => .ok (a, ⟨tokens, Nat.lt_succ_self _⟩)

/-- One production, and then another one that may depend on what the first one has read. -/
def andThen (first : Production α) (second : α → Production β) : Production β := fun tokens =>
  match first tokens with
  | .error e => .error e
  | .ok (a, rest) =>
    match second a rest.val with
    | .error e => .error e
    | .ok (b, rest') => .ok (b, ⟨rest'.val, Nat.lt_trans rest'.property rest.property⟩)

/-- A production whose result is changed. -/
def map (f : α → β) (production : Production α) : Production β := fun tokens =>
  match production tokens with
  | .error e => .error e
  | .ok (a, rest) => .ok (f a, rest)

end Production

namespace Grammar

/-! ## Expressions -/

/-- The word of an operator. -/
def operator : Production String :=
  .token fun t =>
    match t.kind with
    | .operator word => .ok word
    | found => .error (.expected .operator found t.position)

/-- The end of a parenthesis. -/
def closingParenthesis : Production Unit :=
  .token fun t =>
    match t.kind with
    | .closing .parenthesis => .ok ()
    | found => .error (.expected .closingParenthesis found t.position)

/-- What stands between an opening parenthesis and the end of the parenthesis: a relation. -/
def parenthesized (operand : Production Expression) : Production Expression :=
  operand.andThen fun left =>
    operator.andThen fun word =>
      operand.andThen fun right =>
        closingParenthesis.map fun () => .relation left word right

/-- A literal, a name, or a relation in parentheses. -/
def operand (room : Nat) : Production Expression
  | [] => .error .unexpectedEnd
  | t :: tokens =>
    match t.kind with
    | .number value => .ok (.number value, ⟨tokens, Nat.lt_succ_self _⟩)
    | .text text => .ok (.text text, ⟨tokens, Nat.lt_succ_self _⟩)
    | .boolean word => .ok (.boolean (.word word), ⟨tokens, Nat.lt_succ_self _⟩)
    | .null => .ok (.null (.word nullWord), ⟨tokens, Nat.lt_succ_self _⟩)
    | .name name => .ok (.name name, ⟨tokens, Nat.lt_succ_self _⟩)
    | .opening .parenthesis =>
      match room with
      | 0 => .error (.nestingTooDeep t.position)
      | room + 1 =>
        match parenthesized (operand room) tokens with
        | .error e => .error e
        | .ok (e, rest) => .ok (e, ⟨rest.val, Nat.lt_succ_of_lt rest.property⟩)
    | found => .error (.expected .expression found t.position)

/-- An operand, and after it perhaps an operator and a second operand. -/
def expression (room : Nat) : Production Expression := fun tokens =>
  match operand room tokens with
  | .error e => .error e
  | .ok (left, ⟨[], shorter⟩) => .ok (left, ⟨[], shorter⟩)
  | .ok (left, ⟨t :: rest, shorter⟩) =>
    match t.kind with
    | .operator word =>
      match operand room rest with
      | .error e => .error e
      | .ok (right, rest') =>
        .ok (.relation left word right,
          ⟨rest'.val, Nat.lt_trans rest'.property (Nat.lt_of_succ_lt shorter)⟩)
    | _ => .ok (left, ⟨t :: rest, shorter⟩)

/-! ## Declarations -/

/-- The name in front of a copula. -/
def boundName : Production String :=
  .token fun t =>
    match t.kind with
    | .name name => .ok name
    | found => .error (.expected .name found t.position)

/-- The word between a name and its value. -/
def copula : Production Unit :=
  .token fun t =>
    match t.kind with
    | .copula => .ok ()
    | found => .error (.expected .copula found t.position)

/-- A name, the copula, and a value. -/
def declarator (room : Nat) : Production Declarator :=
  boundName.andThen fun name =>
    copula.andThen fun () =>
      (expression room).map fun value => ⟨name, value⟩

/-- Declarators up to a semicolon, which is taken, a closing brace, which is left, or the end. -/
def declarators (room : Nat) (tokens : List Token) :
    Except ParseError (List Declarator × { rest : List Token // rest.length ≤ tokens.length }) :=
  match tokens with
  | [] => .ok ([], ⟨[], Nat.le_refl _⟩)
  | t :: tokens =>
    match t.kind with
    | .semicolon => .ok ([], ⟨tokens, Nat.le_succ _⟩)
    | .closing .brace => .ok ([], ⟨t :: tokens, Nat.le_refl _⟩)
    | _ =>
      match declarator room (t :: tokens) with
      | .error e => .error e
      | .ok (d, rest) =>
        match declarators room rest.val with
        | .error e => .error e
        | .ok (ds, rest') =>
          .ok (d :: ds, ⟨rest'.val, Nat.le_trans rest'.property (Nat.le_of_lt rest.property)⟩)
termination_by tokens.length
decreasing_by exact rest.property

/-- What follows the keyword of a declaration that stands at `position`. -/
def declaration (room : Nat) (binding : Binding) (position : Position) (tokens : List Token) :
    Except ParseError (Declaration × { rest : List Token // rest.length ≤ tokens.length }) :=
  match declarators room tokens with
  | .error e => .error e
  | .ok ([], _) => .error (.emptyDeclaration position)
  | .ok (d :: ds, rest) => .ok (⟨.latin binding, d :: ds⟩, rest)

/-! ## Statements -/

/-- Statements up to the closing brace of a block that was opened at `opening`; semicolons between
them are skipped. -/
def blockBody (statement : Production Statement) (owner : BlockOwner) (opening : Position)
    (tokens : List Token) : Except ParseError (List Statement × Rest tokens) :=
  match tokens with
  | [] => .error (.missingClosingBrace owner opening)
  | t :: tokens =>
    match t.kind with
    | .closing .brace => .ok ([], ⟨tokens, Nat.lt_succ_self _⟩)
    | .semicolon =>
      match blockBody statement owner opening tokens with
      | .error e => .error e
      | .ok (ss, rest) => .ok (ss, ⟨rest.val, Nat.lt_succ_of_lt rest.property⟩)
    | _ =>
      match statement (t :: tokens) with
      | .error e => .error e
      | .ok (s, rest) =>
        match blockBody statement owner opening rest.val with
        | .error e => .error e
        | .ok (ss, rest') => .ok (s :: ss, ⟨rest'.val, Nat.lt_trans rest'.property rest.property⟩)
termination_by tokens.length
decreasing_by
  · exact Nat.lt_succ_self _
  · exact rest.property

/-- What follows the keyword of a control statement that stands at `position`: a relation and a
block. The first argument reads a block after its opening brace. -/
def controlled (block : BlockOwner → Position → Production (List Statement)) (room : Nat)
    (control : Control) (position : Position) (tokens : List Token) :
    Except ParseError ((Relation × List Statement) × Rest tokens) :=
  match expression room tokens with
  | .error e => .error e
  | .ok (.relation _ _ _, ⟨[], _⟩) => .error .unexpectedEnd
  | .ok (.relation left word right, ⟨t :: rest, shorter⟩) =>
    match t.kind with
    | .opening .brace =>
      match block (.control control) t.position rest with
      | .error e => .error e
      | .ok (body, rest') =>
        .ok ((⟨left, word, right⟩, body),
          ⟨rest'.val, Nat.lt_trans rest'.property (Nat.lt_of_succ_lt shorter)⟩)
    | _ => .error (.missingOpeningBrace t.position)
  | .ok _ => .error (.missingCondition control position)

/-- A statement, by its first token. The first argument reads a block after its opening brace. -/
def statementWith (block : BlockOwner → Position → Production (List Statement)) (room : Nat) :
    Production Statement
  | [] => .error .unexpectedEnd
  | t :: tokens =>
    match t.kind with
    | .keyword (.control control) =>
      match controlled block room control t.position tokens with
      | .error e => .error e
      | .ok ((test, body), rest) =>
        let statement : Statement :=
          match control with
          | .si => .conditional test body none
          | .dum => .loop test body
        .ok (statement, ⟨rest.val, Nat.lt_succ_of_lt rest.property⟩)
    | .keyword (.declare binding) =>
      match declaration room binding t.position tokens with
      | .error e => .error e
      | .ok (d, rest) => .ok (.declaration d, ⟨rest.val, Nat.lt_succ_of_le rest.property⟩)
    | .name _ => (declarator room).map .binding (t :: tokens)
    | .opening .brace =>
      match block .bare t.position tokens with
      | .error e => .error e
      | .ok (body, rest) => .ok (.block body, ⟨rest.val, Nat.lt_succ_of_lt rest.property⟩)
    | .number _ | .text _ | .boolean _ | .null | .opening .parenthesis =>
      (operand room).map .expression (t :: tokens)
    | found => .error (.unexpectedToken found t.position)

/-- A block after its opening brace, which stands at `opening`. -/
def block : (room : Nat) → BlockOwner → (opening : Position) → Production (List Statement)
  | 0, _, opening, _ => .error (.nestingTooDeep opening)
  | room + 1, owner, opening, tokens =>
    blockBody (statementWith (block room) room) owner opening tokens

/-- A statement. -/
def statement (room : Nat) : Production Statement :=
  statementWith (block room) room

/-- Statements up to the end; semicolons between them are skipped. -/
def statements (room : Nat) (tokens : List Token) : Except ParseError (List Statement) :=
  match tokens with
  | [] => .ok []
  | t :: tokens =>
    match t.kind with
    | .semicolon => statements room tokens
    | _ =>
      match statement room (t :: tokens) with
      | .error e => .error e
      | .ok (s, rest) =>
        match statements room rest.val with
        | .error e => .error e
        | .ok ss => .ok (s :: ss)
termination_by tokens.length
decreasing_by
  · exact Nat.lt_succ_self _
  · exact rest.property

end Grammar

/-- The program that a token list is, where blocks and parentheses may enclose one another up to a
limit of one's own. -/
def Program.ofTokensWithin (limit : Nat) (tokens : List Token) : Except ParseError Program :=
  match Grammar.statements limit tokens with
  | .error e => .error e
  | .ok body => .ok ⟨body⟩

/-- The program that a token list is. -/
def Program.ofTokens (tokens : List Token) : Except ParseError Program :=
  Program.ofTokensWithin nestingLimit tokens

end LatinToScript
