import RegularGrammar.Grammar
import RegularGrammar.Expr.Draft
import RegularGrammar.Source.Items

/-!
# Reading a grammar

The text of a grammar is a row of productions, `name = expression .`, where the
expression may be missing. No two of them may have one name.
-/

namespace RegularGrammar

open Source (Token Item)

/-- Where in a row of productions the reading stands. -/
inductive Stage where
  | outside
  /-- After the name of a production. -/
  | named (name : String) (offset : Nat)
  /-- After the equals sign. -/
  | opened (name : String) (offset : Nat)
  /-- After some token of the body. -/
  | inside (name : String) (offset : Nat) (draft : Draft)

/-- A grammar as far as it has been read. -/
structure Reading where
  done : Grammar
  stage : Stage

namespace Reading

def start : Reading := ⟨.empty, .outside⟩

/-- What must come next, where what does come next does not fit. -/
def expected (r : Reading) : Expected :=
  match r.stage with
  | .outside => .productionName
  | .named _ _ => .equals
  | .opened _ _ => .term
  | .inside _ _ draft => draft.expected

/-- The reading after a production, unless its name is taken. -/
def close (r : Reading) (name : String) (offset : Nat) (body : Expr) : Except ParseError Reading :=
  if (r.done.get? name).isSome then .error (.redefined name offset)
  else .ok ⟨r.done.insert ⟨name, body⟩, .outside⟩

/-- The error at a token that cannot stand where it stands. -/
def misfit (r : Reading) (token : Token) : Except ParseError Reading :=
  .error (.unexpected r.expected token.origin token.offset)

/-- The reading with one more token in the body of a production. -/
def extend (r : Reading) (name : String) (offset : Nat) (draft : Draft) (token : Token) : Except ParseError Reading :=
  match draft.step token.kind with
  | some draft => .ok ⟨r.done, .inside name offset draft⟩
  | none => r.misfit token

/-- The reading with one more token. -/
def step (r : Reading) (token : Token) : Except ParseError Reading :=
  match r.stage, token.kind with
  | .outside, .name text => .ok ⟨r.done, .named text token.offset⟩
  | .outside, _ => r.misfit token
  | .named name offset, .equals => .ok ⟨r.done, .opened name offset⟩
  | .named _ _, _ => r.misfit token
  | .opened name offset, .period => r.close name offset (.sequence [])
  | .opened name offset, _ => r.extend name offset .start token
  | .inside name offset draft, .period =>
    match draft.finish? with
    | some e => r.close name offset e
    | none => r.misfit token
  | .inside name offset draft, _ => r.extend name offset draft token

/-- The grammar, if the text ends here. -/
def finish (r : Reading) : Except ParseError Grammar :=
  match r.stage with
  | .outside => .ok r.done
  | _ => .error (.unexpectedEnd r.expected)

/-- The grammar that the rest of a text completes. -/
def run (r : Reading) : List Item → Except ParseError Grammar
  | [] => r.finish
  | .error e :: _ => .error (.invalidToken e)
  | .ok token :: rest =>
    match r.step token with
    | .error e => .error e
    | .ok r => r.run rest

end Reading

/-- The grammar that a text writes. -/
def Grammar.ofText (text : String) : Except ParseError Grammar := Reading.start.run (Source.items text)

end RegularGrammar
