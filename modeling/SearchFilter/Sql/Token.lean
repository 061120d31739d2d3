import SearchFilter.Text.Digit
import SearchFilter.Text.Letter

/-!
# Tokens of conditions

Words, signs, literals and placeholders. Blanks only separate. A placeholder carries what is bound
for it, or nothing before anything is bound.
-/

namespace SearchFilter.Sql

inductive Sign where
  | equal
  | notEqual
  | less
  | atMost
  | greater
  | atLeast
deriving DecidableEq, Repr

inductive Token (α : Type) where
  | word (letters : String)
  | placeholder (value : α)
  | left
  | right
  | comma
  | sign (s : Sign)
  /-- The step into JSON that keeps JSON. -/
  | keep
  /-- The step into JSON that takes the text. -/
  | take
  | number (n : Nat)
  | text (s : String)
deriving DecidableEq, Repr

def isBlank (c : Char) : Bool :=
  c = ' ' || c = '\n' || c = '\t' || c = '\r' || c = '\x0c'

/-- The number of characters of a sign and the sign, at the start of a text. -/
def sign? : List Char → Option (Nat × Token Unit)
  | '-' :: '>' :: '>' :: _ => some (3, .take)
  | '-' :: '>' :: _ => some (2, .keep)
  | '<' :: '=' :: _ => some (2, .sign .atMost)
  | '<' :: '>' :: _ => some (2, .sign .notEqual)
  | '<' :: _ => some (1, .sign .less)
  | '>' :: '=' :: _ => some (2, .sign .atLeast)
  | '>' :: _ => some (1, .sign .greater)
  | '=' :: '=' :: _ => some (2, .sign .equal)
  | '=' :: _ => some (1, .sign .equal)
  | '!' :: '=' :: _ => some (2, .sign .notEqual)
  | '(' :: _ => some (1, .left)
  | ')' :: _ => some (1, .right)
  | ',' :: _ => some (1, .comma)
  | '?' :: _ => some (1, .placeholder ())
  | _ => none

/-- A quoted text behind its opening quote, with the number of characters it takes there. A quote
inside is written twice. -/
def quoted? : List Char → Option (Nat × List Char)
  | [] => none
  | '\'' :: '\'' :: rest => (quoted? rest).map fun (n, s) => (n + 2, '\'' :: s)
  | '\'' :: _ => some (1, [])
  | c :: rest => (quoted? rest).map fun (n, s) => (n + 1, c :: s)

/-- The token at the start of a text, with the number of further characters that it takes. -/
def token? (c : Char) (rest : List Char) : Option (Nat × Token Unit) :=
  if Text.startsWord c then
    let more := rest.takeWhile Text.continuesWord
    some (more.length, .word (String.ofList (c :: more)))
  else if c.isDigit then
    let more := rest.takeWhile Char.isDigit
    some (more.length, .number (Text.digitsValue (c :: more)))
  else if c = '\'' then
    (quoted? rest).map fun (n, s) => (n, .text (String.ofList s))
  else (sign? (c :: rest)).map fun (n, t) => (n - 1, t)

/-- The tokens of a text whose first `skip` characters belong to the token before, or `none` if
some character starts no token. -/
def cutTokens : (skip : Nat) → List Char → Option (List (Token Unit))
  | _, [] => some []
  | skip + 1, _ :: rest => cutTokens skip rest
  | 0, c :: rest =>
    if isBlank c then cutTokens 0 rest
    else
      match token? c rest with
      | none => none
      | some (more, t) => (cutTokens more rest).map (t :: ·)

def tokens? (text : List Char) : Option (List (Token Unit)) := cutTokens 0 text

/-- Puts the values in the places of the placeholders, one each. -/
def Token.fill {α : Type} : List (Token Unit) → List α → Option (List (Token α))
  | [], [] => some []
  | [], _ :: _ => none
  | .placeholder () :: _, [] => none
  | .placeholder () :: ts, v :: vs => (fill ts vs).map (.placeholder v :: ·)
  | .word w :: ts, vs => (fill ts vs).map (.word w :: ·)
  | .left :: ts, vs => (fill ts vs).map (.left :: ·)
  | .right :: ts, vs => (fill ts vs).map (.right :: ·)
  | .comma :: ts, vs => (fill ts vs).map (.comma :: ·)
  | .sign s :: ts, vs => (fill ts vs).map (.sign s :: ·)
  | .keep :: ts, vs => (fill ts vs).map (.keep :: ·)
  | .take :: ts, vs => (fill ts vs).map (.take :: ·)
  | .number n :: ts, vs => (fill ts vs).map (.number n :: ·)
  | .text s :: ts, vs => (fill ts vs).map (.text s :: ·)

end SearchFilter.Sql
