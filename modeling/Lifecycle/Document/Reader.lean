import Lifecycle.Document

/-!
# Documents as text

Documents are written as JSON.  Reading goes in two passes, each a single walk: `Lexeme.scan`
cuts the characters into lexemes, and `Document.ofLexemes?` puts the lexemes together on a stack
of the brackets that are still open.  Fields keep their written order, and numbers and truth
values keep their written form.
-/

namespace Lifecycle

/-- A piece of written document. -/
inductive Lexeme where
  | openMapping
  | closeMapping
  | openList
  | closeList
  | colon
  | comma
  /-- A quoted text, without its quotes. -/
  | quoted (text : String)
  /-- A number, truth value or `null`. -/
  | word (text : String)
  deriving DecidableEq, Repr, Inhabited

namespace Lexeme

/-- The lexeme that a single character is. -/
def ofPunctuation? : Char → Option Lexeme
  | '\x7b' => some openMapping
  | '\x7d' => some closeMapping
  | '[' => some openList
  | ']' => some closeList
  | ':' => some colon
  | ',' => some comma
  | _ => none

/-- Blanks between lexemes. -/
def isBlank (c : Char) : Bool := c = ' ' || c = '\t' || c = '\n' || c = '\r'

/-- The character that an escape stands for. -/
def unescape? : Char → Option Char
  | '"' => some '"'
  | '\\' => some '\\'
  | '/' => some '/'
  | 'b' => some '\x08'
  | 'f' => some '\x0c'
  | 'n' => some '\n'
  | 'r' => some '\r'
  | 't' => some '\t'
  | _ => none

/-- The number that four hexadecimal digits write. -/
def codeUnit? (digits : List Char) : Option Nat :=
  if digits.all fun c => Document.digitValue c < 16 then
    some (digits.foldl (fun value c => value * 16 + Document.digitValue c) 0)
  else
    none

/-- The character that two surrogate halves stand for. -/
def ofSurrogates? (high low : Nat) : Option Char :=
  if 0xD800 ≤ high ∧ high < 0xDC00 ∧ 0xDC00 ≤ low ∧ low < 0xE000 then
    some (Char.ofNat (0x10000 + (high - 0xD800) * 0x400 + (low - 0xDC00)))
  else
    none

/-- What the scanner is in the middle of. -/
inductive Mode where
  | between
  | inWord (text : String)
  | inQuotes (text : String)

/-- Cut characters into lexemes; `done` holds those found so far, newest first. -/
def scan (mode : Mode) (done : List Lexeme) : List Char → Option (List Lexeme)
  | [] =>
      match mode with
      | .between => some done.reverse
      | .inWord text => some (word text :: done).reverse
      | .inQuotes _ => none
  | c :: rest =>
      match mode with
      | .between =>
          if isBlank c then
            scan .between done rest
          else if c = '"' then
            scan (.inQuotes "") done rest
          else
            match ofPunctuation? c with
            | some lexeme => scan .between (lexeme :: done) rest
            | none => scan (.inWord (String.singleton c)) done rest
      | .inWord text =>
          if isBlank c then
            scan .between (word text :: done) rest
          else
            match ofPunctuation? c with
            | some lexeme => scan .between (lexeme :: word text :: done) rest
            | none => scan (.inWord (text.push c)) done rest
      | .inQuotes text =>
          if c = '"' then
            scan .between (quoted text :: done) rest
          else if c = '\\' then
            match rest with
            | 'u' :: d₁ :: d₂ :: d₃ :: d₄ :: rest =>
                match codeUnit? [d₁, d₂, d₃, d₄] with
                | none => none
                | some unit =>
                    if unit < 0xD800 ∨ 0xE000 ≤ unit then
                      scan (.inQuotes (text.push (Char.ofNat unit))) done rest
                    else
                      match rest with
                      | '\\' :: 'u' :: e₁ :: e₂ :: e₃ :: e₄ :: rest =>
                          match (codeUnit? [e₁, e₂, e₃, e₄]).bind (ofSurrogates? unit) with
                          | none => none
                          | some char => scan (.inQuotes (text.push char)) done rest
                      | _ => none
            | e :: rest =>
                match unescape? e with
                | none => none
                | some char => scan (.inQuotes (text.push char)) done rest
            | [] => none
          else
            scan (.inQuotes (text.push c)) done rest

end Lexeme

namespace Document

/-- The document that a bare word is. -/
def ofWord? (word : String) : Option Document :=
  if word = "null" then
    some null
  else if word = "true" ∨ word = "false" then
    some (scalar word)
  else if word.toList.all fun c => c.isDigit || c ∈ ['-', '+', '.', 'e', 'E'] then
    some (scalar word)
  else
    none

/-- A bracket that is still open, with what stands in it so far, newest first. -/
inductive Opened where
  | list (items : List Document)
  | beforeKey (fields : List (String × Document))
  | beforeColon (fields : List (String × Document)) (key : String)
  | beforeValue (fields : List (String × Document)) (key : String)

/-- A document under construction: either a value is due, or one has just been completed. -/
inductive Draft where
  | awaiting (opened : List Opened)
  | holding (value : Document) (opened : List Opened)

/-- Take in one lexeme. -/
def Draft.step : Draft → Lexeme → Option Draft
  | awaiting (.beforeKey fields :: opened), .quoted key =>
      some (awaiting (.beforeColon fields key :: opened))
  | awaiting (.beforeKey [] :: opened), .closeMapping => some (holding (mapping []) opened)
  | awaiting (.beforeKey _ :: _), _ => none
  | awaiting (.beforeColon fields key :: opened), .colon =>
      some (awaiting (.beforeValue fields key :: opened))
  | awaiting (.beforeColon _ _ :: _), _ => none
  | awaiting (.list [] :: opened), .closeList => some (holding (list []) opened)
  | awaiting opened, .openMapping => some (awaiting (.beforeKey [] :: opened))
  | awaiting opened, .openList => some (awaiting (.list [] :: opened))
  | awaiting opened, .quoted text => some (holding (scalar text) opened)
  | awaiting opened, .word text => (ofWord? text).map (holding · opened)
  | awaiting _, _ => none
  | holding value (.list items :: opened), .comma => some (awaiting (.list (value :: items) :: opened))
  | holding value (.list items :: opened), .closeList =>
      some (holding (list (value :: items).reverse) opened)
  | holding value (.beforeValue fields key :: opened), .comma =>
      some (awaiting (.beforeKey ((key, value) :: fields) :: opened))
  | holding value (.beforeValue fields key :: opened), .closeMapping =>
      some (holding (mapping ((key, value) :: fields).reverse) opened)
  | holding _ _, _ => none

/-- The document that a row of lexemes writes. -/
def ofLexemes? (lexemes : List Lexeme) : Option Document :=
  match lexemes.foldlM Draft.step (.awaiting []) with
  | some (.holding value []) => some value
  | _ => none

/-- The document that a text writes. -/
def parse? (text : String) : Option Document :=
  (Lexeme.scan .between [] text.toList).bind ofLexemes?

end Document

end Lifecycle
