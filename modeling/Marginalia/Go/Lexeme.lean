/-
Module: Marginalia.Go.Lexeme
Purpose: The lexemes of a source text, with their places.
Main exports:
  Point, Keyword, Mark, Token, Lexeme, Lexeme.scan, Lexeme.solid
-/
import Marginalia.Text.Letter

namespace Marginalia.Go

/-!
Which lexemes a text has does not depend on the grammar around them, with two exceptions that the
grammar settles itself: whether a word that is spelled like a keyword is one, and whether a mark
such as `++` stands for one operator or for two. A newline is a lexeme of its own here; the grammar
sees only whether there is one before a lexeme.
-/

/-- A place in the source: the offset in bytes and the number of newlines before it. -/
structure Point where
  offset : Nat
  row : Nat
deriving Repr, DecidableEq, Inhabited

/-- The place after a character. -/
def Point.advance (p : Point) (c : Char) : Point :=
  ⟨p.offset + c.utf8Size, if c = '\n' then p.row + 1 else p.row⟩

/-- The words with a meaning of their own. -/
inductive Keyword where
  | breakWord | caseWord | chanWord | constWord | continueWord | defaultWord | deferWord
  | elseWord | fallthroughWord | forWord | funcWord | goWord | gotoWord | ifWord | importWord
  | interfaceWord | mapWord | packageWord | rangeWord | returnWord | selectWord | structWord
  | switchWord | typeWord | varWord
  | nilWord | trueWord | falseWord | iotaWord | newWord | makeWord
deriving Repr, DecidableEq, Inhabited

/-- The spelling of the keywords. -/
def Keyword.spellings : List (String × Keyword) :=
  [("break", .breakWord), ("case", .caseWord), ("chan", .chanWord), ("const", .constWord),
    ("continue", .continueWord), ("default", .defaultWord), ("defer", .deferWord),
    ("else", .elseWord), ("fallthrough", .fallthroughWord), ("for", .forWord),
    ("func", .funcWord), ("go", .goWord), ("goto", .gotoWord), ("if", .ifWord),
    ("import", .importWord), ("interface", .interfaceWord), ("map", .mapWord),
    ("package", .packageWord), ("range", .rangeWord), ("return", .returnWord),
    ("select", .selectWord), ("struct", .structWord), ("switch", .switchWord),
    ("type", .typeWord), ("var", .varWord), ("nil", .nilWord), ("true", .trueWord),
    ("false", .falseWord), ("iota", .iotaWord), ("new", .newWord), ("make", .makeWord)]

/-- The keyword that a word spells. -/
def Keyword.ofWord? (word : List Char) : Option Keyword :=
  Keyword.spellings.lookup (String.ofList word)

/-- The keywords that begin a type. -/
def Keyword.beginsType : Keyword → Bool
  | .structWord => true
  | .interfaceWord => true
  | .mapWord => true
  | .chanWord => true
  | .funcWord => true
  | _ => false

/-- Operators and punctuation. The compound assignments are one mark: no rule tells them apart. -/
inductive Mark where
  | parenL | parenR | bracketL | bracketR | braceL | braceR
  | comma | semicolon | colon | dot | ellipsis | define | assign | compoundAssign
  | plus | minus | star | slash | percent | amp | bar | caret | shiftL | shiftR | ampCaret
  | andAnd | orOr | arrow | increment | decrement
  | equal | notEqual | less | lessEqual | greater | greaterEqual | bang | tilde | nul
deriving Repr, DecidableEq, Inhabited

/-- The spelling of the marks, every mark before those that it starts with. -/
def Mark.spellings : List (List Char × Mark) :=
  [("<<=", .compoundAssign), (">>=", .compoundAssign), ("&^=", .compoundAssign), ("...", .ellipsis),
    ("+=", .compoundAssign), ("-=", .compoundAssign), ("*=", .compoundAssign),
    ("/=", .compoundAssign), ("%=", .compoundAssign), ("&=", .compoundAssign),
    ("|=", .compoundAssign), ("^=", .compoundAssign),
    ("<<", .shiftL), (">>", .shiftR), ("&^", .ampCaret), ("&&", .andAnd), ("||", .orOr),
    ("<-", .arrow), ("++", .increment), ("--", .decrement), ("==", .equal), ("!=", .notEqual),
    ("<=", .lessEqual), (">=", .greaterEqual), (":=", .define),
    ("(", .parenL), (")", .parenR), ("[", .bracketL), ("]", .bracketR), ("\x7b", .braceL),
    ("\x7d", .braceR), (",", .comma), (";", .semicolon), (":", .colon), (".", .dot),
    ("=", .assign), ("+", .plus), ("-", .minus), ("*", .star), ("/", .slash), ("%", .percent),
    ("&", .amp), ("|", .bar), ("^", .caret), ("<", .less), (">", .greater), ("!", .bang),
    ("~", .tilde), ("\x00", .nul)].map fun (s, m) => (s.toList, m)

/-- What a lexeme is. A stray character belongs to no lexeme of the language. -/
inductive Token where
  | word (keyword : Option Keyword)
  | number
  | rune
  | quoted
  | raw
  | mark (m : Mark)
  | newline
  | comment
  | stray
deriving Repr, DecidableEq, Inhabited

/-- A lexeme with the places where it starts and stops. -/
structure Lexeme where
  token : Token
  start : Point
  stop : Point
deriving Repr, DecidableEq, Inhabited

namespace Lexeme

/-! ### Lengths

Each function tells how many characters the lexeme of its kind at the start of a text has; zero
when there is none.
-/

/-- Digits of a class with single underscores between them. -/
def digitRun (digit : Char → Bool) : List Char → Nat
  | c :: '_' :: d :: rest =>
    if digit c then (if digit d then 2 + digitRun digit (d :: rest) else 1) else 0
  | c :: rest => if digit c then 1 + digitRun digit rest else 0
  | [] => 0

/-- A hexadecimal digit. -/
def isHexDigit (c : Char) : Bool :=
  c.isDigit || ('a' ≤ c && c ≤ 'f') || ('A' ≤ c && c ≤ 'F')

/-- An octal digit. -/
def isOctalDigit (c : Char) : Bool := '0' ≤ c && c ≤ '7'

/-- A binary digit. -/
def isBinaryDigit (c : Char) : Bool := c == '0' || c == '1'

/-- Digits that one underscore may precede. -/
def markedRun (digit : Char → Bool) : List Char → Nat
  | '_' :: rest => match digitRun digit rest with
    | 0 => 0
    | n + 1 => n + 2
  | cs => digitRun digit cs

/-- An exponent after one of two letters. -/
def exponentLength (lower upper : Char) : List Char → Nat
  | e :: rest =>
    if e == lower || e == upper then
      match rest with
      | sign :: digits =>
        if sign == '+' || sign == '-' then
          match digitRun Char.isDigit digits with
          | 0 => 0
          | n + 1 => n + 3
        else match digitRun Char.isDigit rest with
          | 0 => 0
          | n + 1 => n + 2
      | [] => 0
    else 0
  | [] => 0

/-- `n` more characters after `k`, unless there are none. -/
def plus (k n : Nat) : Nat := if n = 0 then 0 else k + n

/-- The lengths of the integer literals at the start of a text. -/
def integerLengths : List Char → List Nat
  | '0' :: rest =>
    let after := match rest with
      | c :: digits =>
        if c == 'b' || c == 'B' then plus 2 (markedRun isBinaryDigit digits)
        else if c == 'o' || c == 'O' then plus 2 (markedRun isOctalDigit digits)
        else if c == 'x' || c == 'X' then plus 2 (markedRun isHexDigit digits)
        else plus 1 (markedRun isOctalDigit rest)
      | [] => 0
    [1, after]
  | c :: rest => if c.isDigit then [digitRun Char.isDigit (c :: rest)] else []
  | [] => []

/-- The lengths of the decimal floating-point literals at the start of a text. -/
def decimalFloatLengths (cs : List Char) : List Nat :=
  let whole := digitRun Char.isDigit cs
  match whole, cs.drop whole with
  | 0, '.' :: rest =>
    let fraction := digitRun Char.isDigit rest
    if fraction = 0 then []
    else [1 + fraction + exponentLength 'e' 'E' (rest.drop fraction)]
  | 0, _ => []
  | n, '.' :: rest =>
    let fraction := digitRun Char.isDigit rest
    [n + 1 + fraction + exponentLength 'e' 'E' (rest.drop fraction)]
  | n, rest => [plus n (exponentLength 'e' 'E' rest)]

/-- The lengths of the hexadecimal floating-point literals at the start of a text. -/
def hexFloatLengths : List Char → List Nat
  | '0' :: x :: rest =>
    if x == 'x' || x == 'X' then
      let whole := markedRun isHexDigit rest
      match whole, rest.drop whole with
      | 0, '.' :: tail =>
        let fraction := digitRun isHexDigit tail
        if fraction = 0 then []
        else [plus (3 + fraction) (exponentLength 'p' 'P' (tail.drop fraction))]
      | 0, _ => []
      | n, '.' :: tail =>
        let fraction := digitRun isHexDigit tail
        [plus (3 + n + fraction) (exponentLength 'p' 'P' (tail.drop fraction))]
      | n, tail => [plus (2 + n) (exponentLength 'p' 'P' tail)]
    else []
  | _ => []

/-- The length of the longest number at the start of a text: an integer, a floating-point literal,
or either or any digits before an `i`. -/
def numberLength (cs : List Char) : Nat :=
  let bases := integerLengths cs ++ decimalFloatLengths cs ++ hexFloatLengths cs
  let imaginary := (digitRun Char.isDigit cs :: bases).map fun n =>
    if n ≠ 0 ∧ (cs.drop n).head? = some 'i' then n + 1 else 0
  (bases ++ imaginary).foldl max 0

/-- The number of characters that an escape in a quoted text has after the backslash. -/
def escapeLength : List Char → Nat
  | 'x' :: a :: b :: _ => if isHexDigit a && isHexDigit b then 3 else 0
  | 'u' :: rest => if 4 ≤ rest.length && (rest.take 4).all isHexDigit then 5 else 0
  | 'U' :: rest => if 8 ≤ rest.length && (rest.take 8).all isHexDigit then 9 else 0
  | 'x' :: _ => 0
  | _ :: _ => 1
  | [] => 0

/-- The length of the rest of a quoted text, its end included; `skip` characters belong to an
escape. -/
def quotedTail : (skip : Nat) → List Char → Option Nat
  | _, [] => none
  | skip + 1, _ :: rest => (quotedTail skip rest).map (· + 1)
  | 0, '"' :: _ => some 1
  | 0, '\n' :: _ => none
  | 0, '\\' :: rest =>
    match escapeLength rest with
    | 0 => none
    | n => (quotedTail n rest).map (· + 1)
  | 0, _ :: rest => (quotedTail 0 rest).map (· + 1)

/-- The length up to and including the first character `close`. -/
def closedBy (close : Char) : List Char → Option Nat
  | [] => none
  | c :: rest => if c = close then some 1 else (closedBy close rest).map (· + 1)

/-- The length up to and including the first `*/`. -/
def blockTail : List Char → Option Nat
  | '*' :: '/' :: _ => some 2
  | _ :: rest => (blockTail rest).map (· + 1)
  | [] => none

/-- The characters that may follow a backslash between single quotes, apart from numbers. -/
def simpleEscapes : List Char := ['a', 'b', 'f', 'n', 'r', 't', 'v', '\\', '\'', '"']

/-- Whether a text starts with `n` characters of a class. -/
def startsWithRun (p : Char → Bool) (n : Nat) (cs : List Char) : Bool :=
  (cs.take n).length == n && (cs.take n).all p

/-- The length of what stands between single quotes. -/
def runeBody : List Char → Option Nat
  | '\\' :: 'x' :: rest => if startsWithRun isHexDigit 2 rest then some 4 else none
  | '\\' :: 'u' :: rest => if startsWithRun isHexDigit 4 rest then some 6 else none
  | '\\' :: 'U' :: rest => if startsWithRun isHexDigit 8 rest then some 10 else none
  | '\\' :: c :: rest =>
    if simpleEscapes.contains c then some 2
    else if startsWithRun isOctalDigit 3 (c :: rest) then some 4
    else none
  | '\\' :: [] => none
  | '\'' :: _ => none
  | _ :: _ => some 1
  | [] => none

/-- The length of a rune literal after its first quote. -/
def runeTail (cs : List Char) : Option Nat :=
  match runeBody cs with
  | some n => if (cs.drop n).head? = some '\'' then some (n + 1) else none
  | none => none

/-- The mark at the start of a text and its length. -/
def markAt? (cs : List Char) : Option (Mark × Nat) :=
  (Mark.spellings.find? fun (s, _) => s.isPrefixOf cs).map fun (s, m) => (m, s.length)

/-- A blank between lexemes, newlines apart. -/
def isSpace (c : Char) : Bool :=
  c == ' ' || c == '\t' || c == '\r' || c == '\x0b' || c == '\x0c'

/-- The length of the number at a character. -/
def numberAt (c : Char) (rest : List Char) : Nat :=
  if c.isDigit || c == '.' then numberLength (c :: rest) else 0

/-- The comment or literal in quotes at a character, and its length. -/
def special? : (c : Char) → (rest : List Char) → Option (Token × Nat)
  | '/', '/' :: tail => some (.comment, 2 + (tail.takeWhile (· != '\n')).length)
  | '/', '*' :: tail => (blockTail tail).map fun n => (.comment, n + 2)
  | '"', rest => (quotedTail 0 rest).map fun n => (.quoted, n + 1)
  | '\x60', rest => (closedBy '\x60' rest).map fun n => (.raw, n + 1)
  | '\'', rest => (runeTail rest).map fun n => (.rune, n + 1)
  | _, _ => none

/-- The mark at the start of a text, or its first character as a stray one. -/
def markOrStray (cs : List Char) : Token × Nat :=
  match markAt? cs with
  | some (m, n) => (.mark m, n)
  | none => (.stray, 1)

/-- The lexeme at a character and its length in characters. -/
def at? (c : Char) (rest : List Char) : Option (Token × Nat) :=
  if c == '\n' then some (.newline, 1)
  else if isSpace c then none
  else if Text.isNameStart c then
    let word := c :: rest.takeWhile Text.isNamePart
    some (.word (Keyword.ofWord? word), word.length)
  else if numberAt c rest ≠ 0 then some (.number, numberAt c rest)
  else some ((special? c rest).getD (markOrStray (c :: rest)))

/-- The lexemes from a place on; `skip` characters belong to the lexeme before. -/
def scanFrom : (skip : Nat) → Point → List Char → List Lexeme
  | _, _, [] => []
  | skip + 1, p, c :: rest => scanFrom skip (p.advance c) rest
  | 0, p, c :: rest =>
    match at? c rest with
    | none => scanFrom 0 (p.advance c) rest
    | some (token, n) =>
      { token, start := p, stop := ((c :: rest).take n).foldl Point.advance p } ::
        scanFrom (n - 1) (p.advance c) rest

/-- The lexemes of a source text. A byte order mark at its start is passed over. -/
def scan : List Char → List Lexeme
  | c :: rest =>
    if c.toNat = 0xFEFF then scanFrom 0 ⟨3, 0⟩ rest else scanFrom 0 ⟨0, 0⟩ (c :: rest)
  | [] => []

/-- The lexemes apart from comments and newlines, each with whether a newline stands between it and
the one before it; `newline` tells whether one has been passed. -/
def solid (newline : Bool) : List Lexeme → List (Lexeme × Bool)
  | [] => []
  | l :: rest =>
    match l.token with
    | .newline => solid true rest
    | .comment => solid newline rest
    | _ => (l, newline) :: solid false rest

end Lexeme
end Marginalia.Go
