import Bouine.Lib.Utf8

/-! # Regular expressions of Go

`compile` is `regexp.Compile`, `matchString` is `MatchString`. Only whether there is a match is
asked for, so greedy and lazy repetitions are one, and groups capture nothing. The tables of Unicode
are parameters. The size limits of `regexp/syntax` and its check for repeated group names are left
out: `compile` accepts what they would reject.
-/

namespace Bouine.Lib.Regexp

/-- The tables of the package `unicode`: the cycle of a character under `SimpleFold`, and the
categories and scripts by name. -/
structure Tables where
  orbit : Char → List Char
  mem_orbit : ∀ c, c ∈ orbit c
  group : List Char → Option (Char → Bool)

/-! ## Matching -/

inductive Assertion where
  | beginText | endText | beginLine | endLine | wordBoundary | noWordBoundary

inductive Re where
  | empty
  | char (ok : Char → Bool)
  | assert (a : Assertion)
  | cat (r s : Re)
  | alt (r s : Re)
  | star (r : Re)

/-- A place in a text: what stands before it, last character first, and what stands after. -/
structure Pos where
  past : List Char
  future : List Char

def isWord (c : Char) : Bool := c.isAlphanum || c == '_'

def Assertion.holds : Assertion → Pos → Bool
  | beginText, p => p.past.isEmpty
  | endText, p => p.future.isEmpty
  | beginLine, p => p.past.head?.all (· == '\n')
  | endLine, p => p.future.head?.all (· == '\n')
  | wordBoundary, p => p.past.head?.any isWord != p.future.head?.any isWord
  | noWordBoundary, p => p.past.head?.any isWord == p.future.head?.any isWord

/-- The places reached in at most `n` rounds. A round that takes nothing leads nowhere new. -/
def rounds (f : Pos → List Pos) : Nat → Pos → List Pos
  | 0, p => [p]
  | n + 1, p =>
    p :: ((f p).filter fun q => q.future.length < p.future.length).flatMap (rounds f n)

def Re.ends : Re → Pos → List Pos
  | empty, p => [p]
  | char ok, p =>
    match p.future with
    | c :: s => if ok c then [⟨c :: p.past, s⟩] else []
    | [] => []
  | assert a, p => if a.holds p then [p] else []
  | cat r s, p => (r.ends p).flatMap s.ends
  | alt r s, p => r.ends p ++ s.ends p
  | star r, p => rounds r.ends p.future.length p

def places (past : List Char) : List Char → List Pos
  | [] => [⟨past, []⟩]
  | c :: s => ⟨past, c :: s⟩ :: places (c :: past) s

def Re.matchString (r : Re) (s : Bytes) : Bool :=
  (places [] (chars s)).any fun p => !(r.ends p).isEmpty

/-! ## Tokens -/

/-- A part of a class: the characters of a set, or those outside. -/
structure ClassItem where
  negated : Bool
  contains : Char → Bool

structure Flags where
  foldCase : Bool := false
  multiLine : Bool := false
  dotNL : Bool := false

inductive Token where
  | lit (r : Nat)
  | dot
  | caret
  | dollar
  | assert (a : Assertion)
  | cls (negated : Bool) (items : List ClassItem)
  | lparen (change : Flags → Flags)
  | rparen
  | bar
  | flags (change : Flags → Flags)
  | rep (min : Nat) (max : Option Nat)
  | nothing

def isOctal (c : Char) : Bool := '0' ≤ c && c ≤ '7'

def hexDigit (c : Char) : Option Nat :=
  if c.isDigit then some (c.toNat - '0'.toNat)
  else if 'a' ≤ c ∧ c ≤ 'f' then some (c.toNat - 'a'.toNat + 10)
  else if 'A' ≤ c ∧ c ≤ 'F' then some (c.toNat - 'A'.toNat + 10)
  else none

def hexValue (ds : List Char) : Option Nat :=
  ds.foldlM (fun r c => (hexDigit c).map (r * 16 + ·)) 0

def digitsValue (base : Nat) (ds : List Char) : Nat :=
  ds.foldl (fun r c => r * base + (c.toNat - '0'.toNat)) 0

/-- After `\x`: digits in braces, or two digits. -/
def lexHex : List Char → Option (Nat × List Char)
  | '{' :: s =>
    let ds := s.takeWhile (· != '}')
    match s.dropWhile (· != '}'), hexValue ds with
    | _ :: rest, some r => if ds ≠ [] ∧ r ≤ 0x10FFFF then some (r, rest) else none
    | _, _ => none
  | a :: b :: s => (hexValue [a, b]).map (·, s)
  | _ => none

/-- `parseEscape`, after the backslash. -/
def lexEscape : List Char → Option (Nat × List Char)
  | [] => none
  | c :: s =>
    if c.toNat < 0x80 ∧ !c.isAlphanum then some (c.toNat, s)
    else if isOctal c ∧ (c = '0' ∨ s.head?.any isOctal) then
      -- a single digit other than zero would be a reference to a group
      let ds := ((c :: s).takeWhile isOctal).take 3
      some (digitsValue 8 ds, (c :: s).drop ds.length)
    else
      match c with
      | 'x' => lexHex s
      | 'a' => some (7, s)
      | 'f' => some (12, s)
      | 'n' => some (10, s)
      | 'r' => some (13, s)
      | 't' => some (9, s)
      | 'v' => some (11, s)
      | _ => none

/-! ### Classes -/

def unicodeClass (t : Tables) (negated : Bool) : List Char → Option ClassItem
  | '^' :: name => (t.group name).map (⟨!negated, ·⟩)
  | name => (t.group name).map (⟨negated, ·⟩)

/-- `parseUnicodeClass`, after `\p` or `\P`: a letter, or a name in braces. -/
def lexUnicodeClass (t : Tables) (negated : Bool) : List Char → Option (ClassItem × List Char)
  | [] => none
  | '{' :: s =>
    match s.dropWhile (· != '}') with
    | [] => none
    | _ :: rest => (unicodeClass t negated (s.takeWhile (· != '}'))).map (·, rest)
  | c :: s => (unicodeClass t negated [c]).map (·, s)

def isPerlSpace (c : Char) : Bool := c ∈ ['\t', '\n', '\x0c', '\r', ' ']

def isSetEscape (c : Char) : Bool := c ∈ ['p', 'P', 'd', 'D', 's', 'S', 'w', 'W']

def lexSetEscape (t : Tables) (c : Char) (s : List Char) : Option (ClassItem × List Char) :=
  match c with
  | 'p' => lexUnicodeClass t false s
  | 'P' => lexUnicodeClass t true s
  | 'd' => some (⟨false, Char.isDigit⟩, s)
  | 'D' => some (⟨true, Char.isDigit⟩, s)
  | 's' => some (⟨false, isPerlSpace⟩, s)
  | 'S' => some (⟨true, isPerlSpace⟩, s)
  | 'w' => some (⟨false, isWord⟩, s)
  | 'W' => some (⟨true, isWord⟩, s)
  | _ => none

def between (lo hi : Nat) (c : Char) : Bool := lo ≤ c.toNat && c.toNat ≤ hi

/-- The names of POSIX that stand in `[:` and `:]`. -/
def posixSet (name : List Char) : Option (Char → Bool) :=
  match String.ofList name with
  | "alnum" => some Char.isAlphanum
  | "alpha" => some Char.isAlpha
  | "ascii" => some (between 0 0x7F)
  | "blank" => some fun c => c == '\t' || c == ' '
  | "cntrl" => some fun c => between 0 0x1F c || between 0x7F 0x7F c
  | "digit" => some Char.isDigit
  | "graph" => some (between 0x21 0x7E)
  | "lower" => some Char.isLower
  | "print" => some (between 0x20 0x7E)
  | "punct" => some fun c => between 0x21 0x7E c && !c.isAlphanum
  | "space" => some fun c => between 0x09 0x0D c || c == ' '
  | "upper" => some Char.isUpper
  | "word" => some isWord
  | "xdigit" => some fun c => (hexDigit c).isSome
  | _ => none

def posixClass : List Char → Option ClassItem
  | '^' :: name => (posixSet name).map (⟨true, ·⟩)
  | name => (posixSet name).map (⟨false, ·⟩)

/-- What stands before and after the first `:]`. -/
def cutPosix : List Char → Option (List Char × List Char)
  | ':' :: ']' :: s => some ([], s)
  | c :: s => (cutPosix s).map fun (name, rest) => (c :: name, rest)
  | [] => none

def lexClassChar : List Char → Option (Nat × List Char)
  | [] => none
  | '\\' :: s => lexEscape s
  | c :: s => some (c.toNat, s)

def lexRange (s : List Char) : Option (ClassItem × List Char) :=
  match lexClassChar s with
  | none => none
  | some (lo, '-' :: c :: s) =>
    if c = ']' then some (⟨false, between lo lo⟩, '-' :: c :: s)
    else
      match lexClassChar (c :: s) with
      | some (hi, s) => if hi < lo then none else some (⟨false, between lo hi⟩, s)
      | none => none
  | some (lo, s) => some (⟨false, between lo lo⟩, s)

def lexClassItem (t : Tables) : List Char → Option (ClassItem × List Char)
  | '[' :: ':' :: s =>
    match cutPosix s with
    | some (name, rest) => (posixClass name).map (·, rest)
    | none => lexRange ('[' :: ':' :: s)
  | '\\' :: c :: s => if isSetEscape c then lexSetEscape t c s else lexRange ('\\' :: c :: s)
  | s => lexRange s

/-- The items up to the closing bracket, which is a character if it stands first. Every item takes a
character, which `n` bounds. -/
def lexClassItems (t : Tables) (first : Bool) :
    Nat → List Char → Option (List ClassItem × List Char)
  | 0, _ => none
  | n + 1, s =>
    if s.head? = some ']' ∧ !first then some ([], s.drop 1)
    else
      match lexClassItem t s with
      | none => none
      | some (item, s) => (lexClassItems t false n s).map fun (items, rest) => (item :: items, rest)

def lexClass (t : Tables) : List Char → Option (Token × List Char)
  | '^' :: s => (lexClassItems t true (s.length + 1) s).map fun (is, rest) => (.cls true is, rest)
  | s => (lexClassItems t true (s.length + 1) s).map fun (is, rest) => (.cls false is, rest)

/-! ### Groups, repetitions, and the rest -/

/-- The flags of a group, up to `:` or `)`. After a minus sign they are turned off (`on`), and one
has to stand there (`seen`). -/
def lexFlags (change : Flags → Flags) (on seen : Bool) : List Char → Option (Token × List Char)
  | 'i' :: s => lexFlags (fun f => { change f with foldCase := on }) on true s
  | 'm' :: s => lexFlags (fun f => { change f with multiLine := on }) on true s
  | 's' :: s => lexFlags (fun f => { change f with dotNL := on }) on true s
  | 'U' :: s => lexFlags change on true s
  | '-' :: s => if on then lexFlags change false false s else none
  | ':' :: s => if on || seen then some (.lparen change, s) else none
  | ')' :: s => if on || seen then some (.flags change, s) else none
  | _ => none

def lexName (s : List Char) : Option (Token × List Char) :=
  let name := s.takeWhile (· != '>')
  match s.dropWhile (· != '>') with
  | [] => none
  | _ :: rest => if name ≠ [] ∧ name.all isWord then some (.lparen id, rest) else none

def lexGroup : List Char → Option (Token × List Char)
  | '?' :: 'P' :: '<' :: s => lexName s
  | '?' :: '<' :: s => lexName s
  | '?' :: s => lexFlags id true false s
  | s => some (.lparen id, s)

def lexInt (s : List Char) : Option (Nat × List Char) :=
  let ds := s.takeWhile Char.isDigit
  if ds = [] ∨ ds.head? = some '0' ∧ 1 < ds.length then none
  else some (digitsValue 10 ds, s.dropWhile Char.isDigit)

def lexBounds (s : List Char) : Option (Nat × Option Nat × List Char) :=
  match lexInt s with
  | none => none
  | some (min, '}' :: rest) => some (min, some min, rest)
  | some (min, ',' :: '}' :: rest) => some (min, none, rest)
  | some (min, ',' :: s) =>
    match lexInt s with
    | some (max, '}' :: rest) => some (min, some max, rest)
    | _ => none
  | some _ => none

def skipLazy : List Char → List Char
  | '?' :: s => s
  | s => s

def lexBrace (s : List Char) : Option (Token × List Char) :=
  match lexBounds s with
  | none => some (.lit '{'.toNat, s)
  | some (min, max, rest) =>
    if 1000 < min ∨ max.any (fun m => 1000 < m || m < min) then none
    else some (.rep min max, skipLazy rest)

/-- What stands before and after the first `\E`. -/
def cutQuoted : List Char → List Char × List Char
  | '\\' :: 'E' :: s => ([], s)
  | c :: s => ((c :: (cutQuoted s).1), (cutQuoted s).2)
  | [] => ([], [])

def lexBackslash (t : Tables) : List Char → Option (List Token × List Char)
  | [] => none
  | c :: s =>
    match c with
    | 'A' => some ([.assert .beginText], s)
    | 'b' => some ([.assert .wordBoundary], s)
    | 'B' => some ([.assert .noWordBoundary], s)
    | 'z' => some ([.assert .endText], s)
    | 'Q' => some (.nothing :: (cutQuoted s).1.map (.lit ·.toNat), (cutQuoted s).2)
    | _ =>
      if isSetEscape c then (lexSetEscape t c s).map fun (i, rest) => ([.cls false [i]], rest)
      else (lexEscape (c :: s)).map fun (r, rest) => ([.lit r], rest)

def lexToken (t : Tables) (c : Char) (s : List Char) : Option (List Token × List Char) :=
  match c with
  | '(' => (lexGroup s).map fun (token, rest) => ([token], rest)
  | ')' => some ([.rparen], s)
  | '|' => some ([.bar], s)
  | '^' => some ([.caret], s)
  | '$' => some ([.dollar], s)
  | '.' => some ([.dot], s)
  | '[' => (lexClass t s).map fun (token, rest) => ([token], rest)
  | '*' => some ([.rep 0 none], skipLazy s)
  | '+' => some ([.rep 1 none], skipLazy s)
  | '?' => some ([.rep 0 (some 1)], skipLazy s)
  | '{' => (lexBrace s).map fun (token, rest) => ([token], rest)
  | '\\' => lexBackslash t s
  | _ => some ([.lit c.toNat], s)

/-- Every round takes a character at least, which `n` bounds. -/
def lex (t : Tables) : Nat → List Char → Option (List Token)
  | _, [] => some []
  | 0, _ :: _ => none
  | n + 1, c :: s =>
    match lexToken t c s with
    | none => none
    | some (tokens, rest) => (lex t n rest).map (tokens ++ ·)

/-! ## Parsing -/

structure Frame where
  flags : Flags
  alts : List Re
  items : List Re

/-- The alternatives and items read of the innermost group, the last of each first. `repeated`: the
last token was a repetition. -/
structure State where
  flags : Flags := {}
  alts : List Re := []
  items : List Re := []
  stack : List Frame := []
  repeated : Bool := false

def sequence (rs : List Re) : Re := rs.foldr .cat .empty

def State.alternative (s : State) : Re := sequence s.items.reverse

def State.group (s : State) : Re := s.alts.foldl (fun r a => .alt a r) s.alternative

def State.push (s : State) (r : Re) : State := { s with items := r :: s.items, repeated := false }

def Flags.fold (f : Flags) (t : Tables) (ok : Char → Bool) (c : Char) : Bool :=
  if f.foldCase then (t.orbit c).any ok else ok c

def power (r : Re) : Nat → Re
  | 0 => .empty
  | n + 1 => .cat r (power r n)

def repetition (r : Re) (min : Nat) : Option Nat → Re
  | none => .cat (power r min) (.star r)
  | some max => .cat (power r min) (power (.alt r .empty) (max - min))

def parseToken (t : Tables) (s : State) : Token → Option State
  | .lit r => some (s.push (.char (s.flags.fold t fun c => c.toNat == r)))
  | .dot => some (s.push (.char fun c => s.flags.dotNL || c != '\n'))
  | .caret => some (s.push (.assert (if s.flags.multiLine then .beginLine else .beginText)))
  | .dollar => some (s.push (.assert (if s.flags.multiLine then .endLine else .endText)))
  | .assert a => some (s.push (.assert a))
  | .cls negated items =>
    some (s.push (.char fun c =>
      items.any (fun i => s.flags.fold t i.contains c != i.negated) != negated))
  | .lparen change =>
    some ⟨change s.flags, [], [], ⟨s.flags, s.alts, s.items⟩ :: s.stack, false⟩
  | .rparen =>
    match s.stack with
    | [] => none
    | f :: stack => some ⟨f.flags, f.alts, s.group :: f.items, stack, false⟩
  | .bar => some { s with alts := s.alternative :: s.alts, items := [], repeated := false }
  | .flags change => some { s with flags := change s.flags, repeated := false }
  | .rep min max =>
    match s.items with
    | [] => none
    | r :: items =>
      if s.repeated then none
      else some { s with items := repetition r min max :: items, repeated := true }
  | .nothing => some { s with repeated := false }

def parseTokens (t : Tables) : State → List Token → Option State
  | s, [] => some s
  | s, token :: tokens =>
    match parseToken t s token with
    | none => none
    | some s => parseTokens t s tokens

def decodePattern (pattern : Bytes) : Option (List Char) :=
  if utf8 (chars pattern) = pattern then some (chars pattern) else none

def compile (t : Tables) (pattern : Bytes) : Option Re :=
  match decodePattern pattern with
  | none => none
  | some cs =>
    match lex t cs.length cs with
    | none => none
    | some tokens =>
      match parseTokens t {} tokens with
      | none => none
      | some s => if s.stack.isEmpty then some s.group else none

end Bouine.Lib.Regexp
