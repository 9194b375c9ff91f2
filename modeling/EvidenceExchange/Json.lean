import EvidenceExchange.Bytes

namespace EvidenceExchange

inductive Json where
  | null
  | bool (value : Bool)
  | number (literal : List Char)
  | string (text : Option String)
  | array (items : List Json)
  | object (members : List (Option String × Json))

namespace Json

def isBlank (c : Char) : Bool :=
  c == ' ' || c == '\t' || c == '\n' || c == '\r'

def skipBlank (cs : List Char) : List Char := cs.dropWhile isBlank

/-- What a character or an escape of a string stands for. -/
inductive StringUnit where
  | char (c : Char)
  | surrogate (code : Nat)

def unitOfCode (code : Nat) : StringUnit :=
  if 0xD800 ≤ code ∧ code ≤ 0xDFFF then .surrogate code else .char (Char.ofNat code)

def simpleEscape? : Char → Option Char
  | '"' => some '"'
  | '\\' => some '\\'
  | '/' => some '/'
  | 'b' => some '\x08'
  | 'f' => some '\x0c'
  | 'n' => some '\n'
  | 'r' => some '\r'
  | 't' => some '\t'
  | _ => none

/-- The units of a string up to its closing quote, after those read before, latest first. -/
def readUnits : List StringUnit → List Char → Option (List StringUnit × List Char)
  | earlier, '"' :: rest => some (earlier.reverse, rest)
  | earlier, '\\' :: 'u' :: p :: q :: r :: s :: rest => do
    let code := (((← Hex.value? p) * 16 + (← Hex.value? q)) * 16 + (← Hex.value? r)) * 16 + (← Hex.value? s)
    readUnits (unitOfCode code :: earlier) rest
  | earlier, '\\' :: c :: rest => do
    let c ← simpleEscape? c
    readUnits (.char c :: earlier) rest
  | earlier, c :: rest =>
    if c.toNat < 0x20 ∨ c = '\\' then none else readUnits (.char c :: earlier) rest
  | _, [] => none

/-- The text of a string, each pair of surrogates joined into one character. -/
def textOfUnits : List StringUnit → Option (List Char)
  | [] => some []
  | .char c :: rest => (textOfUnits rest).map (c :: ·)
  | .surrogate high :: .surrogate low :: rest =>
    if high < 0xDC00 ∧ 0xDC00 ≤ low then
      (textOfUnits rest).map (Char.ofNat (0x10000 + (high - 0xD800) * 0x400 + (low - 0xDC00)) :: ·)
    else none
  | .surrogate _ :: _ => none

/-- A string after its opening quote. -/
def readString (cs : List Char) : Option (Option String × List Char) := do
  let (units, rest) ← readUnits [] cs
  return ((textOfUnits units).map String.ofList, rest)

/-- One digit or more. -/
def readDigits (cs : List Char) : Option (List Char × List Char) :=
  let digits := cs.takeWhile Char.isDigit
  if digits.isEmpty then none else some (digits, cs.dropWhile Char.isDigit)

/-- The digits before the point: no zero stands in front of another digit. -/
def readWhole : List Char → Option (List Char × List Char)
  | '0' :: rest => if rest.head?.any Char.isDigit then none else some (['0'], rest)
  | cs => readDigits cs

def readFraction : List Char → Option (List Char × List Char)
  | '.' :: rest => do
    let (digits, rest) ← readDigits rest
    return ('.' :: digits, rest)
  | cs => some ([], cs)

def readExponent : List Char → Option (List Char × List Char)
  | c :: rest =>
    if c = 'e' ∨ c = 'E' then do
      let (sign, rest) :=
        match rest with
        | '+' :: rest => (['+'], rest)
        | '-' :: rest => (['-'], rest)
        | rest => ([], rest)
      let (digits, rest) ← readDigits rest
      return (c :: sign ++ digits, rest)
    else some ([], c :: rest)
  | [] => some ([], [])

def readNumber (cs : List Char) : Option (List Char × List Char) := do
  let (sign, rest) :=
    match cs with
    | '-' :: rest => (['-'], rest)
    | cs => ([], cs)
  let (whole, rest) ← readWhole rest
  let (fraction, rest) ← readFraction rest
  let (exponent, rest) ← readExponent rest
  return (sign ++ whole ++ fraction ++ exponent, rest)

mutual

/-- One value, with blanks before it, and what follows it. Each level of nesting and each item takes
one unit of fuel. -/
def readValue : Nat → List Char → Option (Json × List Char)
  | 0, _ => none
  | fuel + 1, cs =>
    match skipBlank cs with
    | 'n' :: 'u' :: 'l' :: 'l' :: rest => some (.null, rest)
    | 't' :: 'r' :: 'u' :: 'e' :: rest => some (.bool true, rest)
    | 'f' :: 'a' :: 'l' :: 's' :: 'e' :: rest => some (.bool false, rest)
    | '"' :: rest => (readString rest).map fun (text, rest) => (.string text, rest)
    | '[' :: rest =>
      match skipBlank rest with
      | ']' :: rest => some (.array [], rest)
      | _ => (readItems fuel [] rest).map fun (items, rest) => (.array items, rest)
    | '{' :: rest =>
      match skipBlank rest with
      | '}' :: rest => some (.object [], rest)
      | _ => (readMembers fuel [] rest).map fun (members, rest) => (.object members, rest)
    | cs => (readNumber cs).map fun (literal, rest) => (.number literal, rest)

def readItems : Nat → List Json → List Char → Option (List Json × List Char)
  | 0, _, _ => none
  | fuel + 1, earlier, cs => do
    let (item, rest) ← readValue fuel cs
    match skipBlank rest with
    | ',' :: rest => readItems fuel (item :: earlier) rest
    | ']' :: rest => some ((item :: earlier).reverse, rest)
    | _ => none

def readMembers : Nat → List (Option String × Json) → List Char →
    Option (List (Option String × Json) × List Char)
  | 0, _, _ => none
  | fuel + 1, earlier, cs => do
    let '"' :: rest := skipBlank cs | none
    let (key, rest) ← readString rest
    let ':' :: rest := skipBlank rest | none
    let (value, rest) ← readValue fuel rest
    match skipBlank rest with
    | ',' :: rest => readMembers fuel ((key, value) :: earlier) rest
    | '}' :: rest => some (((key, value) :: earlier).reverse, rest)
    | _ => none

end

/-- The value that a text consists of, with nothing but blanks around it. -/
def ofText? (text : String) : Option Json := do
  let cs := text.toList
  let (value, rest) ← readValue (cs.length + 1) cs
  if (skipBlank rest).isEmpty then some value else none

/-- A number written with digits alone. -/
def nat? : Json → Option Nat
  | number literal =>
    if literal.all Char.isDigit then some (literal.foldl (fun n c => n * 10 + (c.toNat - '0'.toNat)) 0)
    else none
  | _ => none

/-- A number of at most 32 bits. -/
def word32? (j : Json) : Option UInt32 := do
  let n ← j.nat?
  if n < UInt32.size then some (.ofNat n) else none

def bool? : Json → Option Bool
  | bool value => some value
  | _ => none

def text? : Json → Option String
  | string text => text
  | _ => none

/-- The members of an object in the order of the given names. No name may come twice, every key has
to be a text, and keys without a name are passed over only where `others` allows them. -/
def membersByName? (names : List String) (others : Bool) (members : List (Option String × Json)) :
    Option (List (Option Json)) := do
  let keys ← members.mapM Prod.fst
  if !others && keys.any (!names.contains ·) then none
  else if names.any (fun name => decide (1 < keys.count name)) then none
  else some (names.map fun name => (members.find? (·.1 == some name)).map Prod.snd)

/-- The values of a record's named fields, which an object gives by name and an array in order. -/
def fields? (names : List String) (others : Bool) : Json → Option (List (Option Json))
  | object members => membersByName? names others members
  | array items =>
    if items.length ≤ names.length then
      some (items.map some ++ List.replicate (names.length - items.length) none)
    else none
  | _ => none

end Json

end EvidenceExchange
