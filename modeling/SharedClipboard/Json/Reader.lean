import SharedClipboard.Error
import SharedClipboard.Text.Utf8

/-!
# Reading JSON

A reader takes a value of a known shape off the front of a list of bytes, left to right, and stops
at the first problem: text that is not JSON, JSON of another shape, or an end that comes too soon.
Because the shape is known while reading, a value of the wrong shape is refused where it stands,
after it was read as JSON itself; what follows it is not looked at.

Values under unknown keys are skipped with less care than those that are used: neither the range
of numbers nor the pairing of surrogates nor the bytes of their texts are checked.
-/

namespace SharedClipboard.Json

/-- Takes a value off the front of a list of bytes. -/
abbrev Reader := StateT Bytes (Except FormatFault)

namespace Reader

def fail {α : Type} (f : FormatFault) : Reader α := fun _ => .error f

/-- Bytes that may stand between the parts of a value. -/
def isSpace (b : UInt8) : Bool := b == 0x20 || b == 0x0A || b == 0x09 || b == 0x0D

def space : Reader Unit := modify (·.dropWhile isSpace)

/-- The byte at the front, left in place. -/
def peek : Reader (Option UInt8) := do return (← get).head?

/-- The first byte that is no space, left in place. -/
def peekPastSpace : Reader (Option UInt8) := do space; peek

def drop : Reader Unit := modify List.tail

/-- The byte at the front, taken off. -/
def next : Reader (Option UInt8) := do
  let b ← peek
  drop
  return b

/-- The rest of a word whose first byte was recognised. -/
def word : List Char → Reader Unit
  | [] => pure ()
  | c :: cs => do
    match ← next with
    | none => fail .endsEarly
    | some b => if b.toNat = c.toNat then word cs else fail .notJson

def isDigit (b : UInt8) : Bool := 0x30 ≤ b && b ≤ 0x39

def digits : Reader (List Nat) := do
  let ds := (← get).takeWhile isDigit
  modify (·.drop ds.length)
  return ds.map fun b => b.toNat - 48

def ofDigits (ds : List Nat) : Nat := ds.foldl (fun n d => n * 10 + d) 0

/-! ## Texts -/

def hexValue? (b : UInt8) : Option Nat :=
  if 0x30 ≤ b ∧ b ≤ 0x39 then some (b.toNat - 0x30)
  else if 0x61 ≤ b ∧ b ≤ 0x66 then some (b.toNat - 0x57)
  else if 0x41 ≤ b ∧ b ≤ 0x46 then some (b.toNat - 0x37)
  else none

def fourHex : Reader Nat := do
  match ← get with
  | a :: b :: c :: d :: rest =>
    set rest
    match hexValue? a, hexValue? b, hexValue? c, hexValue? d with
    | some a, some b, some c, some d => return ((a * 16 + b) * 16 + c) * 16 + d
    | _, _, _, _ => fail .notJson
  | _ => fail .endsEarly

/-- A given byte; anything else is a fault. -/
def expect (b : UInt8) : Reader Unit := do
  match ← next with
  | none => fail .endsEarly
  | some c => if c = b then pure () else fail .notJson

/-- The byte that a one-letter escape stands for. -/
def escaped? (b : UInt8) : Option UInt8 :=
  if b = 0x22 ∨ b = 0x5C ∨ b = 0x2F then some b
  else if b = 0x62 then some 0x08
  else if b = 0x66 then some 0x0C
  else if b = 0x6E then some 0x0A
  else if b = 0x72 then some 0x0D
  else if b = 0x74 then some 0x09
  else none

/-- The character that a numeric escape spells, after its `u`: one unit, or two surrogates. -/
def unicodeEscape : Reader Char := do
  let n ← fourHex
  if 0xDC00 ≤ n ∧ n ≤ 0xDFFF then fail .notJson
  else if n < 0xD800 ∨ 0xDBFF < n then return Char.ofNat n
  else
    expect 0x5C
    expect 0x75
    let m ← fourHex
    if 0xDC00 ≤ m ∧ m ≤ 0xDFFF then
      return Char.ofNat ((n - 0xD800) * 1024 + (m - 0xDC00) + 0x10000)
    else fail .notJson

/-- The bytes that an escape stands for, after its backslash. -/
def escape : Reader Bytes := do
  match ← next with
  | none => fail .endsEarly
  | some b =>
    if b = 0x75 then return Text.utf8 (String.singleton (← unicodeEscape))
    else match escaped? b with
      | some c => return [c]
      | none => fail .notJson

/-- Skips an escape after its backslash. -/
def skipEscape : Reader Bytes := do
  match ← next with
  | none => fail .endsEarly
  | some b =>
    if b = 0x75 then
      let _ ← fourHex
      return []
    else if (escaped? b).isSome then return []
    else fail .notJson

/-- The bytes of a text up to its closing quote, in reverse on top of `got`. -/
def quotedFrom (unescape : Reader Bytes) : Nat → Bytes → Reader Bytes
  | 0, _ => fail .endsEarly
  | fuel + 1, got => do
    match ← next with
    | none => fail .endsEarly
    | some b =>
      if b = 0x22 then return got.reverse
      else if b = 0x5C then
        let bs ← unescape
        quotedFrom unescape fuel (bs.reverse ++ got)
      else if b < 0x20 then fail .notJson
      else quotedFrom unescape fuel (b :: got)

/-- A text after its opening quote. -/
def quoted : Reader String := do
  let bs ← quotedFrom escape ((← get).length + 1) []
  match Text.ofUtf8? bs with
  | some s => return s
  | none => fail .notJson

/-- Skips a text after its opening quote. -/
def skipQuoted : Reader Unit := do
  let _ ← quotedFrom skipEscape ((← get).length + 1) []

/-! ## Numbers -/

/-- A number as far as its readers care: a natural number below 2 ^ 64, or some other. -/
inductive Number where
  | natural (n : Nat)
  | other
  deriving DecidableEq, Repr, Inhabited

/-- A power of ten. -/
def tenTo (n : Nat) : Nat := Nat.pow 10 n

/-- Half way between the largest double and the one that would come next. -/
def doubleBound : Nat := 0x3FFFFFFFFFFFFF <<< 970

/-- Whether `m * 10 ^ e` is closer to infinity than to the largest double. -/
def exceedsDouble (m : Nat) (e : Int) : Bool :=
  if m = 0 then false
  else if e > 400 then true
  else if e ≥ 0 then m * tenTo e.toNat ≥ doubleBound
  else if (-e).toNat > m.log2 then false
  else m ≥ doubleBound * tenTo (-e).toNat

/-- The number that a mantissa and an exponent make, if a double can hold it. -/
def scaled (m : Nat) (e : Int) : Reader Number :=
  if exceedsDouble m e then fail .notJson else return .other

def exponent : Reader Int := do
  let negative ← do
    match ← peek with
    | some 0x2B => drop; pure false
    | some 0x2D => drop; pure true
    | _ => pure false
  match ← peek with
  | none => fail .endsEarly
  | some b =>
    if isDigit b then
      let n := ofDigits (← digits)
      return if negative then -(n : Int) else n
    else fail .notJson

/-- What follows the whole part of a number. -/
def afterWhole (negative : Bool) (whole : Nat) : Reader Number := do
  match ← peek with
  | some 0x2E =>
    drop
    let fraction ← digits
    if fraction.isEmpty then
      match ← peek with
      | none => fail .endsEarly
      | some _ => fail .notJson
    else
      let m := whole * tenTo fraction.length + ofDigits fraction
      match ← peek with
      | some 0x65 | some 0x45 =>
        drop
        scaled m ((← exponent) - fraction.length)
      | _ => scaled m (-(fraction.length : Int))
  | some 0x65 | some 0x45 =>
    drop
    scaled whole (← exponent)
  | _ =>
    if whole ≥ UInt64.size then scaled whole 0
    else return if negative then .other else .natural whole

/-- A number, its sign taken off. The whole part has no leading zero. -/
def number (negative : Bool) : Reader Number := do
  match ← peek with
  | none => fail .endsEarly
  | some b =>
    if isDigit b then
      let ds ← digits
      if b = 0x30 ∧ ds.length > 1 then fail .notJson else afterWhole negative (ofDigits ds)
    else fail .notJson

/-- Skips the exponent of a number after its letter. -/
def skipExponent : Reader Unit := do
  match ← peek with
  | some 0x2B | some 0x2D => drop
  | _ => pure ()
  if (← digits).isEmpty then fail .notJson

/-- Skips a number, its sign taken off. -/
def skipNumber : Reader Unit := do
  let first ← peek
  let ds ← digits
  if ds.isEmpty || (first == some 0x30 && ds.length > 1) then fail .notJson
  else
    match ← peek with
    | some 0x2E =>
      drop
      if (← digits).isEmpty then fail .notJson
      else
        match ← peek with
        | some 0x65 | some 0x45 => drop; skipExponent
        | _ => pure ()
    | some 0x65 | some 0x45 => drop; skipExponent
    | _ => pure ()

/-! ## Values of a known shape -/

/-- Refuses the value at the front: its shape is wrong, unless it is no JSON at all. Of a list or
an object only the opening bracket is looked at. -/
def wrongShape {α : Type} : Reader α := do
  match ← peek with
  | none => fail .notJson
  | some b =>
    if b = 0x6E then drop; word ['u', 'l', 'l']; fail .wrongShape
    else if b = 0x74 then drop; word ['r', 'u', 'e']; fail .wrongShape
    else if b = 0x66 then drop; word ['a', 'l', 's', 'e']; fail .wrongShape
    else if b = 0x2D then
      drop
      let _ ← number true
      fail .wrongShape
    else if isDigit b then
      let _ ← number false
      fail .wrongShape
    else if b = 0x22 then
      drop
      let _ ← quoted
      fail .wrongShape
    else if b = 0x5B ∨ b = 0x7B then fail .wrongShape
    else fail .notJson

/-- The byte at which the next value starts. -/
def start : Reader UInt8 := do
  match ← peekPastSpace with
  | none => fail .endsEarly
  | some b => return b

/-- A natural number below a limit. -/
def natural (limit : Nat) : Reader Nat := do
  let b ← start
  let n ← if b = 0x2D then do drop; number true
    else if isDigit b then number false
    else wrongShape
  match n with
  | .natural n => if n < limit then return n else fail .wrongShape
  | .other => fail .wrongShape

def string : Reader String := do
  if (← start) = 0x22 then drop; quoted else wrongShape

def truth : Reader Bool := do
  let b ← start
  if b = 0x74 then drop; word ['r', 'u', 'e']; return true
  else if b = 0x66 then drop; word ['a', 'l', 's', 'e']; return false
  else wrongShape

def null : Reader Unit := do
  if (← start) = 0x6E then drop; word ['u', 'l', 'l'] else wrongShape

/-- A value or nothing. -/
def orNull {α : Type} (r : Reader α) : Reader (Option α) := do
  match ← peekPastSpace with
  | some 0x6E =>
    drop
    word ['u', 'l', 'l']
    return none
  | _ => some <$> r

/-! ## Lists and objects -/

/-- Whether another element follows in a list, its comma taken off. -/
def moreElements (first : Bool) : Reader Bool := do
  match ← peekPastSpace with
  | none => fail .endsEarly
  | some 0x5D => return false
  | some b =>
    if first then return true
    else if b = 0x2C then
      drop
      match ← peekPastSpace with
      | none => fail .endsEarly
      | some 0x5D => fail .notJson
      | some _ => return true
    else fail .notJson

def endOfList : Reader Unit := do
  match ← peekPastSpace with
  | none => fail .endsEarly
  | some 0x5D => drop
  | some _ => fail .notJson

/-- Whether another key follows in an object, its comma taken off; the key's quote is at the
front then. -/
def moreKeys (first : Bool) : Reader Bool := do
  match ← peekPastSpace with
  | none => fail .endsEarly
  | some 0x7D => return false
  | some b =>
    if first then if b = 0x22 then return true else fail .notJson
    else if b = 0x2C then
      drop
      match ← peekPastSpace with
      | none => fail .endsEarly
      | some 0x22 => return true
      | some _ => fail .notJson
    else fail .notJson

/-- The end of an object whose keys were all read. -/
def endOfObject : Reader Unit := do
  match ← peekPastSpace with
  | none => fail .endsEarly
  | some 0x7D => drop
  | some _ => fail .notJson

def colon : Reader Unit := do
  match ← peekPastSpace with
  | none => fail .endsEarly
  | some 0x3A => drop
  | some _ => fail .notJson

/-- The elements of a list, folded. -/
def elementsFrom {σ : Type} (element : σ → Reader σ) : Nat → Bool → σ → Reader σ
  | 0, _, s => return s
  | fuel + 1, first, s => do
    if ← moreElements first then elementsFrom element fuel false (← element s) else return s

def array {α : Type} (r : Reader α) : Reader (List α) := do
  if (← start) = 0x5B then
    drop
    let xs ← elementsFrom (fun xs => do return (← r) :: xs) ((← get).length + 1) true []
    endOfList
    return xs.reverse
  else wrongShape

/-- The keys and values of an object, folded; `field` is given the key with the colon still to
come. -/
def fieldsFrom {σ : Type} (field : σ → String → Reader σ) : Nat → Bool → σ → Reader σ
  | 0, _, s => return s
  | fuel + 1, first, s => do
    if ← moreKeys first then
      drop
      let key ← quoted
      fieldsFrom field fuel false (← field s key)
    else return s

/-- A record: an object, or the list of its fields in order. `field` reads the value of a key;
`ofList` reads the elements of a list; `finish` makes the record of the fields. -/
def record {σ α : Type} (init : σ) (field : σ → String → Reader σ) (finish : σ → Reader α)
    (ofList : Reader α) : Reader α := do
  let b ← start
  if b = 0x5B then
    drop
    let a ← ofList
    endOfList
    return a
  else if b = 0x7B then
    drop
    let s ← fieldsFrom field ((← get).length + 1) true init
    let a ← finish s
    endOfObject
    return a
  else wrongShape

/-- The next element of a list that holds the fields of a record, if there is one. -/
def element? {α : Type} (first : Bool) (r : Reader α) : Reader (Option α) := do
  if ← moreElements first then some <$> r else return none

/-- The value of a key that may stand only once. -/
def once {α : Type} (seen : Option α) (r : Reader α) : Reader (Option α) := do
  if seen.isSome then fail .wrongShape
  else
    colon
    some <$> r

/-! ## Skipping -/

/-- Skips a text, number or word, if one starts with the given byte. -/
def skipPlain (b : UInt8) : Reader Unit := do
  if b = 0x6E then drop; word ['u', 'l', 'l']
  else if b = 0x74 then drop; word ['r', 'u', 'e']
  else if b = 0x66 then drop; word ['a', 'l', 's', 'e']
  else if b = 0x2D then drop; skipNumber
  else if isDigit b then skipNumber
  else if b = 0x22 then drop; skipQuoted
  else fail .notJson

/-- Skips a key and its colon. -/
def skipKey : Reader Unit := do
  match ← peekPastSpace with
  | none => fail .endsEarly
  | some 0x22 => drop; skipQuoted; colon
  | some _ => fail .notJson

/-- Closes brackets as long as they close, given the brackets that are open, innermost first, and
whether a value was just read in the innermost. Says which stay open; a comma was taken off, or
the innermost was just opened. -/
def closeBrackets : Nat → Bool → List Bool → Reader (List Bool)
  | 0, _, open? => return open?
  | _ + 1, _, [] => return []
  | fuel + 1, afterValue, isObject :: outer => do
    match ← peekPastSpace with
    | none => fail .endsEarly
    | some b =>
      if b = (if isObject then 0x7D else 0x5D) then drop; closeBrackets fuel true outer
      else if afterValue then
        if b = 0x2C then drop; return isObject :: outer else fail .notJson
      else return isObject :: outer

/-- Skips values until no bracket is open. -/
def skipFrom : Nat → List Bool → Reader Unit
  | 0, _ => pure ()
  | fuel + 1, open? => do
    let b ← start
    let bracket := b = 0x5B ∨ b = 0x7B
    if bracket then drop else skipPlain b
    let left ← closeBrackets ((← get).length + 1) (!bracket)
      (if bracket then (b == 0x7B) :: open? else open?)
    match left with
    | [] => pure ()
    | isObject :: outer =>
      if isObject then skipKey
      skipFrom fuel (isObject :: outer)

/-- Skips the value of an unknown key, its colon still to come. -/
def skipValue : Reader Unit := do
  colon
  skipFrom ((← get).length + 1) []

/-- Reads a whole text: after the value only space may follow. -/
def run {α : Type} (r : Reader α) (b : Bytes) : Except FormatFault α := do
  let (a, rest) ← StateT.run r b
  if (rest.dropWhile isSpace).isEmpty then return a else .error .notJson

end Reader

end SharedClipboard.Json
