import SharedClipboard.Net.Address

/-!
# Reading network addresses

Readers for the texts of addresses. A reader takes what it recognises off the front of a list of
characters and gives back the rest; a whole text is an address when nothing is left over. Leading
zeros are refused in octets and accepted in groups, ports and scopes.
-/

namespace SharedClipboard.Net

/-- The value of a digit in a base of at most sixteen. -/
def digitValue? (base : Nat) (c : Char) : Option Nat :=
  let v :=
    if '0' ≤ c ∧ c ≤ '9' then c.toNat - 48
    else if 'a' ≤ c ∧ c ≤ 'f' then c.toNat - 87
    else if 'A' ≤ c ∧ c ≤ 'F' then c.toNat - 55
    else base
  if v < base then some v else none

/-- The digits at the front and the rest. -/
def spanDigits (base : Nat) : List Char → List Nat × List Char
  | [] => ([], [])
  | c :: cs =>
    match digitValue? base c with
    | none => ([], c :: cs)
    | some v => let r := spanDigits base cs; (v :: r.1, r.2)

/-- The number that digits spell. -/
def ofDigits (base : Nat) (ds : List Nat) : Nat := ds.foldl (fun n d => n * base + d) 0

/-- A number of at most `width` digits and below `limit`. -/
def readNumber (base width limit : Nat) (leadingZero : Bool) (cs : List Char) :
    Option (Nat × List Char) :=
  let (ds, rest) := spanDigits base cs
  if ds.isEmpty || ds.length > width || (!leadingZero && ds.length > 1 && ds.head? == some 0) then
    none
  else
    let n := ofDigits base ds
    if n < limit then some (n, rest) else none

def readChar (c : Char) : List Char → Option (List Char)
  | [] => none
  | d :: rest => if c = d then some rest else none

/-- A number of any length, below `limit`. -/
def readPlain (limit : Nat) (cs : List Char) : Option (Nat × List Char) :=
  readNumber 10 cs.length limit true cs

/-- Four octets with points between them, as one number. -/
def readV4 (cs : List Char) : Option (Nat × List Char) := do
  let octet := readNumber 10 3 256 false
  let (a, cs) ← octet cs
  let (b, cs) ← octet (← readChar '.' cs)
  let (c, cs) ← octet (← readChar '.' cs)
  let (d, cs) ← octet (← readChar '.' cs)
  return (((a * 256 + b) * 256 + c) * 256 + d, cs)

/-- The groups read so far, whether the last two came from an embedded address, and the rest. -/
abbrev Groups := List Nat × Bool × List Char

/-- At most `n` groups with colons between them; the last two may be four octets. The flag says
whether this is the first group, which no colon precedes. -/
def readGroups : Nat → Bool → List Char → Groups
  | 0, _, cs => ([], false, cs)
  | n + 1, first, cs =>
    match if first then some cs else readChar ':' cs with
    | none => ([], false, cs)
    | some body =>
      match if n = 0 then none else readV4 body with
      | some (v, rest) => ([v / 65536, v % 65536], true, rest)
      | none =>
        match readNumber 16 4 65536 true body with
        | none => ([], false, cs)
        | some (g, rest) =>
          let (gs, embedded, rest) := readGroups n false rest
          (g :: gs, embedded, rest)

/-- Eight groups, or fewer with `::` for the zeros left out. -/
def readV6 (cs : List Char) : Option (List Nat × List Char) :=
  let (head, embedded, rest) := readGroups 8 true cs
  if head.length = 8 then some (head, rest)
  else if embedded then none
  else do
    let rest ← readChar ':' (← readChar ':' rest)
    let (tail, _, rest) := readGroups (7 - head.length) true rest
    return (head ++ List.replicate (8 - head.length - tail.length) 0 ++ tail, rest)

/-- The value when nothing is left over. -/
def whole {α : Type} : Option (α × List Char) → Option α
  | some (a, []) => some a
  | _ => none

/-- The address that a text spells. -/
def IpAddress.ofText? (s : String) : Option IpAddress :=
  match readV4 s.toList with
  | some (n, rest) => whole (some (.v4 (BitVec.ofNat 32 n), rest))
  | none => (whole (readV6 s.toList)).map .ofGroups

def readPort (cs : List Char) : Option (UInt16 × List Char) := do
  let (n, rest) ← readPlain UInt16.size (← readChar ':' cs)
  return (UInt16.ofNat n, rest)

def readScope (cs : List Char) : UInt32 × List Char :=
  match readChar '%' cs with
  | none => (0, cs)
  | some body =>
    match readPlain UInt32.size body with
    | none => (0, cs)
    | some (n, rest) => (UInt32.ofNat n, rest)

/-- Four octets and a port. -/
def readSocketV4 (cs : List Char) : Option (SocketAddress × List Char) := do
  let (n, rest) ← readV4 cs
  let (port, rest) ← readPort rest
  return ({ ip := .v4 (BitVec.ofNat 32 n), port }, rest)

/-- Groups in brackets, perhaps with a scope, and a port. -/
def readSocketV6 (cs : List Char) : Option (SocketAddress × List Char) := do
  let (gs, rest) ← readV6 (← readChar '[' cs)
  let (scope, rest) := readScope rest
  let (port, rest) ← readPort (← readChar ']' rest)
  return ({ ip := .ofGroups gs, port, scope }, rest)

/-- The socket address that a text spells. -/
def SocketAddress.ofText? (s : String) : Option SocketAddress :=
  match readSocketV4 s.toList with
  | some r => whole (some r)
  | none => whole (readSocketV6 s.toList)

end SharedClipboard.Net
