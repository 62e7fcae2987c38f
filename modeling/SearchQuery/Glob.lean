/-! # Globs

Matching a name against a glob, byte by byte: a star stands for any bytes but slashes, two stars
as a whole path part for any bytes, a question mark for one byte, brackets for one byte of a
class, braces for one of several alternatives; a backslash quotes, and each exclamation mark in
front negates. Of the alternatives in braces the one that reaches farthest is taken. -/
namespace SearchQuery.Glob

/-- A star to come back to: its place in the glob, and the next place in the name to try. No
star is written as place 0 in the name. -/
structure Star where
  glob : Nat
  name : Nat

structure Cursor where
  glob : Nat
  name : Nat
  star : Star
  doubleStar : Star

/-- The cursor, the cursors at the open braces around it, innermost first, and the farthest
place that an alternative has reached. -/
structure State where
  cursor : Cursor
  braces : List Cursor
  farthest : Nat

/-- What one step finds out. An invalid glob matches nothing, negated or not. -/
inductive Step
  | go (s : State)
  | mismatch (s : State)
  | invalid

/-- The byte of an ASCII character. -/
def byte (c : Char) : UInt8 := c.toUInt8

def noStar : Star := ⟨0, 0⟩

/-- Skips further `/**` parts. -/
def skipDoubleStars (glob : ByteArray) (i : Nat) : Nat :=
  if h : i + 3 ≤ glob.size then
    if glob[i]? = some (byte '/') ∧ glob[i + 1]? = some (byte '*') ∧
        glob[i + 2]? = some (byte '*') then
      skipDoubleStars glob (i + 3)
    else i
  else i
termination_by glob.size - i

/-- The byte at a place, a quoted one after a backslash, and its last place; absent when the
glob ends in the backslash. -/
def unescape? (glob : ByteArray) (i : Nat) (c : UInt8) : Option (UInt8 × Nat) :=
  if c = byte '\\' then
    (glob[i + 1]?).map fun d =>
      (if d = byte 'b' then 8 else if d = byte 'n' then 10 else if d = byte 'r' then 13
        else if d = byte 't' then 9 else d,
        i + 1)
  else some (c, i)

inductive Skip
  | comma (place : Nat)
  | brace (place : Nat)
  | invalid

/-- Skips behind the brace that closes the innermost open one, or behind a comma between its
alternatives; `opened` braces are open. -/
def skipBraces (glob : ByteArray) (toComma : Bool) (opened : Nat) (inClass : Bool) (i : Nat) :
    Skip :=
  if opened = 0 then .brace i
  else match h : glob[i]? with
    | none => .invalid
    | some c =>
      have : i < glob.size := by
        rcases Nat.lt_or_ge i glob.size with h' | h'
        · exact h'
        · rw [getElem?_neg glob i (Nat.not_lt.2 h')] at h; cases h
      if c = byte '{' ∧ !inClass then skipBraces glob toComma (opened + 1) inClass (i + 1)
      else if c = byte '}' ∧ !inClass then skipBraces glob toComma (opened - 1) inClass (i + 1)
      else if c = byte ',' ∧ toComma ∧ opened = 1 ∧ !inClass then .comma (i + 1)
      else if c = byte '*' ∧ !inClass ∧ glob[i + 1]? = some (byte '*') then
        skipBraces glob toComma opened inClass (max (skipDoubleStars glob (i + 2)) (i + 2))
      else if c = byte '[' ∧ !inClass then skipBraces glob toComma opened true (i + 1)
      else if c = byte ']' then skipBraces glob toComma opened false (i + 1)
      else if c = byte '\\' then skipBraces glob toComma opened inClass (i + 2)
      else skipBraces glob toComma opened inClass (i + 1)
termination_by glob.size - i

/-- Leaves the innermost braces at the farthest place reached. -/
def State.leaveBraces (s : State) (c : Cursor) : State :=
  match s.braces with
  | [] => { s with cursor := c }
  | outer :: rest =>
    { cursor := { c with name := s.farthest, star := outer.star, doubleStar := outer.doubleStar }
      braces := rest
      farthest := if rest.isEmpty then 0 else s.farthest }

/-- Passes one star, or two, and remembers it. Two stars count as such at the end of the glob
and as a whole part between slashes; the part may then also be empty. -/
def Cursor.passStar (glob name : ByteArray) (c : Cursor) : Cursor :=
  if glob[c.glob + 1]? = some (byte '*') then
    let next := skipDoubleStars glob (c.glob + 2)
    let here : Star := ⟨next - 2, c.name + 1⟩
    if next = glob.size then ⟨next, c.name, here, here⟩
    else if (next < 3 ∨ glob[next - 3]? = some (byte '/')) ∧ glob[next]? = some (byte '/') then
      if c.name = 0 ∨ c.name < name.size ∧ name[c.name - 1]? = some (byte '/') then
        ⟨next + 1, c.name, here, here⟩
      else ⟨next, c.name, here, here⟩
    else ⟨next, c.name, here, c.doubleStar⟩
  else ⟨c.glob + 1, c.name, ⟨c.glob, c.name + 1⟩, c.doubleStar⟩

/-- A single star does not cross a slash: it gives way to the last two stars, or ends. -/
def Cursor.stopAtSlash (name : ByteArray) (c : Cursor) : Cursor :=
  if c.doubleStar.name ≠ c.star.name ∧ name[c.name]? = some (byte '/') then
    if 0 < c.doubleStar.name ∧ c.name + 1 < name.size then
      { c with glob := c.doubleStar.glob, star := { c.star with glob := c.doubleStar.glob } }
    else { c with star := { c.star with name := 0 } }
  else c

/-- A star or two. At the end of an alternative the rest of the braces is passed. -/
def State.star (glob name : ByteArray) (s : State) : Step :=
  let c := (s.cursor.passStar glob name).stopAtSlash name
  if !s.braces.isEmpty ∧ (glob[c.glob]? = some (byte ',') ∨ glob[c.glob]? = some (byte '}')) then
    match skipBraces glob false 1 false c.glob with
    | .brace i | .comma i => .go { s with cursor := { c with glob := i } }
    | .invalid => .invalid
  else .go { s with cursor := c }

/-- The rest of a class: whether the byte is in it, and the place of the closing bracket. The
first byte may be a closing bracket itself. -/
def classMatch? (glob : ByteArray) (b : UInt8) (fuel : Nat) (first found : Bool) (i : Nat) :
    Option (Bool × Nat) :=
  match fuel, glob[i]? with
  | 0, _ | _, none => none
  | fuel + 1, some low =>
    if low = byte ']' ∧ !first then some (found, i)
    else match unescape? glob i low with
      | none => none
      | some (low, i) =>
        let i := i + 1
        if glob[i]? = some (byte '-') ∧ i + 1 < glob.size ∧ glob[i + 1]? ≠ some (byte ']') then
          match unescape? glob (i + 1) (glob[i + 1]?.getD 0) with
          | none => none
          | some (high, i) =>
            classMatch? glob b fuel false (found || (low ≤ b && b ≤ high)) (i + 1)
        else classMatch? glob b fuel false (found || low = b) i

/-- A class of bytes in brackets. -/
def State.byteClass (glob : ByteArray) (s : State) (b : UInt8) : Step :=
  let i := s.cursor.glob + 1
  let negated : Bool := glob[i]? == some (byte '^') || glob[i]? == some (byte '!')
  match classMatch? glob b glob.size true false (if negated then i + 1 else i) with
  | none => .invalid
  | some (found, i) =>
    let c := { s.cursor with glob := i + 1 }
    if found ≠ negated then .go { s with cursor := { c with name := c.name + 1 } }
    else .mismatch { s with cursor := c }

/-- A byte that stands for itself. Unless it is a slash, the last two stars have found their end
with it, and single stars behind it do not give way to them any more. -/
def State.literal (glob : ByteArray) (s : State) (c b : UInt8) : Step :=
  match unescape? glob s.cursor.glob c with
  | none => .invalid
  | some (c, i) =>
    let cursor := { s.cursor with glob := i }
    if c = b then
      let s :=
        if !s.braces.isEmpty ∧ 0 < i ∧ glob[i - 1]? = some (byte '}') then
          { s with farthest := cursor.name }.leaveBraces cursor
        else { s with cursor }
      let c' := { s.cursor with glob := s.cursor.glob + 1, name := s.cursor.name + 1 }
      .go { s with
        cursor := if c = byte '/' then c' else { c' with doubleStar.name := 0 } }
    else .mismatch { s with cursor }

/-- One element of the glob against the name. -/
def State.step (glob name : ByteArray) (s : State) : Step :=
  let c := s.cursor
  match glob[c.glob]?, name[c.name]? with
  | none, _ => .mismatch s
  | some g, b =>
    if g = byte '*' then s.star glob name
    else if g = byte '?' ∧ b.isSome then
      if b = some (byte '/') then .mismatch s
      else .go { s with cursor := { c with glob := c.glob + 1, name := c.name + 1 } }
    else if g = byte '{' ∧ b.isSome then
      if 10 ≤ s.braces.length then .invalid
      else .go { s with
        cursor := ⟨c.glob + 1, c.name, noStar, noStar⟩
        braces := c :: s.braces }
    else if g = byte '}' ∧ !s.braces.isEmpty then
      .go ({ s with farthest := max s.farthest c.name }.leaveBraces { c with glob := c.glob + 1 })
    else if g = byte ',' ∧ !s.braces.isEmpty then
      .go { s with
        cursor := ⟨c.glob + 1, (s.braces.head?.map Cursor.name).getD 0, noStar, noStar⟩
        farthest := max s.farthest c.name }
    else match b with
      | none => .mismatch s
      | some b => if g = byte '[' then s.byteClass glob b else s.literal glob g b

def Cursor.canReturn (c : Cursor) (name : ByteArray) : Bool :=
  0 < c.star.name && c.star.name ≤ name.size

/-- Goes back to the last star. -/
def Cursor.back (c : Cursor) : Cursor := { c with glob := c.star.glob, name := c.star.name }

/-- What to try after a mismatch: the last star, the next alternative, the farthest alternative
that matched, or the last star before the braces. -/
def State.retry (glob name : ByteArray) (s : State) : Step :=
  let c := s.cursor
  if c.canReturn name then .go { s with cursor := c.back }
  else match s.braces with
    | [] => .mismatch s
    | outer :: rest =>
      match skipBraces glob true 1 false c.glob with
      | .invalid => .invalid
      | .comma i => .go { s with cursor := { c with glob := i, name := outer.name } }
      | .brace i =>
        if 0 < s.farthest then .go (s.leaveBraces { c with glob := i })
        else if outer.canReturn name then .go { s with cursor := outer.back, braces := rest }
        else .mismatch s

/-- The verdict on a glob without marks of negation; absent when the glob is invalid. -/
def run (glob name : ByteArray) : Nat → State → Option Bool
  | 0, _ => some false
  | fuel + 1, s =>
    if glob.size ≤ s.cursor.glob ∧ name.size ≤ s.cursor.name then some true
    else match s.step glob name with
      | .go s => run glob name fuel s
      | .invalid => none
      | .mismatch s =>
        match s.retry glob name with
        | .go s => run glob name fuel s
        | .invalid => none
        | .mismatch _ => some false

/-- The number of negation marks in front. -/
def marks (glob : List UInt8) : Nat := (glob.takeWhile (· = byte '!')).length

/-- Whether a glob matches a name. The number of steps is bounded by a power of the two sizes. -/
def matchesName (glob name : String) : Bool :=
  let g := glob.toUTF8
  let n := name.toUTF8
  let negations := marks g.toList
  let start : State := ⟨⟨negations, 0, noStar, noStar⟩, [], 0⟩
  match run g n (Nat.pow ((g.size + 2) * (n.size + 2)) 4) start with
  | none => false
  | some found => found != (negations % 2 = 1)

end SearchQuery.Glob
