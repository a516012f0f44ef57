/-!
Patterns for file names. A pattern is matched on bytes: it is moved over the name with a mark at
every place that its part so far can reach, and the name matches if the end is marked. Every
token is a function on these marks, so a star costs no more than a letter.
-/

namespace ProviderGen

/-- The bytes of a text. -/
def bytesOf (cs : List Char) : List UInt8 := cs.flatMap String.utf8EncodeChar

namespace Glob

/-- Characters in brackets, as ranges with both ends in them. -/
structure CharSet where
  negated : Bool
  ranges : List (Char × Char)
  deriving DecidableEq

inductive Token where
  | literal (c : Char)
  | anyByte
  | star
  | set (s : CharSet)
  /-- Directories at the front of a path. -/
  | leading
  /-- All that is in a directory. -/
  | trailing
  /-- Directories between two others. -/
  | between
  /-- One of several patterns; without any it stands for nothing. -/
  | oneOf (branches : List (List Token))

abbrev Pattern := List Token

/-! ### Sets of bytes -/

/-- A range from `a` to `b` as ranges of bytes: the bytes of `a` but the last, those from the last
of `a` to the first of `b`, and the remaining bytes of `b`. -/
def byteRanges (a b : Char) : List (UInt8 × UInt8) :=
  if a = b then (String.utf8EncodeChar a).map fun x => (x, x)
  else
    let front := (String.utf8EncodeChar a).dropLast.map fun x => (x, x)
    let back := (String.utf8EncodeChar b).tail.map fun x => (x, x)
    match (String.utf8EncodeChar a).getLast?, (String.utf8EncodeChar b).head? with
    | some x, some y => front ++ (x, y) :: back
    | _, _ => front ++ back

def CharSet.holds (s : CharSet) (x : UInt8) : Bool :=
  (s.ranges.any fun (a, b) => (byteRanges a b).any fun (lo, hi) => lo ≤ x && x ≤ hi) != s.negated

/-! ### Marks -/

/-- One mark for each place between the bytes of a name, its start and its end. -/
abbrev Marks := List Bool

/-- The marks moved over one byte of a certain kind. -/
def across (p : UInt8 → Bool) (bytes : List UInt8) (ms : Marks) : Marks :=
  false :: List.zipWith (fun m x => m && p x) ms bytes

def acrossBytes (xs : List UInt8) (bytes : List UInt8) (ms : Marks) : Marks :=
  xs.foldl (fun ms x => across (· == x) bytes ms) ms

/-- The marks moved over any bytes: all that lies behind a mark is marked. -/
def acrossAny (reached : Bool) : Marks → Marks
  | [] => []
  | m :: ms => (reached || m) :: acrossAny (reached || m) ms

def both (ms ns : Marks) : Marks := List.zipWith or ms ns

def acrossSlash (bytes : List UInt8) (ms : Marks) : Marks := acrossBytes (bytesOf ['/']) bytes ms

mutual

def Token.move (bytes : List UInt8) (ms : Marks) : Token → Marks
  | .literal c => acrossBytes (String.utf8EncodeChar c) bytes ms
  | .anyByte => across (fun _ => true) bytes ms
  | .star => acrossAny false ms
  | .set s => across s.holds bytes ms
  | .leading => both ms (both (acrossSlash bytes ms) (acrossSlash bytes (acrossAny false ms)))
  | .trailing => acrossAny false (acrossSlash bytes ms)
  | .between =>
    both (acrossSlash bytes ms) (acrossSlash bytes (acrossAny false (acrossSlash bytes ms)))
  | .oneOf branches => if branches.isEmpty then ms else moveAny bytes ms branches

def move (bytes : List UInt8) (ms : Marks) : List Token → Marks
  | [] => ms
  | t :: ts => move bytes (t.move bytes ms) ts

def moveAny (bytes : List UInt8) (ms : Marks) : List (List Token) → Marks
  | [] => ms.map fun _ => false
  | b :: bs => both (move bytes ms b) (moveAny bytes ms bs)

end

@[simp] theorem move_nil (bytes : List UInt8) (ms : Marks) : move bytes ms [] = ms := rfl

@[simp] theorem move_cons (bytes : List UInt8) (ms : Marks) (t : Token) (ts : List Token) :
    move bytes ms (t :: ts) = move bytes (t.move bytes ms) ts := rfl

/-- Two patterns in a row are used one after the other. -/
theorem move_append (bytes : List UInt8) (ms : Marks) (p q : Pattern) :
    move bytes ms (p ++ q) = move bytes (move bytes ms p) q := by
  induction p generalizing ms with
  | nil => rfl
  | cons t ts ih => simp [ih]

@[simp] theorem length_acrossAny (reached : Bool) (ms : Marks) :
    (acrossAny reached ms).length = ms.length := by
  induction ms generalizing reached with
  | nil => rfl
  | cons m ms ih => simp [acrossAny, ih]

/-- The marks before anything of a pattern is used. -/
def start (bytes : List UInt8) : Marks := true :: bytes.map fun _ => false

/-- Whether a name matches as a whole. -/
def Pattern.accepts (p : Pattern) (name : String) : Bool :=
  let bytes := bytesOf name.toList
  match p with
  | [.leading] => true
  | p => (move bytes (start bytes) p).getLast? == some true

end Glob

end ProviderGen
