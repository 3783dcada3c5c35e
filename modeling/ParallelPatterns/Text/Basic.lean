import ParallelPatterns.Text.Blank

/-!
# Cutting and joining texts

Splitting at a separator, looking for a part, replacing a part, trimming, and cutting into words and
lines. Every function recurses on the list of characters; the `String` forms wrap it.

The search runs from the left and never overlaps: after a separator has been found, the characters
it covers are skipped.
-/

namespace ParallelPatterns.Text

def after? : List Char → List Char → Option (List Char)
  | [], s => some s
  | _ :: _, [] => none
  | p :: ps, c :: cs => if p = c then after? ps cs else none

/-- Splits at each occurrence of `sep`; `skip` characters of the last occurrence are still to be
passed over, and `acc` holds the current part in reverse. -/
def splitGo (sep : List Char) : Nat → List Char → List Char → List (List Char)
  | _, acc, [] => [acc.reverse]
  | skip + 1, acc, _ :: cs => splitGo sep skip acc cs
  | 0, acc, c :: cs =>
    if sep.isPrefixOf (c :: cs) then acc.reverse :: splitGo sep (sep.length - 1) [] cs
    else splitGo sep 0 (c :: acc) cs

/-- The parts of `s` between the occurrences of the non-empty text `sep`. -/
def split (sep s : String) : List String :=
  (splitGo sep.toList 0 [] s.toList).map String.ofList

def findGo (pat : List Char) : Nat → List Char → Option Nat
  | n, [] => if pat.isEmpty then some n else none
  | n, c :: cs => if pat.isPrefixOf (c :: cs) then some n else findGo pat (n + 1) cs

def find? (pat s : String) : Option Nat := findGo pat.toList 0 s.toList

def findLastGo (pat : List Char) : Nat → List Char → Option Nat
  | n, [] => if pat.isEmpty then some n else none
  | n, c :: cs =>
    match findLastGo pat (n + 1) cs with
    | some k => some k
    | none => if pat.isPrefixOf (c :: cs) then some n else none

def findLast? (pat s : String) : Option Nat := findLastGo pat.toList 0 s.toList

def has (pat s : String) : Bool := (find? pat s).isSome

def begins (pat s : String) : Bool := pat.toList.isPrefixOf s.toList

def ends (pat s : String) : Bool := pat.toList.isSuffixOf s.toList

/-- Replaces every occurrence of the non-empty text `old`. -/
def replace (old new s : String) : String := String.intercalate new (split old s)

/-- The number of non-overlapping occurrences of the non-empty text `pat`. -/
def count (pat s : String) : Nat := (split pat s).length - 1

def take (n : Nat) (s : String) : String := String.ofList (s.toList.take n)

def drop (n : Nat) (s : String) : String := String.ofList (s.toList.drop n)

/-- The characters from position `i` up to but without position `j`. -/
def slice (i j : Nat) (s : String) : String := take (j - i) (drop i s)

def dropEnd (n : Nat) (s : String) : String := take (s.length - n) s

/-- Removes leading characters in the class `p`. -/
def trimStartBy (p : Char → Bool) (s : String) : String := String.ofList (s.toList.dropWhile p)

/-- Removes trailing characters in the class `p`. -/
def trimEndBy (p : Char → Bool) (s : String) : String :=
  String.ofList (s.toList.reverse.dropWhile p).reverse

variable (s : String)

def trimStart : String := trimStartBy isBlank s

def trimEnd : String := trimEndBy isBlank s

def trim : String := trimEnd (trimStart s)

/-- Cuts into the maximal runs of characters outside the class `p`; `acc` holds the current run in
reverse. -/
def wordsGo (p : Char → Bool) : List Char → List Char → List (List Char)
  | acc, [] => if acc.isEmpty then [] else [acc.reverse]
  | acc, c :: cs =>
    if p c then (if acc.isEmpty then wordsGo p [] cs else acc.reverse :: wordsGo p [] cs)
    else wordsGo p (c :: acc) cs

def words : List String := (wordsGo isBlank [] s.toList).map String.ofList

/-- Cuts at line ends, a carriage return with a line feed counting as one; `acc` holds the current
line in reverse, and a last line without an end is kept when it is not empty. -/
def linesGo : List Char → List Char → List (List Char)
  | acc, [] => if acc.isEmpty then [] else [acc.reverse]
  | acc, '\r' :: '\n' :: cs => acc.reverse :: linesGo [] cs
  | acc, c :: cs => if isLineEnd c then acc.reverse :: linesGo [] cs else linesGo (c :: acc) cs

/-- The lines of a text without their ends, cut at every line end. -/
def lines : List String := (linesGo [] s.toList).map String.ofList

/-- Writes every line end of a stored file as a line feed. -/
def plainLineEndsGo : List Char → List Char
  | [] => []
  | '\r' :: '\n' :: cs => '\n' :: plainLineEndsGo cs
  | '\r' :: cs => '\n' :: plainLineEndsGo cs
  | c :: cs => c :: plainLineEndsGo cs

/-- The text of a stored file as a reader of text sees it: every line end is a line feed. -/
def plainLineEnds : String := String.ofList (plainLineEndsGo s.toList)

def feedLinesGo : List Char → List Char → List (List Char)
  | acc, [] => if acc.isEmpty then [] else [acc.reverse]
  | acc, c :: cs =>
    if c = '\n' then (c :: acc).reverse :: feedLinesGo [] cs else feedLinesGo (c :: acc) cs

def feedLines : List String := (feedLinesGo [] s.toList).map String.ofList

def cut (sep s : String) : String × Option String :=
  match find? sep s with
  | none => (s, none)
  | some i => (take i s, some (drop (i + sep.length) s))

/-- The part behind the last occurrence of `sep`, or the whole text. -/
def afterLast (sep s : String) : String :=
  match findLast? sep s with
  | none => s
  | some i => drop (i + sep.length) s

/-- The part before the last occurrence of `sep`, or the whole text. -/
def beforeLast (sep s : String) : String :=
  match findLast? sep s with
  | none => s
  | some i => take i s

def times (n : Nat) (s : String) : String := String.join (List.replicate n s)

/-- Named values, one a line. -/
def fields (fs : List (String × String)) : String := "\n".intercalate (fs.map fun (k, v) => k ++ ": " ++ v)

theorem splitGo_ne_nil (sep : List Char) (skip : Nat) (acc s : List Char) :
    splitGo sep skip acc s ≠ [] := by
  induction s generalizing skip acc with
  | nil => simp [splitGo]
  | cons c cs ih =>
    cases skip with
    | zero =>
      unfold splitGo
      split
      · simp
      · exact ih 0 _
    | succ n => exact ih n acc

theorem split_ne_nil (sep s : String) : split sep s ≠ [] := by
  simp [split, splitGo_ne_nil]

end ParallelPatterns.Text
