namespace RecordStore

abbrev Scan (α : Type) := StateT (List Char) Option α

namespace Scan

def refuse {α : Type} : Scan α := fun _ => none

def require (b : Bool) : Scan Unit := if b then pure () else refuse

def peek? : Scan (Option Char) := fun cs => some (cs.head?, cs)

def next : Scan Char
  | [] => none
  | c :: cs => some (c, cs)

def takeWhile (p : Char → Bool) : Scan (List Char) := fun cs => some (cs.takeWhile p, cs.dropWhile p)

def skipWhile (p : Char → Bool) : Scan Unit := fun cs => some ((), cs.dropWhile p)

def accept (word : String) : Scan Bool := fun cs =>
  let w := word.toList
  if w.isPrefixOf cs then some (true, cs.drop w.length) else some (false, cs)

def expect (word : String) : Scan Unit := do require (← accept word)

def atEnd : Scan Bool := fun cs => some (cs.isEmpty, cs)

def take (count : Nat) : Scan (List Char) := fun cs =>
  if count ≤ cs.length then some (cs.take count, cs.drop count) else none

def runAll? {α : Type} (scan : Scan α) (text : String) : Option α :=
  match scan.run text.toList with
  | some (a, []) => some a
  | _ => none

end Scan

end RecordStore
