/-
Package `path`: `Clean`, on lists of bytes.

The documented rewriting (one slash for many, no `.`, no inner `..`, no
leading `..` of a rooted path) is a walk over the elements between the
slashes with a stack of the elements kept so far. An element that is
empty or `.` is skipped, `..` takes the top of the stack away, and at
the bottom of the stack it stays only when the path is not rooted.
-/
import Tokyo3Base.Go.Bytes

namespace Tokyo3Base.Go

/-- The pieces between the separators; one more than there are
separators. -/
def split (sep : UInt8) : GoString → List GoString
  | [] => [[]]
  | c :: cs =>
      if c = sep then [] :: split sep cs
      else
        match split sep cs with
        | [] => [[c]]
        | w :: ws => (c :: w) :: ws

/-- The pieces with the separator between them. -/
def join (sep : UInt8) : List GoString → GoString
  | [] => []
  | [w] => w
  | w :: ws => w ++ sep :: join sep ws

def dotDot : GoString := [dot, dot]

/-- An element that `Clean` drops. -/
def skipped (e : GoString) : Bool := e == [] || e == [dot]

/-- One element of the path, on the stack of those kept (top first). -/
def cleanStep (rooted : Bool) (stack : List GoString) (e : GoString) :
    List GoString :=
  if skipped e then stack
  else if e = dotDot then
    match stack with
    | [] => if rooted then [] else [dotDot]
    | top :: rest => if top = dotDot then dotDot :: stack else rest
  else e :: stack

/-- `path.Clean`. -/
def clean (p : GoString) : GoString :=
  let rooted := p.head? == some slash
  let kept := ((split slash p).foldl (cleanStep rooted) []).reverse
  if rooted then slash :: join slash kept
  else if kept = [] then [dot]
  else join slash kept

example : clean (ascii "/a/./b//../c/") = ascii "/a/c" := by decide

example : clean (ascii "../a/../..") = ascii "../.." := by decide

end Tokyo3Base.Go
