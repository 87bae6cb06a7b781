import ImportAtlas.Text.Blank
import ImportAtlas.Text.Search

/-!
# Paths as text

Purely textual operations on slash-separated paths; no directory is ever looked at. `normalize`
drops empty and `.` segments and lets `..` take back the segment before it.
-/

namespace ImportAtlas.Path

open ImportAtlas

def segments (p : String) : List String := (Text.splitAt '/' p.toList).map String.ofList

def ofSegments (ss : List String) : String := String.intercalate "/" ss

/-- The slashes that a path keeps in front: none, one, or exactly two. -/
def rootSlashes (p : String) : Nat :=
  match (p.toList.takeWhile (· == '/')).length with
  | 0 => 0
  | 2 => 2
  | _ => 1

def slashes (n : Nat) : String := String.ofList (List.replicate n '/')

/-- One more segment onto the segments so far, innermost first. A `..` takes the innermost segment
back, is kept where there is nothing to take back, and vanishes at the root. -/
def push (rooted : Bool) (kept : List String) (seg : String) : List String :=
  if seg = "" ∨ seg = "." then kept
  else if seg ≠ ".." then seg :: kept
  else match kept with
    | [] => if rooted then [] else [".."]
    | top :: rest => if top = ".." then ".." :: kept else rest

/-- The segments left when `.`, empty and `..` segments are worked off. -/
def collapse (rooted : Bool) (ss : List String) : List String :=
  (ss.foldl (push rooted) []).reverse

/-- The normal form of a path; the empty path is `.`. -/
def normalize (p : String) : String :=
  let n := rootSlashes p
  let q := slashes n ++ ofSegments (collapse (0 < n) (segments p))
  if q = "" then "." else q

/-- `b` seen from the directory `a`; an absolute `b` stands for itself. -/
def join (a b : String) : String :=
  if Text.beginsWith b "/" then b
  else if a = "" ∨ Text.finishesWith a "/" then a ++ b
  else a ++ "/" ++ b

/-- Cuts at the last occurrence of a character: what stands before it and what after. -/
def cutLast? (sep : Char) (cs : List Char) : Option (List Char × List Char) :=
  let back := cs.reverse
  match back.dropWhile (· != sep) with
  | [] => none
  | _ :: front => some (front.reverse, (back.takeWhile (· != sep)).reverse)

/-- Everything before the last slash; the slashes at its end go too, unless it has only those. -/
def dirname (p : String) : String :=
  match cutLast? '/' p.toList with
  | none => ""
  | some (front, _) =>
    let kept := (front.reverse.dropWhile (· == '/')).reverse
    if kept.isEmpty then String.ofList (front ++ ['/']) else String.ofList kept

def basename (p : String) : String :=
  match cutLast? '/' p.toList with
  | none => p
  | some (_, name) => String.ofList name

/-- The path without its extension, and the extension with its dot. Dots that begin the last
segment start no extension. -/
def splitExtension (p : String) : String × String :=
  let cs := p.toList
  let name := (basename p).toList
  match cutLast? '.' name with
  | some (stem, ext) =>
    if stem.any (· != '.') then
      let n := ext.length + 1
      (String.ofList (cs.take (cs.length - n)), String.ofList ('.' :: ext))
    else (p, "")
  | none => (p, "")

def trimSlashes (p : String) : String := String.ofList (Text.trimBoth (· == '/') p.toList)

/-- The path taken from the directory `here` unless it is absolute, in normal form. -/
def absolute (here p : String) : String :=
  normalize (if Text.beginsWith p "/" then p else join here p)

/-- The two lists without the longest beginning they share. -/
def dropCommon : List String → List String → List String × List String
  | a :: as, b :: bs => if a = b then dropCommon as bs else (a :: as, b :: bs)
  | as, bs => (as, bs)

/-- The way from the directory `start` to `p`, both taken from `here`. -/
def wayFrom (here start p : String) : String :=
  let (up, down) := dropCommon ((segments (absolute here start)).filter (· ≠ ""))
    ((segments (absolute here p)).filter (· ≠ ""))
  match List.replicate up.length ".." ++ down with
  | [] => "."
  | ss => ofSegments ss

end ImportAtlas.Path
