/-!
# Searching and cutting texts

Texts are searched as lists of characters. `indexOf?` gives the least place where a text occurs,
`splitAt` cuts at every occurrence of a character, and `joinWith` undoes the cut. `splitOn` cuts at
every occurrence of a text, and `splitTimes` only at the first few of them.
-/

namespace ImportAtlas.Text

/-- What follows `w` in a text that begins with it. -/
def after? : List Char → List Char → Option (List Char)
  | [], cs => some cs
  | _ :: _, [] => none
  | w :: ws, c :: cs => if w = c then after? ws cs else none

theorem after?_eq_some_iff {w cs rest : List Char} : after? w cs = some rest ↔ cs = w ++ rest := by
  induction w generalizing cs with
  | nil => simp [after?, eq_comm]
  | cons a w ih =>
    cases cs with
    | nil => simp [after?]
    | cons c cs =>
      by_cases h : a = c
      · simp [after?, h, ih]
      · simp only [after?, h, if_false, List.cons_append, List.cons.injEq, reduceCtorEq, false_iff]
        exact fun e => h e.1.symm

/-- The least place at which `w` occurs. -/
def indexOf? (w : List Char) : List Char → Option Nat
  | [] => if w.isEmpty then some 0 else none
  | c :: cs => if w.isPrefixOf (c :: cs) then some 0 else (indexOf? w cs).map (· + 1)

def occursIn (w cs : List Char) : Bool := (indexOf? w cs).isSome

/-- The pieces between the occurrences of a character: one more than there are of those. -/
def splitAt (sep : Char) : List Char → List (List Char)
  | [] => [[]]
  | c :: cs =>
    if c = sep then [] :: splitAt sep cs
    else match splitAt sep cs with
      | p :: ps => (c :: p) :: ps
      | [] => [[c]]

theorem splitAt_ne_nil (sep : Char) (cs : List Char) : splitAt sep cs ≠ [] := by
  cases cs with
  | nil => simp [splitAt]
  | cons c cs =>
    unfold splitAt
    split
    · simp
    · split <;> simp

def joinWith (sep : Char) : List (List Char) → List Char
  | [] => []
  | [p] => p
  | p :: q :: ps => p ++ sep :: joinWith sep (q :: ps)

theorem joinWith_splitAt (sep : Char) (cs : List Char) : joinWith sep (splitAt sep cs) = cs := by
  induction cs with
  | nil => rfl
  | cons c cs ih =>
    unfold splitAt
    have hne := splitAt_ne_nil sep cs
    by_cases h : c = sep
    · simp only [h, if_true]
      cases hs : splitAt sep cs with
      | nil => exact absurd hs hne
      | cons p ps => rw [hs] at ih; simp [joinWith, ih]
    · simp only [h, if_false]
      cases hs : splitAt sep cs with
      | nil => exact absurd hs hne
      | cons p ps =>
        rw [hs] at ih
        cases ps with
        | nil => simpa [joinWith] using ih
        | cons q qs => simpa [joinWith] using ih

def consFirst (c : Char) : List (List Char) → List (List Char)
  | [] => [[c]]
  | p :: ps => (c :: p) :: ps

/-- The pieces between the occurrences of `w`, after `n` characters that belong to one. -/
def splitOnFrom (w : List Char) : Nat → List Char → List (List Char)
  | _, [] => [[]]
  | n + 1, _ :: cs => splitOnFrom w n cs
  | 0, c :: cs =>
    if w.isPrefixOf (c :: cs) then [] :: splitOnFrom w (w.length - 1) cs
    else consFirst c (splitOnFrom w 0 cs)

/-- The pieces between the occurrences of `w`, found from the front without overlap. -/
def splitOn (w cs : List Char) : List (List Char) := splitOnFrom w 0 cs

/-- How often `w` occurs without overlap. -/
def timesIn (w cs : List Char) : Nat := (splitOn w cs).length - 1

/-- The pieces that cuts at the first `n` occurrences of `w` leave. -/
def splitTimes (w : List Char) (n : Nat) (cs : List Char) : List (List Char) :=
  let ps := splitOn w cs
  if ps.length ≤ n + 1 then ps else ps.take n ++ [w.intercalate (ps.drop n)]

/-- Each occurrence of the character `c` written as `w`. -/
def replaceChar (c : Char) (w : List Char) (cs : List Char) : List Char :=
  cs.flatMap fun d => if d = c then w else [d]

def joined (sep : String) (pieces : List String) : String := String.intercalate sep pieces

def beginsWith (s w : String) : Bool := w.toList.isPrefixOf s.toList

def finishesWith (s w : String) : Bool := w.toList.isSuffixOf s.toList

end ImportAtlas.Text
