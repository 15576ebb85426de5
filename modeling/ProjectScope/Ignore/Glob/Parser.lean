import ProjectScope.Ignore.Glob

/-!
# Reading globs

The tokens are read from left to right. A group in braces opens a list of branches, and the tokens
go to the last branch of the innermost open group. What two stars mean depends on their
neighbours: they are directories only between slashes, at an end of the glob, or at an end of a
branch.
-/

namespace ProjectScope

/-- Why a text is not a glob. -/
inductive GlobFault where
  | reversedRange (lo hi : Char)
  | unclosedGroup
  | unopenedGroup
  | danglingEscape
  deriving DecidableEq, Repr

/-- The fault in words. -/
def GlobFault.message : GlobFault → String
  | reversedRange lo hi =>
    "invalid range; '" ++ String.singleton lo ++ "' > '" ++ String.singleton hi ++ "'"
  | unclosedGroup =>
    "unclosed alternate group; missing '\x7d' (maybe escape '\x7b' with '[\x7b]'?)"
  | unopenedGroup =>
    "unopened alternate group; missing '\x7b' (maybe escape '\x7d' with '[\x7d]'?)"
  | danglingEscape => "dangling '\\'"

namespace Glob

/-- A list of branches that is being read: the finished ones and the tokens of the last one, both
last first. -/
structure Branches where
  finished : List (List Token) := []
  current : List Token := []

/-- What has been read: the branches of the innermost group, and those of the groups around it,
innermost first. The outermost list has a single branch, the glob itself. -/
structure Progress where
  inner : Branches := {}
  outer : List Branches := []

namespace Progress

/-- Add a token to the last branch. -/
def push (p : Progress) (t : Token) : Progress :=
  { p with inner := { p.inner with current := t :: p.inner.current } }

/-- Put a token in the place of the last one. -/
def replaceLast (p : Progress) (t : Token) : Progress :=
  { p with inner := { p.inner with current := t :: p.inner.current.tail } }

/-- Whether a group is open. -/
def inGroup (p : Progress) : Bool := !p.outer.isEmpty

/-- Open a group. -/
def openGroup (p : Progress) : Progress := { inner := {}, outer := p.inner :: p.outer }

/-- Start the next branch of the open group; outside a group a comma stands for itself. -/
def comma (p : Progress) : Progress :=
  if p.inGroup then
    { p with inner := { finished := p.inner.current.reverse :: p.inner.finished } }
  else p.push (.literal ',')

/-- Close the open group. -/
def closeGroup (p : Progress) : Except GlobFault Progress :=
  match p.outer with
  | [] => .error .unopenedGroup
  | around :: outer =>
    let branches := (p.inner.current.reverse :: p.inner.finished).reverse
    .ok (push { inner := around, outer } (.group branches))

/-- The glob, once everything is read. -/
def finish (p : Progress) : Except GlobFault Glob :=
  if p.inGroup then .error .unclosedGroup else .ok p.inner.current.reverse

end Progress

/-- The ranges of a class, from the characters between its brackets. A hyphen makes a range with
its neighbours, unless it is first or last; `ranges` holds what has been read, last first. -/
def classRanges (inRange : Bool) (ranges : List (Char × Char)) :
    List Char → Except GlobFault (List (Char × Char))
  | [] => .ok (if inRange then ('-', '-') :: ranges else ranges).reverse
  | c :: s =>
    match inRange, ranges with
    | true, (lo, _) :: rest =>
      if c < lo then .error (.reversedRange lo c) else classRanges false ((lo, c) :: rest) s
    | _, [] => classRanges false [(c, c)] s
    | false, _ :: _ =>
      if c = '-' then classRanges true ranges s else classRanges false ((c, c) :: ranges) s

/-- What stands after an opening bracket: a mark of negation, the characters of the class, and
what follows the closing bracket. The first character belongs to the class even if it is a closing
bracket. Without a closing bracket nothing follows. -/
def splitClass (s : List Char) : Bool × List Char × Option (List Char) :=
  let (negated, s) := match s with
    | '!' :: r => (true, r)
    | '^' :: r => (true, r)
    | r => (false, r)
  match s with
  | [] => (negated, [], none)
  | c :: r =>
    match r.dropWhile (· != ']') with
    | _ :: rest => (negated, c :: r.takeWhile (· != ']'), some rest)
    | [] => (negated, c :: r, none)

theorem length_splitClass_lt {s rest : List Char} (h : (splitClass s).2.2 = some rest) :
    rest.length < s.length := by
  have key : ∀ r : List Char, ∀ x rest', r.dropWhile (· != ']') = x :: rest' →
      rest'.length < r.length := by
    intro r x rest' h'
    have hle := (List.dropWhile_sublist (l := r) (· != ']')).length_le
    rw [h'] at hle
    simp only [List.length_cons] at hle
    omega
  unfold splitClass at h
  split at h
  rename_i negated t ht
  have hlen : t.length ≤ s.length := by
    split at ht <;> simp at ht <;> obtain ⟨-, rfl⟩ := ht <;> simp
  split at h
  · simp at h
  · rename_i c r
    split at h
    · rename_i x rest' h'
      simp at h
      subst h
      have := key r x rest' h'
      simp only [List.length_cons] at hlen
      omega
    · simp at h

/-- What two stars stand for after a slash or at an end of a branch: the new state and the number
of characters that they take with them. The stars take the slash before them into their meaning,
and directories after directories add nothing. -/
def pushDirectories (p : Progress) (atEnd : Bool) : Progress :=
  match p.inner.current with
  | .leadingDirectories :: _ => p
  | .everythingBelow :: _ => p
  | _ => p.replaceLast (if atEnd then .everythingBelow else .innerDirectories)

/-- Read two stars, between the character before them and the text after them. The result says
also whether the slash after them is taken. -/
def pushTwoStars (prev : Option Char) (p : Progress) (after : List Char) : Progress × Bool :=
  let plain := (p.push .star).push .star
  if p.inner.current.isEmpty then
    match after with
    | [] => (p.push .leadingDirectories, false)
    | '/' :: _ => (p.push .leadingDirectories, true)
    | _ => (plain, false)
  else if prev == some '/' || (p.inGroup && (prev == some ',' || prev == some '{')) then
    match after with
    | [] => (pushDirectories p true, false)
    | '/' :: _ => (pushDirectories p false, true)
    | c :: _ =>
      if p.inGroup && (c == ',' || c == '}') then (pushDirectories p true, false)
      else (plain, false)
  else (plain, false)

/-- Read the rest of a glob. `prev` is the character before it, and `brackets` says whether a
bracket opens a class, which it no longer does after one that is never closed. -/
def parseRest (brackets : Bool) (prev : Option Char) (p : Progress) (s : List Char) :
    Except GlobFault Glob :=
  match s with
  | [] => p.finish
  | '?' :: r => parseRest brackets (some '?') (p.push .any) r
  | '*' :: '*' :: r =>
    match pushTwoStars prev p r with
    | (p, true) => parseRest brackets (some '/') p r.tail
    | (p, false) => parseRest brackets (some '*') p r
  | '*' :: r => parseRest brackets (some '*') (p.push .star) r
  | '{' :: r => parseRest brackets (some '{') p.openGroup r
  | '}' :: r => do parseRest brackets (some '}') (← p.closeGroup) r
  | ',' :: r => parseRest brackets (some ',') p.comma r
  | '\\' :: r =>
    match r with
    | [] => .error .danglingEscape
    | c :: r => parseRest brackets (some c) (p.push (.literal c)) r
  | '[' :: r =>
    if brackets then
      match classRanges false [] (splitClass r).2.1 with
      | .error fault => .error fault
      | .ok ranges =>
        match _h : (splitClass r).2.2 with
        | some rest =>
          parseRest true (some ']') (p.push (.oneOf (splitClass r).1 ranges)) rest
        | none => parseRest false (some '[') (p.push (.literal '[')) r
    else parseRest false (some '[') (p.push (.literal '[')) r
  | c :: r => parseRest brackets (some c) (p.push (.literal c)) r
termination_by s.length
decreasing_by
  all_goals simp only [List.length_cons, List.length_tail]
  all_goals try have shorter := length_splitClass_lt _h
  all_goals omega

/-- Read a glob. -/
def parse (s : List Char) : Except GlobFault Glob := parseRest true none {} s

end Glob

end ProjectScope
