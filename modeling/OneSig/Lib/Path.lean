/-
# Paths

A file is named by its components, from the root of the file system down.  `resolve dir text` is
what joining a text to a directory gives, the way the path functions of an operating system with
`/` as its separator do it: the text is cut at its separators and its parts are taken in turn.  An
empty part and `.` stay where they are, `..` goes up one component, and any other part goes down.
The root is its own parent, so there are never too many `..`.

Two texts can therefore name one file, and a text that was meant as the name of a file in a
directory can lead out of it.  What the module says about that:

* `IsName`: a text with no separator that is neither empty nor one of the two dot segments;
* `resolve_name`: a name stays in its directory, as its last component, so different names are
  different files;
* `resolve_here`: a `./` in front of a text changes nothing, which is how one file comes to have
  two spellings;
* `isName_of_length`: a text of at least three characters without a separator is a name, for the
  callers that know the length of what they join.

Symbolic links, the working directory, and a file system that does not tell the case of letters
apart are left out: a path is its components and nothing else.
-/
import Mathlib.Data.List.Basic

namespace Path

abbrev Name := List Char

def here : Name := ['.']

def up : Name := ['.', '.']

/-- One component, from a directory. -/
def step (dir : List Name) (part : Name) : List Name :=
  if part = [] ∨ part = here then dir
  else if part = up then dir.dropLast
  else dir ++ [part]

/-- The path of the text, from a directory. -/
def resolve (dir : List Name) (text : List Char) : List Name :=
  (text.splitOn '/').foldl step dir

/-- A text that is the name of a file: no separator, and none of the dot segments. -/
structure IsName (text : List Char) : Prop where
  nonempty : text ≠ []
  not_here : text ≠ here
  not_up : text ≠ up
  flat : '/' ∉ text

/-- A name stays in its directory. -/
theorem resolve_name (dir : List Name) {text : List Char} (h : IsName text) :
    resolve dir text = dir ++ [text] := by
  have hdot : ¬ (text = [] ∨ text = here) := by
    rintro (hnil | hhere)
    · exact h.nonempty hnil
    · exact h.not_here hhere
  rw [resolve, List.splitOn_eq_singleton h.flat, List.foldl_cons, List.foldl_nil, step,
    if_neg hdot, if_neg h.not_up]

/-- A dot in front changes nothing. -/
theorem resolve_here (dir : List Name) (text : List Char) :
    resolve dir (here ++ '/' :: text) = resolve dir text := by
  have hsplit : (here ++ '/' :: text).splitOn '/' = here :: text.splitOn '/' :=
    List.splitOn_append_cons_self_of_not_mem (by decide) _
  rw [resolve, hsplit, List.foldl_cons, step, if_pos (Or.inr rfl), resolve]

/-- A text of at least three characters that has no separator is a name. -/
theorem isName_of_length {text : List Char} (hlen : 2 < text.length) (hflat : '/' ∉ text) :
    IsName text := by
  refine ⟨?_, ?_, ?_, hflat⟩ <;>
  · rintro rfl
    revert hlen
    decide

end Path
