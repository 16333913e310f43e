/-
Files and directories. A path is gone through name by name, so the first
name that leads nowhere decides what is reported: a name behind a file, one
that is too long for a directory to hold, or one that is not there. What a
path leads to is read only if it is a file.

`Entry.put` builds directories, and `Entry.follow` is the way back to what
was put there.
-/

namespace RoutineScript

-- ==================================================================== faults

/-- Why a file cannot be read. -/
inductive ReadFault where
  | missing
  | denied
  | notDirectory
  | directory
  | nameTooLong
  | notText
  deriving DecidableEq, Repr

/-- The explanation of a reading failure. -/
def ReadFault.message : ReadFault → String
  | missing => "No such file or directory (os error 2)"
  | denied => "Permission denied (os error 13)"
  | notDirectory => "Not a directory (os error 20)"
  | directory => "Is a directory (os error 21)"
  | nameTooLong => "File name too long (os error 36)"
  | notText => "stream did not contain valid UTF-8"

-- =================================================================== entries

/-- What a name in a directory stands for. -/
inductive Entry where
  | file (text : String)
  | directory (entries : List (String × Entry))

namespace Entry

/-- A directory without entries. -/
def empty : Entry := .directory []

/-- The longest name that a directory can hold, in bytes of UTF-8. -/
def longestName : Nat := 255

/-- The longest path, in bytes of UTF-8. -/
def longestPath : Nat := 4095

/-- Whether a name stands for the directory it is looked up in. -/
def staysHere (name : String) : Bool :=
  name = "" || name = "."

/-- Whether a name can be given to an entry of a directory. -/
def isPlain (name : String) : Bool :=
  !staysHere name && name ≠ ".." && name.utf8ByteSize ≤ longestName

/-- Follows the names of a path from an entry. The directories that the entry
lies in are `above`, innermost first; nothing lies above the root but itself. -/
def follow (here : Entry) (above : List Entry) : List String → Except ReadFault Entry
  | [] => .ok here
  | name :: names =>
    match here with
    | .file _ => .error .notDirectory
    | .directory entries =>
      if staysHere name then follow here above names
      else if name = ".." then
        match above with
        | [] => follow here [] names
        | parent :: above => follow parent above names
      else if longestName < name.utf8ByteSize then .error .nameTooLong
      else
        match entries.lookup name with
        | none => .error .missing
        | some entry => follow entry (here :: above) names

/-- Puts a file where the names of a path lead, with the directories on the
way to it. -/
def put (text : String) : List String → Entry → Entry
  | [], _ => .file text
  | name :: names, .file _ => .directory [(name, put text names empty)]
  | name :: names, .directory entries =>
    .directory ((name, put text names ((entries.lookup name).getD empty)) :: entries)

/-- The names of a path. -/
def names (path : String) : List String :=
  path.splitOn "/"

/-- Reads what a path leads to. A path that begins with a slash starts at the
root `tree`, any other one at the directory `home` of it. -/
def read (tree : Entry) (home : List String) (path : String) : Except ReadFault String :=
  if path = "" then .error .missing
  else if longestPath < path.utf8ByteSize then .error .nameTooLong
  else
    let start := if path.toList.head? = some '/' then [] else home
    match tree.follow [] (start ++ names path) with
    | .ok (.file text) => .ok text
    | .ok (.directory _) => .error .directory
    | .error fault => .error fault

/-- A file is found where it was put. -/
theorem follow_put (text : String) (path : List String) (h : ∀ name ∈ path, isPlain name = true)
    (tree : Entry) (above : List Entry) :
    (tree.put text path).follow above path = .ok (.file text) := by
  induction path generalizing tree above with
  | nil => cases tree <;> rfl
  | cons name names ih =>
    have plain := h name List.mem_cons_self
    have ih := ih fun other hm => h other (List.mem_cons_of_mem _ hm)
    simp only [isPlain, Bool.and_eq_true, Bool.not_eq_true', decide_eq_true_eq] at plain
    obtain ⟨⟨stays, up⟩, short⟩ := plain
    have long : ¬ longestName < name.utf8ByteSize := Nat.not_lt.2 short
    cases tree <;> simp [put, follow, stays, up, long, ih, List.lookup_cons_self]

end Entry

end RoutineScript
