import OmniDoer.Library.RustText

/-! Paths of Unix systems, as texts and as the names that lead to a place. -/

namespace Unix

open Rust

def parts (t : Text) : List Text := (t.splitOn '/').filter (· ≠ [])

def isAbsolute (t : Text) : Bool := t.head? = some '/'

/-- `Path::components`: a dot counts only at the start of a relative path. -/
def components (t : Text) : Bool × List Text :=
  match isAbsolute t, parts t with
  | false, ['.'] :: rest => (false, ['.'] :: rest.filter (· ≠ ['.']))
  | root, names => (root, names.filter (· ≠ ['.']))

/-- `Path::file_name`. -/
def fileName (t : Text) : Option Text :=
  (components t).2.getLast?.filter fun name => name ≠ ['.'] ∧ name ≠ ['.', '.']

/-- `Path::file_stem`: the name up to its last dot, unless nothing is before it. -/
def fileStem (t : Text) : Option Text :=
  (fileName t).map fun name =>
    match (name.reverse.dropWhile (· ≠ '.')).tail.reverse with
    | [] => name
    | stem => stem

/-- An absolute path without dots: the names from the root down. -/
abbrev AbsolutePath := List Text

def stepTo (path : AbsolutePath) (name : Text) : AbsolutePath :=
  if name = ['.'] then path else if name = ['.', '.'] then path.dropLast else path ++ [name]

def resolve (base : AbsolutePath) (t : Text) : AbsolutePath :=
  (parts t).foldl stepTo (if isAbsolute t then [] else base)

def render (path : AbsolutePath) : Text := '/' :: ['/'].intercalate path

end Unix
