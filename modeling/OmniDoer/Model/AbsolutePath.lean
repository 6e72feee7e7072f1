import OmniDoer.Library.UnixPath

/-! # Absolute paths

The model of `codex-rs/utils/absolute-path`: how texts become absolute, normalized paths. -/

namespace OmniDoer

open Rust Unix

/-- The home directory and the working directory of the process. -/
structure PathEnv where
  home : Option Text
  currentDir : Option AbsolutePath

namespace PathEnv

variable (env : PathEnv)

/-- `maybe_expand_home_directory`. -/
def expandHome (path : Text) : Text :=
  match env.home, path with
  | some home, ['~'] => home
  | some home, '~' :: '/' :: rest => home ++ '/' :: rest.dropWhile (· = '/')
  | _, _ => path

/-- `AbsolutePathBuf::resolve_path_against_base`. -/
def resolveAgainst (path : Text) (base : AbsolutePath) : AbsolutePath :=
  resolve base (env.expandHome path)

/-- `AbsolutePathBuf::from_absolute_path`: a relative path starts at the working directory. -/
def fromAbsolutePath (path : Text) : Option AbsolutePath :=
  if isAbsolute (env.expandHome path) then some (env.resolveAgainst path [])
  else env.currentDir.map (env.resolveAgainst path)

end PathEnv

end OmniDoer
