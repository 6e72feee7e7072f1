import OmniDoer.Library.UnixPath
import Mathlib.Data.List.Sort

/-! # Shell scripts

The model of `codex-rs/shell-command/src/bash.rs`: the commands and words that are read from the
syntax tree of a script. The tree itself comes from a parser outside the repository. -/

namespace OmniDoer.Bash

open Rust

/-- The kinds of named nodes that the code asks for. -/
inductive Kind where
  | program
  | list
  | pipeline
  | command
  | commandName
  | word
  | string
  | stringContent
  | rawString
  | number
  | concatenation
  | comment
  | heredocBody
  | simpleHeredocBody
  | heredocRedirect
  | herestringRedirect
  | redirectedStatement
  | fileRedirect
  | other (name : Text)
  deriving DecidableEq

/-- A named node has a kind, any other node is the token it stands for. -/
inductive Symbol where
  | named (kind : Kind)
  | token (text : Text)
  deriving DecidableEq

inductive Node where
  | node (symbol : Symbol) (text : Text) (startByte : ℕ) (children : List Node)

namespace Node

def symbol : Node → Symbol
  | .node symbol _ _ _ => symbol

/-- `utf8_text`: the source of the node. -/
def text : Node → Text
  | .node _ text _ _ => text

def startByte : Node → ℕ
  | .node _ _ startByte _ => startByte

def children : Node → List Node
  | .node _ _ _ children => children

def kind? (node : Node) : Option Kind :=
  match node.symbol with
  | .named kind => some kind
  | .token _ => none

def namedChildren (node : Node) : List Node := node.children.filter (·.kind?.isSome)

mutual
/-- The nodes as a stack goes through them: a node before its children, the last child first. -/
def visited : Node → List Node
  | .node symbol text startByte children =>
    .node symbol text startByte children :: visitedAll children

def visitedAll : List Node → List Node
  | [] => []
  | child :: rest => visitedAll rest ++ visited child
end

mutual
/-- The same with named children only. -/
def namedVisited : Node → List Node
  | .node symbol text startByte children =>
    .node symbol text startByte children :: namedVisitedAll children

def namedVisitedAll : List Node → List Node
  | [] => []
  | child :: rest => namedVisitedAll rest ++ if child.kind?.isSome then namedVisited child else []
end

end Node

structure Tree where
  root : Node
  hasError : Bool

def allowedKinds : List Kind :=
  [.program, .list, .pipeline, .command, .commandName, .word, .string, .stringContent,
    .rawString, .number, .concatenation]

def allowedPunctTokens : List Text :=
  ["&&".toList, "||".toList, ";".toList, "|".toList, "\"".toList, "'".toList]

def isAllowed (node : Node) : Bool :=
  match node.symbol with
  | .named kind => kind ∈ allowedKinds
  | .token kind =>
    if kind.any ("&;|".toList.contains ·) && kind ∉ allowedPunctTokens then false
    else kind ∈ allowedPunctTokens || (trim kind).isEmpty

/-- `strip_prefix(quote).and_then(strip_suffix(quote))`. -/
def stripQuotes (quote : Char) (t : Text) : Option Text :=
  match t with
  | c :: rest => if c = quote ∧ rest.getLast? = some quote then some rest.dropLast else none
  | [] => none

def parseDoubleQuotedString (node : Node) : Option Text :=
  if node.kind? ≠ some .string then none
  else if node.namedChildren.any (·.kind? ≠ some .stringContent) then none
  else stripQuotes '"' node.text

def parseRawString (node : Node) : Option Text :=
  if node.kind? ≠ some .rawString then none else stripQuotes '\'' node.text

/-- A part of a concatenation. -/
def parsePart (part : Node) : Option Text :=
  match part.kind? with
  | some .word | some .number => some part.text
  | some .string => parseDoubleQuotedString part
  | some .rawString => parseRawString part
  | _ => none

/-- The word a child of a command stands for. -/
def parsePlainWord (child : Node) : Option Text :=
  match child.kind? with
  | some .commandName => do
      let wordNode ← child.namedChildren.head?
      if wordNode.kind? ≠ some .word then none else some wordNode.text
  | some .word | some .number => some child.text
  | some .string => parseDoubleQuotedString child
  | some .rawString => parseRawString child
  | some .concatenation => do
      let concatenated := (← child.namedChildren.mapM parsePart).flatten
      if concatenated.isEmpty then none else some concatenated
  | _ => none

def parsePlainCommandFromNode (cmd : Node) : Option (List Text) :=
  if cmd.kind? ≠ some .command then none else cmd.namedChildren.mapM parsePlainWord

def tryParseWordOnlyCommandsSequence (tree : Tree) : Option (List (List Text)) :=
  if tree.hasError then none
  else if tree.root.visited.all isAllowed then
    let commandNodes := tree.root.visited.filter (·.kind? = some .command)
    -- the walk uses a stack, so the nodes are sorted by position
    (commandNodes.insertionSort (·.startByte ≤ ·.startByte)).mapM parsePlainCommandFromNode
  else none

def hasNamedDescendantKind (node : Node) (kind : Kind) : Bool :=
  node.namedVisited.any (·.kind? = some kind)

def findSingleCommandNode (root : Node) : Option Node :=
  match root.namedVisited.filter (·.kind? = some .command) with
  | [command] => some command
  | _ => none

def isLiteralWordOrNumber (node : Node) : Bool :=
  (node.kind? = some .word || node.kind? = some .number) && node.namedChildren.isEmpty

def isAllowedHeredocAttachmentKind (kind : Kind) : Bool :=
  kind ∈ [.heredocBody, .simpleHeredocBody, .heredocRedirect, .herestringRedirect,
    .redirectedStatement]

/-- The words a child of a command with a here-document stands for. -/
def parseHeredocWord (child : Node) : Option (List Text) :=
  match child.kind? with
  | some .commandName => do
      let wordNode ← child.namedChildren.head?
      if isLiteralWordOrNumber wordNode then some [wordNode.text] else none
  | some .word | some .number => if isLiteralWordOrNumber child then some [child.text] else none
  | some .comment => some []
  | some kind => if isAllowedHeredocAttachmentKind kind then some [] else none
  | none => none

def parseHeredocCommandWords (cmd : Node) : Option (List Text) :=
  if cmd.kind? ≠ some .command then none
  else do
    let words := (← cmd.namedChildren.mapM parseHeredocWord).flatten
    if words.isEmpty then none else some words

inductive ShellType where
  | zsh
  | bash
  | powerShell
  | sh
  | cmd
  deriving DecidableEq

def shellTypeOfName (name : Text) : Option ShellType :=
  if name = "zsh".toList then some .zsh
  else if name = "sh".toList then some .sh
  else if name = "cmd".toList then some .cmd
  else if name = "bash".toList then some .bash
  else if name = "pwsh".toList then some .powerShell
  else if name = "powershell".toList then some .powerShell
  else none

/-- `detect_shell_type`: as long as the stem of a name differs from it, the stem is tried. -/
def detectShellType (shellPath : Text) : Option ShellType :=
  go (shellPath.length + 1) shellPath
where
  go : ℕ → Text → Option ShellType
    | 0, _ => none
    | fuel + 1, path =>
      match shellTypeOfName path with
      | some shellType => some shellType
      | none =>
        match Unix.fileStem path with
        | some stem => if Unix.components stem = Unix.components path then none else go fuel stem
        | none => none

section Commands

-- the parser of shell scripts
variable (tryParseShell : Text → Option Tree)

def parseShellScriptIntoCommands (script : Text) : Option (List (List Text)) := do
  tryParseWordOnlyCommandsSequence (← tryParseShell script)

def extractBashCommand (command : List Text) : Option (Text × Text) :=
  match command with
  | [shell, flag, script] =>
    if flag ∈ ["-lc".toList, "-c".toList] ∧
        detectShellType shell ∈ [some .zsh, some .bash, some .sh] then
      some (shell, script)
    else none
  | _ => none

def parseShellLcPlainCommands (command : List Text) : Option (List (List Text)) := do
  parseShellScriptIntoCommands tryParseShell (← extractBashCommand command).2

def parseShellLcSingleCommandPrefix (command : List Text) : Option (List Text) := do
  let tree ← tryParseShell (← extractBashCommand command).2
  if tree.hasError then none
  else if !hasNamedDescendantKind tree.root .heredocRedirect then none
  else if hasNamedDescendantKind tree.root .fileRedirect then none
  else parseHeredocCommandWords (← findSingleCommandNode tree.root)

end Commands

end OmniDoer.Bash
