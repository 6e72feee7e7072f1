import OmniDoer.Library.ShellQuotes
import OmniDoer.Model.Bash
import Mathlib.Data.List.Pairwise

/-! # The commands that are judged

Which commands a script runs, and with which arguments, read off its syntax tree as a shell does:
the source of every argument, without its quotes. -/

namespace OmniDoer.Bash

open Rust Shell List Node

mutual
def Node.nodes : Node → List Node
  | .node symbol text startByte children =>
    .node symbol text startByte children :: nodesAll children

def Node.nodesAll : List Node → List Node
  | [] => []
  | child :: rest => Node.nodes child ++ Node.nodesAll rest
end

mutual
theorem Node.visited_perm : (node : Node) → node.visited.Perm node.nodes
  | .node symbol text startByte children => by
      rw [visited, nodes]
      exact (visitedAll_perm children).cons _

theorem Node.visitedAll_perm :
    (children : List Node) → (visitedAll children).Perm (nodesAll children)
  | [] => .refl _
  | child :: rest => by
      rw [visitedAll, nodesAll]
      exact perm_append_comm.trans ((visited_perm child).append (visitedAll_perm rest))
end

def Tree.commandNodes (tree : Tree) : List Node := tree.root.nodes.filter (·.kind? = some .command)

def argv (command : Node) : List Text :=
  command.namedChildren.map fun child => removeQuotes .none child.text

/-- What the grammar says about the words of a script, and that nodes start where they stand. -/
structure Faithful (tree : Tree) : Prop where
  bare : ∀ node ∈ tree.root.nodes, node.kind? = some .word ∨ node.kind? = some .number →
    Bare node.text
  string : ∀ node ∈ tree.root.nodes, node.kind? = some .string →
    ∃ body, node.text = '"' :: body ++ ['"'] ∧ Quoted body
  rawString : ∀ node ∈ tree.root.nodes, node.kind? = some .rawString →
    ∃ body, node.text = '\'' :: body ++ ['\''] ∧ '\'' ∉ body
  concatenation : ∀ node ∈ tree.root.nodes, node.kind? = some .concatenation →
    node.text = (node.namedChildren.map Node.text).flatten
  commandName : ∀ node ∈ tree.root.nodes, node.kind? = some .commandName →
    ∃ word, node.namedChildren = [word] ∧ node.text = word.text
  ordered : tree.commandNodes.Pairwise fun a b => a.startByte < b.startByte

def argumentParts (child : Node) : List Node :=
  match child.kind? with
  | some .commandName | some .concatenation => child.namedChildren
  | _ => [child]

/-- Whether the shell takes a backslash out of a part. -/
def Escaping (part : Node) : Prop :=
  match part.kind? with
  | some .word | some .number => '\\' ∈ part.text
  | some .string => Escapes part.text.tail.dropLast
  | _ => False

section Word

variable {tree : Tree} {part child : Node} {t : Text}

mutual
theorem Node.mem_nodes_of_child :
    (node : Node) → {child : Node} → {inner : Node} → inner ∈ node.nodes →
    child ∈ inner.children → child ∈ node.nodes
  | .node symbol text startByte children, child, inner, hinner, hchild => by
      rw [nodes] at hinner ⊢
      rcases mem_cons.1 hinner with rfl | hinner
      · exact mem_cons_of_mem _ (mem_nodesAll children hchild)
      · exact mem_cons_of_mem _ (mem_nodesAll_of_child children hinner hchild)

theorem Node.mem_nodesAll_of_child :
    (l : List Node) → {child : Node} → {inner : Node} → inner ∈ nodesAll l →
    child ∈ inner.children → child ∈ nodesAll l
  | [], _, _, hinner, _ => by cases hinner
  | first :: rest, child, inner, hinner, hchild => by
      rw [nodesAll] at hinner ⊢
      rcases mem_append.1 hinner with hinner | hinner
      · exact mem_append_left _ (mem_nodes_of_child first hinner hchild)
      · exact mem_append_right _ (mem_nodesAll_of_child rest hinner hchild)

theorem Node.mem_nodesAll : (l : List Node) → {child : Node} → child ∈ l → child ∈ nodesAll l
  | [], _, h => by cases h
  | first :: rest, child, h => by
      rw [nodesAll]
      rcases mem_cons.1 h with rfl | h
      · exact mem_append_left _ (by cases child; rw [nodes]; exact mem_cons_self)
      · exact mem_append_right _ (mem_nodesAll rest h)
end

theorem mem_nodes_of_namedChild {node : Node} (hnode : node ∈ tree.root.nodes)
    (hchild : child ∈ node.namedChildren) : child ∈ tree.root.nodes :=
  mem_nodes_of_child _ hnode (mem_of_mem_filter hchild)

theorem stripQuotes_quoted (quote : Char) (body : Text) :
    stripQuotes quote (quote :: body ++ [quote]) = some body := by
  simp [stripQuotes]

/-- What the shell makes of a part, whatever comes after it, and how it differs from what the
code takes for it. -/
theorem removeQuotes_part (hfaithful : Faithful tree) (hpart : part ∈ tree.root.nodes)
    (h : parsePart part = some t) :
    ∃ u, (∀ rest, removeQuotes .none (part.text ++ rest) = u ++ removeQuotes .none rest) ∧
      u.length ≤ t.length ∧ (Escaping part → u.length < t.length) ∧ (¬ Escaping part → u = t) := by
  have hbare (hkind : part.kind? = some .word ∨ part.kind? = some .number) (ht : t = part.text)
      (hescaping : Escaping part ↔ '\\' ∈ part.text) :
      ∃ u, (∀ rest, removeQuotes .none (part.text ++ rest) = u ++ removeQuotes .none rest) ∧
        u.length ≤ t.length ∧ (Escaping part → u.length < t.length) ∧
          (¬ Escaping part → u = t) := by
    have hbare := hfaithful.bare part hpart hkind
    refine ⟨removeQuotes .none part.text, hbare.removeQuotes_append, ?_⟩
    rw [hescaping, ht]
    obtain ⟨hle, hlost⟩ := hbare.length_removeQuotes
    refine ⟨hle, fun hmem => ?_, hbare.removeQuotes_eq⟩
    exact lt_of_le_of_ne hle fun heq => hlost heq hmem
  rw [parsePart] at h
  split at h
  · rename_i hkind
    exact hbare (.inl hkind) (Option.some.inj h).symm (by simp [Escaping, hkind])
  · rename_i hkind
    exact hbare (.inr hkind) (Option.some.inj h).symm (by simp [Escaping, hkind])
  · rename_i hkind
    obtain ⟨body, htext, hquoted⟩ := hfaithful.string part hpart hkind
    have ht : t = body := by
      rw [parseDoubleQuotedString, htext, stripQuotes_quoted] at h
      split at h
      · cases h
      · split at h
        · cases h
        · exact (Option.some.inj h).symm
    have hescaping : Escaping part ↔ Escapes body := by
      have hbody : ('"' :: body ++ ['"']).tail.dropLast = body := by simp
      rw [Escaping, hkind, htext, hbody]
    refine ⟨removeQuotes .double body, fun rest => ?_, ?_⟩
    · rw [htext, hquoted.removeQuotes_append]
    · rw [hescaping, ht]
      exact ⟨hquoted.length_removeQuotes.1, hquoted.length_removeQuotes.2, hquoted.removeQuotes_eq⟩
  · rename_i hkind
    obtain ⟨body, htext, hquote⟩ := hfaithful.rawString part hpart hkind
    have ht : t = body := by
      rw [parseRawString, htext, stripQuotes_quoted] at h
      split at h
      · cases h
      · exact (Option.some.inj h).symm
    have hescaping : ¬ Escaping part := by simp [Escaping, hkind]
    refine ⟨body, fun rest => ?_, ?_⟩
    · rw [htext, removeQuotes_single_append hquote]
    · rw [ht]
      exact ⟨le_rfl, fun h => absurd h hescaping, fun _ => rfl⟩
  · cases h

theorem removeQuotes_parts (hfaithful : Faithful tree) {parts : List Node}
    (hparts : ∀ part ∈ parts, part ∈ tree.root.nodes) {ts : List Text}
    (h : parts.mapM parsePart = some ts) :
    (removeQuotes .none (parts.map Node.text).flatten).length ≤ ts.flatten.length ∧
      ((∃ part ∈ parts, Escaping part) →
        (removeQuotes .none (parts.map Node.text).flatten).length < ts.flatten.length) ∧
      ((∀ part ∈ parts, ¬ Escaping part) →
        removeQuotes .none (parts.map Node.text).flatten = ts.flatten) := by
  induction parts generalizing ts with
  | nil =>
    cases h
    exact ⟨le_rfl, by simp, fun _ => rfl⟩
  | cons part parts ih =>
    rw [mapM_cons] at h
    obtain ⟨t, ht, h⟩ := Option.bind_eq_some_iff.1 h
    obtain ⟨ts', hts, h⟩ := Option.bind_eq_some_iff.1 h
    cases h
    obtain ⟨u, hu, hle, hlt, heq⟩ := removeQuotes_part hfaithful (hparts part mem_cons_self) ht
    obtain ⟨ihle, ihlt, iheq⟩ := ih (fun p hp => hparts p (mem_cons_of_mem _ hp)) hts
    rw [map_cons, flatten_cons, flatten_cons, hu, length_append, length_append]
    refine ⟨by omega, ?_, ?_⟩
    · rintro ⟨p, hp, hescaping⟩
      rcases mem_cons.1 hp with rfl | hp
      · have := hlt hescaping
        omega
      · have := ihlt ⟨p, hp, hescaping⟩
        omega
    · intro hnone
      rw [heq (hnone part mem_cons_self), iheq fun p hp => hnone p (mem_cons_of_mem _ hp)]

/-- The word the code takes is the one the shell passes just when no backslash is taken out. -/
theorem removeQuotes_word (hfaithful : Faithful tree) (hchild : child ∈ tree.root.nodes)
    (h : parsePlainWord child = some t) :
    t = removeQuotes .none child.text ↔ ∀ part ∈ argumentParts child, ¬ Escaping part := by
  -- the argument as parts whose texts are joined
  have hall (parts : List Node) (ts : List Text) (hmem : ∀ part ∈ parts, part ∈ tree.root.nodes)
      (hts : parts.mapM parsePart = some ts) (ht : t = ts.flatten)
      (htext : child.text = (parts.map text).flatten) (hparts : argumentParts child = parts) :
      t = removeQuotes .none child.text ↔ ∀ part ∈ argumentParts child, ¬ Escaping part := by
    obtain ⟨-, hlt, heq⟩ := removeQuotes_parts hfaithful hmem hts
    rw [hparts, htext, ht]
    constructor
    · intro hsame part hpart hescaping
      have := hlt ⟨part, hpart, hescaping⟩
      rw [← hsame] at this
      exact lt_irrefl _ this
    · intro hnone
      rw [heq hnone]
  have hself (hpart : parsePart child = some t) (hparts : argumentParts child = [child]) :
      t = removeQuotes .none child.text ↔ ∀ part ∈ argumentParts child, ¬ Escaping part := by
    refine hall [child] [t] (by simpa using hchild) ?_ (by simp) (by simp) hparts
    rw [mapM_cons, hpart]
    rfl
  rw [parsePlainWord] at h
  split at h
  · rename_i hkind
    obtain ⟨word, hnamed, htext⟩ := hfaithful.commandName child hchild hkind
    rw [hnamed] at h
    obtain ⟨word', hword', h⟩ := Option.bind_eq_some_iff.1 h
    cases hword'
    split at h
    · cases h
    · rename_i hword
      have hpart : parsePart word = some t := by
        rw [parsePart, not_not.1 hword]
        exact h
      refine hall [word] [t] ?_ ?_ (by simp) (by simpa using htext) ?_
      · intro part hmem
        rw [mem_singleton.1 hmem]
        exact mem_nodes_of_namedChild hchild (by simp [hnamed])
      · rw [mapM_cons, hpart]
        rfl
      · rw [argumentParts, hkind]
        exact hnamed
  · rename_i hkind
    exact hself (by rw [parsePart, hkind]; exact h) (by rw [argumentParts, hkind])
  · rename_i hkind
    exact hself (by rw [parsePart, hkind]; exact h) (by rw [argumentParts, hkind])
  · rename_i hkind
    exact hself (by rw [parsePart, hkind]; exact h) (by rw [argumentParts, hkind])
  · rename_i hkind
    exact hself (by rw [parsePart, hkind]; exact h) (by rw [argumentParts, hkind])
  · rename_i hkind
    obtain ⟨ts, hts, h⟩ := Option.bind_eq_some_iff.1 h
    dsimp only at h
    split at h
    · cases h
    · refine hall _ ts (fun part hmem => mem_nodes_of_namedChild hchild hmem) hts
        (Option.some.inj h).symm
        (hfaithful.concatenation child hchild hkind) ?_
      rw [argumentParts, hkind]
  · cases h

end Word

section Scripts

variable {tree : Tree}

theorem mapM_eq_map {α β : Type} {f : α → Option β} {g : α → β} {P : α → Prop} {l : List α}
    {r : List β} (hf : ∀ a ∈ l, ∀ b, f a = some b → (b = g a ↔ P a)) (h : l.mapM f = some r) :
    r = l.map g ↔ ∀ a ∈ l, P a := by
  induction l generalizing r with
  | nil =>
    cases h
    simp
  | cons a l ih =>
    rw [mapM_cons] at h
    obtain ⟨b, hb, h⟩ := Option.bind_eq_some_iff.1 h
    obtain ⟨bs, hbs, h⟩ := Option.bind_eq_some_iff.1 h
    cases h
    rw [map_cons, cons.injEq, hf a mem_cons_self b hb,
      ih (fun a' ha' => hf a' (mem_cons_of_mem _ ha')) hbs, forall_mem_cons]

theorem insertionSort_commandNodes (hfaithful : Faithful tree) :
    (tree.root.visited.filter (·.kind? = some .command)).insertionSort (·.startByte ≤ ·.startByte) =
      tree.commandNodes := by
  have hperm : (tree.root.visited.filter (·.kind? = some .command)).Perm tree.commandNodes :=
    tree.root.visited_perm.filter _
  refine Perm.eq_of_pairwise ?_ (pairwise_insertionSort _ _)
    (hfaithful.ordered.imp fun h => Nat.le_of_lt h) ((perm_insertionSort _ _).trans hperm)
  intro a b ha hb hab hba
  rw [mem_insertionSort, hperm.mem_iff] at ha
  -- two commands of the script start at different places
  have hne : tree.commandNodes.Pairwise fun a b => a.startByte ≠ b.startByte :=
    hfaithful.ordered.imp fun h => Nat.ne_of_lt h
  have hsymm : Std.Symm fun a b : Node => a.startByte ≠ b.startByte := ⟨fun _ _ h => h.symm⟩
  by_contra hdiffer
  exact hne.forall ha hb hdiffer (Nat.le_antisymm hab hba)

/-- The code reads the commands that the shell runs just when the shell takes no backslash out of
their words. -/
theorem judged_commands_run (hfaithful : Faithful tree) {commands : List (List Text)}
    (h : tryParseWordOnlyCommandsSequence tree = some commands) :
    commands = tree.commandNodes.map argv ↔
      ∀ command ∈ tree.commandNodes, ∀ child ∈ command.namedChildren,
        ∀ part ∈ argumentParts child, ¬ Escaping part := by
  rw [tryParseWordOnlyCommandsSequence] at h
  split at h
  · cases h
  · split at h
    · dsimp only at h
      rw [insertionSort_commandNodes hfaithful] at h
      refine mapM_eq_map (fun command hcommand words hwords => ?_) h
      have hnode : command ∈ tree.root.nodes := mem_of_mem_filter hcommand
      rw [parsePlainCommandFromNode] at hwords
      split at hwords
      · cases hwords
      · exact mapM_eq_map (fun child hchild word hword =>
          removeQuotes_word hfaithful (mem_nodes_of_namedChild hnode hchild) hword) hwords
    · cases h

/-- The tree of `ls && echo 'a b'`. -/
def quotedTree : Tree where
  root := .node (.named .program) "ls && echo 'a b'".toList 0
    [.node (.named .list) "ls && echo 'a b'".toList 0
      [.node (.named .command) "ls".toList 0
        [.node (.named .commandName) "ls".toList 0 [.node (.named .word) "ls".toList 0 []]],
      .node (.token "&&".toList) "&&".toList 3 [],
      .node (.named .command) "echo 'a b'".toList 6
        [.node (.named .commandName) "echo".toList 6 [.node (.named .word) "echo".toList 6 []],
        .node (.named .rawString) "'a b'".toList 11 []]]]
  hasError := false

theorem faithful_quotedTree : Faithful quotedTree where
  bare := by
    have hls : Bare "ls".toList := bare_of_plain (forall_iff_forall_mem.1 (by decide))
    have hecho : Bare "echo".toList := bare_of_plain (forall_iff_forall_mem.1 (by decide))
    simpa [quotedTree, nodes, nodesAll, kind?, symbol, text] using ⟨hls, hecho⟩
  string := by simp [quotedTree, nodes, nodesAll, kind?, symbol]
  rawString := by
    have hbody : ∃ body, "'a b'".toList = '\'' :: body ++ ['\''] ∧ '\'' ∉ body :=
      ⟨"a b".toList, rfl, by decide⟩
    simpa [quotedTree, nodes, nodesAll, kind?, symbol, text] using hbody
  concatenation := by simp [quotedTree, nodes, nodesAll, kind?, symbol]
  commandName := by simp [quotedTree, nodes, nodesAll, kind?, symbol, namedChildren, children, text]
  ordered := by simp [quotedTree, Tree.commandNodes, nodes, nodesAll, kind?, symbol, startByte]

theorem judged_commands_run_quoted :
    [["ls".toList], ["echo".toList, "a b".toList]] = quotedTree.commandNodes.map argv := by
  refine (judged_commands_run faithful_quotedTree (by decide +kernel)).2 ?_
  simp [quotedTree, Tree.commandNodes, nodes, nodesAll, kind?, symbol,
    namedChildren, children, argumentParts, Escaping, text]

/-- The tree of a script that is one command of bare words. -/
def bareWordsTree (words : List Text) : Tree where
  root := .node (.named .program) [] 0 [.node (.named .command) [] 0 (match words with
    | [] => []
    | name :: arguments =>
      .node (.named .commandName) name 0 [.node (.named .word) name 0 []] ::
        arguments.map fun argument => .node (.named .word) argument 0 [])]
  hasError := false

theorem bareWordsTree_nodesAll (words : List Text) :
    Node.nodesAll (words.map fun word => .node (.named .word) word 0 []) =
      words.map fun word => .node (.named .word) word 0 [] := by
  induction words with
  | nil => rfl
  | cons word rest ih => simp [nodesAll, nodes, ih]

theorem faithful_bareWordsTree {words : List Text} (hwords : ∀ word ∈ words, Bare word) :
    Faithful (bareWordsTree words) := by
  have hnodes : ∀ node ∈ (bareWordsTree words).root.nodes,
      node.kind? = some .program ∨ node.kind? = some .command ∨
      (∃ word, node.kind? = some .commandName ∧ node.namedChildren = [word] ∧
        node.text = word.text) ∨
      (node.kind? = some .word ∧ Bare node.text) := by
    intro node hnode
    cases words with
    | nil =>
      simp only [bareWordsTree, nodes, nodesAll, append_nil, mem_cons,
        not_mem_nil, or_false] at hnode
      rcases hnode with rfl | rfl
      · exact .inl rfl
      · exact .inr (.inl rfl)
    | cons name arguments =>
      simp only [bareWordsTree, nodes, nodesAll, append_nil, mem_cons,
        cons_append, nil_append, bareWordsTree_nodesAll, mem_map] at hnode
      rcases hnode with rfl | rfl | rfl | rfl | ⟨argument, hargument, rfl⟩
      · exact .inl rfl
      · exact .inr (.inl rfl)
      · exact .inr (.inr (.inl ⟨_, rfl, rfl, rfl⟩))
      · exact .inr (.inr (.inr ⟨rfl, hwords name mem_cons_self⟩))
      · exact .inr (.inr (.inr ⟨rfl, hwords argument (mem_cons_of_mem _ hargument)⟩))
  refine ⟨?_, ?_, ?_, ?_, ?_, ?_⟩
  · intro node hnode hkind
    rcases hnodes node hnode with h | h | ⟨_, h, -⟩ | ⟨-, hbare⟩
    · simp [h] at hkind
    · simp [h] at hkind
    · simp [h] at hkind
    · exact hbare
  · intro node hnode hkind
    rcases hnodes node hnode with h | h | ⟨_, h, -⟩ | ⟨h, -⟩ <;> simp [h] at hkind
  · intro node hnode hkind
    rcases hnodes node hnode with h | h | ⟨_, h, -⟩ | ⟨h, -⟩ <;> simp [h] at hkind
  · intro node hnode hkind
    rcases hnodes node hnode with h | h | ⟨_, h, -⟩ | ⟨h, -⟩ <;> simp [h] at hkind
  · intro node hnode hkind
    rcases hnodes node hnode with h | h | ⟨word, -, h⟩ | ⟨h, -⟩
    · simp [h] at hkind
    · simp [h] at hkind
    · exact ⟨word, h⟩
    · simp [h] at hkind
  · cases words with
    | nil => simp [Tree.commandNodes, bareWordsTree, nodes, nodesAll, kind?, symbol]
    | cons name arguments =>
      simp [Tree.commandNodes, bareWordsTree, nodes, nodesAll, bareWordsTree_nodesAll, kind?,
        symbol, filter_map, Function.comp_def]

/-- An option behind a backslash is judged with the backslash and passed without it. -/
theorem escaped_option_misread :
    Faithful (bareWordsTree ["find".toList, ".".toList, "\\-delete".toList]) ∧
    tryParseWordOnlyCommandsSequence
      (bareWordsTree ["find".toList, ".".toList, "\\-delete".toList]) =
      some [["find".toList, ".".toList, "\\-delete".toList]] ∧
    (bareWordsTree ["find".toList, ".".toList, "\\-delete".toList]).commandNodes.map argv =
      [["find".toList, ".".toList, "-delete".toList]] := by
  refine ⟨faithful_bareWordsTree ?_, by decide +kernel, by decide +kernel⟩
  have hoption : Bare "\\-delete".toList :=
    .escaped '-' (bare_of_plain (forall_iff_forall_mem.1 (by decide)))
  simp only [forall_mem_cons]
  exact ⟨bare_of_plain (forall_iff_forall_mem.1 (by decide)),
    bare_of_plain (forall_iff_forall_mem.1 (by decide)), hoption, by simp⟩

end Scripts

end OmniDoer.Bash
