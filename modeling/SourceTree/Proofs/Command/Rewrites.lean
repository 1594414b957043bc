import SourceTree.Command.Run
import SourceTree.Proofs.Pipeline.Order
import SourceTree.Proofs.Usings.Renamed

/-!
What the options of the command line do to a tree. The passes run in the order in which they
are added. All token renamings act at once; the method renamings act one after another on the
result; using directives are put in order last. None of the renamings can fail, and the pass for
using directives does not where all usings are directives or few.
-/
namespace SourceTree

variable {σ : Type}

namespace Command

/-! ### The new texts -/

/-- All renamings at once: the last one for a text counts. -/
def renamedAtOnce (renamings : List Renaming) (text : String) : String :=
  match (renamings.filter fun pair => pair.old = text).getLast? with
  | some pair => pair.new
  | none => text

/-- One renaming after another. -/
def renamedInTurn (renamings : List Renaming) (text : String) : String :=
  renamings.foldl (fun text pair => if text = pair.old then pair.new else text) text

namespace Options

/-- Identifiers are renamed, wherever they stand. -/
def spell (renamings : List Renaming) (kind : TokenKind) (text : String) : String :=
  if kind = .identifier then renamedAtOnce renamings text else text

/-- The names of methods are renamed. -/
def respellMethods (renamings : List Renaming) : Respelling := fun parent field _ text =>
  if parent = .methodDeclaration ∧ field = "identifier" then renamedInTurn renamings text else text

/-- The text that a token ends up with. -/
def respelling (options : Options) : Respelling := fun parent field kind text =>
  respellMethods options.methodRenamings parent field kind (spell options.tokenRenamings kind text)

section Passes

variable (sorter : Usings.Sorter) (options : Options)

def tokenPasses : List (Pass σ) :=
  if options.tokenRenamings.isEmpty then []
  else [{ id := "rename-tokens", traversal := tokenRenamer (renamed? options.tokenRenamings) }]

def methodPasses (index : Nat) (previous : List String) : List Renaming → List (Pass σ)
  | [] => []
  | pair :: rest =>
    let id := methodPassId index pair.old
    let traversal := methodRenamer (fun method => method.isNamed pair.old) pair.new
    { id, dependencies := previous, traversal } :: methodPasses (index + 1) [id] rest

def usingPasses : List (Pass σ) :=
  if options.normalizeUsings then
    [{ id := "normalize-usings", traversal := usingNormalizerBy sorter }]
  else []

/-- All passes of the options. -/
def passes : List (Pass σ) :=
  options.tokenPasses ++ methodPasses 0 [] options.methodRenamings ++ options.usingPasses sorter

end Passes

/-- What the renamings make of a tree: new texts, and usings that can be sorted if they could be
before. -/
structure Renamed (respelling : Respelling) (before after : Node) : Prop where
  respells : Respells respelling before after
  sortable : before.everyUsings Usings.isSortable = true →
    after.everyUsings Usings.isSortable = true

theorem Renamed.trans {first second : Respelling} {a b c : Node} (hab : Renamed first a b)
    (hbc : Renamed second b c) :
    Renamed (fun parent field kind text => second parent field kind (first parent field kind text))
      a c :=
  ⟨hab.respells.trans hbc.respells, hbc.sortable ∘ hab.sortable⟩

theorem Renamed.congr {first second : Respelling} {before after : Node}
    (h : Renamed first before after)
    (heq : ∀ parent field kind text,
      first parent field kind text = second parent field kind text) :
    Renamed second before after :=
  ⟨h.respells.congr heq, h.sortable⟩

theorem Renamed.refl (tree : Node) : Renamed (fun _ _ _ text => text) tree tree :=
  ⟨.refl tree, id⟩

end Options

example : ["A", "B", "C"].map (renamedAtOnce [⟨"A", "B"⟩, ⟨"B", "A"⟩]) = ["B", "A", "C"] := by
  decide

example : ["A", "B"].map (renamedInTurn [⟨"A", "B"⟩, ⟨"B", "C"⟩]) = ["C", "C"] := by decide

example : renamedInTurn [⟨"A", "B"⟩, ⟨"A", "C"⟩] "A" = "B" := by decide

end Command

end SourceTree
