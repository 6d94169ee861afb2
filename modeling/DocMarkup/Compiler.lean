import DocMarkup.Cache
import DocMarkup.Render.Document
import DocMarkup.Text.Blank
import DocMarkup.Tree.Decode

/-!
# Compiling and rendering texts

A compiler decodes the text of a document into its tree and keeps the most recently used trees, by
text. Texts that are no document are not kept, and a blank text renders to nothing without being
compiled.

## Main definitions

* `Compiler` : the trees that are kept.
* `Compiler.compile` : the tree of a text.
* `Compiler.render` : the output tree of a text.
-/

namespace DocMarkup

/-- The trees of the most recently used texts. -/
structure Compiler where
  cache : Cache String Node

/-- The tree of a text. -/
structure Compiled where
  tree : Node
  /-- Whether the tree was kept from before. -/
  reused : Bool

namespace Compiler

/-- A compiler that keeps a number of trees at most. -/
def empty (capacity : Nat) : Compiler := ⟨Cache.empty capacity⟩

/-- The tree of a text, decoded only if it is not kept. -/
def compile (c : Compiler) (source : String) : Except DecodeError Compiled × Compiler :=
  match c.cache.get source with
  | (some tree, cache) => (.ok ⟨tree, true⟩, ⟨cache⟩)
  | (none, _) =>
    match Node.ofText source with
    | .ok tree => (.ok ⟨tree, false⟩, ⟨(c.cache.put source tree).2⟩)
    | .error e => (.error e, c)

/-- The output tree of a text, if it renders to anything. -/
def render (c : Compiler) (ov : Overrides) (source : String) :
    Except DecodeError (Option Html) × Compiler :=
  if Text.allBlank source.toList then (.ok none, c)
  else match c.compile source with
    | (.ok t, c) => (.ok (t.tree.render ov), c)
    | (.error e, c) => (.error e, c)

/-- Drops every tree. -/
def clear (c : Compiler) : Compiler := ⟨c.cache.clear⟩

end Compiler

end DocMarkup
