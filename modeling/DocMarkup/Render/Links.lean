import DocMarkup.Tree.Node

/-!
# Targets of links

Links and images give their target themselves or name a reference of the document. References
that the author wrote come before those that were derived from headings.

## Main definitions

* `Links` : the references of a document.
* `Links.lookup?`, `Links.target?` : the reference of a label, the target of a link.
-/

namespace DocMarkup

/-- The references of a document. -/
structure Links where
  /-- Those that the author wrote. -/
  written : References := ∅
  /-- Those that were derived from headings. -/
  derived : References := ∅

namespace Links

/-- The reference of a label. -/
def lookup? (l : Links) (label : String) : Option Reference :=
  (l.written.get? label).or (l.derived.get? label)

/-- The reference that a link takes its target from: one that it names, and only if it gives no
target itself. -/
def source? (l : Links) (destination reference : Option String) : Option Reference :=
  match destination with
  | some _ => none
  | none => reference.bind l.lookup?

/-- The target of a link. -/
def target? (l : Links) (destination reference : Option String) : Option String :=
  destination.or ((reference.bind l.lookup?).map Reference.destination)

end Links

end DocMarkup
