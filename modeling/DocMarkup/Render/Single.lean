import DocMarkup.Footnote.Numbering
import DocMarkup.Override
import DocMarkup.RawHtml.Sanitize
import DocMarkup.Render.Attributes
import DocMarkup.Render.Glyph
import DocMarkup.Render.Links
import DocMarkup.Render.ListItem

/-!
# The output of single nodes

The output of a node once its children are rendered, for the kinds that do not touch the numbering
of footnotes. Each kind has an element or a group of its own that an override for the kind
replaces; kinds that are shown as bare text have no element unless an override gives one.

## Main definitions

* `Single.request` : what is known about a node.
* `Single.container`, `Single.literal`, `Single.raw`, … : the output by group of kinds.
-/

namespace DocMarkup

/-- The tag of a container, if it is rendered as an element. -/
def ContainerKind.tag? : ContainerKind → Option String
  | sectionGroup | definitionListItem | doubleQuoted | singleQuoted => none
  | div => some "div"
  | para => some "p"
  | emph => some "em"
  | strong => some "strong"
  | mark | highlighted => some "mark"
  | superscript | supe => some "sup"
  | subscript => some "sub"
  | insert => some "ins"
  | delete => some "del"
  | span => some "span"
  | table => some "table"
  | caption => some "caption"
  | listItem => some "li"
  | definitionList => some "dl"
  | term => some "dt"
  | definition => some "dd"
  | blockquote | blockQuote => some "blockquote"

namespace Single

/-- What is known about a node, with the properties and inputs that its kind sets. -/
def request (kind : Kind) (n : Node) (key : Option String) (own : Props) (inputs : Inputs)
    (children : List Html) : Request :=
  ⟨kind, n, key, n.props own, inputs, children⟩

/-- One property. -/
def single (name value : String) : Props := OrderedMap.empty.insert name (.text value)

/-- The output of a node that is an element by default. -/
def element (ov : Overrides) (tag : String) (r : Request) : Html :=
  ov.build (Request.element tag) r

/-- The output of a node that is a group by default. -/
def group (ov : Overrides) (r : Request) : Html := ov.build Request.fragment r

/-- The output of a node that is a bare text by default. -/
def bareText (ov : Overrides) (kind : Kind) (n : Node) (key : Option String) (text : String)
    (inputs : Inputs) : Html :=
  ov.build (fun _ => .text text) (request kind n key ∅ inputs [.text text])

/-- Quoted content between its marks, any other content as it is. -/
def marked (k : ContainerKind) (children : List Html) : List Html :=
  match Glyph.quotes? k with
  | some (before, after) => .text before :: children ++ [.text after]
  | none => children

/-- The output of a container. A caption without content is nothing unless an override serves
it. -/
def container (ov : Overrides) (k : ContainerKind) (n : Node) (key : Option String)
    (children : List Html) : Option Html :=
  let r := request (.container k) n key ∅ {} (marked k children)
  if k = .caption && children.isEmpty && (ov.pick (.container k)).isNone then none
  else match k.tag? with
    | some tag => some (element ov tag r)
    | none => some (group ov r)

/-- The level that a heading is rendered with: from 1 to 6. -/
def headingLevel (level : UInt32) : Nat := max 1 (min 6 level.toNat)

/-- The output of a heading. -/
def heading (ov : Overrides) (n : Node) (key : Option String) (level : UInt32)
    (children : List Html) : Html :=
  element ov ("h" ++ Decimal.text (headingLevel level))
    (request .heading n key ∅ { level := some (headingLevel level) } children)

/-- The output of a table row. -/
def row (ov : Overrides) (n : Node) (key : Option String) (head : Bool)
    (children : List Html) : Html :=
  element ov "tr" (request .row n key ∅ { head := some head } children)

/-- The properties that the alignment of a cell sets. -/
def alignment (align : Alignment) : Props :=
  match align.css? with
  | some value =>
    let style : Style := OrderedMap.empty.insert "textAlign" value
    OrderedMap.empty.insert "style" (.style style)
  | none => ∅

/-- The output of a table cell. -/
def cell (ov : Overrides) (n : Node) (key : Option String) (head : Bool) (align : Alignment)
    (children : List Html) : Html :=
  element ov (if head then "th" else "td")
    (request .cell n key (alignment align) { align := some align, head := some head } children)

/-- The output of a link to an address that is its own text. -/
def autolink (ov : Overrides) (kind : Kind) (n : Node) (key : Option String)
    (text href : String) : Html :=
  element ov "a" (request kind n key (single "href" href)
    { href := some href, value := some text } [.text text])

/-- The output of mathematics, between the delimiters of its class. -/
def math (ov : Overrides) (kind : Kind) (n : Node) (key : Option String)
    (classes before text after : String) : Html :=
  element ov "span" (request kind n key (single "className" classes)
    { value := some text } [.text (before ++ text ++ after)])

/-- The output of a literal. -/
def literal (ov : Overrides) (k : LiteralKind) (n : Node) (key : Option String)
    (text : String) : Html :=
  match k with
  | .str => bareText ov (.literal .str) n key text { value := some text }
  | .code | .verbatim =>
    element ov "code" (request (.literal k) n key ∅ { value := some text } [.text text])
  | .inlineMath => math ov (.literal k) n key "math inline" "\\(" text "\\)"
  | .displayMath => math ov (.literal k) n key "math display" "\\[" text "\\]"
  | .url => autolink ov (.literal k) n key text text
  | .email => autolink ov (.literal k) n key text ("mailto:" ++ text)

/-- The output of smart punctuation. -/
def smartPunctuation (ov : Overrides) (n : Node) (key : Option String) (type text : String) :
    Html :=
  let glyph := Glyph.ofType type text
  bareText ov .smartPunctuation n key glyph { type := some type, value := some glyph }

/-- The output of a symbol. -/
def symb (ov : Overrides) (n : Node) (key : Option String) (name : String) : Html :=
  let text := ":" ++ name ++ ":"
  bareText ov .symb n key text { symbol := some name, value := some text }

/-- The output of a leaf. -/
def leaf (ov : Overrides) (k : LeafKind) (n : Node) (key : Option String) : Html :=
  match k with
  | .thematicBreak => element ov "hr" (request (.leaf k) n key ∅ {} [])
  | .hardBreak | .hardbreak => element ov "br" (request (.leaf k) n key ∅ {} [])
  | .softBreak | .softbreak => bareText ov (.leaf k) n key "\n" {}
  | .nonBreakingSpace =>
    bareText ov (.leaf k) n key Glyph.noBreakSpace { value := some Glyph.noBreakSpace }

/-- The class that names the language of code. -/
def languageClass (lang : Option String) : Props :=
  match lang with
  | some l => if l.isEmpty then ∅ else single "className" ("language-" ++ l)
  | none => ∅

/-- The output of a code block. -/
def codeBlock (ov : Overrides) (n : Node) (key : Option String) (lang : Option String)
    (text : String) : Html :=
  element ov "pre" (request .codeBlock n key ∅ { language := lang, value := some text }
    [.element "code" none (languageClass lang) [.text text]])

/-- The key that elements of raw HTML are numbered below. -/
def rawKey (k : RawKind) (key : Option String) : String :=
  (match k with
    | .block => "raw-block-"
    | .inline => "raw-inline-") ++ key.getD "node"

/-- The output of raw content. Content in HTML is sanitized; content in another format is nothing
unless an override serves it, and a text to that. -/
def raw (ov : Overrides) (k : RawKind) (n : Node) (key : Option String) (format text : String) :
    Option Html :=
  if format ≠ "html" && (ov.pick (.raw k)).isNone then none
  else
    let children :=
      if format = "html" then RawHtml.sanitize text (rawKey k key) else [.text text]
    some (group ov (request (.raw k) n key ∅ { format := some format, value := some text }
      children))

/-- A property that is set only where there is a value. -/
def optional (p : Props) (name : String) (value : Option String) : Props :=
  match value with
  | some v => p.insert name (.text v)
  | none => p

/-- Properties with the attributes of the reference that a link takes its target from. -/
def withSource (p : Props) (source : Option Reference) : Props :=
  match source with
  | some r => p.withAttributes r.attributes
  | none => p

/-- The output of a link. -/
def link (ov : Overrides) (links : Links) (n : Node) (key : Option String)
    (destination reference : Option String) (children : List Html) : Html :=
  let href := links.target? destination reference
  element ov "a" (request (.link .link) n key
    (withSource (optional ∅ "href" href) (links.source? destination reference))
    { href := href } children)

/-- The output of an image, whose content becomes its alternative text. -/
def image (ov : Overrides) (links : Links) (n : Node) (key : Option String)
    (destination reference : Option String) (content : List Node) : Html :=
  let src := links.target? destination reference
  let text := Node.plainText content
  let alt := if text.isEmpty then none else some text
  element ov "img" (request (.link .image) n key
    (withSource (optional (optional ∅ "alt" alt) "src" src) (links.source? destination reference))
    { alt := alt, href := src } [])

/-- The output of a list without numbers. -/
def list (ov : Overrides) (k : ListKind) (n : Node) (key : Option String) (tight : Bool)
    (children : List Html) : Html :=
  let own := match k with
    | .bullet => ∅
    | .task => single "className" "task-list"
  element ov "ul" (request (.list k) n key own { tight := some tight } children)

/-- The properties that the first number of an ordered list sets. -/
def startNumber (start : Option UInt64) : Props :=
  match start with
  | some s => if s = 1 then ∅ else OrderedMap.empty.insert "start" (.number s)
  | none => ∅

/-- The output of an ordered list. -/
def orderedList (ov : Overrides) (n : Node) (key : Option String) (tight : Bool)
    (style : Option String) (start : Option UInt64) (children : List Html) : Html :=
  element ov "ol" (request .orderedList n key
    (optional (startNumber start) "type" (numberType? style))
    { tight := some tight, start := start } children)

/-- The output of a list item, with its box in front if it is a task and no component builds it. -/
def item (ov : Overrides) (kind : Kind) (n : Node) (key : Option String) (tight : Option Bool)
    (checkbox : Option Checkbox) (content : List Html) : Html :=
  let box := if ov.hasComponent kind then [] else (checkbox.map Html.checkbox).toList
  element ov "li" (request kind n key ∅ { checkbox := checkbox, tight := tight } (box ++ content))

/-- The output of a reference to a footnote. -/
def footnoteReference (ov : Overrides) (n : Node) (key : Option String) (label : String)
    (a : Anchor) : Html :=
  let own := ((single "href" a.href).insert "id" (.text a.id)).insert "role"
    (.text "doc-noteref")
  element ov "a" (request .footnoteReference n key own
    { index := some a.index, label := some label }
    [.element "sup" none ∅ [.text (Decimal.text a.index)]])

/-- The output of a footnote. -/
def footnote (ov : Overrides) (note : Footnote) (key : Option String) (own : Props) (index : Nat)
    (label : String) (content : List Html) : Html :=
  element ov "li" (request .footnote (.footnote note) key own
    { index := some index, label := some label } content)

end Single

end DocMarkup
