import DocMarkup.Proofs.Render.Hazards
import DocMarkup.Proofs.Render.Origin

/-!
# Renderings are safe but for their links

With overrides that only name tags, nothing in the rendering of a tree handles an event, and the
only addresses in it whose scheme is unsafe are those that links, images and addresses in the text
hand to their own elements. It does not matter what attributes there are, on nodes, on references
or in raw HTML, or where in the tree they are: no attribute adds such a property.

## Main definitions

* `Node.Address` : the address that a node hands to its element itself.
* `Render.SafeElement` : an element with no other hazard than an address of that kind.

## Main results

* `Render.render_safe` : the rendering of a tree has safe elements only.
-/

namespace DocMarkup

open Html (AllElements)
open Props (AddsNoHazard Harmless IsHazard)

/-- The property that holds the target of a link or an image. -/
def LinkKind.addressName : LinkKind → String
  | link => "href"
  | image => "src"

/-- The address that a node hands to its element itself, with the name of the property: the
destination of a link or an image, that of the reference it names if it has none of its own, or
the text of an address. -/
inductive Node.Address (links : Links) : Node → String → String → Prop where
  | destination (k : LinkKind) (target : String) (reference : Option String) (kids : List Node)
      (attrs : Attributes) :
      Address links (.link k (some target) reference kids attrs) k.addressName target
  | reference (k : LinkKind) (label : String) (kids : List Node) (attrs : Attributes)
      (r : Reference) (hr : links.lookup? label = some r) :
      Address links (.link k none (some label) kids attrs) k.addressName r.destination
  | url (text : String) (attrs : Attributes) : Address links (.literal .url text attrs) "href" text

namespace Render

/-- A property of an element is the address of a node that is rendered for the tree, and the
element is the output of that node. What is inside the element may differ: the link back to the
text may have come in. -/
def OwnAddress (ov : Overrides) (root : Node) (tag : String) (key : Option String) (props : Props)
    (name value : String) : Prop :=
  ∃ links tight n, Visits ov root links tight n ∧ n.Address links name value ∧
    ∃ σ rendered kids,
      output ⟨ov, links⟩ key tight σ rendered n = some (.element tag key props kids)

/-- An element of the rendering of a tree that handles no event, and in which an address with an
unsafe scheme is one that a node handed to its own element. -/
structure SafeElement (ov : Overrides) (root : Node) (tag : String) (key : Option String)
    (props : Props) : Prop where
  no_handler : ∀ e ∈ props.entries, ¬ Hazard.StartsWithOn e.1
  own_address : ∀ e ∈ props.entries, ∀ v, e.2 = .text v → Hazard.isUnsafeUrl e.1 v = true →
    OwnAddress ov root tag key props e.1 v

/-- All elements in outputs are safe. -/
abbrev AllSafe (ov : Overrides) (root : Node) (hs : List Html) : Prop :=
  AllElements (fun tag key props _ => SafeElement ov root tag key props) hs

end Render

/-! ### Addresses -/

theorem Node.Address.not_startsWithOn {links : Links} {n : Node} {name value : String}
    (h : n.Address links name value) : ¬ Hazard.StartsWithOn name := by
  cases h with
  | destination k => cases k <;> decide
  | reference k => cases k <;> decide
  | url => decide

/-- The target of a link is its address. -/
theorem Node.address_of_target? {links : Links} {destination reference : Option String}
    {target : String} (h : links.target? destination reference = some target) (k : LinkKind)
    (kids : List Node) (attrs : Attributes) :
    (Node.link k destination reference kids attrs).Address links k.addressName target := by
  cases destination with
  | some d =>
    obtain rfl : d = target := Option.some.inj h
    exact .destination k d reference kids attrs
  | none =>
    rw [Links.target?, Option.none_or] at h
    obtain ⟨r, hr, rfl⟩ := Option.map_eq_some_iff.1 h
    obtain ⟨label, rfl, hlookup⟩ := Option.bind_eq_some_iff.1 hr
    exact .reference k label kids attrs r hlookup

namespace Render

variable {ov : Overrides} {root : Node} {links : Links} {tight : Option Bool} {n : Node}
  {key : Option String} {tag : String} {props own : Props} {kids : List Html}

/-! ### Safe elements -/

theorem SafeElement.of_harmless (h : Harmless props) : SafeElement ov root tag key props where
  no_handler := fun e he hon => absurd (h e he (Or.inl hon)) List.not_mem_nil
  own_address := fun e he v hv hurl =>
    absurd (h e he (Or.inr ⟨v, hv, hurl⟩)) List.not_mem_nil

/-- An element is safe if it is the output of a node, and the hazards that the node's kind sets are
addresses of the node. -/
theorem SafeElement.of_address (hn : Visits ov root links tight n)
    (hown : ∀ e ∈ own.entries, IsHazard e → ∃ v, e.2 = .text v ∧ n.Address links e.1 v)
    {σ : Numbering} {rendered : List (Option Html)}
    (hout : output ⟨ov, links⟩ key tight σ rendered n =
      some (.element tag key (n.props own) kids)) :
    SafeElement ov root tag key (n.props own) where
  no_handler := fun e he hon => by
    obtain ⟨v, -, haddr⟩ := hown e (n.addsNoHazard_props own e he (Or.inl hon)) (Or.inl hon)
    exact haddr.not_startsWithOn hon
  own_address := fun e he v hv hurl => by
    have hh : IsHazard e := Or.inr ⟨v, hv, hurl⟩
    obtain ⟨w, hw, haddr⟩ := hown e (n.addsNoHazard_props own e he hh) hh
    obtain rfl : v = w := PropValue.text.inj (hv.symm.trans hw)
    exact ⟨links, tight, n, hn, haddr, σ, rendered, kids, hout⟩

/-! ### What the kinds set themselves -/

theorem harmless_made (h : Made props) : Harmless props := by
  cases h with
  | empty => exact Props.harmless_empty
  | checkbox state => exact Props.harmless_checkbox state
  | language lang => exact Props.harmless_languageClass lang
  | backlink target => exact Props.harmless_backlink target
  | endnotes => exact Props.harmless_single_of_name (by decide) (by decide) _

/-- A property of a link that its kind sets is no hazard but the target, which is its address. -/
theorem address_of_mem_link {k : LinkKind} {destination reference : Option String}
    {kids : List Node} {attrs : Attributes} {p : Props} (hp : Harmless p)
    {e : String × PropValue}
    (he : e ∈ (Single.optional p k.addressName (links.target? destination reference)).entries)
    (hh : IsHazard e) :
    ∃ v, e.2 = .text v ∧
      (Node.link k destination reference kids attrs).Address links e.1 v := by
  rcases Props.mem_entries_optional he with ⟨v, hv, rfl⟩ | hold
  · exact ⟨v, rfl, Node.address_of_target? hv k kids attrs⟩
  · exact absurd (hp e hold hh) List.not_mem_nil

/-- The hazards that the kind of a node sets are addresses of the node. -/
theorem address_of_mem_kindProps {σ : Numbering} {e : String × PropValue}
    (he : e ∈ (n.kindProps links σ).entries) (hh : IsHazard e) :
    ∃ v, e.2 = .text v ∧ n.Address links e.1 v := by
  have hnone {p : Props} (hp : Harmless p) (he : e ∈ p.entries) :
      ∃ v, e.2 = .text v ∧ n.Address links e.1 v := absurd (hp e he hh) List.not_mem_nil
  cases n with
  | cell head align => exact hnone (Props.harmless_alignment align) he
  | footnoteReference label => exact hnone (Props.harmless_reference _ _) he
  | literal k text attrs =>
    cases k with
    | str | code | verbatim => exact hnone Props.harmless_empty he
    | inlineMath | displayMath =>
      exact hnone (Props.harmless_single_of_name (by decide) (by decide) _) he
    | email => exact hnone (Props.harmless_single (Hazard.passes_mailto text)) he
    | url =>
      rcases OrderedMap.mem_entries_insert he with rfl | he
      · exact ⟨text, rfl, .url text attrs⟩
      · exact absurd he List.not_mem_nil
  | link k =>
    cases k with
    | link => exact address_of_mem_link (k := .link) Props.harmless_empty he hh
    | image =>
      have halt (alt : Option String) : Harmless (Single.optional ∅ "alt" alt) :=
        Props.harmless_empty.optional fun s _ =>
          Hazard.passes_of_isUrlAttribute (by decide) (by decide)
      exact address_of_mem_link (k := .image) (halt _) he hh
  | list k =>
    cases k with
    | bullet => exact hnone Props.harmless_empty he
    | task => exact hnone (Props.harmless_single_of_name (by decide) (by decide) _) he
  | orderedList isTight style start =>
    have htype : Harmless (Single.optional (Single.startNumber start) "type"
        (numberType? style)) :=
      (Props.harmless_startNumber start).optional fun s _ =>
        Hazard.passes_of_isUrlAttribute (by decide) (by decide)
    exact hnone htype he
  | _ => exact hnone Props.harmless_empty he

/-- The attributes of the reference that a link takes its target from come over the properties that
its kind sets, and add no hazard to them. -/
theorem address_of_mem_ownProps {σ : Numbering} {e : String × PropValue}
    (he : e ∈ (n.ownProps links σ).entries) (hh : IsHazard e) :
    ∃ v, e.2 = .text v ∧ n.Address links e.1 v :=
  address_of_mem_kindProps (AddsNoHazard.refl.withSource (n.source? links) e he hh) hh

/-- **An element is safe wherever its properties come from.** -/
theorem SafeElement.of_origin (h : Origin ov root tag key props) :
    SafeElement ov root tag key props := by
  cases h with
  | made h => exact .of_harmless (harmless_made h)
  | raw => exact .of_harmless (RawHtml.harmless_sanitizeAttributes _)
  | node hn hout => exact .of_address hn (fun _ => address_of_mem_ownProps) hout
  | document => exact .of_harmless (Node.addsNoHazard_props _ ∅)
  | note =>
    exact .of_harmless ((Props.harmless_single_of_name (by decide) (by decide) _).trans
      (Node.addsNoHazard_props _ _))

/-- **The rendering of a node is safe** wherever in the tree the node is. -/
theorem allSafe_node (hov : ov.onlyTags = true) (n : Node) (hn : Visits ov root links tight n)
    (key : Option String) (σ : Numbering) :
    AllSafe ov root (node ⟨ov, links⟩ key tight n σ).1.toList := fun tag key props kids hm =>
  .of_origin (allOrigin_node hov n hn _ σ tag key props kids hm)

/-- **Renderings are safe but for their links.** With overrides that only name tags, no element in
the rendering of a tree handles an event, and an address in it with an unsafe scheme is one that a
link, an image or an address in the text handed to its own element. No attributes, of a node or of
a reference, add a property of either kind to those that are there, and what raw HTML makes of
attributes has none. -/
theorem render_safe (ov : Overrides) (hov : ov.onlyTags = true) (n : Node) :
    AllElements (fun tag key props _ => SafeElement ov n tag key props) (n.render ov).toList ∧
      (∀ (own : Props) (attrs : Attributes), AddsNoHazard own (own.withAttributes attrs)) ∧
        ∀ attrs, Harmless (RawHtml.sanitizeAttributes attrs) :=
  ⟨allSafe_node hov n .root none {}, fun _ attrs => AddsNoHazard.refl.withAttributes attrs,
    RawHtml.harmless_sanitizeAttributes⟩

/-- Attributes that would run a script. -/
def hostileAttributes : Attributes :=
  .ofList [("HREF", "data:b"), ("href", "Data:b"), ("onclick", "c()"), ("src", "vbscript:d")]

/-- A document whose attributes, references, footnotes and raw HTML all try to run a script, and
whose links do. -/
def hostile : Node :=
  .doc
    [.container .para
      [.link .link (some "javascript:a") none [] hostileAttributes,
        .link .image none (some "r") [] hostileAttributes,
        .literal .url "data:u" hostileAttributes,
        .footnoteReference "f" hostileAttributes]
      hostileAttributes hostileAttributes,
    .raw .inline "html" "<b ONCLICK=c() Href=data:b>t</b>" hostileAttributes]
    hostileAttributes (.ofList [("r", ⟨"r", " Java\tScript:r", hostileAttributes⟩)]) ∅
    [("f", ⟨"f", [.link .link (some "vbscript:n") none [] hostileAttributes],
      hostileAttributes⟩)]

/-- Overrides that name tags for two kinds. -/
def mainTags : Overrides := .ofList [(.container .para, .tag "div"), (.doc, .tag "main")]

theorem render_safe_hostile :
    let output := (hostile.render mainTags).toList
    let found (name : String) := (Html.subtreesAll output).filterMap (Html.property? name)
    mainTags.onlyTags = true ∧
      found "href" = ["javascript:a", "data:u", "#fn1", "vbscript:n", "#fnref1"] ∧
      found "src" = [" Java\tScript:r"] ∧ found "onclick" = [] ∧
      AllElements (fun tag key props _ => SafeElement mainTags hostile tag key props) output :=
  ⟨by decide, by decide +kernel, by decide +kernel, by decide +kernel,
    (render_safe mainTags (by decide) hostile).1⟩

end Render

end DocMarkup
