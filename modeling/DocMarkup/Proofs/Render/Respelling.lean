import DocMarkup.Proofs.Render.Interchange
import Mathlib.Logic.Relation

/-!
# Other spellings of nodes

Six pairs of kinds are two spellings of one thing. A node of such a kind has another kind in the
other spelling, so every place that looks at kinds could tell the two apart: what is rendered
inside a node, the tag that it is built with, the alternative text of an image, the parts of a
table, and the override that serves it. None does, as long as overrides only name tags and do not
give the two spellings of one thing different tags. So in all of a tree, footnotes included, any
nodes can be spelled the other way.

## Main definitions

* `Kind.otherSpelling`, `Node.otherSpelling` : the other spelling.
* `Overrides.AgreeOnSpellings` : overrides that do not tell spellings apart.
* `Node.Respells` : a tree with some of its nodes spelled the other way.

## Main results

* `Overrides.pick_otherSpelling` : the override that serves the other spelling.
* `Render.output_otherSpelling` : the output of a node.
* `Render.render_respelled` : the output of a tree.
-/

namespace DocMarkup

/-! ### Spellings -/

/-- The other spelling of a container, if it has two. -/
def ContainerKind.otherSpelling : ContainerKind → ContainerKind
  | mark => highlighted
  | highlighted => mark
  | superscript => supe
  | supe => superscript
  | blockquote => blockQuote
  | blockQuote => blockquote
  | k => k

/-- The other spelling of a literal, if it has two. -/
def LiteralKind.otherSpelling : LiteralKind → LiteralKind
  | code => verbatim
  | verbatim => code
  | k => k

/-- The other spelling of a leaf, if it has two. -/
def LeafKind.otherSpelling : LeafKind → LeafKind
  | softBreak => softbreak
  | softbreak => softBreak
  | hardBreak => hardbreak
  | hardbreak => hardBreak
  | k => k

/-- The other spelling of a kind, if it has two. -/
def Kind.otherSpelling : Kind → Kind
  | container k => container k.otherSpelling
  | literal k => literal k.otherSpelling
  | leaf k => leaf k.otherSpelling
  | k => k

/-- A kind has one spelling, or each of its two spellings borrows the override of the other. -/
theorem Kind.otherSpelling_cases (k : Kind) :
    k.otherSpelling = k ∨
      k.alias? = some k.otherSpelling ∧ k.otherSpelling.alias? = some k := by
  cases k with
  | container k => cases k <;> first | exact Or.inl rfl | exact Or.inr ⟨rfl, rfl⟩
  | literal k => cases k <;> first | exact Or.inl rfl | exact Or.inr ⟨rfl, rfl⟩
  | leaf k => cases k <;> first | exact Or.inl rfl | exact Or.inr ⟨rfl, rfl⟩
  | _ => exact Or.inl rfl

/-- Overrides that do not replace the two spellings of one thing differently. -/
def Overrides.AgreeOnSpellings (ov : Overrides) : Prop :=
  ∀ k o o', ov.get? k = some o → ov.get? k.otherSpelling = some o' → o = o'

/-- The two spellings of one thing are served by the same override. -/
theorem Overrides.pick_otherSpelling {ov : Overrides} (h : ov.AgreeOnSpellings) (k : Kind) :
    ov.pick k.otherSpelling = ov.pick k := by
  rcases k.otherSpelling_cases with hk | ⟨hk, hk'⟩
  · rw [hk]
  · have hor : (ov.get? k.otherSpelling).or (ov.get? k) =
        (ov.get? k).or (ov.get? k.otherSpelling) := by
      cases ho : ov.get? k with
      | none => rw [Option.or_none, Option.none_or]
      | some o =>
        cases ho' : ov.get? k.otherSpelling with
        | none => rfl
        | some o' => rw [h k o o' ho ho']
    rw [pick, pick, hk, hk', Option.bind_some, Option.bind_some, hor]

namespace Node

/-- The node in its other spelling, if its kind has two. -/
def otherSpelling : Node → Node
  | container k kids attrs auto => container k.otherSpelling kids attrs auto
  | literal k text attrs => literal k.otherSpelling text attrs
  | leaf k attrs => leaf k.otherSpelling attrs
  | n => n

/-- A tree with some of its nodes, one after the other, spelled the other way. -/
def Respells : Node → Node → Prop :=
  Relation.ReflTransGen (Somewhere (fun _ n n' => n' = n.otherSpelling) none)

variable (n : Node)

theorem props_otherSpelling (own : Props) : n.otherSpelling.props own = n.props own := by
  cases n <;> rfl

theorem isDoc_otherSpelling : n.otherSpelling.isDoc = n.isDoc := by
  cases n <;> rfl

theorem isParagraph_otherSpelling : n.otherSpelling.isParagraph = n.isParagraph := by
  cases n with
  | container k => cases k <;> rfl
  | _ => rfl

theorem content_otherSpelling (ov : Overrides) (tight : Option Bool) :
    n.otherSpelling.content ov tight = n.content ov tight := by
  cases n with
  | container k => cases k <;> rfl
  | _ => rfl

theorem plainChars_otherSpelling : n.otherSpelling.plainChars = n.plainChars := by
  cases n with
  | container k => cases k <;> rfl
  | leaf k => cases k <;> rfl
  | _ => rfl

end Node

/-! ### Outputs -/

variable {ov : Overrides}

/-- Requests with the same override and the same to build from are built the same, where overrides
only name tags. -/
theorem Overrides.build_eq (hov : ov.onlyTags = true) (byDefault : Request → Html)
    {r r' : Request} (hdefault : byDefault r = byDefault r')
    (hpick : ov.pick r.kind = ov.pick r'.kind) (hkey : r.key = r'.key) (hprops : r.props = r'.props)
    (hkids : r.children = r'.children) : ov.build byDefault r = ov.build byDefault r' := by
  rw [build, build, hpick]
  rcases pick_of_onlyTags hov r'.kind with h | ⟨name, h⟩
  · rw [h]
    exact hdefault
  · rw [h]
    change r.element name = r'.element name
    rw [Request.element, Request.element, hkey, hprops, hkids]

namespace Render

variable {links : Links} {key : Option String} {tight : Option Bool} {σ : Numbering}

/-- **The output of a node in its other spelling** is the same. -/
theorem output_otherSpelling (hov : ov.onlyTags = true) (hagree : ov.AgreeOnSpellings)
    (rendered : List (Option Html)) (n : Node) :
    output ⟨ov, links⟩ key tight σ rendered n.otherSpelling =
      output ⟨ov, links⟩ key tight σ rendered n := by
  have hpick := Overrides.pick_otherSpelling hagree
  have hprops := n.props_otherSpelling ∅
  have helement (kind : Kind) (inputs : Inputs) (content : List Html) (tag : String) :
      Single.element ov tag (Single.request kind.otherSpelling n.otherSpelling key ∅ inputs
        content) = Single.element ov tag (Single.request kind n key ∅ inputs content) :=
    Overrides.build_eq hov (Request.element tag) (congrArg (Html.element tag key · content) hprops)
      (hpick kind) rfl hprops rfl
  have htext (kind : Kind) (inputs : Inputs) (text : String) :
      Single.bareText ov kind.otherSpelling n.otherSpelling key text inputs =
        Single.bareText ov kind n key text inputs :=
    Overrides.build_eq hov (fun _ => .text text) rfl (hpick kind) rfl hprops rfl
  cases n with
  | container k kids attrs auto =>
    cases k with
    | mark | highlighted | superscript | supe | blockquote | blockQuote =>
      exact congrArg some (helement (.container _) _ _ _)
    | _ => rfl
  | literal k text attrs =>
    cases k with
    | code | verbatim => exact congrArg some (helement (.literal _) _ _ _)
    | _ => rfl
  | leaf k attrs =>
    cases k with
    | hardBreak | hardbreak => exact congrArg some (helement (.leaf _) _ _ _)
    | softBreak | softbreak => exact congrArg some (htext (.leaf _) _ _)
    | _ => rfl
  | _ => rfl

variable {g : Option String → Option String}

theorem interchangeable_otherSpelling (hov : ov.onlyTags = true) (hagree : ov.AgreeOnSpellings)
    (n : Node) : Interchangeable ov g tight n n.otherSpelling := by
  have houtput (tight : Option Bool) : SameOutput ov g tight n n.otherSpelling := by
    intro links key σ
    cases hn : n.isDoc with
    | true => cases n <;> first | rfl | cases hn
    | false =>
      have htightness : n.otherSpelling.tightness = n.tightness := by cases n <;> rfl
      have hlabels : n.otherSpelling.ownLabels = n.ownLabels := by cases n <;> rfl
      rw [node_run hn, node_run (n.isDoc_otherSpelling.trans hn)]
      simp only [htightness, hlabels, Node.content_otherSpelling]
      rw [output_otherSpelling hov hagree]
  refine ⟨?_, ?_, n.plainChars_otherSpelling.symm, fun t rendered => ?_, houtput tight,
    fun _ => ?_⟩
  · cases n <;> rfl
  · cases n <;> rfl
  · cases n with
    | container k => cases k <;> rfl
    | _ => rfl
  · cases hn : n.isParagraph with
    | true =>
      obtain ⟨kids, attrs, auto, rfl⟩ := Node.eq_of_isParagraph hn
      exact fun _ _ => rfl
    | false => exact (houtput none).unwrapped hn (n.isParagraph_otherSpelling.trans hn)

/-- **The spelling of nodes makes no difference to the output of a tree**, where overrides only
name tags and do not give the two spellings of one thing different ones. The outputs are the same
with their tags, keys, properties and texts. -/
theorem render_respelled (hov : ov.onlyTags = true) (hagree : ov.AgreeOnSpellings) {n n' : Node}
    (h : n.Respells n') : n.render ov = n'.render ov := by
  induction h with
  | refl => rfl
  | tail _ hstep ih =>
    have hsame := Interchangeable.of_somewhere (g := id) hov (fun tight m m' hm => by
      rw [hm]
      exact interchangeable_otherSpelling hov hagree m) hstep
    have houtput := hsame.output {} none {}
    have hid : Html.relabel id id = id := funext Html.relabel_id
    rw [hid, Option.map_id, id, id] at houtput
    exact ih.trans houtput

/-- A document with marked text, a quotation in a footnote and a break in the text of an image, in
these spellings. -/
def twiceSpelled (marked quoted : ContainerKind) (literal : LiteralKind) (leaf : LeafKind) :
    Node :=
  .doc
    [.container .para
      [.container marked [.literal .str "m" ∅] ∅ ∅,
        .link .image (some "i") none [.literal .str "a" ∅, .leaf leaf ∅] ∅,
        .footnoteReference "f" ∅] ∅ ∅]
    ∅ ∅ ∅ [("f", ⟨"f", [.container quoted [.literal literal "c" ∅] ∅ ∅], ∅⟩)]

/-- Overrides of one spelling and of both spellings. -/
def spellingTags : Overrides :=
  .ofList [(.container .highlighted, .tag "em"), (.literal .code, .tag "kbd"),
    (.literal .verbatim, .tag "kbd")]

theorem agreeOnSpellings_spellingTags : spellingTags.AgreeOnSpellings := by
  intro k o o' ho ho'
  have hmem := OrderedMap.mem_of_lookup_eq_some ho
  have hmem' := OrderedMap.mem_of_lookup_eq_some ho'
  have hentries : spellingTags.entries = [(.container .highlighted, .tag "em"),
    (.literal .code, .tag "kbd"), (.literal .verbatim, .tag "kbd")] := rfl
  rw [hentries] at hmem hmem'
  simp only [List.mem_cons, List.not_mem_nil, or_false, Prod.mk.injEq] at hmem hmem'
  obtain ⟨rfl, rfl⟩ | ⟨rfl, rfl⟩ | ⟨rfl, rfl⟩ := hmem <;>
    simp_all [Kind.otherSpelling, ContainerKind.otherSpelling, LiteralKind.otherSpelling]

theorem render_respelled_everywhere :
    spellingTags.onlyTags = true ∧ spellingTags.AgreeOnSpellings ∧
      (twiceSpelled .mark .blockquote .code .softBreak).Respells
        (twiceSpelled .highlighted .blockQuote .verbatim .softbreak) ∧
      (twiceSpelled .mark .blockquote .code .softBreak).render spellingTags =
        (twiceSpelled .highlighted .blockQuote .verbatim .softbreak).render spellingTags := by
  have hrespells : (twiceSpelled .mark .blockquote .code .softBreak).Respells
      (twiceSpelled .highlighted .blockQuote .verbatim .softbreak) := by
    refine .tail (b := twiceSpelled .highlighted .blockQuote .verbatim .softBreak) (.tail
      (b := twiceSpelled .highlighted .blockquote .verbatim .softBreak) (.tail
        (b := twiceSpelled .highlighted .blockquote .code .softBreak) (.tail .refl ?_) ?_) ?_) ?_
    · exact .child (.doc [] ∅ ∅ ∅ _) [] [] (.child (.container .para [] ∅ ∅) [] _ (.here rfl))
    · exact .body _ ∅ ∅ ∅ [] [] "f" "f" [] [] ∅
        (.child (.container .blockquote [] ∅ ∅) [] [] (.here rfl))
    · exact .body _ ∅ ∅ ∅ [] [] "f" "f" [] [] ∅ (.here rfl)
    · exact .child (.doc [] ∅ ∅ ∅ _) [] [] (.child (.container .para [] ∅ ∅) [_] _
        (.child (.link .image (some "i") none [] ∅) [_] [] (.here rfl)))
  exact ⟨rfl, agreeOnSpellings_spellingTags, hrespells,
    render_respelled rfl agreeOnSpellings_spellingTags hrespells⟩

end Render

end DocMarkup
