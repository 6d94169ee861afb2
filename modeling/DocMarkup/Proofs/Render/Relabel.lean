import DocMarkup.Proofs.Render.Origin
import DocMarkup.Proofs.Tree.Places

/-!
# Outputs with other names

Two outputs may differ in the tags of their elements or in keys and be the same otherwise. To say
so, all tags and keys are renamed alike, by renamings that forget what may differ. What a node is
built as from what is rendered inside it does not look at tags and keys, so outputs that are the
same after renaming stay so: side by side, in the parts of a table, with a link back at their end
and inside the output of a node. The markup of an output does not tell its keys.

## Main definitions

* `Html.relabel` : an output with tags and keys renamed.
* `Request.SameBut` : requests that differ in what the renamings forget at most.

## Main results

* `Html.chars_relabel` : renaming keys leaves the markup as it is.
* `Render.relabel_output` : the output of a node, from what is rendered inside it.
* `RawHtml.relabelAll_sanitize` : sanitized raw HTML but for keys.
-/

namespace DocMarkup

variable {f : String → String} {g : Option String → Option String}

namespace Html

mutual

/-- An output tree with its tags and keys renamed. -/
def relabel (f : String → String) (g : Option String → Option String) : Html → Html
  | text s => text s
  | element tag key props kids => element (f tag) (g key) props (relabelAll f g kids)
  | fragment key kids => fragment (g key) (relabelAll f g kids)

/-- Trees side by side with their tags and keys renamed. -/
def relabelAll (f : String → String) (g : Option String → Option String) : List Html → List Html
  | [] => []
  | h :: rest => h.relabel f g :: relabelAll f g rest

end

theorem relabelAll_eq_map (hs : List Html) : relabelAll f g hs = hs.map (relabel f g) := by
  induction hs with
  | nil => rfl
  | cons h hs ih => rw [relabelAll, ih, List.map_cons]

theorem relabelAll_append (hs hs' : List Html) :
    relabelAll f g (hs ++ hs') = relabelAll f g hs ++ relabelAll f g hs' := by
  simp only [relabelAll_eq_map, List.map_append]

theorem relabelAll_toList (o : Option Html) :
    relabelAll f g o.toList = (o.map (relabel f g)).toList := by
  cases o <;> rfl

theorem isEmpty_eq_of_relabelAll {hs hs' : List Html}
    (h : relabelAll f g hs = relabelAll f g hs') : hs.isEmpty = hs'.isEmpty := by
  rw [relabelAll_eq_map, relabelAll_eq_map] at h
  have hempty := congrArg List.isEmpty h
  rwa [List.isEmpty_map, List.isEmpty_map] at hempty

mutual

theorem relabel_id : (h : Html) → h.relabel id id = h
  | text _ => rfl
  | element tag key props kids => by rw [relabel, relabelAll_id kids, id, id]
  | fragment key kids => by rw [relabel, relabelAll_id kids, id]

theorem relabelAll_id : (hs : List Html) → relabelAll id id hs = hs
  | [] => rfl
  | h :: hs => by rw [relabelAll, relabel_id h, relabelAll_id hs]

end

mutual

/-- Keys are not written. -/
theorem chars_relabel : (h : Html) → (h.relabel id g).chars = h.chars
  | text _ => rfl
  | element tag key props kids => by rw [relabel, chars, chars, charsAll_relabelAll kids, id]
  | fragment key kids => by rw [relabel, chars, chars, charsAll_relabelAll kids]

theorem charsAll_relabelAll : (hs : List Html) → charsAll (relabelAll id g hs) = charsAll hs
  | [] => rfl
  | h :: hs => by rw [relabelAll, charsAll, charsAll, chars_relabel h, charsAll_relabelAll hs]

end

end Html

open Html

namespace TableParts

/-- The parts of a table with the tags and keys in them renamed. -/
def relabel (f : String → String) (g : Option String → Option String) (t : TableParts) :
    TableParts :=
  ⟨t.caption.map (Option.map (Html.relabel f g)), relabelAll f g t.head, relabelAll f g t.body,
    relabelAll f g t.other⟩

theorem relabel_push (t : TableParts) (n : Node) (rendered : Option Html) :
    (t.push n rendered).relabel f g =
      (t.relabel f g).push n (rendered.map (Html.relabel f g)) := by
  have hbody : (relabelAll f g t.body).isEmpty = t.body.isEmpty := by
    rw [relabelAll_eq_map, List.isEmpty_map]
  cases n with
  | container k =>
    cases k with
    | caption => cases h : t.caption <;> simp [push, relabel, h]
    | _ => cases rendered <;> simp [push, relabel, relabelAll_eq_map]
  | row head =>
    cases rendered with
    | none => rfl
    | some h =>
      simp only [push, Option.map_some, relabel, hbody]
      split <;> simp [relabelAll_eq_map]
  | _ => cases rendered <;> simp [push, relabel, relabelAll_eq_map]

/-- A run of children is put into parts before or after renaming. -/
theorem relabel_foldl_push (t : TableParts) (kids : List Node) (rendered : List (Option Html)) :
    ((kids.zip rendered).foldl (fun t c => t.push c.1 c.2) t).relabel f g =
      (kids.zip (rendered.map (Option.map (Html.relabel f g)))).foldl
        (fun t c => t.push c.1 c.2) (t.relabel f g) := by
  have hfold (children : List (Node × Option Html)) (t : TableParts) :
      (children.foldl (fun t c => t.push c.1 c.2) t).relabel f g =
        (children.map fun c => (c.1, c.2.map (Html.relabel f g))).foldl
          (fun t c => t.push c.1 c.2) (t.relabel f g) := by
    induction children generalizing t with
    | nil => rfl
    | cons c children ih => rw [List.foldl_cons, ih, relabel_push, List.map_cons, List.foldl_cons]
  rw [List.zip_map_right]
  exact hfold (kids.zip rendered) t

theorem relabel_ofList (kids : List Node) (rendered : List (Option Html)) :
    (ofList (kids.zip rendered)).relabel f g =
      ofList (kids.zip (rendered.map (Option.map (Html.relabel f g)))) :=
  relabel_foldl_push {} kids rendered

theorem relabelAll_toList {t t' : TableParts} (h : t.relabel f g = t'.relabel f g) :
    relabelAll f g t.toList = relabelAll f g t'.toList := by
  obtain ⟨hcaption, hhead, hbody, hother⟩ := TableParts.mk.inj h
  have hrows (tag : String) {rows rows' : List Html}
      (hrows : relabelAll f g rows = relabelAll f g rows') :
      relabelAll f g (rowGroup tag rows) = relabelAll f g (rowGroup tag rows') := by
    rw [rowGroup, rowGroup, isEmpty_eq_of_relabelAll hrows]
    split
    · rfl
    · simp only [relabelAll, Html.relabel, hrows]
  have hjoin (c : Option (Option Html)) : relabelAll f g c.join.toList =
      (c.map (Option.map (Html.relabel f g))).join.toList := by
    cases c with
    | none => rfl
    | some o => cases o <;> rfl
  simp only [toList, relabelAll_append]
  rw [hrows "thead" hhead, hrows "tbody" hbody, hother, hjoin, hjoin, hcaption]

end TableParts

/-- A link back goes to the same place, whatever tags and keys are. -/
theorem Endnotes.relabelAll_appendBacklink (content : List Html) (b : Html) :
    relabelAll f g (appendBacklink content b) =
      appendBacklink (relabelAll f g content) (b.relabel f g) := by
  fun_induction appendBacklink content b with
  | case1 => rfl
  | case2 tag key props kids =>
    simp only [relabelAll, relabel, appendBacklink, relabelAll_append]
  | case3 key kids => simp only [relabelAll, relabel, appendBacklink, relabelAll_append]
  | case4 h rest helement hfragment ih =>
    rw [relabelAll, ih, relabelAll, appendBacklink]
    · rintro tag key props kids hh hrest
      cases h with
      | element tag' =>
        refine helement tag' _ _ _ rfl ?_
        cases rest with
        | nil => rfl
        | cons => cases hrest
      | _ => cases hh
    · rintro key kids hh hrest
      cases h with
      | fragment =>
        refine hfragment _ _ rfl ?_
        cases rest with
        | nil => rfl
        | cons => cases hrest
      | _ => cases hh

namespace RawHtml

mutual

theorem relabel_sanitizeNode? (hg : ∀ key key', g key = g key') (key key' : String) (i i' : Nat) :
    (n : RawNode) → relabelAll f g (sanitizeNode? key i n).toList =
      relabelAll f g (sanitizeNode? key' i' n).toList
  | .text _ => rfl
  | .element tag attrs kids => by
      rw [sanitizeNode?, sanitizeNode?]
      split
      · rfl
      · simp only [Option.toList_some, relabelAll, relabel]
        rw [hg (some (childKey key i)) (some (childKey key' i')),
          relabel_sanitizeNodes hg (childKey key i) (childKey key' i') 0 0 kids]

theorem relabel_sanitizeNodes (hg : ∀ key key', g key = g key') (key key' : String) (i i' : Nat) :
    (ns : List RawNode) → relabelAll f g (sanitizeNodes key i ns) =
      relabelAll f g (sanitizeNodes key' i' ns)
  | [] => rfl
  | n :: ns => by
      rw [sanitizeNodes, sanitizeNodes, relabelAll_append, relabelAll_append,
        relabel_sanitizeNode? hg key key' i i' n,
        relabel_sanitizeNodes hg key key' (i + 1) (i' + 1) ns]

end

/-- Where keys are forgotten, sanitized raw HTML is the same below every key. -/
theorem relabelAll_sanitize (hg : ∀ key key', g key = g key') (text key key' : String) :
    relabelAll f g (sanitize text key) = relabelAll f g (sanitize text key') :=
  relabel_sanitizeNodes hg key key' 0 0 (fragment text)

end RawHtml

/-! ### Requests -/

theorem Overrides.hasComponent_of_onlyTags {ov : Overrides} (hov : ov.onlyTags = true) (k : Kind) :
    ov.hasComponent k = false := by
  rw [hasComponent]
  rcases pick_of_onlyTags hov k with h | ⟨name, h⟩ <;> rw [h] <;> rfl

/-- Requests that differ in what the renamings forget at most, if overrides only name tags: the
node and its inputs are not looked at then. -/
structure Request.SameBut (f : String → String) (g : Option String → Option String)
    (r r' : Request) : Prop where
  kind : r.kind = r'.kind
  key : g r.key = g r'.key
  props : r.props = r'.props
  children : relabelAll f g r.children = relabelAll f g r'.children

namespace Request.SameBut

variable {ov : Overrides} {r r' : Request} (h : r.SameBut f g r')

include h

theorem element (tag : String) : (r.element tag).relabel f g = (r'.element tag).relabel f g := by
  rw [Request.element, Request.element, relabel, relabel, h.key, h.props, h.children]

theorem fragment : r.fragment.relabel f g = r'.fragment.relabel f g := by
  rw [Request.fragment, Request.fragment, relabel, relabel, h.key, h.children]

variable (hov : ov.onlyTags = true)

include hov

/-- What is built by default the same is built the same. -/
theorem build {byDefault : Request → Html}
    (hdefault : (byDefault r).relabel f g = (byDefault r').relabel f g) :
    (ov.build byDefault r).relabel f g = (ov.build byDefault r').relabel f g := by
  rw [Overrides.build, Overrides.build, h.kind]
  rcases Overrides.pick_of_onlyTags hov r'.kind with hp | ⟨name, hp⟩
  · rw [hp]
    exact hdefault
  · rw [hp]
    exact h.element name

theorem single_element (tag : String) :
    (Single.element ov tag r).relabel f g = (Single.element ov tag r').relabel f g :=
  h.build hov (h.element tag)

theorem single_group : (Single.group ov r).relabel f g = (Single.group ov r').relabel f g :=
  h.build hov h.fragment

end Request.SameBut

/-! ### The output of a node -/

namespace Render

variable {ov : Overrides} {links : Links} {key key' : Option String} {tight : Option Bool}
  {σ : Numbering}

theorem relabelAll_present (rendered : List (Option Html)) :
    relabelAll f g (present rendered) = present (rendered.map (Option.map (relabel f g))) := by
  induction rendered with
  | nil => rfl
  | cons o rendered ih =>
    rw [present_cons, relabelAll_append, ih, List.map_cons, present_cons]
    cases o <;> rfl

end Render

namespace Single

variable {ov : Overrides} (hov : ov.onlyTags = true) {n n' : Node} {key key' : Option String}
  {own : Props} (hprops : n.props own = n'.props own) (hkey : g key = g key')
  {kids kids' : List Html} (hkids : relabelAll f g kids = relabelAll f g kids')

include hkey hkids hprops

theorem sameBut_request (kind : Kind) (inputs inputs' : Inputs) :
    (request kind n key own inputs kids).SameBut f g (request kind n' key' own inputs' kids') :=
  ⟨rfl, hkey, hprops, hkids⟩

include hov

theorem relabel_element (tag : String) (kind : Kind) (inputs inputs' : Inputs) :
    (element ov tag (request kind n key own inputs kids)).relabel f g =
      (element ov tag (request kind n' key' own inputs' kids')).relabel f g :=
  (sameBut_request hprops hkey hkids kind inputs inputs').single_element hov tag

theorem relabel_group (kind : Kind) (inputs inputs' : Inputs) :
    (group ov (request kind n key own inputs kids)).relabel f g =
      (group ov (request kind n' key' own inputs' kids')).relabel f g :=
  (sameBut_request hprops hkey hkids kind inputs inputs').single_group hov

omit hkids in
theorem relabel_bareText (hown : own = ∅) (kind : Kind) (text : String) (inputs : Inputs) :
    (bareText ov kind n key text inputs).relabel f g =
      (bareText ov kind n' key' text inputs).relabel f g := by
  subst hown
  exact (sameBut_request hprops hkey rfl kind inputs inputs).build hov rfl

theorem relabel_item (hown : own = ∅) (kind : Kind) (tight : Option Bool)
    (checkbox : Option Checkbox) :
    (item ov kind n key tight checkbox kids).relabel f g =
      (item ov kind n' key' tight checkbox kids').relabel f g := by
  subst hown
  refine relabel_element hov hprops hkey ?_ _ _ _ _
  rw [relabelAll_append, relabelAll_append, hkids]

theorem relabel_container (hown : own = ∅) (k : ContainerKind) :
    (container ov k n key kids).map (relabel f g) =
      (container ov k n' key' kids').map (relabel f g) := by
  subst hown
  have hmarked : relabelAll f g (marked k kids) = relabelAll f g (marked k kids') := by
    unfold marked
    split
    · simp only [List.cons_append, relabelAll, relabelAll_append, hkids]
    · exact hkids
  rw [container, container, isEmpty_eq_of_relabelAll hkids]
  split
  · rfl
  · split
    · exact congrArg some (relabel_element hov hprops hkey hmarked _ _ _ _)
    · exact congrArg some (relabel_group hov hprops hkey hmarked _ _ _)

end Single

namespace Render

variable {ov : Overrides} {links : Links} {n : Node} {kids kids' : List Node}
  {rendered rendered' : List (Option Html)} {key key' : Option String} {tight : Option Bool}
  {σ : Numbering}

/-- **The output of a node but for names**, from what is rendered inside it but for names. It may
hold other children, if these are the same to a table and to an image, and it may have another key,
if that is forgotten. -/
theorem relabel_output (hov : ov.onlyTags = true)
    (hpresent : relabelAll f g (present rendered) = relabelAll f g (present rendered'))
    (hparts : n.isTable = true → (TableParts.ofList (kids.zip rendered)).relabel f g =
      (TableParts.ofList (kids'.zip rendered')).relabel f g)
    (hplain : Node.plainCharsAll kids = Node.plainCharsAll kids') (hkey : g key = g key')
    (hraw : ∀ k text, relabelAll f g (RawHtml.sanitize text (Single.rawKey k key)) =
      relabelAll f g (RawHtml.sanitize text (Single.rawKey k key'))) :
    (output ⟨ov, links⟩ key tight σ rendered (n.holding kids)).map (relabel f g) =
      (output ⟨ov, links⟩ key' tight σ rendered' (n.holding kids')).map (relabel f g) := by
  have hprops (own : Props) : (n.holding kids).props own = (n.holding kids').props own := by
    rw [Node.props_holding, Node.props_holding]
  have hsame (kind : Kind) (own : Props) (inputs : Inputs) (content : List Html) (tag : String) :
      (Single.element ov tag (Single.request kind (n.holding kids) key own inputs content)).relabel
          f g =
        (Single.element ov tag
          (Single.request kind (n.holding kids') key' own inputs content)).relabel f g :=
    Single.relabel_element hov (hprops own) hkey rfl tag kind inputs inputs
  cases n with
  | doc | unknown => rfl
  | container k oldKids attrs auto =>
    by_cases htable : k = .table
    · subst htable
      exact Single.relabel_container hov (hprops ∅) hkey (TableParts.relabelAll_toList (hparts rfl))
        rfl .table
    · by_cases hitem : k = .listItem
      · subst hitem
        exact congrArg some (Single.relabel_item hov (hprops ∅) hkey hpresent rfl _ _ _)
      · rw [Node.holding, Node.holding, output_container htable hitem,
          output_container htable hitem]
        exact Single.relabel_container hov (hprops ∅) hkey hpresent rfl k
  | link k destination reference oldKids attrs =>
    cases k with
    | link => exact congrArg some (Single.relabel_element hov (hprops _) hkey hpresent _ _ _ _)
    | image =>
      have htext : Node.plainText kids = Node.plainText kids' := by
        rw [Node.plainText, hplain, ← Node.plainText]
      rw [Node.holding, Node.holding, output, output, Single.image, Single.image, htext]
      exact congrArg some (hsame _ _ _ _ _)
  | heading | row | cell | footnote | list | orderedList =>
    exact congrArg some (Single.relabel_element hov (hprops _) hkey hpresent _ _ _ _)
  | taskListItem checkbox =>
    exact congrArg some (Single.relabel_item hov (hprops ∅) hkey hpresent rfl _ _ _)
  | footnoteReference | codeBlock => exact congrArg some (hsame _ _ _ _ _)
  | smartPunctuation | symb =>
    exact congrArg some (Single.relabel_bareText hov (hprops ∅) hkey rfl _ _ _)
  | literal k =>
    cases k with
    | str => exact congrArg some (Single.relabel_bareText hov (hprops ∅) hkey rfl _ _ _)
    | _ => exact congrArg some (hsame _ _ _ _ _)
  | leaf k =>
    cases k with
    | thematicBreak | hardBreak | hardbreak => exact congrArg some (hsame _ _ _ _ _)
    | _ => exact congrArg some (Single.relabel_bareText hov (hprops ∅) hkey rfl _ _ _)
  | raw k format text attrs =>
    change (Single.raw ov k _ key format text).map _ = (Single.raw ov k _ key' format text).map _
    rw [Single.raw, Single.raw]
    split
    · rfl
    · refine congrArg some (Single.relabel_group hov (hprops ∅) hkey ?_ _ _ _)
      split
      · exact hraw k text
      · rfl

end Render

/-- A note but for names, from the body of its footnote but for names. Nothing else of the footnote
counts but its attributes. -/
theorem Endnotes.relabel_note {e d : Endnotes} (hov : e.overrides.onlyTags = true)
    (hoverrides : e.overrides = d.overrides)
    (hattrs : ∀ label, (e.footnote label).attributes = (d.footnote label).attributes)
    (hbodies : ∀ label σ,
      relabelAll f g (((e.bodies.lookup label).getD (pure [])) σ).1 =
          relabelAll f g (((d.bodies.lookup label).getD (pure [])) σ).1 ∧
        (((e.bodies.lookup label).getD (pure [])) σ).2 =
          (((d.bodies.lookup label).getD (pure [])) σ).2)
    (label : String) (index : Nat) (σ : Numbering) :
    (e.note label index σ).1.relabel f g = (d.note label index σ).1.relabel f g ∧
      (e.note label index σ).2 = (d.note label index σ).2 := by
  obtain ⟨hcontent, hstate⟩ := hbodies label σ
  have hrun (e : Endnotes) : e.note label index σ =
      let content := ((e.bodies.lookup label).getD (pure [])) σ
      (Single.footnote e.overrides (e.footnote label) (some label)
        (Single.single "id" (Numbering.noteId index)) index label
        (appendBacklink content.1 (backlink (content.2.backlinkTarget label index))),
        content.2) := rfl
  rw [hrun, hrun]
  dsimp only
  rw [← hoverrides, hstate]
  refine ⟨Single.relabel_element hov ?_ rfl ?_ _ _ _ _, rfl⟩
  · rw [Node.props, Node.props, Node.attributes?, Node.attributes?, hattrs label]
    rfl
  · rw [relabelAll_appendBacklink, relabelAll_appendBacklink, hcontent]

end DocMarkup
