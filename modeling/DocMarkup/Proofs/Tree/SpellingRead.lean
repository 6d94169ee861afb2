import DocMarkup.Proofs.Tree.Descendants
import DocMarkup.Proofs.Tree.Records

/-!
# Nodes are read from their spellings

Each member that a kind declares fits a field of the shape of that kind: the values that spell it
are read into the field, and where it may be left out the field has its default. From this a node
is read from its spellings as soon as its children and its footnotes are, and so every node is. The
canonical form of a spelling is a spelling too.

## Main definitions

* `Node.IsRead` : every spelling of the node is read as it.

## Main results

* `fits_value`, `fits_dictionary`, `fits_children`, `fits_footnotes` : members fit their fields.
* `Node.isRead` : every node is read from its spellings.
-/

namespace DocMarkup

open Json (Value)

/-- The values that spell a footnote of a document. -/
def Footnote.SpelledBy (f : Footnote) : Json.Value → Prop :=
  SpellsRecord (Member.ofFootnote f.label f.children f.attributes (allSpelledBy f.children))

theorem allSpelledBy_iff {kids : List Node} {items : List Json.Value} :
    allSpelledBy kids items ↔ List.Forall₂ Node.SpelledBy kids items := by
  induction kids generalizing items with
  | nil => rw [allSpelledBy, List.forall₂_nil_left_iff]
  | cons n rest ih =>
    rw [allSpelledBy, List.forall₂_cons_left_iff]
    simp only [ih]
    constructor
    · rintro ⟨v, more, rfl, hv, hmore⟩
      exact ⟨v, more, hv, hmore, rfl⟩
    · rintro ⟨v, more, hv, hmore, rfl⟩
      exact ⟨v, more, rfl, hv, hmore⟩

theorem notesSpelledBy_iff {notes : List (String × Footnote)} {members : JsonMembers} :
    notesSpelledBy notes members ↔ SpelledEntries Footnote.SpelledBy notes members := by
  induction notes generalizing members with
  | nil => rw [notesSpelledBy, SpelledEntries, List.forall₂_nil_left_iff]
  | cons e rest ih =>
    obtain ⟨key, label, kids, attrs⟩ := e
    rw [notesSpelledBy, SpelledEntries, List.forall₂_cons_left_iff]
    simp only [ih]
    constructor
    · rintro ⟨v, more, rfl, hv, hmore⟩
      exact ⟨(key, v), more, ⟨rfl, hv⟩, hmore, rfl⟩
    · rintro ⟨⟨_, v⟩, more, ⟨rfl, hv⟩, hmore, rfl⟩
      exact ⟨v, more, rfl, hv, hmore⟩

/-! ### Dictionaries -/

section Dictionary

variable {α : Type} {Spells : α → Json.Value → Prop} {es ps : List (String × α)}
  {members : JsonMembers} {v : Json.Value}

theorem SpelledEntries.map_fst (h : SpelledEntries Spells es members) :
    members.map Prod.fst = es.map Prod.fst := by
  induction h with
  | nil => rfl
  | cons he _ ih => rw [List.map_cons, List.map_cons, he.1, ih]

theorem SpelledEntries.imp {Spells' : α → Json.Value → Prop} (h : SpelledEntries Spells es members)
    (himp : ∀ e ∈ es, ∀ v, Spells e.2 v → Spells' e.2 v) : SpelledEntries Spells' es members := by
  induction h with
  | nil => exact .nil
  | cons he _ ih =>
    exact .cons ⟨he.1, himp _ List.mem_cons_self _ he.2⟩
      (ih fun e he => himp e (List.mem_cons_of_mem _ he))

theorem SpellsDictionary.imp {entries entries' : JsonMembers → Prop}
    (h : SpellsDictionary entries v) (himp : ∀ members, entries members → entries' members) :
    SpellsDictionary entries' v := by
  obtain @⟨members, ordered, hperm, h⟩ := h
  exact .mk hperm (himp ordered h)

/-- An object that spells a dictionary, as its entries in the order of the members. -/
theorem SpellsDictionary.exists_entries (h : SpellsDictionary (SpelledEntries Spells es) v) :
    ∃ members ps, v = .object members ∧ SpelledEntries Spells ps members ∧ ps.Perm es := by
  obtain @⟨members, ordered, hperm, h⟩ := h
  obtain ⟨ps, hps, hes⟩ := List.perm_comp_forall₂ hperm h.flip
  exact ⟨members, ps, rfl, hps.flip, hes⟩

theorem SpelledEntries.canonical (h : SpelledEntries Spells es members)
    (hcanonical : ∀ e ∈ es, ∀ v, Spells e.2 v → Spells e.2 v.canonical) :
    SpelledEntries Spells es (members.map fun m => (m.1, m.2.canonical)) := by
  induction h with
  | nil => exact .nil
  | cons he _ ih =>
    exact .cons ⟨he.1, hcanonical _ List.mem_cons_self _ he.2⟩
      (ih fun e he => hcanonical e (List.mem_cons_of_mem _ he))

/-- The canonical form of an object that spells a dictionary spells it too. -/
theorem SpellsDictionary.canonical (h : SpellsDictionary (SpelledEntries Spells es) v)
    (hnodup : (es.map Prod.fst).Nodup)
    (hcanonical : ∀ e ∈ es, ∀ v, Spells e.2 v → Spells e.2 v.canonical) :
    SpellsDictionary (SpelledEntries Spells es) v.canonical := by
  obtain @⟨members, ordered, hperm, h⟩ := h
  have hmembers : (members.map Prod.fst).Nodup :=
    (hperm.map Prod.fst).nodup_iff.2 (h.map_fst ▸ hnodup)
  exact .mk ((Value.canonicalMembers_perm hmembers).trans (hperm.map _)) (h.canonical hcanonical)

end Dictionary

namespace Decode

theorem texts_eq {ps : List (String × String)} {members : JsonMembers}
    (h : SpelledEntries (fun text v => v = .string text) ps members) (d : Attributes) :
    texts d members = .ok (ps.foldl (fun d p => d.insert p.1 p.2) d) := by
  induction h generalizing d with
  | nil => rfl
  | @cons p m _ _ he _ ih =>
    obtain ⟨k, v⟩ := m
    obtain ⟨rfl, rfl⟩ := he
    rw [List.foldl_cons, ← ih]
    rfl

theorem references_eq {ps : List (String × Reference)} {members : JsonMembers}
    (h : SpelledEntries (fun r v => ∃ m, record .reference v = .ok m ∧ m.toReference = r) ps
      members) (d : References) :
    references d members = .ok (ps.foldl (fun d p => d.insert p.1 p.2) d) := by
  induction h generalizing d with
  | nil => rfl
  | @cons p m _ _ he _ ih =>
    obtain ⟨k, v⟩ := m
    obtain ⟨rfl, m, hm, hr⟩ := he
    rw [references, hm, List.foldl_cons, ← ih, ← hr]
    rfl

theorem footnotes_eq {ps : List (String × Footnote)} {members : JsonMembers}
    (h : SpelledEntries (fun f v => ∃ m, record .footnote v = .ok m ∧ m.toFootnote = f) ps
      members) (notes : List (String × Footnote)) :
    footnotes notes members = .ok (ps.foldl (fun es p => Dict.place p.1 p.2 es) notes) := by
  induction h generalizing notes with
  | nil => rfl
  | @cons p m _ _ he _ ih =>
    obtain ⟨k, v⟩ := m
    obtain ⟨rfl, m, hm, hf⟩ := he
    rw [footnotes, hm, List.foldl_cons, ← ih, ← hf]
    rfl

end Decode

/-! ### The declared members -/

section Fits

variable {s : Shape} {t : Members}

/-- A member that one value spells, which is read into a field as it is. -/
theorem fits_value {name : String} {v : Json.Value} {mayLack : Prop} {f : Field}
    (hname : name = f.name) (hv : v.canonical = v)
    (hfield : ∀ m, Decode.field f m v = .ok (t.withField f m))
    (hdefault : mayLack → t.Agrees f {}) (hrequired : mayLack → s.required? ≠ some f) :
    Member.Fits s t ⟨name, (· = v), mayLack⟩ f where
  name_eq := hname
  field_eq := by
    rintro _ rfl
    exact hfield
  agrees_default := hdefault
  not_required := hrequired
  canonical := by
    rintro _ rfl
    exact hv

/-- The text in a field, where the field holds one. -/
def Members.textIn (t : Members) : Field → String
  | .label => t.label
  | .text => t.text
  | .type => t.type
  | .format => t.format
  | .symbolName => t.symbolName
  | .target => t.target
  | _ => ""

/-- The optional text in a field, where the field can hold one. -/
def Members.optionalIn (t : Members) : Field → Option String
  | .lang => t.lang
  | .destination => t.destination
  | .reference => t.reference
  | .style => t.style
  | _ => none

theorem field_textIn {f : Field}
    (hf : f ∈ [.label, .text, .type, .format, .symbolName, .target]) (m : Members) :
    Decode.field f m (.string (t.textIn f)) = .ok (t.withField f m) := by
  cases f with
  | label | text | type | format | symbolName | target => rfl
  | _ => exact absurd hf (by decide)

theorem fits_required {f : Field} (hf : f ∈ [.label, .type, .format, .symbolName]) :
    (Member.required f.name (t.textIn f)).Fits s t f :=
  fits_value rfl rfl (field_textIn (by revert hf; cases f <;> decide)) False.elim False.elim

theorem fits_text {f : Field} (hf : f ∈ [.label, .text, .target]) (hs : s.required? ≠ some f) :
    (Member.text f.name (t.textIn f)).Fits s t f := by
  refine fits_value rfl rfl (field_textIn (by revert hf; cases f <;> decide)) (fun h => ?_)
    fun _ => hs
  cases f with
  | label | text | target =>
    rw [Members.textIn] at h
    rw [Members.Agrees, Members.withField, h]
  | _ => exact absurd hf (by decide)

theorem fits_optional {f : Field} (hf : f ∈ [.lang, .destination, .reference, .style]) :
    (Member.optional f.name (t.optionalIn f)).Fits s t f := by
  refine fits_value rfl ?_ (fun m => ?_) (fun h => ?_) fun _ hs => ?_
  · cases t.optionalIn f <;> rfl
  · cases f with
    | lang | destination | reference | style =>
      cases h : t.optionalIn _ <;>
        · rw [Members.optionalIn] at h
          rw [Members.withField, h]
          rfl
    | _ => exact absurd hf (by decide)
  · cases f with
    | lang | destination | reference | style =>
      rw [Members.optionalIn] at h
      rw [Members.Agrees, Members.withField, h]
    | _ => exact absurd hf (by decide)
  · revert hf
    cases s <;> cases hs <;> decide

theorem fits_head : (Member.flag "head" t.head).Fits s t .head :=
  fits_value rfl rfl (fun _ => rfl) (fun h => by rw [Members.Agrees, Members.withField, h])
    fun _ => by cases s <;> decide

theorem fits_tight : (Member.flag "tight" t.tight).Fits s t .tight :=
  fits_value rfl rfl (fun _ => rfl) (fun h => by rw [Members.Agrees, Members.withField, h])
    fun _ => by cases s <;> decide

theorem fits_level : (Member.level t.level).Fits s t .level := by
  refine fits_value rfl rfl (fun m => ?_) False.elim False.elim
  have hlt : t.level.toUInt64.toNat < 1 <<< 32 := by
    rw [UInt32.toNat_toUInt64]
    exact t.level.toNat_lt
  change (do return { m with level := ← Decode.natural32 (.number (.natural t.level.toUInt64)) } :
    Decode.Result Members) = _
  rw [Decode.natural32, if_pos hlt, UInt32.toUInt32_toUInt64]
  rfl

theorem fits_start : (Member.start t.start).Fits s t .start := by
  refine fits_value rfl ?_ (fun m => ?_) (fun h => by rw [Members.Agrees, Members.withField, h])
    fun _ => by cases s <;> decide
  · cases t.start <;> rfl
  · rw [Members.withField]
    cases t.start <;> rfl

theorem fits_checkbox : (Member.checkbox t.checkbox).Fits s t .checkbox := by
  refine fits_value rfl rfl (fun m => ?_)
    (fun h => by rw [Members.Agrees, Members.withField, h]) fun _ => by cases s <;> decide
  rw [Members.withField]
  cases t.checkbox <;> rfl

/-- An alignment is spelled by a word that is read as it; a word that names none is read as that
none is set. -/
theorem Alignment.IsSpelling.exists_word {a : Alignment} {v : Json.Value} (h : a.IsSpelling v) :
    ∃ word, v = .string word ∧ Decode.alignment word = .ok a := by
  cases a with
  | left | right | center => exact ⟨_, h, rfl⟩
  | default =>
    obtain ⟨word, rfl, hword⟩ := h
    refine ⟨word, rfl, ?_⟩
    unfold Decode.alignment
    split
    · exact absurd List.mem_cons_self hword
    · exact absurd (by decide) hword
    · exact absurd (by decide) hword
    · rfl

theorem fits_align : (Member.align t.align).Fits s t .align where
  name_eq := rfl
  field_eq := fun v hv m => by
    obtain ⟨word, rfl, hword⟩ := Alignment.IsSpelling.exists_word hv
    change (do return { m with align := ← Decode.alignment word } : Decode.Result Members) = _
    rw [hword]
    rfl
  agrees_default := fun h => by
    rw [Members.Agrees, Members.withField, show t.align = .default from h]
  not_required := fun _ => by cases s <;> decide
  canonical := fun v hv => by
    obtain ⟨word, rfl, -⟩ := Alignment.IsSpelling.exists_word hv
    exact hv

/-- A dictionary, which is read in whatever order its entries come. -/
theorem fits_dictionary {α : Type} {name : String} {f : Field} {Spells : α → Json.Value → Prop}
    {d : Dict α} (hname : name = f.name)
    (hfield : ∀ members ps, SpelledEntries Spells ps members → ps.Perm d.entries → ∀ m,
      Decode.field f m (.object members) = .ok (t.withField f m))
    (hcanonical : ∀ e ∈ d.entries, ∀ v, Spells e.2 v → Spells e.2 v.canonical)
    (hdefault : d = ∅ → t.Agrees f {}) (hrequired : s.required? ≠ some f) :
    Member.Fits s t ⟨name, SpellsDictionary (SpelledEntries Spells d.entries), d = ∅⟩ f where
  name_eq := hname
  field_eq := fun v hv m => by
    obtain ⟨members, ps, rfl, hentries, hperm⟩ := SpellsDictionary.exists_entries hv
    exact hfield members ps hentries hperm m
  agrees_default := hdefault
  not_required := fun _ => hrequired
  canonical := fun v hv => SpellsDictionary.canonical hv Dict.nodup_keys hcanonical

/-- A dictionary of texts, in a field that holds what is read as one. -/
theorem fits_texts {name : String} {f : Field} {d : Attributes} (hname : name = f.name)
    (hfield : ∀ members, Decode.texts ∅ members = .ok d →
      ∀ m, Decode.field f m (.object members) = .ok (t.withField f m))
    (hdefault : d = ∅ → t.Agrees f {}) (hrequired : s.required? ≠ some f) :
    (Member.attributes name d).Fits s t f := by
  refine fits_dictionary hname (fun members ps h hperm => hfield members ?_) (fun e _ v hv => ?_)
    hdefault hrequired
  · rw [Decode.texts_eq h, Dict.foldl_insert_eq hperm]
  · cases hv
    rfl

theorem fits_attributes : (Member.attributes "attributes" t.attributes).Fits s t .attributes := by
  refine fits_texts rfl (fun members h m => ?_)
    (fun h => by rw [Members.Agrees, Members.withField, h]) (by cases s <;> decide)
  change (do return { m with attributes := ← Decode.texts ∅ members } : Decode.Result _) = _
  rw [h]
  rfl

theorem fits_autoAttributes :
    (Member.attributes "autoAttributes" t.autoAttributes).Fits s t .autoAttributes := by
  refine fits_texts rfl (fun members h m => ?_)
    (fun h => by rw [Members.Agrees, Members.withField, h]) (by cases s <;> decide)
  change (do return { m with autoAttributes := ← Decode.texts ∅ members } : Decode.Result _) = _
  rw [h]
  rfl

/-- The members of a reference. -/
theorem fit_reference (r : Reference) :
    Fit .reference { label := r.label, target := r.destination, attributes := r.attributes }
      (Member.ofReference r) :=
  .cons (fits_text (f := .label) (by decide) (by nofun)) <|
    .cons (fits_text (f := .target) (by decide) (by nofun)) <| .cons fits_attributes .nil

theorem record_reference_eq {r : Reference} {v : Json.Value}
    (h : SpellsRecord (Member.ofReference r) v) :
    (∃ m, Decode.record .reference v = .ok m ∧ m.toReference = r) ∧
      SpellsRecord (Member.ofReference r) v.canonical := by
  obtain ⟨⟨m, hm, hagrees⟩, hcanonical⟩ := (fit_reference r).record_eq h
  exact ⟨⟨m, hm, Members.toReference_eq_of_agrees hagrees⟩, hcanonical⟩

/-- A dictionary of references, in a field that holds what is read as one. -/
theorem fits_linkTargets {name : String} {f : Field} {d : References} (hname : name = f.name)
    (hfield : ∀ members, Decode.references ∅ members = .ok d →
      ∀ m, Decode.field f m (.object members) = .ok (t.withField f m))
    (hdefault : d = ∅ → t.Agrees f {}) (hrequired : s.required? ≠ some f) :
    (Member.references name d).Fits s t f := by
  refine fits_dictionary hname (fun members ps h hperm => hfield members ?_)
    (fun e _ v hv => (record_reference_eq hv).2) hdefault hrequired
  rw [Decode.references_eq (h.imp fun e _ v hv => (record_reference_eq hv).1),
    Dict.foldl_insert_eq hperm]

theorem fits_references :
    (Member.references "references" t.references).Fits s t .references :=
  fits_linkTargets rfl (fun members h m => by rw [Decode.field, h]; rfl)
    (fun h => by rw [Members.Agrees, Members.withField, h]) (by cases s <;> decide)

theorem fits_autoReferences :
    (Member.references "autoReferences" t.autoReferences).Fits s t .autoReferences :=
  fits_linkTargets rfl (fun members h m => by rw [Decode.field, h]; rfl)
    (fun h => by rw [Members.Agrees, Members.withField, h]) (by cases s <;> decide)

/-! ### Nodes -/

theorem Node.SpelledBy.hasTag {n : Node} {v : Json.Value} (h : n.SpelledBy v) : HasTag v := by
  cases n with
  | unknown => exact SpellsUnknown.hasTag h
  | footnote note =>
    obtain ⟨_, _, _⟩ := note
    exact SpellsTagged.hasTag h
  | _ => exact SpellsTagged.hasTag h

/-- Each value that spells the node is read as it, and its canonical form spells the node too. -/
def Node.IsRead (n : Node) : Prop :=
  ∀ v, n.SpelledBy v → Decode.root v = .ok n ∧ n.SpelledBy v.canonical

/-- Values that spell nodes are read as them. -/
theorem nodes_eq {kids : List Node} (hkids : ∀ n ∈ kids, n.IsRead) {items : List Json.Value}
    (h : allSpelledBy kids items) :
    Decode.nodes items = .ok kids ∧ allSpelledBy kids (Json.Value.canonicalItems items) := by
  rw [allSpelledBy_iff] at h ⊢
  induction h with
  | nil => exact ⟨rfl, .nil⟩
  | @cons n v _ _ hn _ ih =>
    obtain ⟨hroot, hcanonical⟩ := hkids _ List.mem_cons_self v hn
    obtain ⟨hrest, hcanonicalRest⟩ := ih fun n hn => hkids n (List.mem_cons_of_mem _ hn)
    refine ⟨?_, .cons hcanonical hcanonicalRest⟩
    rw [Decode.nodes, Decode.node_eq_root hn.hasTag, hroot, hrest]
    rfl

theorem fits_children (hkids : ∀ n ∈ t.children, n.IsRead) :
    (Member.children t.children (allSpelledBy t.children)).Fits s t .children where
  name_eq := rfl
  field_eq := by
    rintro _ ⟨items, rfl, h⟩ m
    rw [Decode.field, (nodes_eq hkids h).1]
    rfl
  agrees_default := fun h => by
    rw [Members.Agrees, Members.withField, show t.children = [] from h]
  not_required := fun _ => by cases s <;> decide
  canonical := by
    rintro _ ⟨items, rfl, h⟩
    exact ⟨_, rfl, (nodes_eq hkids h).2⟩

/-- The members of a footnote. -/
theorem fit_footnote {label : String} {kids : List Node} (hkids : ∀ n ∈ kids, n.IsRead)
    (attrs : Attributes) :
    Fit .footnote { label := label, children := kids, attributes := attrs }
      (Member.ofFootnote label kids attrs (allSpelledBy kids)) :=
  .cons (fits_required (f := .label) (by decide)) <|
    .cons (fits_children hkids) <| .cons fits_attributes .nil

theorem record_footnote_eq {f : Footnote} (hkids : ∀ n ∈ f.children, n.IsRead) {v : Json.Value}
    (h : f.SpelledBy v) :
    (∃ m, Decode.record .footnote v = .ok m ∧ m.toFootnote = f) ∧ f.SpelledBy v.canonical := by
  obtain ⟨label, kids, attrs⟩ := f
  obtain ⟨⟨m, hm, hagrees⟩, hcanonical⟩ := (fit_footnote hkids attrs).record_eq h
  exact ⟨⟨m, hm, Members.toFootnote_eq_of_agrees hagrees⟩, hcanonical⟩

theorem fits_footnotes (hnotes : ∀ e ∈ t.footnotes, ∀ n ∈ Footnote.children e.2, n.IsRead) :
    (Member.footnotes t.footnotes (notesSpelledBy t.footnotes)).Fits s t .footnotes where
  name_eq := rfl
  field_eq := by
    rintro v ⟨hascending, hv⟩ m
    obtain ⟨members, ps, rfl, h, hperm⟩ :=
      (hv.imp fun _ => notesSpelledBy_iff.1).exists_entries
    rw [Decode.field, Decode.footnotes_eq (h.imp fun e he v hv =>
      (record_footnote_eq (hnotes e (hperm.subset he)) hv).1),
      Dict.foldl_place_eq hascending hperm]
    rfl
  agrees_default := fun h => by
    rw [Members.Agrees, Members.withField, show t.footnotes = [] from h]
  not_required := fun _ => by cases s <;> decide
  canonical := by
    rintro v ⟨hascending, hv⟩
    have hcanonical := (hv.imp fun _ => notesSpelledBy_iff.1).canonical
      (Dict.nodup_of_ascending hascending) fun e he v hv => (record_footnote_eq (hnotes e he) hv).2
    exact ⟨hascending, hcanonical.imp fun _ => notesSpelledBy_iff.2⟩

end Fits

/-- **Every node is read from its spellings**: what the spelled children and footnotes are read as
makes the node. -/
theorem Node.isRead (n : Node) : n.IsRead := by
  induction n using Node.induction_nested with
  | step n hkids hnotes =>
    intro v h
    cases n with
    | doc kids attrs refs auto notes =>
      exact Fit.root_eq (k := .doc)
        (t := { children := kids, attributes := attrs, references := refs, autoReferences := auto,
                footnotes := notes })
        (.cons (fits_children hkids) <| .cons fits_attributes <| .cons fits_references <|
          .cons fits_autoReferences <| .cons (fits_footnotes hnotes) .nil) nofun h
    | container k kids attrs auto =>
      exact Fit.root_eq (k := .container k)
        (t := { children := kids, attributes := attrs, autoAttributes := auto })
        (.cons (fits_children hkids) <| .cons fits_attributes <| .cons fits_autoAttributes .nil)
        nofun h
    | heading level kids attrs auto =>
      exact Fit.root_eq (k := .heading)
        (t := { level := level, children := kids, attributes := attrs, autoAttributes := auto })
        (.cons fits_level <| .cons (fits_children hkids) <| .cons fits_attributes <|
          .cons fits_autoAttributes .nil) nofun h
    | row head kids attrs =>
      exact Fit.root_eq (k := .row)
        (t := { head := head, children := kids, attributes := attrs })
        (.cons fits_head <| .cons (fits_children hkids) <| .cons fits_attributes .nil) nofun h
    | cell head align kids attrs =>
      exact Fit.root_eq (k := .cell)
        (t := { head := head, align := align, children := kids, attributes := attrs })
        (.cons fits_head <| .cons fits_align <| .cons (fits_children hkids) <|
          .cons fits_attributes .nil) nofun h
    | footnoteReference label attrs =>
      exact Fit.root_eq (k := .footnoteReference)
        (t := { text := label, attributes := attrs })
        (.cons (fits_text (f := .text) (by decide) (by nofun)) <| .cons fits_attributes .nil)
        nofun h
    | footnote note =>
      obtain ⟨label, kids, attrs⟩ := note
      exact Fit.root_eq (k := .footnote) (fit_footnote hkids attrs) nofun h
    | smartPunctuation type text attrs =>
      exact Fit.root_eq (k := .smartPunctuation)
        (t := { type := type, text := text, attributes := attrs })
        (.cons (fits_required (f := .type) (by decide)) <|
          .cons (fits_text (f := .text) (by decide) (by nofun)) <| .cons fits_attributes .nil)
        nofun h
    | literal k text attrs =>
      exact Fit.root_eq (k := .literal k) (t := { text := text, attributes := attrs })
        (.cons (fits_text (f := .text) (by decide) (by nofun)) <| .cons fits_attributes .nil)
        nofun h
    | codeBlock lang text attrs =>
      exact Fit.root_eq (k := .codeBlock)
        (t := { lang := lang, text := text, attributes := attrs })
        (.cons (fits_optional (f := .lang) (by decide)) <|
          .cons (fits_text (f := .text) (by decide) (by nofun)) <| .cons fits_attributes .nil)
        nofun h
    | raw k format text attrs =>
      exact Fit.root_eq (k := .raw k)
        (t := { format := format, text := text, attributes := attrs })
        (.cons (fits_required (f := .format) (by decide)) <|
          .cons (fits_text (f := .text) (by decide) (by nofun)) <| .cons fits_attributes .nil)
        nofun h
    | symb name attrs =>
      exact Fit.root_eq (k := .symb) (t := { symbolName := name, attributes := attrs })
        (.cons (fits_required (f := .symbolName) (by decide)) <| .cons fits_attributes .nil) nofun h
    | link k destination reference kids attrs =>
      exact Fit.root_eq (k := .link k)
        (t := { destination := destination, reference := reference, children := kids,
                attributes := attrs })
        (.cons (fits_optional (f := .destination) (by decide)) <|
          .cons (fits_optional (f := .reference) (by decide)) <|
            .cons (fits_children hkids) <| .cons fits_attributes .nil) nofun h
    | list k tight style kids attrs =>
      exact Fit.root_eq (k := .list k)
        (t := { tight := tight, style := style, children := kids, attributes := attrs })
        (.cons fits_tight <| .cons (fits_optional (f := .style) (by decide)) <|
          .cons (fits_children hkids) <| .cons fits_attributes .nil) nofun h
    | orderedList tight style start kids attrs =>
      exact Fit.root_eq (k := .orderedList)
        (t := { tight := tight, style := style, start := start, children := kids,
                attributes := attrs })
        (.cons fits_tight <| .cons (fits_optional (f := .style) (by decide)) <|
          .cons fits_start <| .cons (fits_children hkids) <| .cons fits_attributes .nil) nofun h
    | taskListItem checkbox kids attrs =>
      exact Fit.root_eq (k := .taskListItem)
        (t := { checkbox := checkbox, children := kids, attributes := attrs })
        (.cons fits_checkbox <| .cons (fits_children hkids) <| .cons fits_attributes .nil) nofun h
    | leaf k attrs =>
      exact Fit.root_eq (k := .leaf k) (t := { attributes := attrs })
        (.cons fits_attributes .nil) nofun h
    | unknown => exact SpellsUnknown.root_eq h

end DocMarkup
