import DocMarkup.Proofs.Json.Canonical
import DocMarkup.Proofs.Tree.Spelling
import DocMarkup.Tree.Decode

/-!
# Reading spelled records

What a record is read as depends only on what its members spell. Reading a member sets one field,
and settings of different fields do not get in each other's way; so the members of an object may
come in any order, and a member that is left out leaves its field at the default.

## Main definitions

* `Members.withField`, `Members.Agrees` : one field taken over from other members, and fields that
  are the same.
* `Member.Fits` : a declared member that is read into a field.
* `Fit` : all members of a record fit the fields of a shape.
* `HasTag` : the values whose tag is a text and is given once.
* `ReadsOn` : what the members of an object that are still to come must be like.

## Main results

* `Fit.object_eq`, `Fit.array_eq` : a spelled record is read as what is spelled.
* `Fit.root_eq`, `SpellsUnknown.root_eq` : so is one with a tag, as a node.
-/

namespace DocMarkup

namespace Members

/-- The members with one field as in others. -/
def withField (t : Members) (f : Field) (m : Members) : Members :=
  match f with
  | .children => { m with children := t.children }
  | .attributes => { m with attributes := t.attributes }
  | .autoAttributes => { m with autoAttributes := t.autoAttributes }
  | .references => { m with references := t.references }
  | .autoReferences => { m with autoReferences := t.autoReferences }
  | .footnotes => { m with footnotes := t.footnotes }
  | .level => { m with level := t.level }
  | .head => { m with head := t.head }
  | .align => { m with align := t.align }
  | .label => { m with label := t.label }
  | .text => { m with text := t.text }
  | .type => { m with type := t.type }
  | .lang => { m with lang := t.lang }
  | .format => { m with format := t.format }
  | .symbolName => { m with symbolName := t.symbolName }
  | .destination => { m with destination := t.destination }
  | .target => { m with target := t.target }
  | .reference => { m with reference := t.reference }
  | .tight => { m with tight := t.tight }
  | .style => { m with style := t.style }
  | .start => { m with start := t.start }
  | .checkbox => { m with checkbox := t.checkbox }

/-- Both have the same in a field. -/
def Agrees (t : Members) (f : Field) (m : Members) : Prop := t.withField f m = m

variable {t m : Members} {f : Field}

theorem agrees_withField_self : t.Agrees f (t.withField f m) := by cases f <;> rfl

theorem withField_comm (t m : Members) (f g : Field) :
    t.withField f (t.withField g m) = t.withField g (t.withField f m) := by
  cases f <;> cases g <;> rfl

/-- Taking over one field undoes no agreement in another. -/
theorem Agrees.withField (h : t.Agrees f m) (g : Field) : t.Agrees f (t.withField g m) := by
  rw [Agrees, withField_comm, h]

theorem foldr_withField {fields : List Field} (h : ∀ f ∈ fields, t.Agrees f m) :
    fields.foldr t.withField m = m := by
  induction fields with
  | nil => rfl
  | cons f fields ih =>
    rw [List.foldr_cons, ih fun g hg => h g (List.mem_cons_of_mem f hg)]
    exact h f List.mem_cons_self

/-- A node depends on the fields that its kind declares, and on no others. -/
theorem node_eq_of_agrees {k : Kind} (h : ∀ f ∈ k.shape.fields, t.Agrees f m) :
    m.node k = t.node k := by
  rw [← foldr_withField h]
  cases k <;> rfl

theorem toReference_eq_of_agrees (h : ∀ f ∈ Shape.reference.fields, t.Agrees f m) :
    m.toReference = t.toReference := by
  rw [← foldr_withField h]
  rfl

theorem toFootnote_eq_of_agrees (h : ∀ f ∈ Shape.footnote.fields, t.Agrees f m) :
    m.toFootnote = t.toFootnote := by
  rw [← foldr_withField h]
  rfl

end Members

namespace Shape

variable {s : Shape} {f : Field} {name : String}

theorem field?_name (h : f ∈ s.fields) : s.field? f.name = some f := by
  revert f
  cases s <;> decide

theorem field?_eq_some_iff : s.field? name = some f ↔ f ∈ s.fields ∧ f.name = name := by
  refine ⟨fun h => ⟨List.mem_of_find?_eq_some h, ?_⟩, fun ⟨hf, hname⟩ => hname ▸ field?_name hf⟩
  simpa using List.find?_some h

theorem mem_fields_of_required (h : s.required? = some f) : f ∈ s.fields := by
  cases s <;> cases h <;> decide

end Shape

/-! ### One member -/

/-- A declared member is read into a field as the record `t` has it. -/
structure Member.Fits (s : Shape) (t : Members) (d : Member) (f : Field) : Prop where
  name_eq : d.name = f.name
  field_eq : ∀ v, d.IsSpelling v → ∀ m, Decode.field f m v = .ok (t.withField f m)
  agrees_default : d.MayLack → t.Agrees f {}
  not_required : d.MayLack → s.required? ≠ some f
  canonical : ∀ v, d.IsSpelling v → d.IsSpelling v.canonical

/-- The members of a record are read into the fields of a shape as the record `t` has them. -/
abbrev Fit (s : Shape) (t : Members) (declared : List Member) : Prop :=
  List.Forall₂ (Member.Fits s t) declared s.fields

/-! ### Records as objects -/

variable {s : Shape} {t : Members} {declared : List Member}

/-- What reading members on top of others needs to end in what `t` has: the members have different
names and set fields as in `t`, none of them was given before, and each field in which the members
so far differ from `t` is still to come, as is the required one. -/
structure ReadsOn (s : Shape) (t : Members) (seen : List Field) (m : Members)
    (members : JsonMembers) : Prop where
  field_eq : ∀ e ∈ members, ∀ f, s.field? e.1 = some f →
    ∀ m, Decode.field f m e.2 = .ok (t.withField f m)
  nodup : (members.map Prod.fst).Nodup
  unseen : ∀ f ∈ seen, f.name ∉ members.map Prod.fst
  required : ∀ f, s.required? = some f → f ∈ seen ∨ f.name ∈ members.map Prod.fst
  agrees : ∀ f ∈ s.fields, t.Agrees f m ∨ f.name ∈ members.map Prod.fst

namespace ReadsOn

variable {members : JsonMembers} {seen : List Field} {m : Members} {k : String} {v : Json.Value}
  {f : Field}

/-- A field that a member of another name leaves open is still to come after it. -/
theorem mem_rest (hf : f.name ∈ ((k, v) :: members).map Prod.fst) (hne : f.name ≠ k) :
    f.name ∈ members.map Prod.fst :=
  (List.mem_cons.1 hf).resolve_left hne

/-- After a member that is not declared, since no field has its name. -/
theorem of_undeclared (h : ReadsOn s t seen m ((k, v) :: members)) (hk : s.field? k = none) :
    ReadsOn s t seen m members := by
  have hne : ∀ f ∈ s.fields, f.name ≠ k := fun f hf hname => by
    rw [← hname, Shape.field?_name hf] at hk
    cases hk
  exact
    { field_eq := fun e he => h.field_eq e (List.mem_cons_of_mem _ he)
      nodup := (List.nodup_cons.1 h.nodup).2
      unseen := fun f hf hm => h.unseen f hf (List.mem_cons_of_mem _ hm)
      required := fun f hf => (h.required f hf).imp_right fun hm =>
        mem_rest hm (hne f (Shape.mem_fields_of_required hf))
      agrees := fun f hf => (h.agrees f hf).imp_right fun hm => mem_rest hm (hne f hf) }

/-- After a declared member, which sets its field and no other. -/
theorem of_declared (h : ReadsOn s t seen m ((k, v) :: members)) (hk : s.field? k = some f) :
    ReadsOn s t (f :: seen) (t.withField f m) members := by
  obtain ⟨hf, rfl⟩ := Shape.field?_eq_some_iff.1 hk
  have hother : ∀ g ∈ s.fields, g ≠ f → g.name ≠ f.name := fun g hg hne hname => by
    rw [← hname, Shape.field?_name hg] at hk
    exact hne (Option.some.inj hk)
  refine
    { field_eq := fun e he => h.field_eq e (List.mem_cons_of_mem _ he)
      nodup := (List.nodup_cons.1 h.nodup).2
      unseen := List.forall_mem_cons.2 ⟨(List.nodup_cons.1 h.nodup).1, fun g hg hm =>
        h.unseen g hg (List.mem_cons_of_mem _ hm)⟩
      required := fun g hg => ?_
      agrees := fun g hg => ?_ }
  · by_cases hgf : g = f
    · exact Or.inl (hgf ▸ List.mem_cons_self)
    · exact (h.required g hg).imp (List.mem_cons_of_mem f) fun hm =>
        mem_rest hm (hother g (Shape.mem_fields_of_required hg) hgf)
  · by_cases hgf : g = f
    · exact Or.inl (hgf ▸ Members.agrees_withField_self)
    · exact (h.agrees g hg).imp (·.withField f) fun hm => mem_rest hm (hother g hg hgf)

/-- Reading goes on to the end and gives what `t` has. -/
theorem exists_object_eq (h : ReadsOn s t seen m members) :
    ∃ m', Decode.object s seen m members = .ok m' ∧ ∀ f ∈ s.fields, t.Agrees f m' := by
  induction members generalizing seen m with
  | nil =>
    refine ⟨m, ?_, fun f hf => (h.agrees f hf).resolve_right List.not_mem_nil⟩
    rw [Decode.object]
    cases hrequired : s.required? with
    | none => rfl
    | some f => exact if_pos ((h.required f hrequired).resolve_right List.not_mem_nil)
  | cons e rest ih =>
    obtain ⟨k, v⟩ := e
    rw [Decode.object]
    cases hk : s.field? k with
    | none => exact ih (h.of_undeclared hk)
    | some f =>
      have hunseen : f ∉ seen := fun hf =>
        h.unseen f hf ((Shape.field?_eq_some_iff.1 hk).2 ▸ List.mem_cons_self)
      have hset := h.field_eq _ List.mem_cons_self f hk m
      change ∃ m', (if f ∈ seen then _ else _ : Decode.Result Members) = _ ∧ _
      rw [if_neg hunseen, hset]
      exact ih (h.of_declared hk)

end ReadsOn

/-- The entry of a name among members with different names. -/
theorem eq_of_mem_of_nodup {members : JsonMembers} (h : (members.map Prod.fst).Nodup)
    {e : String × Json.Value} (he : e ∈ members) {v : Json.Value} (hv : (e.1, v) ∈ members) :
    v = e.2 := by
  have hlookup := (OrderedMap.lookup_eq_some_iff_mem h).2 he
  rw [(OrderedMap.lookup_eq_some_iff_mem h).2 hv] at hlookup
  exact Option.some.inj hlookup

theorem exists_member_of_forall₂ {left : List Field}
    (h : List.Forall₂ (Member.Fits s t) declared left) {f : Field} (hf : f ∈ left) :
    ∃ d ∈ declared, d.Fits s t f := by
  obtain ⟨i, hi, rfl⟩ := List.mem_iff_getElem.1 hf
  have hi' : i < declared.length := h.length_eq ▸ hi
  exact ⟨declared[i], List.getElem_mem hi', (List.forall₂_iff_get.1 h).2 i hi' hi⟩

/-- The items of an array for the fields that are left, on top of members in which these fields
have their defaults and all others are as in `t`. -/
theorem exists_array_eq {given : Nat} {left : List Field} {m : Members} {items : List Json.Value}
    (hleft : List.Forall₂ (Member.Fits s t) declared left) (h : SpelledInOrder declared items)
    (hdefault : ∀ f, t.Agrees f {} → t.Agrees f m)
    (hagree : ∀ f ∈ s.fields, t.Agrees f m ∨ f ∈ left) :
    ∃ m', Decode.array s given left m items = .ok m' ∧ ∀ f ∈ s.fields, t.Agrees f m' := by
  induction items generalizing declared left m with
  | nil =>
    -- The fields that the array does not reach have defaults, and none of them is required.
    have hlack : ∀ d ∈ declared, d.MayLack := by
      cases declared <;> exact h
    refine ⟨m, ?_, fun f hf => (hagree f hf).elim id fun hf => ?_⟩
    · have hany : (left.any (some · = s.required?)) = false := by
        rw [List.any_eq_false]
        intro f hf hrequired
        obtain ⟨d, hd, hfits⟩ := exists_member_of_forall₂ hleft hf
        exact hfits.not_required (hlack d hd) (of_decide_eq_true hrequired).symm
      rw [Decode.array, Decode.absent, hany]
      rfl
    · obtain ⟨d, hd, hfits⟩ := exists_member_of_forall₂ hleft hf
      exact hdefault f (hfits.agrees_default (hlack d hd))
  | cons v items ih =>
    cases hleft with
    | nil => exact h.elim
    | @cons d f declared left hfits hrest =>
      obtain ⟨hspelled, h⟩ := h
      rw [Decode.array, hfits.field_eq v hspelled]
      refine ih hrest h (fun g hg => (hdefault g hg).withField f) fun g hg => ?_
      rcases hagree g hg with hg | hg
      · exact Or.inl (hg.withField f)
      · rcases List.mem_cons.1 hg with rfl | hg
        · exact Or.inl Members.agrees_withField_self
        · exact Or.inr hg

namespace Fit

variable (hfit : Fit s t declared)

include hfit

theorem exists_member {f : Field} (hf : f ∈ s.fields) : ∃ d ∈ declared, d.Fits s t f :=
  exists_member_of_forall₂ hfit hf

theorem exists_field {d : Member} (hd : d ∈ declared) : ∃ f, d.Fits s t f := by
  obtain ⟨i, hi, rfl⟩ := List.mem_iff_getElem.1 hd
  have hi' : i < s.fields.length := hfit.length_eq ▸ hi
  exact ⟨s.fields[i], (List.forall₂_iff_get.1 hfit).2 i hi hi'⟩

/-- **A record that is spelled by an object** is read as what is spelled. -/
theorem object_eq {members : JsonMembers} (h : SpelledAmong declared members) :
    ∃ m, Decode.object s [] {} members = .ok m ∧ ∀ f ∈ s.fields, t.Agrees f m := by
  refine ReadsOn.exists_object_eq
    { field_eq := fun e he f hf => ?_
      nodup := h.nodup
      unseen := fun f hf => absurd hf List.not_mem_nil
      required := fun f hf => Or.inr ?_
      agrees := fun f hf => ?_ }
  · obtain ⟨hmem, hname⟩ := Shape.field?_eq_some_iff.1 hf
    obtain ⟨d, hd, hfits⟩ := hfit.exists_member hmem
    have hde : d.name = e.1 := hfits.name_eq.trans hname
    rcases h.given_or_lacking d hd with ⟨v, hv, hspelled⟩ | ⟨-, hlacking⟩
    · rw [hde] at hv
      exact eq_of_mem_of_nodup h.nodup he hv ▸ hfits.field_eq v hspelled
    · exact absurd (hde ▸ List.mem_map_of_mem he) hlacking
  · obtain ⟨d, hd, hfits⟩ := hfit.exists_member (Shape.mem_fields_of_required hf)
    rcases h.given_or_lacking d hd with ⟨v, hv, -⟩ | ⟨hlack, -⟩
    · exact hfits.name_eq ▸ List.mem_map_of_mem hv
    · exact absurd hf (hfits.not_required hlack)
  · obtain ⟨d, hd, hfits⟩ := hfit.exists_member hf
    rcases h.given_or_lacking d hd with ⟨v, hv, -⟩ | ⟨hlack, -⟩
    · exact Or.inr (hfits.name_eq ▸ List.mem_map_of_mem hv)
    · exact Or.inl (hfits.agrees_default hlack)

/-- **A record that is spelled by an array** is read as what is spelled. -/
theorem array_eq {items : List Json.Value} (h : SpelledInOrder declared items) (given : Nat) :
    ∃ m, Decode.array s given s.fields {} items = .ok m ∧ ∀ f ∈ s.fields, t.Agrees f m :=
  exists_array_eq hfit h (fun _ => id) fun _ hf => Or.inr hf

/-- An object that spells a record still does when it is put in canonical form. -/
theorem canonical_among {members : JsonMembers} (h : SpelledAmong declared members) :
    SpelledAmong declared (Json.Value.canonicalMembers [] members) := by
  have hperm := Json.Value.canonicalMembers_perm h.nodup
  have hnames := hperm.map Prod.fst
  rw [List.map_map] at hnames
  refine ⟨hnames.nodup_iff.2 h.nodup, fun d hd => ?_⟩
  rcases h.given_or_lacking d hd with ⟨v, hv, hspelled⟩ | ⟨hlack, hname⟩
  · obtain ⟨f, hfits⟩ := hfit.exists_field hd
    exact Or.inl ⟨v.canonical, hperm.symm.subset (List.mem_map.2 ⟨_, hv, rfl⟩),
      hfits.canonical v hspelled⟩
  · exact Or.inr ⟨hlack, fun hm => hname (hnames.subset hm)⟩

omit hfit in
theorem canonical_inOrder_of_forall₂ {left : List Field} {items : List Json.Value}
    (hleft : List.Forall₂ (Member.Fits s t) declared left) (h : SpelledInOrder declared items) :
    SpelledInOrder declared (Json.Value.canonicalItems items) := by
  induction items generalizing declared left with
  | nil => exact h
  | cons v items ih =>
    cases hleft with
    | nil => exact h.elim
    | cons hfits hrest => exact ⟨hfits.canonical v h.1, ih hrest h.2⟩

/-- What a spelled record is read as, and its canonical form. -/
theorem record_eq {v : Json.Value} (h : SpellsRecord declared v) :
    (∃ m, Decode.record s v = .ok m ∧ ∀ f ∈ s.fields, t.Agrees f m) ∧
      SpellsRecord declared v.canonical := by
  cases h with
  | object h => exact ⟨hfit.object_eq h, .object (hfit.canonical_among h)⟩
  | array h => exact ⟨hfit.array_eq h _, .array (canonical_inOrder_of_forall₂ hfit h)⟩

end Fit

/-! ### Records with a tag -/

/-- The tag of the value is a text and is given once. -/
inductive HasTag : Json.Value → Prop
  | object {tag : String} {members : JsonMembers} (hnodup : (members.map Prod.fst).Nodup)
      (htag : ("tag", .string tag) ∈ members) : HasTag (.object members)
  | array {tag : String} {items : List Json.Value} : HasTag (.array (.string tag :: items))

theorem SpellsTagged.hasTag {tag : String} {v : Json.Value} (h : SpellsTagged tag declared v) :
    HasTag v := by
  cases h with
  | object htag h => exact .object h.nodup htag
  | array => exact .array

theorem SpellsUnknown.hasTag {v : Json.Value} (h : SpellsUnknown v) : HasTag v := by
  cases h with
  | mk hnodup htag => exact .object hnodup htag

/-- The tag among members with different names. -/
theorem Decode.tagAmong_eq {tag : Json.Value → Decode.Result (Option Kind)}
    {members : JsonMembers} (h : (members.map Prod.fst).Nodup) {v : Json.Value}
    (hv : ("tag", v) ∈ members) : Decode.tagAmong tag members = tag v := by
  have hfilter : members.filter (·.1 = "tag") = [("tag", v)] := by
    obtain ⟨before, after, rfl⟩ := List.append_of_mem hv
    have hmiddle := (List.perm_middle.map Prod.fst).nodup_iff.1 h
    have hnil (l : JsonMembers) (hl : "tag" ∉ l.map Prod.fst) : l.filter (·.1 = "tag") = [] :=
      List.filter_eq_nil_iff.2 fun e he htag =>
        hl (of_decide_eq_true htag ▸ List.mem_map_of_mem he)
    have hout := (List.nodup_cons.1 hmiddle).1
    rw [List.map_append, List.mem_append, not_or] at hout
    rw [List.filter_append, hnil before hout.1, List.filter_cons_of_pos (by rfl),
      hnil after hout.2, List.nil_append]
  rw [Decode.tagAmong, hfilter]

/-- A tag that is a text means the same at the root and below it. -/
theorem Decode.node_eq_root {v : Json.Value} (h : HasTag v) : Decode.node v = Decode.root v := by
  cases h with
  | object hnodup htag =>
    rw [Decode.node, Decode.root, Decode.tagAmong_eq hnodup htag, Decode.tagAmong_eq hnodup htag]
    rfl
  | array =>
    rw [Decode.node, Decode.root]
    rfl

/-- The kind that a name is the tag of. -/
theorem Kind.ofTag?_name {k : Kind} (h : k ≠ .endnotes) : Kind.ofTag? k.name = some k := by
  cases k with
  | container k => cases k <;> decide
  | literal k => cases k <;> decide
  | leaf k => cases k <;> decide
  | raw k => cases k <;> decide
  | link k => cases k <;> decide
  | list k => cases k <;> decide
  | endnotes => exact absurd rfl h
  | _ => decide

/-- **A record with a tag** is read as the node of its kind that is spelled. -/
theorem Fit.root_eq {k : Kind} (hfit : Fit k.shape t declared) (hk : k ≠ .endnotes)
    {v : Json.Value} (h : SpellsTagged k.name declared v) :
    Decode.root v = .ok (t.node k) ∧ SpellsTagged k.name declared v.canonical := by
  have htagged : Decode.rootTag (.string k.name) = .ok (some k) :=
    congrArg Except.ok (Kind.ofTag?_name hk)
  cases h with
  | @object members htag h =>
    obtain ⟨m, hm, hagrees⟩ := hfit.object_eq h
    refine ⟨?_, .object ?_ (hfit.canonical_among h)⟩
    · rw [Decode.root, Decode.tagAmong_eq h.nodup htag, htagged,
        ← Members.node_eq_of_agrees hagrees]
      change (do return (← Decode.object k.shape [] {} members).node k : Decode.Result Node) = _
      rw [hm]
      rfl
    · exact (Json.Value.canonicalMembers_perm h.nodup).symm.subset (List.mem_map.2 ⟨_, htag, rfl⟩)
  | @array items h =>
    obtain ⟨m, hm, hagrees⟩ := hfit.array_eq h items.length
    refine ⟨?_, .array (canonical_inOrder_of_forall₂ hfit h)⟩
    rw [Decode.root, htagged, ← Members.node_eq_of_agrees hagrees]
    change (do return (← Decode.array k.shape items.length k.shape.fields {} items).node k :
      Decode.Result Node) = _
    rw [hm]
    rfl

/-- A node of no known kind is read as such. -/
theorem SpellsUnknown.root_eq {v : Json.Value} (h : SpellsUnknown v) :
    Decode.root v = .ok .unknown ∧ SpellsUnknown v.canonical := by
  obtain @⟨tag, members, hnodup, htag, hunknown⟩ := h
  have htagged : Decode.rootTag (.string tag) = .ok none := by
    refine congrArg Except.ok (List.find?_eq_none.2 fun k hk hname => hunknown ?_)
    exact List.mem_map.2 ⟨k, hk, of_decide_eq_true hname⟩
  have hperm := Json.Value.canonicalMembers_perm hnodup
  have hnames := hperm.map Prod.fst
  rw [List.map_map] at hnames
  refine ⟨?_, .mk (hnames.nodup_iff.2 hnodup)
    (hperm.symm.subset (List.mem_map.2 ⟨_, htag, rfl⟩)) hunknown⟩
  rw [Decode.root, Decode.tagAmong_eq hnodup htag, htagged]
  rfl

end DocMarkup
