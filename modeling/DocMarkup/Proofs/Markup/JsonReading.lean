import DocMarkup.Markup.JsonForm
import DocMarkup.Proofs.Json.Compact
import DocMarkup.Proofs.OrderedMap

/-!
# Output trees read back from JSON

The JSON text of an output tree says all that the tree is. A reader that knows the names of the
members, but neither their order nor how a tree was written, gets the tree back: a tree without a
key from one with the empty key, every sort of property value, and properties and children in their
order. No object has two members of one name, so that looking a member up leaves nothing out, not
even where properties have the names of members.

## Main definitions

* `Json.Value.objects` : the objects in a value.
* `Json.Value.Plain` : values as trees have them.
* `OrderedMap.ofMembers?`, `PropValue.ofJson?`, `Props.ofJson?`, `Html.ofJson?` : what a JSON value
  says.
* `Html.ofJsonText?` : the tree that a JSON text says.

## Main results

* `Html.plain_toJson` : the values of trees have natural numbers and no member twice.
* `Html.ofJson?_toJson` : the tree of its JSON value.
* `Html.jsonText_faithful` : the tree of its JSON text.
-/

namespace DocMarkup

/-! ### Objects -/

namespace Json.Value

mutual

/-- The members of the objects in a value, each object before those inside it. -/
def objects : Value → List (List (String × Value))
  | .array items => objectsOfItems items
  | .object members => members :: objectsOfMembers members
  | _ => []

/-- The objects in items. -/
def objectsOfItems : List Value → List (List (String × Value))
  | [] => []
  | v :: rest => v.objects ++ objectsOfItems rest

/-- The objects in the values of members. -/
def objectsOfMembers : List (String × Value) → List (List (String × Value))
  | [] => []
  | (_, v) :: rest => v.objects ++ objectsOfMembers rest

end

theorem objectsOfItems_eq_flatMap (items : List Value) :
    objectsOfItems items = items.flatMap objects := by
  induction items with
  | nil => rfl
  | cons v items ih => rw [objectsOfItems, ih, List.flatMap_cons]

theorem objectsOfMembers_eq_flatMap (members : List (String × Value)) :
    objectsOfMembers members = members.flatMap fun m => m.2.objects := by
  induction members with
  | nil => rfl
  | cons m members ih => rw [objectsOfMembers, ih, List.flatMap_cons]

/-- The text that a value is. -/
def text? : Value → Option String
  | .string s => some s
  | _ => none

/-- The text of a member. -/
def memberText? (name : String) (members : List (String × Value)) : Option String :=
  (members.lookup name).bind text?

/-- Values as trees have them: of the numbers only natural ones, and no object with two members of
one name. -/
inductive Plain : Value → Prop
  | bool (b : Bool) : Plain (.bool b)
  | natural (n : UInt64) : Plain (.number (.natural n))
  | string (s : String) : Plain (.string s)
  | array {items : List Value} (h : ∀ v ∈ items, Plain v) : Plain (.array items)
  | object {members : List (String × Value)} (hnames : (members.map Prod.fst).Nodup)
      (h : ∀ m ∈ members, Plain m.2) : Plain (.object members)

namespace Plain

variable {v : Value}

theorem nodup_of_mem_objects (h : v.Plain) :
    ∀ members ∈ v.objects, (members.map Prod.fst).Nodup := by
  induction h with
  | bool | natural | string => exact fun _ hm => absurd hm List.not_mem_nil
  | @array items _ ih =>
    intro members hm
    rw [objects, objectsOfItems_eq_flatMap, List.mem_flatMap] at hm
    obtain ⟨v, hv, hm⟩ := hm
    exact ih v hv members hm
  | @object members hnames _ ih =>
    intro inner hm
    rw [objects, objectsOfMembers_eq_flatMap, List.mem_cons, List.mem_flatMap] at hm
    rcases hm with rfl | ⟨m, hm, hinner⟩
    · exact hnames
    · exact ih m hm inner hinner

theorem isWritten_of_mem_numbers (h : v.Plain) : ∀ n ∈ v.numbers, n.IsWritten := by
  induction h with
  | bool | string => exact fun _ hn => absurd hn List.not_mem_nil
  | natural n => exact List.forall_mem_singleton.2 (Number.isWritten_natural n)
  | @array items _ ih =>
    intro n hn
    rw [numbers, numbersOfItems_eq_flatMap, List.mem_flatMap] at hn
    obtain ⟨v, hv, hn⟩ := hn
    exact ih v hv n hn
  | @object members _ _ ih =>
    intro n hn
    rw [numbers, numbersOfMembers_eq_flatMap, List.mem_flatMap] at hn
    obtain ⟨m, hm, hn⟩ := hn
    exact ih m hm n hn

end Plain

end Json.Value

/-! ### Reading -/

/-- The map that members are, if each of their values is read. -/
def OrderedMap.ofMembers? {α : Type} (read : Json.Value → Option α)
    (members : List (String × Json.Value)) : Option (OrderedMap String α) := do
  let entries ← members.mapM fun m => do return (m.1, ← read m.2)
  return .ofList entries

/-- The property value that a JSON value is, told by its sort. -/
def PropValue.ofJson? : Json.Value → Option PropValue
  | .string s => some (.text s)
  | .bool b => some (.flag b)
  | .number (.natural n) => some (.number n)
  | .object members => (OrderedMap.ofMembers? Json.Value.text? members).map .style
  | _ => none

/-- The properties that a JSON value is. -/
def Props.ofJson? : Json.Value → Option Props
  | .object members => OrderedMap.ofMembers? PropValue.ofJson? members
  | _ => none

namespace Html

/-- The key among members, which may have none. -/
def keyAmong? (members : List (String × Json.Value)) : Option (Option String) :=
  match members.lookup "key" with
  | none => some none
  | some v => v.text?.map some

mutual

/-- The tree that a JSON value is. Members are looked up by name. -/
def ofJson? : Json.Value → Option Html
  | .object members =>
    match Json.Value.memberText? "type" members with
    | some "text" => (Json.Value.memberText? "text" members).map text
    | some "element" => do
      let tag ← Json.Value.memberText? "tag" members
      let key ← keyAmong? members
      let props ← (members.lookup "props").bind Props.ofJson?
      let kids ← kidsAmong? members
      return element tag key props kids
    | some "fragment" => do
      let key ← keyAmong? members
      let kids ← kidsAmong? members
      return fragment key kids
    | _ => none
  | _ => none

/-- The children among members. -/
def kidsAmong? : List (String × Json.Value) → Option (List Html)
  | [] => none
  | (name, v) :: rest => if name = "children" then ofItems? v else kidsAmong? rest

/-- The trees that the items of a JSON value are. -/
def ofItems? : Json.Value → Option (List Html)
  | .array items => ofJsonAll? items
  | _ => none

/-- The trees that JSON values are. -/
def ofJsonAll? : List Json.Value → Option (List Html)
  | [] => some []
  | v :: rest => do
    let h ← ofJson? v
    let hs ← ofJsonAll? rest
    return h :: hs

end

/-- The tree that a JSON text says. -/
def ofJsonText? (s : String) : Option Html :=
  match Json.read s.toList.length s with
  | .ok v => ofJson? v
  | .error _ => none

end Html

/-! ### Properties -/

/-- A map whose values are read back one by one is read back. -/
theorem OrderedMap.ofMembers?_entries {α : Type} {write : α → Json.Value}
    {read : Json.Value → Option α} (h : ∀ a, read (write a) = some a) (m : OrderedMap String α) :
    OrderedMap.ofMembers? read (m.entries.map fun e => (e.1, write e.2)) = some m := by
  have hentries (es : List (String × α)) :
      (es.map fun e => (e.1, write e.2)).mapM (fun m => do return (m.1, ← read m.2)) =
        some es := by
    induction es with
    | nil => rfl
    | cons e es ih =>
      rw [List.map_cons, List.mapM_cons, ih, h]
      rfl
  rw [ofMembers?, hentries]
  exact congrArg some (OrderedMap.ext (OrderedMap.entries_ofList m.nodup_keys))

theorem PropValue.ofJson?_toJson (v : PropValue) : PropValue.ofJson? v.toJson = some v := by
  cases v with
  | style s =>
    have htext (value : String) : Json.Value.text? (.string value) = some value := rfl
    rw [toJson, ofJson?, OrderedMap.ofMembers?_entries htext, Option.map_some]
  | _ => rfl

theorem Props.ofJson?_toJson (p : Props) : Props.ofJson? p.toJson = some p :=
  OrderedMap.ofMembers?_entries PropValue.ofJson?_toJson p

/-- Members with the names of entries are as different as these. -/
theorem OrderedMap.nodup_map_entries {α β : Type} (m : OrderedMap String α) (f : α → β) :
    ((m.entries.map fun e => (e.1, f e.2)).map Prod.fst).Nodup := by
  rw [List.map_map]
  exact m.nodup_keys

theorem PropValue.plain_toJson (v : PropValue) : v.toJson.Plain := by
  cases v with
  | text s => exact .string s
  | flag b => exact .bool b
  | number n => exact .natural n
  | style s => exact .object (s.nodup_map_entries _) (List.forall_mem_map.2 fun e _ => .string e.2)

theorem Props.plain_toJson (p : Props) : p.toJson.Plain :=
  .object (p.nodup_map_entries _) (List.forall_mem_map.2 fun e _ => e.2.plain_toJson)

/-! ### Trees -/

namespace Html

/-- The member for a key, in front of other members. -/
theorem plain_keyMember (key : Option String) {rest : List (String × Json.Value)}
    (hrest : ∀ m ∈ rest, m.2.Plain) : ∀ m ∈ keyMember key ++ rest, m.2.Plain := by
  cases key with
  | none => exact hrest
  | some k => exact List.forall_mem_cons.2 ⟨.string k, hrest⟩

mutual

theorem plain_toJson : ∀ h : Html, h.toJson.Plain
  | text s => by
    refine .object ?_ (List.forall_mem_cons.2 ⟨.string _, List.forall_mem_singleton.2 (.string s)⟩)
    exact (by decide : ["type", "text"].Nodup)
  | element tag key props kids => by
    have hkids : (Json.Value.array (toJsonAll kids)).Plain := .array (plain_toJsonAll kids)
    refine .object ?_ (List.forall_mem_cons.2 ⟨.string _, List.forall_mem_cons.2 ⟨.string tag,
      plain_keyMember key (List.forall_mem_cons.2
        ⟨props.plain_toJson, List.forall_mem_singleton.2 hkids⟩)⟩⟩)
    cases key with
    | none => exact (by decide : ["type", "tag", "props", "children"].Nodup)
    | some k => exact (by decide : ["type", "tag", "key", "props", "children"].Nodup)
  | fragment key kids => by
    have hkids : (Json.Value.array (toJsonAll kids)).Plain := .array (plain_toJsonAll kids)
    refine .object ?_ (List.forall_mem_cons.2 ⟨.string _,
      plain_keyMember key (List.forall_mem_singleton.2 hkids)⟩)
    cases key with
    | none => exact (by decide : ["type", "children"].Nodup)
    | some k => exact (by decide : ["type", "key", "children"].Nodup)

theorem plain_toJsonAll : ∀ hs : List Html, ∀ v ∈ toJsonAll hs, v.Plain
  | [] => fun _ hv => absurd hv List.not_mem_nil
  | h :: hs => List.forall_mem_cons.2 ⟨plain_toJson h, plain_toJsonAll hs⟩

end

mutual

/-- A tree is read back from its JSON value. -/
theorem ofJson?_toJson : ∀ h : Html, ofJson? h.toJson = some h
  | text s => rfl
  | element tag key props kids => by
    -- the member for the key does not stand in the way of those behind it
    have hread : ofJson? (element tag key props kids).toJson = do
        return element tag key (← Props.ofJson? props.toJson)
          (← ofItems? (.array (toJsonAll kids))) := by
      cases key <;> rfl
    rw [hread, Props.ofJson?_toJson, ofItems?, ofJsonAll?_toJsonAll kids]
    rfl
  | fragment key kids => by
    have hread : ofJson? (fragment key kids).toJson = do
        return fragment key (← ofItems? (.array (toJsonAll kids))) := by
      cases key <;> rfl
    rw [hread, ofItems?, ofJsonAll?_toJsonAll kids]
    rfl

theorem ofJsonAll?_toJsonAll : ∀ hs : List Html, ofJsonAll? (toJsonAll hs) = some hs
  | [] => rfl
  | h :: hs => by
    rw [toJsonAll, ofJsonAll?, ofJson?_toJson h, ofJsonAll?_toJsonAll hs]
    rfl

end

/-- A tree is read back from its JSON text. -/
theorem ofJsonText?_compact (h : Html) : ofJsonText? h.toJson.compact = some h := by
  rw [ofJsonText?, Json.read_length_compact h.plain_toJson.isWritten_of_mem_numbers]
  exact h.ofJson?_toJson

/-- **The JSON text of a tree says the tree**: no object in it has two members of one name, the
tree is read back from it, and so different trees have different texts. -/
theorem jsonText_faithful :
    (∀ h : Html, ∀ members ∈ h.toJson.objects, (members.map Prod.fst).Nodup) ∧
      (∀ h : Html, ofJsonText? h.toJson.compact = some h) ∧
      Function.Injective fun h : Html => h.toJson.compact := by
  refine ⟨fun h => h.plain_toJson.nodup_of_mem_objects, ofJsonText?_compact, fun h h' hsame => ?_⟩
  have hread : some h = some h' := calc
    some h = ofJsonText? h.toJson.compact := (ofJsonText?_compact h).symm
    _ = ofJsonText? h'.toJson.compact := congrArg ofJsonText? hsame
    _ = some h' := ofJsonText?_compact h'
  exact Option.some.inj hread

end Html

end DocMarkup
