import DocMarkup.Proofs.Markup.Keys
import DocMarkup.Proofs.Render.Relabel

/-!
# Keys of sanitized elements tell places

The place of a node in raw HTML is the list of its indices among siblings from the top down. The
key of a sanitized element is the given key with the place of the element behind it, a hyphen
before each index. Places are those in the tree as it is read, before anything blocked is dropped;
so the keys of all elements, however deep, are different, and what is left after dropping has the
keys that it would have if nothing was dropped.

## Main definitions

* `RawHtml.nodeAt?` : the node at a place.
* `RawHtml.placeKey` : the key of a place.
* `RawHtml.outputs` : raw HTML as output trees, nothing dropped.
* `Html.unblockedAll` : output trees without blocked elements and what these hold.

## Main results

* `RawHtml.placeKey_inj` : the key of a place tells the place.
* `RawHtml.sanitizeNodes_eq_unblockedAll` : sanitizing drops what is blocked and nothing else.
* `RawHtml.keyedByPlace` : keys, places and structure of sanitized raw HTML.
-/

namespace DocMarkup

/-! ### Places -/

namespace RawHtml

/-- The nodes that a node holds. -/
def RawNode.children : RawNode → List RawNode
  | element _ _ kids => kids
  | text _ => []

/-- The node at a place inside a node, told by indices of children from the node down. -/
def RawNode.at? (n : RawNode) : List Nat → Option RawNode
  | [] => some n
  | i :: place => n.children[i]?.bind fun c => c.at? place

/-- The node at a place in nodes side by side. -/
def nodeAt? (ns : List RawNode) : List Nat → Option RawNode
  | [] => none
  | i :: place => ns[i]?.bind fun n => n.at? place

/-- The indices of a place, each behind a hyphen. -/
def placeChars (place : List Nat) : List Char := place.flatMap fun i => '-' :: Decimal.digits i

/-- The key of a place below a key. -/
def placeKey (key : String) (place : List Nat) : String := key ++ String.ofList (placeChars place)

theorem placeKey_nil (key : String) : placeKey key [] = key := String.append_empty

theorem childKey_eq (key : String) (i : Nat) :
    childKey key i = key ++ String.ofList ('-' :: Decimal.digits i) := by
  rw [childKey, String.append_assoc, Decimal.text, ← List.singleton_append, String.ofList_append]

theorem placeKey_cons (key : String) (i : Nat) (place : List Nat) :
    placeKey key (i :: place) = placeKey (childKey key i) place := by
  rw [placeKey, placeKey, childKey_eq, String.append_assoc, ← String.ofList_append]
  rfl

theorem placeKey_concat (key : String) (place : List Nat) (i : Nat) :
    placeKey key (place ++ [i]) = childKey (placeKey key place) i := by
  rw [placeKey, placeKey, childKey_eq, String.append_assoc, ← String.ofList_append, placeChars,
    List.flatMap_append, List.flatMap_singleton, ← placeChars]

theorem placeChars_inj {place place' : List Nat} :
    placeChars place = placeChars place' ↔ place = place' := by
  refine ⟨fun h => ?_, congrArg placeChars⟩
  induction place generalizing place' with
  | nil =>
    cases place' with
    | nil => rfl
    | cons => cases h
  | cons i place ih =>
    cases place' with
    | nil => cases h
    | cons j place' =>
      -- behind the digits of an index stands a hyphen, or nothing
      have hdigits (n : Nat) : ∀ c ∈ Decimal.digits n, c.isDigit = true := fun _ =>
        Decimal.isDigit_of_mem_digits
      have hend (p : List Nat) : ∀ c ∈ (placeChars p).head?, c.isDigit = false := by
        cases p with
        | nil => exact fun _ hc => nomatch hc
        | cons k p =>
          rintro c ⟨⟩
          rfl
      have htail : Decimal.digits i ++ placeChars place = Decimal.digits j ++ placeChars place' :=
        (List.cons.inj h).2
      have hindex := congrArg (List.takeWhile Char.isDigit) htail
      rw [Text.takeWhile_run (hdigits i) (hend place),
        Text.takeWhile_run (hdigits j) (hend place')] at hindex
      obtain rfl := Decimal.digits_inj.1 hindex
      rw [ih (List.append_cancel_left htail)]

/-- The key of a place tells the place. -/
theorem placeKey_inj {key : String} {place place' : List Nat} :
    placeKey key place = placeKey key place' ↔ place = place' := by
  rw [placeKey, placeKey, String.append_right_inj, String.ofList_inj, placeChars_inj]

end RawHtml

/-! ### What is dropped -/

namespace Html

mutual

/-- The tree without the blocked elements in it, if it is not one itself. -/
def unblocked? : Html → Option Html
  | text s => some (text s)
  | element tag key props kids =>
    if Hazard.isBlocked tag then none else some (element tag key props (unblockedAll kids))
  | fragment key kids => some (fragment key (unblockedAll kids))

/-- Trees side by side without blocked elements and what these hold. -/
def unblockedAll : List Html → List Html
  | [] => []
  | h :: rest => h.unblocked?.toList ++ unblockedAll rest

end

/-- The keys of trees side by side and of all trees in them. -/
def allKeys (hs : List Html) : List String := (subtreesAll hs).filterMap key?

theorem allKeys_append (hs hs' : List Html) : allKeys (hs ++ hs') = allKeys hs ++ allKeys hs' := by
  rw [allKeys, subtreesAll_append, List.filterMap_append]
  rfl

theorem allKeys_element (tag key : String) (props : Props) (kids : List Html) :
    allKeys [.element tag (some key) props kids] = key :: allKeys kids := by
  rw [allKeys, subtreesAll, subtreesAll, subtrees, List.append_nil]
  rfl

end Html

namespace RawHtml

open Html

mutual

/-- The output tree of the node at a place, nothing dropped. -/
def RawNode.output (key : String) (place : List Nat) : RawNode → Html
  | .text s => .text s
  | .element tag attrs kids =>
    .element tag (some (placeKey key place)) (sanitizeAttributes attrs)
      (outputsFrom key place 0 kids)

/-- The output trees of the nodes inside a place, from the `i`th on. -/
def outputsFrom (key : String) (place : List Nat) (i : Nat) : List RawNode → List Html
  | [] => []
  | n :: rest => n.output key (place ++ [i]) :: outputsFrom key place (i + 1) rest

end

/-- Raw HTML as output trees, each element with the key of its place and nothing dropped. -/
def outputs (key : String) (ns : List RawNode) : List Html := outputsFrom key [] 0 ns

mutual

theorem sanitizeNode?_eq_unblocked? (key : String) (place : List Nat) (i : Nat) :
    (n : RawNode) → sanitizeNode? (placeKey key place) i n =
      (n.output key (place ++ [i])).unblocked?
  | .text _ => rfl
  | .element tag attrs kids => by
      rw [sanitizeNode?, RawNode.output, unblocked?, ← placeKey_concat,
        sanitizeNodes_eq_unblockedAll key (place ++ [i]) 0 kids]

/-- Sanitizing drops what is blocked and nothing else. -/
theorem sanitizeNodes_eq_unblockedAll (key : String) (place : List Nat) (i : Nat) :
    (ns : List RawNode) → sanitizeNodes (placeKey key place) i ns =
      unblockedAll (outputsFrom key place i ns)
  | [] => rfl
  | n :: rest => by
      rw [sanitizeNodes, outputsFrom, unblockedAll, sanitizeNode?_eq_unblocked? key place i n,
        sanitizeNodes_eq_unblockedAll key place (i + 1) rest]

end

/-! ### Elements and their places -/

/-- An output element is what a raw element becomes that stands at a place, with the key of that
place. -/
def StandsFor (find? : List Nat → Option RawNode) (key tag : String) (k : Option String)
    (props : Props) : Prop :=
  ∃ place attrs inside, find? place = some (.element tag attrs inside) ∧
    k = some (placeKey key place) ∧ props = sanitizeAttributes attrs

mutual

theorem standsFor_sanitizeNode? (key : String) (i : Nat) :
    (n : RawNode) → AllElements (fun tag k props _ => StandsFor n.at? (childKey key i) tag k props)
      (sanitizeNode? key i n).toList
  | .text _ => allElements_text
  | .element tag attrs kids => by
      rw [sanitizeNode?]
      split
      · exact allElements_nil
      · refine allElements_element.2
          ⟨⟨[], attrs, kids, rfl, by rw [placeKey_nil], rfl⟩, fun tag' k props kids' hm => ?_⟩
        obtain ⟨j, n, hn, place, attrs', inside, hat, hk, hprops⟩ :=
          standsFor_sanitizeNodes (childKey key i) 0 kids tag' k props kids' hm
        refine ⟨j :: place, attrs', inside, ?_, ?_, hprops⟩
        · rw [RawNode.at?, RawNode.children, hn, Option.bind_some, hat]
        · rw [hk, Nat.zero_add, placeKey_cons]

/-- Elements of sanitized siblings come from elements inside a sibling, with keys that start with
its index, counted from `i` on. -/
theorem standsFor_sanitizeNodes (key : String) (i : Nat) :
    (ns : List RawNode) → AllElements (fun tag k props _ =>
      ∃ j n, ns[j]? = some n ∧ StandsFor n.at? (childKey key (i + j)) tag k props)
      (sanitizeNodes key i ns)
  | [] => allElements_nil
  | n :: rest => by
      rw [sanitizeNodes]
      refine allElements_append.2 ⟨fun tag k props kids hm => ?_, fun tag k props kids hm => ?_⟩
      · exact ⟨0, n, rfl, standsFor_sanitizeNode? key i n tag k props kids hm⟩
      · obtain ⟨j, m, hget, hstands⟩ :=
          standsFor_sanitizeNodes key (i + 1) rest tag k props kids hm
        exact ⟨j + 1, m, hget, Nat.succ_add_eq_add_succ i j ▸ hstands⟩

end

/-- Each element of sanitized raw HTML comes from the raw element at the place that its key
tells. -/
theorem standsFor_sanitize (source key : String) :
    AllElements (fun tag k props _ => StandsFor (nodeAt? (fragment source)) key tag k props)
      (sanitize source key) := fun tag k props kids hm => by
  obtain ⟨j, n, hn, place, attrs, inside, hat, hk, hprops⟩ :=
    standsFor_sanitizeNodes key 0 (fragment source) tag k props kids hm
  refine ⟨j :: place, attrs, inside, ?_, ?_, hprops⟩
  · rw [nodeAt?, hn, Option.bind_some, hat]
  · rw [hk, Nat.zero_add, placeKey_cons]

/-! ### Keys differ -/

mutual

theorem nodup_allKeys_sanitizeNode? (key : String) (i : Nat) :
    (n : RawNode) → (allKeys (sanitizeNode? key i n).toList).Nodup ∧
      ∀ k ∈ allKeys (sanitizeNode? key i n).toList, ∃ place, k = placeKey key (i :: place)
  | .text _ => ⟨List.nodup_nil, fun _ hk => absurd hk List.not_mem_nil⟩
  | .element tag attrs kids => by
      obtain ⟨hnodup, hplaces⟩ := nodup_allKeys_sanitizeNodes (childKey key i) 0 kids
      have hown : childKey key i = placeKey key [i] := by rw [placeKey_cons, placeKey_nil]
      rw [sanitizeNode?]
      split
      · exact ⟨List.nodup_nil, fun _ hk => absurd hk List.not_mem_nil⟩
      · rw [Option.toList_some, allKeys_element]
        refine ⟨List.nodup_cons.2 ⟨fun hm => ?_, hnodup⟩,
          List.forall_mem_cons.2 ⟨⟨[], hown⟩, fun k hk => ?_⟩⟩
        · obtain ⟨j, place, -, hk⟩ := hplaces _ hm
          rw [← placeKey_cons, hown, placeKey_inj] at hk
          cases hk
        · obtain ⟨j, place, -, rfl⟩ := hplaces k hk
          exact ⟨j :: place, (placeKey_cons key i (j :: place)).symm⟩

/-- The keys of sanitized siblings and of what is in them are different, and are keys of places
that start with the index of a sibling, counted from `i` on. -/
theorem nodup_allKeys_sanitizeNodes (key : String) (i : Nat) :
    (ns : List RawNode) → (allKeys (sanitizeNodes key i ns)).Nodup ∧
      ∀ k ∈ allKeys (sanitizeNodes key i ns), ∃ j place, i ≤ j ∧ k = placeKey key (j :: place)
  | [] => ⟨List.nodup_nil, fun _ hk => absurd hk List.not_mem_nil⟩
  | n :: rest => by
      obtain ⟨hfirst, hfirstPlaces⟩ := nodup_allKeys_sanitizeNode? key i n
      obtain ⟨hrest, hrestPlaces⟩ := nodup_allKeys_sanitizeNodes key (i + 1) rest
      rw [sanitizeNodes, allKeys_append]
      refine ⟨hfirst.append hrest fun k hk hk' => ?_, fun k hk => ?_⟩
      · obtain ⟨place, rfl⟩ := hfirstPlaces k hk
        obtain ⟨j, place', hj, hkey⟩ := hrestPlaces _ hk'
        obtain ⟨rfl, -⟩ := List.cons.inj (placeKey_inj.1 hkey)
        omega
      · rcases List.mem_append.1 hk with hk | hk
        · obtain ⟨place, rfl⟩ := hfirstPlaces k hk
          exact ⟨i, place, Nat.le_refl i, rfl⟩
        · obtain ⟨j, place, hj, rfl⟩ := hrestPlaces k hk
          exact ⟨j, place, by omega, rfl⟩

end

/-- What the keys of sanitized raw HTML have to do with the tree that it is read as. -/
structure KeyedByPlace (source key : String) : Prop where
  /-- Nothing is dropped but blocked elements with what they hold, and what is left is as it was,
  with the keys of the places from before. -/
  kept : sanitize source key = unblockedAll (outputs key (fragment source))
  /-- The key of an element tells the place of the raw element that it comes from. -/
  places : AllElements (fun tag k props _ => StandsFor (nodeAt? (fragment source)) key tag k props)
    (sanitize source key)
  /-- No two elements have the same key, however deep they are. -/
  distinct : (allKeys (sanitize source key)).Nodup
  /-- The markup is the same below every key. -/
  markup_eq : ∀ other, (Html.fragment none (sanitize source other)).markup =
    (Html.fragment none (sanitize source key)).markup

/-- **Keys of sanitized raw HTML tell places**, for every text and every key around it. -/
theorem keyedByPlace (source key : String) : KeyedByPlace source key where
  kept := by
    have h := sanitizeNodes_eq_unblockedAll key [] 0 (fragment source)
    rwa [placeKey_nil] at h
  places := standsFor_sanitize source key
  distinct := (nodup_allKeys_sanitizeNodes key 0 (fragment source)).1
  markup_eq other := by
    have hchars (k : String) : charsAll (sanitize source k) =
        charsAll (relabelAll id (fun _ => none) (sanitize source k)) := (charsAll_relabelAll _).symm
    rw [markup, markup, chars, chars, hchars other, hchars key,
      relabelAll_sanitize (fun _ _ => rfl) source other key]

-- what is dropped keeps its place
example : allKeys (sanitize "<i>a</i><form><hr></form><b><u>c</u></b>" "raw") =
    ["raw-0", "raw-2", "raw-2-0"] := by
  decide +kernel

end RawHtml

end DocMarkup
