import DocMarkup.Proofs.Json.Compact
import DocMarkup.Proofs.Tree.SpellingRead

/-!
# Every spelling of a tree is read as the tree

The value as it is, and every text of it. A text is read with an eye on the tag of the root, which
complains about a tag that is no text or that is given twice. A spelling of a tree has its tag once
and it is a text; so reading goes on to the end, and what it gives is decoded.

## Main results

* `Decode.reads_watchRoot` : a value whose tag is a text and is given once is taken from its tokens.
* `Node.read_of_spelledBy` : spellings and texts of them are read as the tree.
-/

namespace DocMarkup

open Json (Frame)
open Json.State (Quiet Reads)

namespace Decode

/-- The tag of the root is not looked for inside an item or a member of another name. -/
theorem quiet_watchRoot {f : Frame} {outer : List Frame}
    (hf : ∀ members, f ≠ .object members "tag") : Quiet watchRoot (f :: outer) := by
  intro st t hst
  unfold watchRoot
  split
  · rename_i members
    obtain ⟨before, hbefore⟩ := hst
    have hlast := congrArg List.length hbefore
    rw [List.length_append, List.length_cons] at hlast
    change before.length + (outer.length + 1) = 1 at hlast
    obtain rfl : before = [] := List.length_eq_zero_iff.mp (by omega)
    exact absurd (List.cons.inj hbefore).1 (hf members)
  · exact absurd (List.eq_nil_of_suffix_nil hst) (List.cons_ne_nil f outer)
  · exact absurd (List.eq_nil_of_suffix_nil hst) (List.cons_ne_nil f outer)
  · rfl

/-- There is nothing to say about a name that was not given before. -/
theorem watchRoot_key {before : JsonMembers} {k : String} (h : k ∉ before.map Prod.fst) :
    watchRoot (.key before.reverse []) (.string k) = none := by
  by_cases hk : k = "tag"
  · subst hk
    change (if before.reverse.any (·.1 = "tag") = true then _ else none) = none
    refine if_neg fun hany => h ?_
    obtain ⟨e, he, htag⟩ := List.any_eq_true.mp hany
    exact of_decide_eq_true htag ▸ List.mem_map_of_mem (List.mem_reverse.mp he)
  · simp only [watchRoot]
    split
    · rename_i hstring
      exact absurd (Json.Token.string.inj hstring) hk
    · rfl

/-- **A value with a tag** is taken from its tokens while its tag is looked at. -/
theorem reads_watchRoot {v : Json.Value} (h : HasTag v) {limit : Nat} (hdepth : v.depth ≤ limit) :
    Reads limit watchRoot [] v := by
  cases h with
  | @object tag members hnodup htag =>
    rw [Json.Value.depth] at hdepth
    refine Json.State.reads_object (by rw [List.length_nil]; omega) (fun _ => rfl) (fun _ => rfl)
      (fun _ _ => rfl) (fun _ _ _ => rfl) (fun k v hv seen => ?_)
      fun before k v after hmembers => ?_
    · by_cases hk : k = "tag"
      · subst hk
        obtain rfl := eq_of_mem_of_nodup hnodup htag hv
        exact fun rest => Json.State.run_token rfl rfl rest
      · have := Json.Value.depth_le_of_mem_members hv
        refine Json.State.reads_of_quiet v (by rw [List.length_singleton]; omega)
          (quiet_watchRoot fun members hframe => hk ?_)
        exact (Frame.object.inj hframe).2
    · refine watchRoot_key fun hk => ?_
      rw [hmembers, List.map_append] at hnodup
      exact (List.nodup_append.mp hnodup).2.2 k hk k List.mem_cons_self rfl
  | @array tag items =>
    rw [Json.Value.depth] at hdepth
    refine Json.State.reads_array (by rw [List.length_nil]; omega) (fun _ => rfl)
      (fun t ht => ?_) (fun _ _ => rfl) (fun _ _ => rfl) fun v hv seen => ?_
    · obtain rfl : Json.Token.string tag = t := Option.some.inj (ht _ rfl)
      rfl
    · have := Json.Value.depth_le_of_mem_items hv
      exact Json.State.reads_of_quiet v (by rw [List.length_singleton]; omega)
        (quiet_watchRoot fun _ hframe => by cases hframe)

end Decode

/-- **Every spelling of a tree is read as that tree**: the value, whatever freedom it takes, and
each text of it that opens no more containers at once than a text may. -/
theorem Node.read_of_spelledBy {n : Node} {v : Json.Value} (h : n.SpelledBy v) :
    Node.ofValue v = .ok n ∧
      ∀ s, v.IsText s → v.depth ≤ 127 → Node.ofText s = .ok n := by
  obtain ⟨hroot, hcanonical⟩ := n.isRead v h
  refine ⟨(n.isRead v.canonical hcanonical).1, fun s hs hdepth => ?_⟩
  have hreads : Reads Json.maxDepth Decode.watchRoot [] v :=
    Decode.reads_watchRoot h.hasTag hdepth
  have hrun := hreads []
  rw [List.append_nil] at hrun
  rw [Node.ofText, Json.Value.lexemes_of_isText hs, hrun]
  change (do
    let n ← Decode.root v
    if List.isEmpty [] then .ok n else .error (.json .malformed) : Except DecodeError Node) = _
  rw [hroot]
  rfl

/-- A document whose parts can be spelled in different ways. -/
def mixedTree : Node :=
  .doc
    [.cell true .default [.unknown, .literal .str "a" ∅] ∅,
      .codeBlock none "x" ∅,
      .heading 2 [] ∅ ((∅ : Attributes).insert "k" "v" |>.insert "a" "b")]
    ∅ ∅ ((∅ : References).insert "r" ⟨"", "u", ∅⟩) [("n", ⟨"n", [], ∅⟩)]

/-- A spelling of `mixedTree`: objects and arrays, members out of order, left out, absent and of
other names, an alignment that is none and a tag that is unknown. -/
def mixedSpelling : Json.Value :=
  .object
    [("new", .array [.number (.natural 1)]),
      ("autoReferences", .object [("r", .array [.string "", .string "u"])]),
      ("children", .array
        [.array [.string "cell", .bool true, .string "wide", .array
            [.object [("text", .array []), ("tag", .string "later")],
              .object [("text", .string "a"), ("level", .null), ("tag", .string "str")]]],
          .object [("lang", .null), ("tag", .string "code_block"), ("text", .string "x")],
          .object [("autoAttributes", .object [("k", .string "v"), ("a", .string "b")]),
            ("level", .number (.natural 2)), ("tag", .string "heading")]]),
      ("tag", .string "doc"),
      ("footnotes", .object [("n", .array [.string "n"])])]

theorem spelledBy_mixedSpelling : mixedTree.SpelledBy mixedSpelling := by
  have hcell : Node.SpelledBy (.cell true .default [.unknown, .literal .str "a" ∅] ∅) (.array
      [.string "cell", .bool true, .string "wide", .array
        [.object [("text", .array []), ("tag", .string "later")],
          .object [("text", .string "a"), ("level", .null), ("tag", .string "str")]]]) := by
    refine .array ⟨rfl, ⟨_, rfl, by decide⟩, ⟨_, rfl, _, _, rfl, ?_, _, _, rfl, ?_, rfl⟩, ?_⟩
    · exact .mk (by decide) (List.mem_of_getElem? (i := 1) rfl) (by decide)
    · refine .object (List.mem_of_getElem? (i := 2) rfl) ⟨by decide, ?_⟩
      refine List.forall_mem_cons.mpr ⟨.inl ⟨_, List.mem_of_getElem? (i := 0) rfl, rfl⟩, ?_⟩
      exact List.forall_mem_singleton.mpr (.inr ⟨rfl, by decide⟩)
    · exact List.forall_mem_singleton.mpr rfl
  have hcode : Node.SpelledBy (.codeBlock none "x" ∅)
      (.object [("lang", .null), ("tag", .string "code_block"), ("text", .string "x")]) := by
    refine .object (List.mem_of_getElem? (i := 1) rfl) ⟨by decide, ?_⟩
    refine List.forall_mem_cons.mpr ⟨.inl ⟨_, List.mem_of_getElem? (i := 0) rfl, rfl⟩, ?_⟩
    refine List.forall_mem_cons.mpr ⟨.inl ⟨_, List.mem_of_getElem? (i := 2) rfl, rfl⟩, ?_⟩
    exact List.forall_mem_singleton.mpr (.inr ⟨rfl, by decide⟩)
  have hheading : Node.SpelledBy
      (.heading 2 [] ∅ ((∅ : Attributes).insert "k" "v" |>.insert "a" "b"))
      (.object [("autoAttributes", .object [("k", .string "v"), ("a", .string "b")]),
        ("level", .number (.natural 2)), ("tag", .string "heading")]) := by
    refine .object (List.mem_of_getElem? (i := 2) rfl) ⟨by decide, ?_⟩
    refine List.forall_mem_cons.mpr ⟨.inl ⟨_, List.mem_of_getElem? (i := 1) rfl, rfl⟩, ?_⟩
    refine List.forall_mem_cons.mpr ⟨.inr ⟨rfl, by decide⟩, ?_⟩
    refine List.forall_mem_cons.mpr ⟨.inr ⟨rfl, by decide⟩, ?_⟩
    refine List.forall_mem_singleton.mpr
      (.inl ⟨_, List.mem_of_getElem? (i := 0) rfl, .mk (.swap _ _ []) ?_⟩)
    exact .cons ⟨rfl, rfl⟩ (.cons ⟨rfl, rfl⟩ .nil)
  have href : SpellsRecord (Member.ofReference ⟨"", "u", ∅⟩) (.array [.string "", .string "u"]) :=
    .array ⟨rfl, rfl, List.forall_mem_singleton.mpr rfl⟩
  have hnote : SpellsRecord (Member.ofFootnote "n" [] ∅ (allSpelledBy []))
      (.array [.string "n"]) :=
    .array ⟨rfl, List.forall_mem_cons.mpr ⟨rfl, List.forall_mem_singleton.mpr rfl⟩⟩
  refine .object (List.mem_of_getElem? (i := 3) rfl) ⟨by decide, ?_⟩
  refine List.forall_mem_cons.mpr ⟨.inl ⟨_, List.mem_of_getElem? (i := 2) rfl, _, rfl, _, _, rfl,
    hcell, _, _, rfl, hcode, _, _, rfl, hheading, rfl⟩, ?_⟩
  refine List.forall_mem_cons.mpr ⟨.inr ⟨rfl, by decide⟩, ?_⟩
  refine List.forall_mem_cons.mpr ⟨.inr ⟨rfl, by decide⟩, ?_⟩
  refine List.forall_mem_cons.mpr ⟨.inl ⟨_, List.mem_of_getElem? (i := 1) rfl,
    .mk (List.Perm.refl _) (.cons ⟨rfl, href⟩ .nil)⟩, ?_⟩
  exact List.forall_mem_singleton.mpr (.inl ⟨_, List.mem_of_getElem? (i := 4) rfl,
    List.pairwise_singleton _ _, .mk (List.Perm.refl _) ⟨_, _, rfl, hnote, rfl⟩⟩)

theorem Node.read_of_spelledBy_mixed :
    mixedTree.SpelledBy mixedSpelling ∧ mixedSpelling.IsText mixedSpelling.compact ∧
      mixedSpelling.depth = 6 ∧ Node.ofValue mixedSpelling = .ok mixedTree ∧
      Node.ofText mixedSpelling.compact = .ok mixedTree := by
  have hwritten : ∀ n ∈ mixedSpelling.numbers, n.IsWritten := by
    have hnumbers : mixedSpelling.numbers = [.natural 1, .natural 2] := by rfl
    rw [hnumbers, List.forall_mem_cons, List.forall_mem_singleton]
    exact ⟨Json.Number.isWritten_natural 1, Json.Number.isWritten_natural 2⟩
  have htext := Json.Value.isText_compact hwritten
  have hdepth : mixedSpelling.depth = 6 := by decide
  obtain ⟨hvalue, hread⟩ := Node.read_of_spelledBy spelledBy_mixedSpelling
  exact ⟨spelledBy_mixedSpelling, htext, hdepth, hvalue, hread _ htext (by rw [hdepth]; decide)⟩

end DocMarkup
