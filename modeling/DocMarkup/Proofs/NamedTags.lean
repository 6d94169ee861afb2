import DocMarkup.Config
import DocMarkup.Proofs.Dict

/-!
# Tags by names of kinds

Overrides are made from pairs of a name and a tag, and all pairs count or none does. The first
pair with a fault decides the error, whatever comes behind it; without any fault each kind has the
tag that it is paired with last. Settings are checked elsewhere and for tags only, so that names
of no kind are all that is left to be found here: the smallest of them.

## Main definitions

* `OverrideError.Blames` : the fault of a pair.
* `Overrides.FirstFault` : the first fault of pairs.
* `Overrides.lastTag?`, `Overrides.kindsNamed` : what pairs say about a kind, and the kinds they
  name.

## Main results

* `Kind.ofName?_eq_some_iff` : a name is that of one kind at most.
* `Overrides.fault_or_map` : pairs have a first fault, or are kinds with tags.
* `Overrides.ofTags_map` : overrides from kinds with tags.
* `Overrides.ofTags_eq_error_iff` : the error is the first fault.
* `Overrides.ofTags_decided` : what pairs and what settings decide.
-/

namespace DocMarkup

/-! ### Names of kinds -/

namespace Kind

theorem nodup_map_name_all : (all.map name).Nodup := by decide +kernel

theorem nodup_all : all.Nodup := nodup_map_name_all.of_map

theorem name_injective : Function.Injective name := fun k l h =>
  List.inj_on_of_nodup_map nodup_map_name_all (mem_all k) (mem_all l) h

theorem ofName?_eq_some_iff {name : String} {k : Kind} : ofName? name = some k ↔ k.name = name := by
  have hfound {l : Kind} (h : ofName? name = some l) : l.name = name := by
    simpa using List.find?_some h
  refine ⟨hfound, ?_⟩
  rintro rfl
  cases h : ofName? k.name with
  | none => simpa using List.find?_eq_none.1 h k (mem_all k)
  | some l => rw [name_injective (hfound h)]

theorem ofName?_eq_none_iff {name : String} : ofName? name = none ↔ ∀ k : Kind, k.name ≠ name := by
  simp only [Option.eq_none_iff_forall_ne_some, ne_eq, ofName?_eq_some_iff]

end Kind

/-! ### Faults -/

/-- The fault of a pair of a name and a tag: no kind has the name, or else the tag is none. -/
inductive OverrideError.Blames : OverrideError → String × String → Prop
  | unknownKind {p : String × String} (h : ∀ k : Kind, k.name ≠ p.1) : Blames (.unknownKind p.1) p
  | invalidTag {k : Kind} {p : String × String} (hk : k.name = p.1)
      (ht : Html.isTagName p.2 = false) : Blames (.invalidTag k p.2) p

namespace Overrides

variable {ov : Overrides} {pairs : List (String × String)} {p : String × String} {e : OverrideError}

/-- The first pair with a fault has the fault `e`. -/
def FirstFault (pairs : List (String × String)) (e : OverrideError) : Prop :=
  ∃ before p after, pairs = before ++ p :: after ∧
    (∀ q ∈ before, ∀ e' : OverrideError, ¬ e'.Blames q) ∧ e.Blames p

/-- The tag that a kind is paired with last. -/
def lastTag? (pairs : List (String × String)) (k : Kind) : Option String :=
  pairs.reverse.lookup k.name

/-- The kinds that are named in pairs, each once. -/
def kindsNamed (pairs : List (String × String)) : List Kind :=
  Kind.all.filter fun k => k.name ∈ pairs.map Prod.fst

/-- A kind with a tag as a pair of names. -/
def named (e : Kind × String) : String × String := (e.1.name, e.2)

theorem mem_kindsNamed {k : Kind} : k ∈ kindsNamed pairs ↔ k.name ∈ pairs.map Prod.fst := by
  rw [kindsNamed, List.mem_filter, decide_eq_true_eq, and_iff_right (Kind.mem_all k)]

/-- A pair has a fault, or it is a kind with a tag. -/
theorem blames_or_named (p : String × String) :
    (∃ e : OverrideError, e.Blames p) ∨ ∃ e, named e = p ∧ Html.isTagName e.2 = true := by
  obtain ⟨name, tag⟩ := p
  cases hk : Kind.ofName? name with
  | none => exact .inl ⟨_, .unknownKind (Kind.ofName?_eq_none_iff.1 hk)⟩
  | some k =>
    obtain rfl := Kind.ofName?_eq_some_iff.1 hk
    cases ht : Html.isTagName tag with
    | false => exact .inl ⟨_, .invalidTag rfl ht⟩
    | true => exact .inr ⟨(k, tag), rfl, ht⟩

/-- A kind with a tag has no fault. -/
theorem not_blames_named {a : Kind × String} (h : Html.isTagName a.2 = true) :
    ¬ e.Blames (named a) := by
  rintro (hname | ⟨-, htag⟩)
  · exact hname a.1 rfl
  · exact Bool.false_ne_true (htag.symm.trans h)

/-- Pairs have a first fault, or all of them are kinds with tags. -/
theorem fault_or_map (pairs : List (String × String)) :
    (∃ e, FirstFault pairs e) ∨
      ∃ entries : List (Kind × String), pairs = entries.map named ∧
        ∀ a ∈ entries, Html.isTagName a.2 = true := by
  induction pairs with
  | nil => exact .inr ⟨[], rfl, fun _ ha => absurd ha List.not_mem_nil⟩
  | cons p pairs ih =>
    rcases blames_or_named p with ⟨e, he⟩ | ⟨a, rfl, ha⟩
    · exact .inl ⟨e, [], p, pairs, rfl, fun _ hq => absurd hq List.not_mem_nil, he⟩
    · rcases ih with ⟨e, before, p, after, rfl, hbefore, he⟩ | ⟨entries, rfl, hentries⟩
      · exact .inl ⟨e, named a :: before, p, after, rfl,
          List.forall_mem_cons.2 ⟨fun _ => not_blames_named ha, hbefore⟩, he⟩
      · exact .inr ⟨a :: entries, rfl, List.forall_mem_cons.2 ⟨ha, hentries⟩⟩

/-! ### Setting tags -/

/-- A kind with a tag is set. -/
theorem addTags_named {a : Kind × String} (ha : Html.isTagName a.2 = true) (ov : Overrides)
    (pairs : List (String × String)) :
    addTags ov (named a :: pairs) = addTags (ov.insert a.1 (.tag a.2)) pairs := by
  rw [named, addTags, Kind.ofName?_eq_some_iff.2 rfl]
  exact if_pos ha

/-- A pair with a fault ends it all. -/
theorem addTags_of_blames (h : e.Blames p) (ov : Overrides) (pairs : List (String × String)) :
    addTags ov (p :: pairs) = .error e := by
  obtain ⟨name, tag⟩ := p
  cases h with
  | unknownKind hname => rw [addTags, Kind.ofName?_eq_none_iff.2 hname]
  | invalidTag hk htag =>
    rw [addTags, Kind.ofName?_eq_some_iff.2 hk]
    exact if_neg (by simpa using htag)

theorem addTags_map {entries : List (Kind × String)}
    (h : ∀ a ∈ entries, Html.isTagName a.2 = true) (ov : Overrides)
    (pairs : List (String × String)) :
    addTags ov (entries.map named ++ pairs) =
      addTags ((entries.map (Prod.map id Override.tag)).foldl (fun m a => m.insert a.1 a.2) ov)
        pairs := by
  induction entries generalizing ov with
  | nil => rfl
  | cons a entries ih =>
    rw [List.forall_mem_cons] at h
    rw [List.map_cons, List.cons_append, addTags_named h.1, ih h.2]
    rfl

/-- Overrides from kinds with tags. -/
theorem ofTags_map {entries : List (Kind × String)}
    (h : ∀ a ∈ entries, Html.isTagName a.2 = true) :
    ofTags (entries.map named) = .ok (.ofList (entries.map (Prod.map id Override.tag))) := by
  rw [ofTags, ← List.append_nil (entries.map named), addTags_map h]
  rfl

/-- The first fault is the error. -/
theorem ofTags_of_firstFault (h : FirstFault pairs e) : ofTags pairs = .error e := by
  obtain ⟨before, p, after, rfl, hbefore, he⟩ := h
  rcases fault_or_map before with ⟨e', b, q, a, rfl, -, he'⟩ | ⟨entries, rfl, hentries⟩
  · exact absurd he' (hbefore q (by simp) e')
  · rw [ofTags, addTags_map hentries, addTags_of_blames he]

/-- **The error is the first fault**, if there is any. -/
theorem ofTags_eq_error_iff : ofTags pairs = .error e ↔ FirstFault pairs e := by
  refine ⟨fun h => ?_, ofTags_of_firstFault⟩
  rcases fault_or_map pairs with ⟨e', he'⟩ | ⟨entries, rfl, hentries⟩
  · cases (ofTags_of_firstFault he').symm.trans h
    exact he'
  · cases (ofTags_map hentries).symm.trans h

/-- Without an error the pairs are kinds with tags, and the overrides are made of these. -/
theorem exists_of_ofTags_eq_ok (h : ofTags pairs = .ok ov) :
    ∃ entries : List (Kind × String), pairs = entries.map named ∧
      ov = .ofList (entries.map (Prod.map id Override.tag)) := by
  rcases fault_or_map pairs with ⟨e, he⟩ | ⟨entries, rfl, hentries⟩
  · cases (ofTags_of_firstFault he).symm.trans h
  · cases (ofTags_map hentries).symm.trans h
    exact ⟨entries, rfl, rfl⟩

/-- A kind has the tag that it is paired with last. -/
theorem get?_of_ofTags (h : ofTags pairs = .ok ov) (k : Kind) :
    ov.get? k = (lastTag? pairs k).map Override.tag := by
  obtain ⟨entries, rfl, rfl⟩ := exists_of_ofTags_eq_ok h
  have hlast : lastTag? (entries.map named) k = entries.reverse.lookup k := by
    have hnames : (entries.reverse.map (Prod.map Kind.name id)).lookup k.name =
        (entries.reverse.lookup k).map id :=
      OrderedMap.lookup_map (fun _ _ he => Kind.name_injective he) id
    rw [Option.map_id, id, List.map_reverse] at hnames
    exact hnames
  have htags : (entries.reverse.map (Prod.map id Override.tag)).lookup (id k) =
      (entries.reverse.lookup k).map Override.tag :=
    OrderedMap.lookup_map (fun _ _ he => he) Override.tag
  rw [hlast, ← htags, List.map_reverse, OrderedMap.ofList, OrderedMap.get?_foldl_insert]
  exact Option.or_none

/-- There are as many overrides as kinds are named. -/
theorem size_of_ofTags (h : ofTags pairs = .ok ov) : ov.size = (kindsNamed pairs).length := by
  obtain ⟨entries, rfl, rfl⟩ := exists_of_ofTags_eq_ok h
  have hkeys : OrderedMap.keys (.ofList (entries.map (Prod.map id Override.tag))) =
      (entries.map Prod.fst).eraseDups := by
    rw [OrderedMap.ofList, OrderedMap.keys_foldl_insert, List.map_map]
    rfl
  have hmem (k : Kind) :
      k ∈ (entries.map Prod.fst).eraseDups ↔ k ∈ kindsNamed (entries.map named) := by
    have hfst : (entries.map named).map Prod.fst = (entries.map Prod.fst).map Kind.name := by
      rw [List.map_map, List.map_map]
      rfl
    rw [List.mem_eraseDups, mem_kindsNamed, hfst, List.mem_map_of_injective Kind.name_injective]
  have hperm : (entries.map Prod.fst).eraseDups.Perm (kindsNamed (entries.map named)) :=
    (List.perm_ext_iff_of_nodup (nodup_eraseDups _) (Kind.nodup_all.filter _)).2 hmem
  rw [← hperm.length_eq, ← hkeys, OrderedMap.keys, List.length_map, OrderedMap.size]

/-! ### Settings -/

/-- The tags of settings without a fault are tags. -/
theorem isTagName_of_fault?_eq_none {c : Config} (h : c.fault? = none) :
    ∀ q ∈ c.overrides.entries, Html.isTagName q.2 = true := by
  rw [Config.fault?] at h
  split at h
  · cases h
  · simpa using h

/-- A pair whose tag is one can have the fault only that no kind has the name. -/
theorem blames_iff_of_isTagName (h : Html.isTagName p.2 = true) :
    e.Blames p ↔ e = .unknownKind p.1 ∧ ∀ k : Kind, k.name ≠ p.1 := by
  constructor
  · rintro (hname | ⟨-, htag⟩)
    · exact ⟨rfl, hname⟩
    · exact absurd (htag.symm.trans h) Bool.false_ne_true
  · rintro ⟨rfl, hname⟩
    exact .unknownKind hname

/-- Under settings without a fault, what is wrong with a name is that no kind has it, and the
first such name is the smallest. -/
theorem ofTags_overrides_eq_error_iff {c : Config} (h : c.fault? = none) :
    ofTags c.overrides.entries = .error e ↔
      ∃ name ∈ c.overrides.keys, e = .unknownKind name ∧ (∀ k : Kind, k.name ≠ name) ∧
        ∀ other ∈ c.overrides.keys, (∀ k : Kind, k.name ≠ other) → name ≤ other := by
  have htags := isTagName_of_fault?_eq_none h
  rw [ofTags_eq_error_iff, Dict.keys]
  constructor
  · rintro ⟨before, p, after, hpairs, hbefore, he⟩
    have hasc := hpairs ▸ c.overrides.ascending
    rw [hpairs] at htags ⊢
    obtain ⟨rfl, hname⟩ := (blames_iff_of_isTagName (htags p (by simp))).1 he
    refine ⟨p.1, by simp, rfl, hname, fun other hother hunknown => ?_⟩
    rw [List.map_append, List.pairwise_append] at hasc
    rw [List.map_append, List.mem_append] at hother
    rcases hother with hm | hm
    · obtain ⟨q, hq, rfl⟩ := List.mem_map.1 hm
      exact absurd (.unknownKind hunknown) (hbefore q hq _)
    · rcases List.mem_cons.1 hm with rfl | hm
      · exact String.le_refl _
      · exact String.not_lt.1 (String.lt_asymm ((List.pairwise_cons.1 hasc.2.1).1 other hm))
  · rintro ⟨name, hm, rfl, hname, hleast⟩
    obtain ⟨p, hp, rfl⟩ := List.mem_map.1 hm
    obtain ⟨before, after, hpairs⟩ := List.append_of_mem hp
    have hasc := hpairs ▸ c.overrides.ascending
    rw [List.map_append, List.pairwise_append] at hasc
    refine ⟨before, p, after, hpairs, fun q hq e' he' => ?_, .unknownKind hname⟩
    have hmem : q ∈ c.overrides.entries := hpairs ▸ List.mem_append_left _ hq
    obtain ⟨-, hother⟩ := (blames_iff_of_isTagName (htags q hmem)).1 he'
    have hlt : q.1 < p.1 := hasc.2.2 q.1 (List.mem_map_of_mem hq) p.1 List.mem_cons_self
    exact String.not_lt.2 (hleast q.1 (List.mem_map_of_mem hmem) hother) hlt

/-! ### What pairs and settings decide -/

/-- What overrides from names are: all pairs count, or none does. -/
structure DecidedBy (pairs : List (String × String)) : Prop where
  /-- They fail just if a pair has a fault. -/
  fails : (∃ e, ofTags pairs = .error e) ↔ ∃ p ∈ pairs, ∃ e : OverrideError, e.Blames p
  /-- The error is the first fault. -/
  error : ∀ e, ofTags pairs = .error e ↔ FirstFault pairs e
  get? : ∀ ov, ofTags pairs = .ok ov → ∀ k, ov.get? k = (lastTag? pairs k).map Override.tag
  size : ∀ ov, ofTags pairs = .ok ov → ov.size = (kindsNamed pairs).length
  /-- A kind is served by its own last tag, or else by that of its alias. -/
  pick : ∀ ov, ofTags pairs = .ok ov → ∀ k,
    ov.pick k = ((lastTag? pairs k).or (k.alias?.bind (lastTag? pairs))).map Override.tag

theorem decidedBy (pairs : List (String × String)) : DecidedBy pairs where
  fails := by
    simp only [ofTags_eq_error_iff]
    constructor
    · rintro ⟨e, before, p, after, rfl, -, he⟩
      exact ⟨p, by simp, e, he⟩
    · rintro ⟨p, hp, e, he⟩
      refine (fault_or_map pairs).resolve_right ?_
      rintro ⟨entries, rfl, hentries⟩
      obtain ⟨a, ha, rfl⟩ := List.mem_map.1 hp
      exact not_blames_named (hentries a ha) he
  error := fun _ => ofTags_eq_error_iff
  get? := fun _ => get?_of_ofTags
  size := fun _ => size_of_ofTags
  pick := fun ov h k => by
    rw [Overrides.pick, get?_of_ofTags h]
    cases k.alias? with
    | none => simp
    | some l => cases lastTag? pairs k <;> simp [get?_of_ofTags h]

/-- **What pairs and settings decide.** Overrides from names are decided by the pairs; if these are
those of settings without a fault, they can fail for a name of no kind only, and then for the
smallest such name. -/
theorem ofTags_decided :
    (∀ pairs, DecidedBy pairs) ∧
      ∀ c : Config, c.fault? = none → ∀ e, ofTags c.overrides.entries = .error e ↔
        ∃ name ∈ c.overrides.keys, e = .unknownKind name ∧ (∀ k : Kind, k.name ≠ name) ∧
          ∀ other ∈ c.overrides.keys, (∀ k : Kind, k.name ≠ other) → name ≤ other :=
  ⟨decidedBy, fun _ h _ => ofTags_overrides_eq_error_iff h⟩

/-- Settings with two names of no kind. -/
def misnamed : Config :=
  { overrides := Dict.ofList [("zebra", "i"), ("mark", "b"), ("apex", "u"), ("para", "p")] }

theorem ofTags_decided_misnamed :
    misnamed.fault? = none ∧
      ofTags misnamed.overrides.entries = .error (.unknownKind "apex") ∧
      ofTags [("mark", "b"), ("code", "1"), ("apex", "")] =
        .error (.invalidTag (.literal .code) "1") ∧
      ∃ ov, ofTags [("mark", "b"), ("code", "tt"), ("mark", "i")] = .ok ov ∧ ov.size = 2 ∧
        ov.pick (.container .highlighted) = some (.tag "i") := by
  obtain ⟨hpairs, hsettings⟩ := ofTags_decided
  have hsound : misnamed.fault? = none := by decide +kernel
  have hapex : ∀ k : Kind, k.name ≠ "apex" := Kind.ofName?_eq_none_iff.1 (by decide +kernel)
  have hleast : ∀ name ∈ misnamed.overrides.keys, "apex" ≤ name := by decide +kernel
  refine ⟨hsound, (hsettings misnamed hsound _).2
    ⟨"apex", by decide +kernel, rfl, hapex, fun name hm _ => hleast name hm⟩,
    ((hpairs _).error _).2 ⟨[("mark", "b")], ("code", "1"), [("apex", "")], rfl, ?_, ?_⟩, ?_⟩
  · rintro q hq e he
    obtain rfl := List.mem_singleton.1 hq
    exact not_blames_named (a := (.container .mark, "b")) (by decide) he
  · exact OverrideError.Blames.invalidTag (p := ("code", "1")) rfl (by decide)
  · have htags : ∀ a ∈ [(Kind.container .mark, "b"), (.literal .code, "tt"),
        (.container .mark, "i")], Html.isTagName a.2 = true := by decide
    obtain ⟨ov, hov⟩ : ∃ ov, ofTags [("mark", "b"), ("code", "tt"), ("mark", "i")] = .ok ov :=
      ⟨_, ofTags_map htags⟩
    refine ⟨ov, hov, ((hpairs _).size ov hov).trans (by decide +kernel),
      ((hpairs _).pick ov hov _).trans ?_⟩
    rfl

end Overrides

end DocMarkup
