import DocMarkup.Json.Reader
import DocMarkup.Proofs.Json.Lexing

/-!
# Reading a text of a value

The machine that reads JSON takes the tokens of a value from any state that waits for one to the
state after it, whatever containers are open around it, as long as they are not too many and the
watcher has nothing to say inside the value. So every text of a value is read as that value.

## Main definitions

* `Json.Value.depth` : how deep containers stand inside each other.
* `Json.State.Reads` : the machine takes the tokens of a value.
* `Json.State.Quiet` : a watcher that says nothing inside given containers.

## Main results

* `Json.State.reads_of_quiet` : values are taken where the watcher is quiet.
* `Json.read_of_isText` : a text of a value, read.
-/

namespace DocMarkup.Json

/-! ### Depth -/

namespace Value

mutual

/-- How many containers are open at once in a value. -/
def depth : Value → Nat
  | .array items => depthOfItems items + 1
  | .object members => depthOfMembers members + 1
  | _ => 0

/-- How many containers are open at once in an item. -/
def depthOfItems : List Value → Nat
  | [] => 0
  | v :: rest => max v.depth (depthOfItems rest)

/-- How many containers are open at once in the value of a member. -/
def depthOfMembers : List (String × Value) → Nat
  | [] => 0
  | (_, v) :: rest => max v.depth (depthOfMembers rest)

end

theorem depth_le_of_mem_items {v : Value} {items : List Value} (h : v ∈ items) :
    v.depth ≤ depthOfItems items := by
  induction items with
  | nil => cases h
  | cons w rest ih =>
    rw [depthOfItems]
    rcases List.mem_cons.mp h with rfl | h
    · exact Nat.le_max_left _ _
    · exact Nat.le_trans (ih h) (Nat.le_max_right _ _)

theorem depth_le_of_mem_members {k : String} {v : Value} {members : List (String × Value)}
    (h : (k, v) ∈ members) : v.depth ≤ depthOfMembers members := by
  induction members with
  | nil => cases h
  | cons e rest ih =>
    obtain ⟨l, w⟩ := e
    rw [depthOfMembers]
    rcases List.mem_cons.mp h with h | h
    · cases h
      exact Nat.le_max_left _ _
    · exact Nat.le_trans (ih h) (Nat.le_max_right _ _)

/-- A value starts with a token that does not close an array. -/
theorem exists_tokens_eq (v : Value) : ∃ t ts, v.tokens = t :: ts ∧ t ≠ .closeArray := by
  rcases v with _ | _ | _ | _ | (_ | ⟨_, _⟩) | (_ | ⟨⟨_, _⟩, _⟩) <;>
    exact ⟨_, _, rfl, by simp⟩

end Value

/-! ### The machine on the tokens of a value -/

namespace State

variable {ε : Type} {limit : Nat} {watch : State → Token → Option ε} {outer : List Frame}

/-- The containers that are open around what the machine waits for. -/
def frames : State → List Frame
  | value outer | arrayStart outer | arrayNext _ outer | objectStart outer | key _ outer
  | colon _ _ outer | objectNext _ outer => outer
  | done _ => []

/-- The watcher says nothing while these containers are open. -/
def Quiet (watch : State → Token → Option ε) (outer : List Frame) : Prop :=
  ∀ st t, outer <:+ st.frames → watch st t = none

/-- The machine takes the tokens of the value, inside these containers. -/
def Reads (limit : Nat) (watch : State → Token → Option ε) (outer : List Frame) (v : Value) :
    Prop :=
  ∀ rest, run limit watch (value outer) (v.tokens.map .token ++ rest) =
    run limit watch (complete v outer) rest

theorem Quiet.cons (h : Quiet watch outer) (f : Frame) : Quiet watch (f :: outer) :=
  fun st t hst => h st t ((List.suffix_cons f outer).trans hst)

/-- The watcher says nothing directly inside the containers. -/
theorem Quiet.here (h : Quiet watch outer) {st : State} (hst : st.frames = outer) (t : Token) :
    watch st t = none :=
  h st t (hst ▸ List.suffix_refl _)

/-- One move of the machine. -/
theorem run_token {st next : State} {t : Token} (hstep : st.step limit t = .ok next)
    (hwatch : watch st t = none) (rest : List Lexeme) :
    run limit watch st (.token t :: rest) = run limit watch next rest := by
  cases st with
  | done v => cases hstep
  | _ => rw [run, hstep, hwatch]; rintro _ ⟨⟩

/-- At its start an array waits for a value as it does after a comma. -/
theorem run_arrayStart {t : Token} (ht : t ≠ .closeArray)
    (hstart : watch (arrayStart outer) t = none)
    (hvalue : watch (value (.array [] :: outer)) t = none) (rest : List Lexeme) :
    run limit watch (arrayStart outer) (.token t :: rest) =
      run limit watch (value (.array [] :: outer)) (.token t :: rest) := by
  have hstep : step limit (arrayStart outer) t =
      step limit (value (.array [] :: outer)) t := by
    cases t <;> first | rfl | exact absurd rfl ht
  rw [run, run, hstep, hstart, hvalue] <;> rintro _ ⟨⟩

/-! ### Arrays -/

/-- The items of an array from a comma or its end on. -/
theorem run_moreItems {vs : List Value} (hwatch : ∀ seen t, watch (arrayNext seen outer) t = none)
    (hreads : ∀ v ∈ vs, ∀ seen, Reads limit watch (.array seen :: outer) v)
    (seen : List Value) (rest : List Lexeme) :
    run limit watch (arrayNext seen outer) ((Value.moreItems vs).map .token ++ rest) =
      run limit watch (complete (.array (seen.reverse ++ vs)) outer) rest := by
  induction vs generalizing seen with
  | nil =>
    rw [List.append_nil]
    exact run_token rfl (hwatch seen _) rest
  | cons v vs ih =>
    have hcomma : step limit (arrayNext seen outer) .comma =
      .ok (value (.array seen :: outer)) := rfl
    rw [Value.moreItems, List.map_cons, List.cons_append, List.map_append, List.append_assoc,
      run_token hcomma (hwatch seen _), hreads v List.mem_cons_self seen]
    change run limit watch (arrayNext (v :: seen) outer) _ = _
    rw [ih (fun w hw => hreads w (List.mem_cons_of_mem v hw)), List.reverse_cons,
      List.append_assoc, List.singleton_append]

/-- An array whose items are all taken is taken. -/
theorem reads_array {items : List Value} (hlimit : outer.length < limit)
    (hopen : ∀ t, watch (value outer) t = none)
    (hstart : ∀ t, (∀ v ∈ items.head?, t ∈ v.tokens.head?) → watch (arrayStart outer) t = none)
    (hfirst : ∀ t, (∀ v ∈ items.head?, t ∈ v.tokens.head?) →
      watch (value (.array [] :: outer)) t = none)
    (hnext : ∀ seen t, watch (arrayNext seen outer) t = none)
    (hreads : ∀ v ∈ items, ∀ seen, Reads limit watch (.array seen :: outer) v) :
    Reads limit watch outer (.array items) := by
  intro rest
  have hstep : step limit (value outer) .openArray = .ok (arrayStart outer) := by
    rw [step, enter, if_pos hlimit]
  cases items with
  | nil =>
    rw [Value.tokens, List.map_cons, List.cons_append, run_token hstep (hopen _)]
    exact run_token rfl (hstart _ (fun v hv => by cases hv)) rest
  | cons v vs =>
    obtain ⟨t, ts, hv, ht⟩ := v.exists_tokens_eq
    have hhead : ∀ w ∈ (v :: vs).head?, t ∈ w.tokens.head? := by
      rintro w ⟨⟩
      rw [hv]
      rfl
    have hread := hreads v List.mem_cons_self [] ((Value.moreItems vs).map .token ++ rest)
    rw [Value.tokens, List.map_cons, List.cons_append, List.map_append, List.append_assoc,
      run_token hstep (hopen _), hv, List.map_cons, List.cons_append,
      run_arrayStart ht (hstart t hhead) (hfirst t hhead)]
    rw [hv, List.map_cons, List.cons_append] at hread
    rw [hread]
    exact run_moreItems hnext (fun w hw => hreads w (List.mem_cons_of_mem v hw)) [v] rest

/-! ### Objects -/

/-- A member after its name: the colon and the value. -/
theorem run_member {k : String} {v : Value} {seen : List (String × Value)}
    (hcolon : ∀ t, watch (colon seen k outer) t = none)
    (hread : Reads limit watch (.object seen k :: outer) v) (rest : List Lexeme) :
    run limit watch (colon seen k outer) (.token .colon :: (v.tokens.map .token ++ rest)) =
      run limit watch (objectNext ((k, v) :: seen) outer) rest := by
  have hstep : step limit (colon seen k outer) .colon =
    .ok (value (.object seen k :: outer)) := rfl
  rw [run_token hstep (hcolon _), hread]
  rfl

/-- The members of an object from a comma or its end on. `hkey` lets the watcher look at a name
and those before it. -/
theorem run_moreMembers {ms : List (String × Value)}
    (hnext : ∀ seen t, watch (objectNext seen outer) t = none)
    (hcolon : ∀ seen k t, watch (colon seen k outer) t = none)
    (hreads : ∀ k v, (k, v) ∈ ms → ∀ seen, Reads limit watch (.object seen k :: outer) v)
    (seen : List (String × Value))
    (hkey : ∀ before k v after, seen.reverse ++ ms = before ++ (k, v) :: after →
      watch (key before.reverse outer) (.string k) = none) (rest : List Lexeme) :
    run limit watch (objectNext seen outer) ((Value.moreMembers ms).map .token ++ rest) =
      run limit watch (complete (.object (seen.reverse ++ ms)) outer) rest := by
  induction ms generalizing seen with
  | nil =>
    rw [List.append_nil]
    exact run_token rfl (hnext seen _) rest
  | cons e ms ih =>
    obtain ⟨k, v⟩ := e
    have hhere := hkey seen.reverse k v ms rfl
    rw [List.reverse_reverse] at hhere
    have hall : ((k, v) :: seen).reverse ++ ms = seen.reverse ++ (k, v) :: ms := by
      rw [List.reverse_cons, List.append_assoc, List.singleton_append]
    have hcomma : step limit (objectNext seen outer) .comma = .ok (key seen outer) := rfl
    have hname : step limit (key seen outer) (.string k) = .ok (colon seen k outer) := rfl
    rw [Value.moreMembers, List.map_cons, List.map_cons, List.map_cons, List.map_append,
      List.cons_append, List.cons_append, List.cons_append, List.append_assoc,
      run_token hcomma (hnext seen _), run_token hname hhere,
      run_member (hcolon seen k) (hreads k v List.mem_cons_self seen),
      ih (fun l w hw => hreads l w (List.mem_cons_of_mem _ hw)) _ (by rw [hall]; exact hkey),
      hall]

/-- An object whose values are all taken is taken. -/
theorem reads_object {members : List (String × Value)} (hlimit : outer.length < limit)
    (hopen : ∀ t, watch (value outer) t = none)
    (hstart : ∀ t, watch (objectStart outer) t = none)
    (hnext : ∀ seen t, watch (objectNext seen outer) t = none)
    (hcolon : ∀ seen k t, watch (colon seen k outer) t = none)
    (hreads : ∀ k v, (k, v) ∈ members → ∀ seen, Reads limit watch (.object seen k :: outer) v)
    (hkey : ∀ before k v after, members = before ++ (k, v) :: after →
      watch (key before.reverse outer) (.string k) = none) :
    Reads limit watch outer (.object members) := by
  intro rest
  have hstep : step limit (value outer) .openObject = .ok (objectStart outer) := by
    rw [step, enter, if_pos hlimit]
  rcases members with _ | ⟨⟨k, v⟩, ms⟩
  · rw [Value.tokens, List.map_cons, List.cons_append, run_token hstep (hopen _)]
    exact run_token rfl (hstart _) rest
  · have hname : step limit (objectStart outer) (.string k) = .ok (colon [] k outer) := rfl
    rw [Value.tokens, List.map_cons, List.map_cons, List.map_cons, List.map_append,
      List.cons_append, List.cons_append, List.cons_append, List.append_assoc,
      run_token hstep (hopen _), run_token hname (hstart _),
      run_member (hcolon [] k) (hreads k v List.mem_cons_self [])]
    exact run_moreMembers hnext hcolon (fun l w hw => hreads l w (List.mem_cons_of_mem _ hw))
      [(k, v)] hkey rest

/-! ### Values -/

/-- The machine takes every value that does not stand too deep, where the watcher is quiet. -/
theorem reads_of_quiet (v : Value) {outer : List Frame}
    (hdepth : outer.length + v.depth ≤ limit) (hquiet : Quiet watch outer) :
    Reads limit watch outer v := by
  match v with
  | .null | .bool _ | .number _ | .string _ =>
    exact fun rest => run_token rfl (hquiet (value outer) _ (List.suffix_refl _)) rest
  | .array items =>
    rw [Value.depth] at hdepth
    refine reads_array (by omega) (fun _ => hquiet.here rfl _) (fun _ _ => hquiet.here rfl _)
      (fun _ _ => (hquiet.cons _).here rfl _) (fun _ _ => hquiet.here rfl _) fun w hw seen => ?_
    have := Value.depth_le_of_mem_items hw
    exact reads_of_quiet w (by rw [List.length_cons]; omega) (hquiet.cons _)
  | .object members =>
    rw [Value.depth] at hdepth
    refine reads_object (by omega) (fun _ => hquiet.here rfl _) (fun _ => hquiet.here rfl _)
      (fun _ _ => hquiet.here rfl _) (fun _ _ _ => hquiet.here rfl _) (fun k w hw seen => ?_)
      (fun _ _ _ _ _ => hquiet.here rfl _)
    have := Value.depth_le_of_mem_members hw
    exact reads_of_quiet w (by rw [List.length_cons]; omega) (hquiet.cons _)
termination_by sizeOf v
decreasing_by
  · have := List.sizeOf_lt_of_mem hw
    simp only [Value.array.sizeOf_spec]
    omega
  · have := List.sizeOf_lt_of_mem hw
    simp only [Prod.mk.sizeOf_spec, Value.object.sizeOf_spec] at this ⊢
    omega

end State

/-- Every text of a value is read as that value, where it is not nested too deep. -/
theorem read_of_isText {v : Value} {s : String} (h : v.IsText s) {limit : Nat}
    (hdepth : v.depth ≤ limit) : read limit s = .ok v := by
  have hreads : State.Reads limit (fun _ _ => (none : Option Empty)) [] v :=
    State.reads_of_quiet v (by rw [List.length_nil]; omega) (fun _ _ _ => rfl)
  have hrun := hreads []
  rw [List.append_nil] at hrun
  rw [read, Value.lexemes_of_isText h, hrun]
  rfl

end DocMarkup.Json
