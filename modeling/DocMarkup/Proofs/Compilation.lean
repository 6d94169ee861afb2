import DocMarkup.CommandLine.Program
import DocMarkup.FileTree
import DocMarkup.Proofs.FirstOccurrence
import DocMarkup.Proofs.Recency

/-!
# Compilers are transparent

What a compiler keeps can be seen by how fast it is, but not by what it answers: every call gives
what decoding and rendering the text afresh gives, whatever was called before. The texts that are
kept are those compiled latest since everything was dropped, as many as there is room for. So a
program that renders files writes the same for every capacity.

## Main definitions

* `Call`, `Answer`, `Compiler.run` : runs of calls on one compiler.
* `Call.afresh` : the answer to a call without any memory.
* `Call.recent` : the texts compiled in a run, the latest first.
* `Program.renderAfresh` : the markup of inputs without a compiler.

## Main results

* `Compiler.Remembers.perform` : one call.
* `Compiler.run_transparent` : runs of calls.
-/

namespace DocMarkup

/-- The output tree of a text, decoded and rendered afresh. A blank text renders to nothing. -/
def Node.renderText (ov : Overrides) (source : String) : Except DecodeError (Option Html) :=
  if Text.allBlank source.toList then .ok none else (Node.ofText source).map (Node.render ov)

/-- A call on a compiler. -/
inductive Call where
  | compile (source : String)
  | render (ov : Overrides) (source : String)
  | clear

/-- What a call gives back. -/
inductive Answer where
  | tree (result : Except DecodeError Node)
  | output (result : Except DecodeError (Option Html))
  | done

namespace Call

/-- The answer to a call if nothing is kept from before. -/
def afresh : Call → Answer
  | compile source => .tree (Node.ofText source)
  | render ov source => .output (Node.renderText ov source)
  | clear => .done

/-- Whether the call fails or is given a blank text. -/
def IsIdle : Call → Prop
  | compile source => ∃ e, Node.ofText source = .error e
  | render _ source => Text.allBlank source.toList = true ∨ ∃ e, Node.ofText source = .error e
  | clear => False

/-- Whether the call drops every tree. -/
def isClear : Call → Bool
  | clear => true
  | compile _ | render .. => false

/-- The text that the call compiles, if it is the text of a document. -/
def compiled? : Call → Option String
  | compile source => if (Node.ofText source).isOk then some source else none
  | render _ source =>
    if !Text.allBlank source.toList && (Node.ofText source).isOk then some source else none
  | clear => none

/-- The texts of documents compiled since every tree was dropped, the latest first, each once. -/
def recent (calls : List Call) : List String :=
  ((calls.reverse.takeWhile (!·.isClear)).filterMap compiled?).eraseDups

/-- The texts compiled latest after one more call. -/
theorem recent_concat (calls : List Call) (call : Call) :
    recent (calls ++ [call]) =
      if call.isClear then []
      else match call.compiled? with
        | some source => Cache.touch source (recent calls)
        | none => recent calls := by
  have h := Cache.latestUses_concat isClear compiled? calls call
  cases hcompiled : call.compiled? with
  | none => rwa [hcompiled] at h
  | some source => rwa [hcompiled] at h

end Call

namespace Compiler

/-- The answer to a call, and the compiler after it. -/
def perform (c : Compiler) : Call → Answer × Compiler
  | .compile source => (.tree ((c.compile source).1.map Compiled.tree), (c.compile source).2)
  | .render ov source => (.output (c.render ov source).1, (c.render ov source).2)
  | .clear => (.done, c.clear)

/-- The answers to calls one after the other, and the compiler after them. -/
def run (c : Compiler) : List Call → List Answer × Compiler
  | [] => ([], c)
  | call :: rest =>
    let (answer, c) := c.perform call
    let (answers, c) := run c rest
    (answer :: answers, c)

/-- The compiler keeps the trees of the texts compiled latest, as many as its capacity. -/
structure Remembers (capacity : Nat) (c : Compiler) (used : List String) : Prop where
  capacity_eq : c.cache.capacity = capacity
  keeps : c.cache.Keeps used
  nodup : used.Nodup
  /-- Every tree that is kept is that of its text. -/
  decoded : ∀ e ∈ c.cache.entries, Node.ofText e.1 = .ok e.2

theorem remembers_empty (capacity : Nat) :
    (empty capacity).Remembers capacity (Call.recent []) where
  capacity_eq := rfl
  keeps := Cache.keeps_empty capacity
  nodup := List.nodup_nil
  decoded := fun _ he => absurd he List.not_mem_nil

namespace Remembers

variable {capacity : Nat} {c : Compiler} {used : List String} {source : String}

theorem keys_eq (h : c.Remembers capacity used) : c.cache.keys = used.take capacity := by
  rw [h.keeps, h.capacity_eq]

/-- A tree that is found is that of the text. -/
theorem ofText_of_peek (h : c.Remembers capacity used) {tree : Node}
    (hp : c.cache.peek source = some tree) : Node.ofText source = .ok tree := by
  obtain ⟨before, after, he, -⟩ := List.lookup_eq_some_iff.1 hp
  exact h.decoded (source, tree) (by rw [he]; simp)

/-- A text of a document gives its tree, whether it is kept or not, and was compiled latest. -/
theorem compile_of_ok (h : c.Remembers capacity used) {tree : Node}
    (hs : Node.ofText source = .ok tree) :
    (c.compile source).1.map Compiled.tree = .ok tree ∧
      (c.compile source).2.Remembers capacity (Cache.touch source used) := by
  cases hp : c.cache.peek source with
  | some found =>
    have hget : c.cache.get source = (some found, (c.cache.get source).2) := by
      rw [Cache.get, hp]
    have hfound : found = tree := by
      have hsame := (h.ofText_of_peek hp).symm.trans hs
      cases hsame
      rfl
    rw [compile, hget]
    refine ⟨congrArg Except.ok hfound, ?_⟩
    exact {
      capacity_eq := (Cache.capacity_get _ _).trans h.capacity_eq
      keeps := h.keeps.get h.nodup hp
      nodup := Cache.nodup_touch h.nodup source
      decoded := fun e he => by
        rcases Cache.mem_entries_get hp he with rfl | he
        · exact h.ofText_of_peek hp
        · exact h.decoded e he }
  | none =>
    have hget : c.cache.get source = (none, c.cache) := by
      rw [Cache.get, hp]
    rw [compile, hget, hs]
    refine ⟨rfl, ?_⟩
    exact {
      capacity_eq := (Cache.capacity_put _ _ _).trans h.capacity_eq
      keeps := h.keeps.put h.nodup source tree
      nodup := Cache.nodup_touch h.nodup source
      decoded := fun e he => by
        rcases Cache.mem_entries_put he with rfl | he
        · exact hs
        · exact h.decoded e he }

/-- A text of no document is not kept, and compiling it changes nothing. -/
theorem compile_of_error (h : c.Remembers capacity used) {e : DecodeError}
    (hs : Node.ofText source = .error e) : c.compile source = (.error e, c) := by
  have hget : c.cache.get source = (none, c.cache) := by
    cases hp : c.cache.peek source with
    | some tree => cases (h.ofText_of_peek hp).symm.trans hs
    | none => rw [Cache.get, hp]
  rw [compile, hget, hs]

theorem render_of_blank (c : Compiler) (ov : Overrides)
    (hb : Text.allBlank source.toList = true) : c.render ov source = (.ok none, c) := by
  rw [Compiler.render, if_pos hb]

theorem render_of_error (h : c.Remembers capacity used) (ov : Overrides) {e : DecodeError}
    (hb : Text.allBlank source.toList = false) (hs : Node.ofText source = .error e) :
    c.render ov source = (.error e, c) := by
  rw [Compiler.render, if_neg (by simp [hb]), h.compile_of_error hs]

theorem render_of_ok (h : c.Remembers capacity used) (ov : Overrides) {tree : Node}
    (hb : Text.allBlank source.toList = false) (hs : Node.ofText source = .ok tree) :
    (c.render ov source).1 = .ok (tree.render ov) ∧
      (c.render ov source).2.Remembers capacity (Cache.touch source used) := by
  obtain ⟨hanswer, hafter⟩ := h.compile_of_ok hs
  rw [Compiler.render, if_neg (by simp [hb])]
  cases hc : c.compile source with
  | mk result after =>
    rw [hc] at hanswer hafter
    cases result with
    | error => cases hanswer
    | ok t =>
      cases hanswer
      exact ⟨rfl, hafter⟩

/-- A call that fails or is given a blank text changes nothing of what is kept. -/
theorem perform_of_isIdle (h : c.Remembers capacity used) {call : Call} (hc : call.IsIdle) :
    (c.perform call).2 = c := by
  cases call with
  | compile source =>
    obtain ⟨e, hs⟩ := hc
    rw [perform, h.compile_of_error hs]
  | render ov source =>
    rw [perform]
    cases hb : Text.allBlank source.toList with
    | true => rw [render_of_blank c ov hb]
    | false =>
      obtain ⟨e, hs⟩ := hc.resolve_left (by simp [hb])
      rw [h.render_of_error ov hb hs]
  | clear => exact hc.elim

/-- **One call**: the answer is that of a call without any memory, and the texts that are kept are
again those compiled latest. -/
theorem perform {past : List Call} (h : c.Remembers capacity (Call.recent past)) (call : Call) :
    (c.perform call).1 = call.afresh ∧
      (c.perform call).2.Remembers capacity (Call.recent (past ++ [call])) := by
  rw [Call.recent_concat]
  cases call with
  | compile source =>
    rw [Compiler.perform, Call.afresh, Call.compiled?, Call.isClear, if_neg Bool.false_ne_true]
    cases hs : Node.ofText source with
    | error e =>
      rw [h.compile_of_error hs]
      exact ⟨rfl, h⟩
    | ok tree =>
      obtain ⟨hanswer, hafter⟩ := h.compile_of_ok hs
      exact ⟨congrArg Answer.tree hanswer, hafter⟩
  | render ov source =>
    rw [Compiler.perform, Call.afresh, Call.compiled?, Call.isClear, if_neg Bool.false_ne_true,
      Node.renderText]
    cases hb : Text.allBlank source.toList with
    | true =>
      rw [render_of_blank c ov hb]
      exact ⟨rfl, h⟩
    | false =>
      cases hs : Node.ofText source with
      | error e =>
        rw [h.render_of_error ov hb hs]
        exact ⟨rfl, h⟩
      | ok tree =>
        obtain ⟨hanswer, hafter⟩ := h.render_of_ok ov hb hs
        exact ⟨congrArg Answer.output hanswer, hafter⟩
  | clear =>
    exact ⟨rfl, ⟨h.capacity_eq, Cache.keeps_empty _, List.nodup_nil,
      fun _ he => absurd he List.not_mem_nil⟩⟩

/-- A run of calls, after any calls before. -/
theorem run {past : List Call} (h : c.Remembers capacity (Call.recent past)) (calls : List Call) :
    (c.run calls).1 = calls.map Call.afresh ∧
      (c.run calls).2.Remembers capacity (Call.recent (past ++ calls)) := by
  induction calls generalizing c past with
  | nil => exact ⟨rfl, by rwa [List.append_nil]⟩
  | cons call calls ih =>
    obtain ⟨hanswer, hafter⟩ := h.perform call
    obtain ⟨hanswers, hlast⟩ := ih hafter
    rw [List.append_assoc, List.singleton_append] at hlast
    exact ⟨by rw [Compiler.run, List.map_cons, ← hanswer, ← hanswers], hlast⟩

end Remembers

end Compiler

/-! ### The program -/

namespace Program

variable {m : Type → Type} [Monad m]

/-- The markup of inputs in order, up to the first that fails, each decoded and rendered
afresh. -/
def renderAfresh (host : Host m) (ov : Overrides) :
    List (Option String) → m (List String × Option Failure)
  | [] => pure ([], none)
  | input :: rest => do
    match ← source host input with
    | .error f => return ([], some f)
    | .ok text =>
      match Node.renderText ov text with
      | .error e => return ([], some (.document (inputName input) e))
      | .ok html =>
        let (lines, failure) ← renderAfresh host ov rest
        return ((html.map Html.markup).getD "" :: lines, failure)

/-- Rendering inputs on a compiler gives what rendering them afresh gives. -/
theorem renderEach_eq_renderAfresh (host : Host m) (ov : Overrides) {capacity : Nat}
    {c : Compiler} {past : List Call} (h : c.Remembers capacity (Call.recent past))
    (inputs : List (Option String)) :
    renderEach host ov c inputs = renderAfresh host ov inputs := by
  induction inputs generalizing c past with
  | nil => rfl
  | cons input rest ih =>
    rw [renderEach, renderAfresh]
    refine congrArg (source host input >>= ·) (funext fun result => ?_)
    cases result with
    | error f => rfl
    | ok text =>
      obtain ⟨hanswer, hafter⟩ := h.perform (.render ov text)
      have hrender : c.render ov text =
          (Node.renderText ov text, (c.perform (.render ov text)).2) :=
        Prod.ext (Answer.output.inj hanswer) rfl
      dsimp only
      rw [hrender]
      cases Node.renderText ov text with
      | error e => rfl
      | ok html => exact congrArg (· >>= _) (ih hafter)

/-- Whether the program renders under a capacity. -/
def Accepts (capacity : Nat) : Prop := 0 < capacity ∧ capacity ≤ maxCapacity

instance (capacity : Nat) : Decidable (Accepts capacity) := inferInstanceAs (Decidable (_ ∧ _))

/-- The settings that are found for a program, before a capacity given elsewhere is put in. -/
def settings (host : Host m) (path : Option String) : m (Except ConfigError Config) :=
  match path with
  | some path => Config.given host path
  | none => host.directories >>= Config.discover host

/-- What a program does under settings. -/
def renderUnder (host : Host m) (o : RenderOptions) (loaded : Except ConfigError Config) :
    m Outcome :=
  match loaded with
  | .error e => pure (outcome [] (some (.config e)) none)
  | .ok config =>
    match Overrides.ofTags config.overrides.entries with
    | .error e => pure (outcome [] (some (.overrides e)) none)
    | .ok ov =>
      if maxCapacity < config.capacity then pure exhausted
      else do
        let (lines, failure) ← renderEach host ov (Compiler.empty config.capacity) (inputs o.files)
        return outcome lines failure (if o.verbose then some (summary lines.length) else none)

theorem render_eq (host : Host m) (o : RenderOptions) :
    render host o = Config.load host o.config o.capacity >>= renderUnder host o := rfl

/-- A capacity that is accepted makes no fault of its own. -/
theorem checked_of_pos {capacity : Nat} (h : 0 < capacity) (config : Config) :
    Config.checked (some capacity) config =
      match config.overrides.entries.find? fun e => !Html.isTagName e.2 with
      | some e => .error (.invalidTag e.1 e.2)
      | none => .ok { config with capacity := capacity } := by
  rw [Config.checked, Config.fault?]
  dsimp only [Option.getD_some]
  rw [if_neg (by omega)]
  cases config.overrides.entries.find? fun e => !Html.isTagName e.2 <;> rfl

/-- Settings that differ in an accepted capacity have the same outcome. -/
theorem renderUnder_checked (host : Host m) (o : RenderOptions) {capacity capacity' : Nat}
    (h : Accepts capacity) (h' : Accepts capacity') (found : Except ConfigError Config) :
    renderUnder host o (found.bind (Config.checked (some capacity))) =
      renderUnder host o (found.bind (Config.checked (some capacity'))) := by
  cases found with
  | error e => rfl
  | ok config =>
    rw [Except.bind, Except.bind, checked_of_pos h.1, checked_of_pos h'.1]
    cases config.overrides.entries.find? fun e => !Html.isTagName e.2 with
    | some e => rfl
    | none =>
      dsimp only [renderUnder]
      cases Overrides.ofTags config.overrides.entries with
      | error e => rfl
      | ok ov =>
        dsimp only
        rw [if_neg (Nat.not_lt.2 h.2), if_neg (Nat.not_lt.2 h'.2),
          renderEach_eq_renderAfresh host ov (Compiler.remembers_empty capacity),
          renderEach_eq_renderAfresh host ov (Compiler.remembers_empty capacity')]

/-- Under a capacity that is not accepted, no input is read and nothing is rendered. -/
theorem renderUnder_of_not_accepts (host : Host m) (o : RenderOptions) {capacity : Nat}
    (h : ¬ Accepts capacity) (found : Except ConfigError Config) :
    ∃ out : Outcome, renderUnder host o (found.bind (Config.checked (some capacity))) = pure out ∧
      out.lines = [] := by
  cases found with
  | error e => exact ⟨_, rfl, rfl⟩
  | ok config =>
    rw [Except.bind]
    cases capacity with
    | zero => exact ⟨_, rfl, rfl⟩
    | succ capacity =>
      have hlarge : maxCapacity < capacity + 1 :=
        Nat.not_le.1 fun hle => h ⟨capacity.succ_pos, hle⟩
      rw [checked_of_pos capacity.succ_pos]
      cases config.overrides.entries.find? fun e => !Html.isTagName e.2 with
      | some e => exact ⟨_, rfl, rfl⟩
      | none =>
        dsimp only [renderUnder]
        cases Overrides.ofTags config.overrides.entries with
        | error e => exact ⟨_, rfl, rfl⟩
        | ok ov =>
          dsimp only
          rw [if_pos hlarge]
          exact ⟨_, rfl, rfl⟩

variable [LawfulMonad m]

theorem load_eq (host : Host m) (path : Option String) (capacity : Option Nat) :
    Config.load host path capacity =
      settings host path >>= fun found => pure (found.bind (Config.checked capacity)) := by
  cases path with
  | some path => rfl
  | none => exact (bind_assoc _ _ _).symm

/-- The outcome of a program is the same for all capacities that it accepts. -/
theorem render_capacity (host : Host m) (o : RenderOptions) {capacity capacity' : Nat}
    (h : Accepts capacity) (h' : Accepts capacity') :
    render host { o with capacity := some capacity } =
      render host { o with capacity := some capacity' } := by
  simp only [render_eq, load_eq, bind_assoc, pure_bind]
  exact congrArg (settings host o.config >>= ·)
    (funext fun found => renderUnder_checked host o h h' found)

/-- A program with a capacity that it does not accept writes nothing. -/
theorem lines_of_not_accepts (host : Host m) (o : RenderOptions) {capacity : Nat}
    (h : ¬ Accepts capacity) :
    Outcome.lines <$> render host { o with capacity := some capacity } =
      (fun _ => []) <$> settings host o.config := by
  rw [render_eq, load_eq, bind_assoc, map_bind, map_eq_pure_bind]
  refine congrArg (settings host o.config >>= ·) (funext fun found => ?_)
  obtain ⟨out, hout, hlines⟩ :=
    renderUnder_of_not_accepts host { o with capacity := some capacity } h found
  rw [pure_bind, hout, map_pure, hlines]

end Program

/-! ### Transparency -/

/-- A compiler of a capacity has, in a run of calls, no effect but that of a memory. -/
structure Transparent (capacity : Nat) (calls : List Call) : Prop where
  /-- Every call gives what it gives without any memory. -/
  answers : ((Compiler.empty capacity).run calls).1 = calls.map Call.afresh
  /-- A call that fails or is given a blank text leaves everything as it was. -/
  idle : ∀ call : Call, call.IsIdle →
    (((Compiler.empty capacity).run calls).2.perform call).2 =
      ((Compiler.empty capacity).run calls).2
  /-- The texts that are kept are those compiled latest, the latest first. -/
  kept : ((Compiler.empty capacity).run calls).2.cache.keys = (Call.recent calls).take capacity
  size : ((Compiler.empty capacity).run calls).2.cache.size =
    min capacity (Call.recent calls).length
  /-- A compiler with a larger capacity keeps these texts, and others behind them. -/
  larger : ∀ capacity', capacity ≤ capacity' →
    ((Compiler.empty capacity).run calls).2.cache.keys <+:
      ((Compiler.empty capacity').run calls).2.cache.keys
  /-- The markup of inputs, and the first that fails, are those of rendering them afresh. -/
  inputs : ∀ {m : Type → Type} [Monad m] (host : Host m) (ov : Overrides)
    (inputs : List (Option String)),
    Program.renderEach host ov (Compiler.empty capacity) inputs =
      Program.renderAfresh host ov inputs
  /-- The program has the same outcome under every other capacity that it accepts. -/
  program : ∀ {m : Type → Type} [Monad m] [LawfulMonad m] (host : Host m) (o : RenderOptions)
    (capacity' : Nat), Program.Accepts capacity → Program.Accepts capacity' →
    Program.render host { o with capacity := some capacity } =
      Program.render host { o with capacity := some capacity' }
  /-- With a capacity that it does not accept it has no markup: its settings are read, and no
  compiler is made. -/
  refused : ∀ {m : Type → Type} [Monad m] [LawfulMonad m] (host : Host m) (o : RenderOptions),
    ¬ Program.Accepts capacity →
      Outcome.lines <$> Program.render host { o with capacity := some capacity } =
        (fun _ => []) <$> Program.settings host o.config

/-- **Compilers are transparent** in every run of calls, for every capacity. -/
theorem Compiler.run_transparent (capacity : Nat) (calls : List Call) :
    Transparent capacity calls := by
  have hafter (capacity : Nat) := (remembers_empty capacity).run calls
  obtain ⟨hanswers, h⟩ := hafter capacity
  exact {
    answers := hanswers
    idle := fun call hcall => h.perform_of_isIdle hcall
    kept := h.keys_eq
    size := by
      rw [Cache.size, Cache.length_entries, h.keys_eq]
      exact List.length_take
    larger := fun capacity' hle => by
      rw [h.keys_eq, (hafter capacity').2.keys_eq]
      exact List.take_prefix_take_left hle
    inputs := fun host ov inputs =>
      Program.renderEach_eq_renderAfresh host ov (remembers_empty capacity) inputs
    program := fun host o capacity' hcap hcap' => Program.render_capacity host o hcap hcap'
    refused := fun host o hcap => Program.lines_of_not_accepts host o hcap }

/-- Calls that compile two texts, one of them again, with a fault and a blank text in between. -/
def mixedCalls : List Call :=
  [.compile "[\"para\"]", .render ∅ "[\"str\"]", .compile "[", .render ∅ " ",
    .compile "[\"para\"]"]

/-- A directory with one document. -/
def oneFile : FileTree := ⟨[(["a.json"], "[\"para\"]")], []⟩

theorem Compiler.run_transparent_mixedCalls :
    ((empty 1).run mixedCalls).2.cache.keys = ["[\"para\"]"] ∧
      ((empty 2).run mixedCalls).2.cache.keys = ["[\"para\"]", "[\"str\"]"] ∧
      (((empty 1).run mixedCalls).2.perform (.render ∅ " ")).2 = ((empty 1).run mixedCalls).2 ∧
      ((empty 1).run mixedCalls).2.cache.keys <+: ((empty 2).run mixedCalls).2.cache.keys ∧
      Program.render (oneFile.host [] "" []) ⟨["a.json", "a.json"], none, some 1, true⟩ =
        Program.render (oneFile.host [] "" []) ⟨["a.json", "a.json"], none, some 2, true⟩ := by
  have hone := run_transparent 1 mixedCalls
  have htwo := run_transparent 2 mixedCalls
  have hblank : (Call.render ∅ " ").IsIdle := Or.inl (by decide)
  have haccepts : Program.Accepts 1 ∧ Program.Accepts 2 := by decide
  exact ⟨hone.kept.trans (by decide +kernel), htwo.kept.trans (by decide +kernel),
    hone.idle _ hblank, hone.larger 2 (by decide),
    hone.program (oneFile.host [] "" []) ⟨["a.json", "a.json"], none, none, true⟩ 2 haccepts.1
      haccepts.2⟩

end DocMarkup
