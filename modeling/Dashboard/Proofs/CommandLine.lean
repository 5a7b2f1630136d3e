import Dashboard.CommandLine
import Dashboard.Proofs.Formula.History
import Mathlib

/-!
# Arguments in Any Order

The arguments of the program fall into **parts**: a flag, an option with its value, or an
argument on its own, which is called positional. What an argument means depends on what was in
front of it: an option takes the next argument, whatever that looks like, and the first
positional argument is the formula while the others are values.

Still the parts can be arranged in any way. What they ask for can be read off the parts one
kind at a time: the flags that occur, the last settings file, the pairs of the mappings in
their order, and the positional arguments in theirs. Of these a formula keeps no more than the
last mapping of each path name and the last value of each identifier.

## Main results

* `splitPair_of_isPair` — a pair is split at its first equals sign.
* `interpret_spell_append` — parts in front of other arguments ask for what they hold.
* `accepted?_spell` — parts are accepted if one of them is positional.
* `run_of_condenses` — a formula needs only the last mapping and the last value of each name.
* `run_spell` — arguments may come in any order.
-/

namespace Dashboard.CommandLine

/-! ### Parts -/

/-- A flag, an option with its value, or an argument on its own. -/
inductive Part where
  | legacy
  | tree
  | config (path : String)
  | map (pair : String)
  | positional (argument : String)
  deriving DecidableEq

/-- The arguments of a part. -/
def Part.words : Part → List String
  | .legacy => ["--legacy"]
  | .tree => ["--ast"]
  | .config path => ["--config", path]
  | .map pair => ["--map", pair]
  | .positional argument => [argument]

/-- The arguments that parts are spelled with. -/
def spell (parts : List Part) : List String :=
  parts.flatMap Part.words

/-- The words that cannot be positional arguments. -/
def optionWords : List String :=
  ["--legacy", "--ast", "--config", "--map", "-h", "--help"]

/-- The settings files that are asked for. -/
def configs (parts : List Part) : List String :=
  parts.filterMap fun part => match part with
    | .config path => some path
    | _ => none

/-- The pairs of the mappings. -/
def mapped (parts : List Part) : List String :=
  parts.filterMap fun part => match part with
    | .map pair => some pair
    | _ => none

/-- The arguments that stand on their own. -/
def positionals (parts : List Part) : List String :=
  parts.filterMap fun part => match part with
    | .positional argument => some argument
    | _ => none

/-! ### Pairs -/

/-- A text is a key, which is not empty, and a value behind its first equals sign. -/
structure IsPair (text key value : String) : Prop where
  key_ne : key ≠ ""
  unmarked : '=' ∉ key.toList
  text_eq : text = key ++ "=" ++ value

/-- What is in front of the first equals sign of a text and what is behind it. -/
def pairOf (text : String) : String × String :=
  (String.ofList (text.toList.takeWhile (· ≠ '=')),
    String.ofList (text.toList.dropWhile (· ≠ '=')).tail)

/-- A pair falls into its key and the rest from the equals sign on. -/
theorem IsPair.split {text key value : String} (h : IsPair text key value) :
    text.toList.takeWhile (· ≠ '=') = key.toList ∧
      text.toList.dropWhile (· ≠ '=') = '=' :: value.toList := by
  have hkey : ∀ c ∈ key.toList, decide (c ≠ '=') = true := by
    intro c hc
    refine decide_eq_true ?_
    rintro rfl
    exact h.unmarked hc
  have htext : text.toList = key.toList ++ '=' :: value.toList := by
    rw [h.text_eq, String.toList_append, String.toList_append, List.append_assoc]
    rfl
  rw [htext, List.takeWhile_append_of_pos hkey, List.dropWhile_append_of_pos hkey]
  simp

/-- The two sides of a pair are its key and its value. -/
theorem IsPair.pairOf_eq {text key value : String} (h : IsPair text key value) :
    pairOf text = (key, value) := by
  rw [pairOf, h.split.1, h.split.2, List.tail_cons, String.ofList_toList, String.ofList_toList]

/-- **A pair is split at its first equals sign.** -/
theorem splitPair_of_isPair {text key value : String} (h : IsPair text key value) :
    splitPair text = .ok (pairOf text) := by
  have hne : key.toList ≠ [] := fun hnil => h.key_ne (String.toList_eq_nil_iff.mp hnil)
  obtain ⟨c, rest, hkey⟩ := List.exists_cons_of_ne_nil hne
  rw [h.pairOf_eq, splitPair, h.split.1, h.split.2, hkey]
  show Except.ok (String.ofList (c :: rest), String.ofList value.toList) = _
  rw [← hkey, String.ofList_toList, String.ofList_toList]

/-! ### What parts ask for -/

namespace Request

/-- What a part asks for, on top of what those in front of it ask for. -/
def take (r : Request) : Part → Request
  | .legacy => { r with legacy := true }
  | .tree => { r with showTree := true }
  | .config path => { r with config := some ⟨path⟩ }
  | .map pair => { r with mappings := r.mappings ++ [pairOf pair] }
  | .positional argument =>
    match r.formula with
    | none => { r with formula := some argument }
    | some _ =>
      let (id, value) := pairOf argument
      { r with values := r.values ++ [(id, scalarOfText value)] }

/-- What parts ask for, one kind of them at a time. -/
def ofParts (parts : List Part) : Request where
  legacy := decide (.legacy ∈ parts)
  showTree := decide (.tree ∈ parts)
  config := (configs parts).getLast?.map Path.mk
  mappings := (mapped parts).map pairOf
  formula := (positionals parts).head?
  values := (positionals parts).tail.map fun argument =>
    ((pairOf argument).1, scalarOfText (pairOf argument).2)

end Request

/-- Parts that make sense wherever they stand: the mappings are pairs, no positional argument
is spelled like an option, and all but the first of them are pairs. -/
structure Proper (parts : List Part) : Prop where
  mapping : ∀ pair ∈ mapped parts, ∃ path id, IsPair pair path id
  plain : ∀ argument ∈ positionals parts, argument ∉ optionWords
  value : ∀ argument ∈ (positionals parts).tail, ∃ id value, IsPair argument id value

/-- A part makes sense behind others that ask for something. -/
def Part.Fits (r : Request) : Part → Prop
  | .map pair => ∃ path id, IsPair pair path id
  | .positional argument =>
    argument ∉ optionWords ∧ (r.formula ≠ none → ∃ id value, IsPair argument id value)
  | _ => True

/-- **A part is read as a whole**, and what follows is read on top of it. -/
theorem interpret_words_append {r : Request} {part : Part} (h : part.Fits r) (rest : List String) :
    interpret r (part.words ++ rest) = interpret (r.take part) rest := by
  cases part with
  | legacy => rfl
  | tree => rfl
  | config path => rfl
  | map pair =>
      obtain ⟨path, id, hpair⟩ := h
      show (splitPair pair >>= fun mapping => _) = _
      rw [splitPair_of_isPair hpair]
      rfl
  | positional argument =>
      obtain ⟨hplain, hvalue⟩ := h
      simp only [optionWords, List.mem_cons, List.not_mem_nil, or_false, not_or] at hplain
      obtain ⟨hlegacy, htree, hconfig, hmap, hshort, hlong⟩ := hplain
      rw [Part.words, List.singleton_append, interpret, Request.take]
      · cases hformula : r.formula with
        | none => rfl
        | some formula =>
            obtain ⟨id, value, hpair⟩ := hvalue (by rw [hformula]; nofun)
            rw [splitPair_of_isPair hpair]
            rfl
      · exact hlegacy
      · exact htree
      · exact fun h _ => hconfig h
      · exact fun _ _ h _ => hconfig h
      · exact fun h _ => hmap h
      · exact fun _ _ h _ => hmap h
      · exact hshort
      · exact hlong

/-! ### Parts one after the other -/

section Concat

variable (parts : List Part) (part : Part)

/-- One more part asks for its settings file behind those of the others. -/
theorem configs_concat : configs (parts ++ [part]) = configs parts ++ configs [part] :=
  List.filterMap_append

/-- One more part has its mapping behind those of the others. -/
theorem mapped_concat : mapped (parts ++ [part]) = mapped parts ++ mapped [part] :=
  List.filterMap_append

/-- One more part has its argument behind those of the others. -/
theorem positionals_concat :
    positionals (parts ++ [part]) = positionals parts ++ positionals [part] :=
  List.filterMap_append

/-- A further part is asked for on top of those in front of it. -/
theorem Request.ofParts_concat :
    Request.ofParts (parts ++ [part]) = (Request.ofParts parts).take part := by
  rw [Request.ofParts, configs_concat, mapped_concat, positionals_concat]
  cases part with
  | legacy => simp [Request.take, Request.ofParts, configs, mapped, positionals]
  | tree => simp [Request.take, Request.ofParts, configs, mapped, positionals]
  | config path => simp [Request.take, Request.ofParts, configs, mapped, positionals]
  | map pair => simp [Request.take, Request.ofParts, configs, mapped, positionals]
  | positional argument =>
      have hone : positionals [.positional argument] = [argument] := rfl
      cases hbefore : positionals parts with
      | nil => simp [Request.take, Request.ofParts, configs, mapped, hbefore, hone]
      | cons first others => simp [Request.take, Request.ofParts, configs, mapped, hbefore, hone]

/-- Parts make sense without the last of them. -/
theorem Proper.of_concat (h : Proper (parts ++ [part])) : Proper parts where
  mapping pair hpair := h.mapping pair (by
    rw [mapped_concat]
    exact List.mem_append_left _ hpair)
  plain argument hargument := h.plain argument (by
    rw [positionals_concat]
    exact List.mem_append_left _ hargument)
  value argument hargument := h.value argument (by
    rw [positionals_concat, List.tail_append_of_ne_nil (by rintro hnil; simp [hnil] at hargument)]
    exact List.mem_append_left _ hargument)

/-- The last part makes sense behind the others. -/
theorem Proper.fits (h : Proper (parts ++ [part])) : part.Fits (Request.ofParts parts) := by
  cases part with
  | map pair =>
      refine h.mapping pair ?_
      rw [mapped_concat]
      exact List.mem_append_right _ (List.mem_singleton_self _)
  | positional argument =>
      have hone : positionals [.positional argument] = [argument] := rfl
      refine ⟨h.plain argument ?_, fun hformula => h.value argument ?_⟩
      · rw [positionals_concat, hone]
        exact List.mem_append_right _ (List.mem_singleton_self _)
      · have hbefore : positionals parts ≠ [] := by
          rintro hnil
          exact hformula (by rw [Request.ofParts, hnil]; rfl)
        rw [positionals_concat, hone, List.tail_append_of_ne_nil hbefore]
        exact List.mem_append_right _ (List.mem_singleton_self _)
  | _ => trivial

end Concat

/-- **Parts in front of other arguments ask for what they hold.** -/
theorem interpret_spell_append {parts : List Part} (h : Proper parts) (rest : List String) :
    interpret .empty (spell parts ++ rest) = interpret (.ofParts parts) rest := by
  induction parts using List.reverseRecOn generalizing rest with
  | nil => rfl
  | append_singleton parts part ih =>
      have hspell : spell (parts ++ [part]) ++ rest = spell parts ++ (part.words ++ rest) := by
        simp [spell]
      rw [hspell, ih h.of_concat, interpret_words_append h.fits, Request.ofParts_concat]

/-- The request that arguments make, if it is one that can be carried out: one with a
formula. -/
def accepted? (arguments : List String) : Option Request :=
  match interpret .empty arguments with
  | .ok (.request r) => if r.formula.isSome then some r else none
  | _ => none

/-- **Parts are accepted if one of them is positional.** -/
theorem accepted?_spell {parts : List Part} (h : Proper parts) :
    accepted? (spell parts) = if positionals parts = [] then none else some (.ofParts parts) := by
  have hinterpret := interpret_spell_append h []
  rw [List.append_nil] at hinterpret
  rw [accepted?, hinterpret, interpret]
  cases hpositionals : positionals parts with
  | nil => simp [Request.ofParts, hpositionals]
  | cons first others => simp [Request.ofParts, hpositionals]

/-! ### The last of each name -/

/-- The last value under a key. -/
def lastUnder? {α : Type} (key : String) (entries : List (String × α)) : Option α :=
  (entries.findRev? fun e => e.1 = key).map Prod.snd

/-- Some entries **condense** others if they have each key once, with its last value. -/
structure Condenses {α : Type} (given entries : List (String × α)) : Prop where
  nodup : (given.map Prod.fst).Nodup
  last : ∀ key, lastUnder? key given = lastUnder? key entries

section Last

variable {α β : Type}

/-- One more entry is the last one under its key. -/
theorem lastUnder?_concat (key : String) (entries : List (String × α)) (e : String × α) :
    lastUnder? key (entries ++ [e]) = if e.1 = key then some e.2 else lastUnder? key entries := by
  rw [lastUnder?, List.findRev?_eq_find?_reverse, List.reverse_append, List.reverse_singleton,
    List.singleton_append, List.find?_cons, ← List.findRev?_eq_find?_reverse]
  by_cases h : e.1 = key
  · simp [h]
  · simp [h, lastUnder?]

/-- The last value under a key is what a table holds in which all values were entered. -/
theorem find?_ofList_eq_lastUnder? (entries : List (String × α)) (key : String) :
    (Table.ofList entries).find? key = lastUnder? key entries := by
  induction entries using List.reverseRecOn with
  | nil => rfl
  | append_singleton entries e ih =>
      rw [Table.ofList, List.foldl_append]
      show ((Table.ofList entries).insert e.1 e.2).find? key = _
      rw [Table.find?_insert, lastUnder?_concat, ih]

/-- The last value under a key, when all values are changed alike. -/
theorem lastUnder?_map (key : String) (g : α → β) (entries : List (String × α)) :
    lastUnder? key (entries.map fun e => (e.1, g e.2)) = (lastUnder? key entries).map g := by
  induction entries using List.reverseRecOn with
  | nil => rfl
  | append_singleton entries e ih =>
      rw [List.map_append, List.map_singleton, lastUnder?_concat, lastUnder?_concat, ih]
      split
      · rfl
      · rfl

/-- All entries can be condensed. -/
theorem exists_condenses (entries : List (String × α)) :
    ∃ given : List (String × α), Condenses given entries := by
  refine ⟨(Table.ofList entries).entries, (Table.ofList entries).nodup, fun key => ?_⟩
  rw [← find?_ofList_eq_lastUnder?, Table.ofList_entries, find?_ofList_eq_lastUnder?]

end Last

/-! ### What a formula is told -/

open LiveFormula (Alike)

/-- A formula that is told mappings one by one has all of them in its bindings. -/
theorem foldl_map_eq (mappings : List (String × String)) (f : LiveFormula) :
    mappings.foldl (fun f (path, id) => f.map path id) f =
      { f with bindings := { f.bindings with
        pathNames := mappings.foldl (fun t e => t.insert e.1 e.2) f.bindings.pathNames } } := by
  induction mappings generalizing f with
  | nil => rfl
  | cons e rest ih => exact ih (f.map e.1 e.2)

/-- A formula that is told values one by one has all of them in its bindings. -/
theorem foldl_update_eq (values : List (String × Scalar)) (f : LiveFormula) :
    values.foldl (fun f (id, value) => f.update id ⟨value, none⟩) f =
      { f with bindings := { f.bindings with
        readings := (values.map fun e => (e.1, (⟨e.2, none⟩ : Reading))).foldl
          (fun t e => t.insert e.1 e.2) f.bindings.readings } } := by
  induction values generalizing f with
  | nil => rfl
  | cons e rest ih => exact ih (f.update e.1 ⟨e.2, none⟩)

/-- A request with other mappings and values. -/
def Request.telling (r : Request) (mappings : List (String × String))
    (values : List (String × Scalar)) : Request :=
  { r with mappings, values }

variable {r : Request} {mappings : List (String × String)} {values : List (String × Scalar)}

/-- A formula that was told all mappings and values is like one that was told the last ones. -/
theorem alike_prepare (hmappings : Condenses mappings r.mappings)
    (hvalues : Condenses values r.values) (source : String) (formula : Formula) :
    Alike ((r.telling mappings values).prepare (.ofFormula source formula))
      (r.prepare (.ofFormula source formula)) := by
  rw [Request.prepare, Request.prepare, foldl_map_eq, foldl_map_eq, foldl_update_eq,
    foldl_update_eq]
  refine ⟨rfl, rfl, rfl, fun path => ?_, fun id => ?_⟩
  · show (Table.ofList mappings).find? path = (Table.ofList r.mappings).find? path
    rw [find?_ofList_eq_lastUnder?, find?_ofList_eq_lastUnder?, hmappings.last]
  · show (Table.ofList (values.map fun e => (e.1, (⟨e.2, none⟩ : Reading)))).find? id =
      (Table.ofList (r.values.map fun e => (e.1, (⟨e.2, none⟩ : Reading)))).find? id
    have hmap := lastUnder?_map id fun value : Scalar => (⟨value, none⟩ : Reading)
    rw [find?_ofList_eq_lastUnder?, find?_ofList_eq_lastUnder?, hmap, hmap, hvalues.last]

/-- What is written about a formula that was told what it needs. -/
def Request.shown (r : Request) (f : LiveFormula) : Output :=
  match f.run.result with
  | .ok value => ⟨0, r.preamble f ++ line value.display, ""⟩
  | .error failure => ⟨1, r.preamble f, (Trouble.ofFailure failure).render⟩

/-- The formula that a source text spells under some settings, unless the legacy dialect is asked
for. -/
def readFormula (legacy : Bool) (source : String) (settings : Settings) :
    Except Trouble LiveFormula :=
  let options := if legacy then { settings.formula with dialect := .legacy } else settings.formula
  (LiveFormula.ofSource options source).mapError (.within ("Failed to parse '" ++ source ++ "'"))

/-- Without a formula the program says how it is called. -/
theorem run_of_no_formula (h : r.formula = none) (settingsHome : Option String)
    (read : Path → Except FileProblem String) :
    r.run settingsHome read = .error (.plain usage) := by
  rw [Request.run, h]
  rfl

/-- A request with a formula is carried out by reading it, telling it what it needs and writing
about it. -/
theorem run_of_formula {source : String} (h : r.formula = some source)
    (settingsHome : Option String) (read : Path → Except FileProblem String) :
    r.run settingsHome read =
      r.settings settingsHome read >>= fun settings =>
        (readFormula r.legacy source settings).map fun f => r.shown (r.prepare f) := by
  rw [Request.run, h]
  cases r.settings settingsHome read with
  | error trouble => rfl
  | ok settings =>
      show _ = (readFormula r.legacy source settings).map _
      rw [readFormula]
      show ((LiveFormula.ofSource _ source).mapError _ >>= fun f => _) = _
      cases LiveFormula.ofSource _ source with
      | error failure => rfl
      | ok f =>
          show (match (r.prepare f).run.result with | .ok value => _ | .error failure => _) =
            Except.ok (r.shown (r.prepare f))
          rw [Request.shown]
          split
          · rfl
          · rfl

/-- A formula that was read has not been told anything. -/
theorem readFormula_eq_ok {legacy : Bool} {source : String} {settings : Settings} {f : LiveFormula}
    (h : readFormula legacy source settings = .ok f) :
    ∃ formula, f = .ofFormula source formula := by
  rw [readFormula] at h
  cases hsource : LiveFormula.ofSource _ source with
  | error failure =>
      rw [hsource] at h
      cases h
  | ok g =>
      obtain ⟨formula, -, rfl⟩ := LiveFormula.ofSource_eq_ok_iff.mp hsource
      rw [hsource] at h
      cases h
      exact ⟨formula, rfl⟩

/-- Formulas that are alike are written about alike. -/
theorem shown_telling {f g : LiveFormula} (h : Alike f g) :
    (r.telling mappings values).shown f = r.shown g := by
  have hshowTree : (r.telling mappings values).showTree = r.showTree := rfl
  rw [Request.shown, Request.shown, h.result_run, Request.preamble, Request.preamble, h.formula,
    h.parameters, hshowTree]

/-- **A formula needs only the last mapping and the last value of each name.** -/
theorem run_of_condenses (hmappings : Condenses mappings r.mappings)
    (hvalues : Condenses values r.values) (settingsHome : Option String)
    (read : Path → Except FileProblem String) :
    (r.telling mappings values).run settingsHome read = r.run settingsHome read := by
  have hformula : (r.telling mappings values).formula = r.formula := rfl
  have hsettings : (r.telling mappings values).settings settingsHome read =
      r.settings settingsHome read := rfl
  have hlegacy : (r.telling mappings values).legacy = r.legacy := rfl
  cases hsource : r.formula with
  | none => rw [run_of_no_formula hsource, run_of_no_formula (hformula.trans hsource)]
  | some source =>
      rw [run_of_formula hsource, run_of_formula (hformula.trans hsource), hsettings, hlegacy]
      refine bind_congr fun settings => ?_
      cases hf : readFormula r.legacy source settings with
      | error trouble => rw [Except.map, Except.map]
      | ok f =>
          obtain ⟨formula, rfl⟩ := readFormula_eq_ok hf
          rw [Except.map, Except.map,
            shown_telling (alike_prepare hmappings hvalues source formula)]

/-! ### Arguments in any order -/

/-- Two lists of parts hold the same: the same flags, the same last settings file, and the same
mappings and positional arguments in the same order. -/
structure SameContents (parts parts' : List Part) : Prop where
  legacy : .legacy ∈ parts ↔ .legacy ∈ parts'
  tree : .tree ∈ parts ↔ .tree ∈ parts'
  config : (configs parts).getLast? = (configs parts').getLast?
  mapped : mapped parts = mapped parts'
  positionals : positionals parts = positionals parts'

/-- Parts with the same contents ask for the same. -/
theorem SameContents.ofParts_eq {parts parts' : List Part} (h : SameContents parts parts') :
    Request.ofParts parts' = Request.ofParts parts := by
  simp only [Request.ofParts, h.legacy, h.tree, h.config, h.mapped, h.positionals]

/-- If parts make sense, so do parts with the same contents. -/
theorem SameContents.proper {parts parts' : List Part} (h : SameContents parts parts')
    (hproper : Proper parts) : Proper parts' where
  mapping := h.mapped ▸ hproper.mapping
  plain := h.positionals ▸ hproper.plain
  value := h.positionals ▸ hproper.value

/-- What the program writes when it carries out a request. -/
def Request.output (r : Request) (settingsHome : Option String)
    (read : Path → Except FileProblem String) : Output :=
  match r.run settingsHome read with
  | .ok output => output
  | .error trouble => ⟨1, "", trouble.render⟩

/-- Parts are interpreted, and the request that they make is carried out. -/
theorem run_eq_output {parts : List Part} (h : Proper parts) (settingsHome : Option String)
    (read : Path → Except FileProblem String) :
    run (spell parts) settingsHome read = (Request.ofParts parts).output settingsHome read := by
  have hinterpret := interpret_spell_append h []
  rw [List.append_nil] at hinterpret
  rw [run, hinterpret, interpret]
  rfl

/-- **Arguments may come in any order.** Parts are accepted exactly if there is a positional
argument; without one the program says how it is called. What parts ask for, and what the
program writes, depends only on which flags occur, the last settings file, and the mappings and
the positional arguments in their order. And it is what the program writes for a formula that is
told just the last mapping of each path name and the last value of each identifier. -/
theorem run_spell {parts : List Part} (h : Proper parts) (settingsHome : Option String)
    (read : Path → Except FileProblem String) :
    (accepted? (spell parts) = if positionals parts = [] then none else some (.ofParts parts)) ∧
    (positionals parts = [] →
      run (spell parts) settingsHome read = ⟨1, "", (Trouble.plain usage).render⟩) ∧
    (∀ parts', SameContents parts parts' →
      accepted? (spell parts') = accepted? (spell parts) ∧
        run (spell parts') settingsHome read = run (spell parts) settingsHome read) ∧
    ∀ r, accepted? (spell parts) = some r →
      (∃ mappings, Condenses mappings r.mappings) ∧ (∃ values, Condenses values r.values) ∧
        ∀ mappings values, Condenses mappings r.mappings → Condenses values r.values →
          run (spell parts) settingsHome read =
            (r.telling mappings values).output settingsHome read := by
  refine ⟨accepted?_spell h, ?_, ?_, ?_⟩
  · intro hnone
    have hformula : (Request.ofParts parts).formula = none := by
      rw [Request.ofParts, hnone]
      rfl
    rw [run_eq_output h, Request.output, run_of_no_formula hformula]
  · intro parts' hsame
    have hproper := hsame.proper h
    rw [accepted?_spell h, accepted?_spell hproper, run_eq_output h, run_eq_output hproper,
      hsame.ofParts_eq, hsame.positionals]
    exact ⟨rfl, rfl⟩
  · intro r hr
    refine ⟨exists_condenses r.mappings, exists_condenses r.values, ?_⟩
    intro mappings values hmappings hvalues
    rw [accepted?_spell h] at hr
    split at hr
    · cases hr
    · cases hr
      rw [run_eq_output h, Request.output, Request.output, run_of_condenses hmappings hvalues]

/-- Arguments with an option between the values, and a mapping and a value that are replaced. -/
def lateParts : List Part :=
  [.map "lamp=Old", .positional "lamp", .positional "New=off", .legacy, .map "lamp=New",
    .positional "New=on"]

/-- The same arguments with the options in front. -/
def earlyParts : List Part :=
  [.legacy, .map "lamp=Old", .map "lamp=New", .positional "lamp", .positional "New=off",
    .positional "New=on"]

/-- Options behind the formula, a mapping and a value that are given twice, and a flag between them.
-/
theorem run_spell_late :
    Proper lateParts ∧
      spell lateParts = ["--map", "lamp=Old", "lamp", "New=off", "--legacy", "--map", "lamp=New",
        "New=on"] ∧
      SameContents lateParts earlyParts ∧
      run (spell earlyParts) none (fun _ => .error .notFound) =
        run (spell lateParts) none (fun _ => .error .notFound) ∧
      Condenses [("lamp", "New")] (Request.ofParts lateParts).mappings ∧
      Condenses [("New", .text "on")] (Request.ofParts lateParts).values ∧
      run (spell lateParts) none (fun _ => .error .notFound) =
        ((Request.ofParts lateParts).telling [("lamp", "New")] [("New", .text "on")]).output none
          (fun _ => .error .notFound) ∧
      run (spell lateParts) none (fun _ => .error .notFound) =
        ⟨0, "parameters: New\non\n", ""⟩ := by
  have hproper : Proper lateParts := by
    refine ⟨?_, by decide, ?_⟩
    · intro pair hpair
      obtain rfl | rfl : pair = "lamp=Old" ∨ pair = "lamp=New" := by
        simpa [lateParts, mapped] using hpair
      · exact ⟨"lamp", "Old", by decide, by decide, rfl⟩
      · exact ⟨"lamp", "New", by decide, by decide, rfl⟩
    · intro argument hargument
      obtain rfl | rfl : argument = "New=off" ∨ argument = "New=on" := by
        simpa [lateParts, positionals] using hargument
      · exact ⟨"New", "off", by decide, by decide, rfl⟩
      · exact ⟨"New", "on", by decide, by decide, rfl⟩
  have hsame : SameContents lateParts earlyParts := by constructor <;> decide
  have hmappings : Condenses [("lamp", "New")] (Request.ofParts lateParts).mappings := by
    refine ⟨by decide, fun key => ?_⟩
    have hpairs : (Request.ofParts lateParts).mappings = [("lamp", "Old"), ("lamp", "New")] := by
      decide
    by_cases hkey : "lamp" = key
    · simp [hpairs, lastUnder?, List.findRev?, hkey]
    · simp [hpairs, lastUnder?, List.findRev?, hkey]
  have hvalues : Condenses [("New", .text "on")] (Request.ofParts lateParts).values := by
    refine ⟨by decide, fun key => ?_⟩
    have hpairs : (Request.ofParts lateParts).values =
        [("New", .text "off"), ("New", .text "on")] := by
      rfl
    by_cases hkey : "New" = key
    · simp [hpairs, lastUnder?, List.findRev?, hkey]
    · simp [hpairs, lastUnder?, List.findRev?, hkey]
  have htokens : Formula.tokenize "lamp" = .ok [⟨.name "lamp", ⟨0, 4⟩⟩] := by cbv
  have hsource : LiveFormula.ofSource ⟨.legacy, 64⟩ "lamp" =
      .ok (.ofFormula "lamp" ⟨.legacy, [.symbol "lamp"]⟩) :=
    LiveFormula.ofSource_eq_ok_iff.mpr ⟨_, Formula.ofSource_of_tokenize htokens rfl, rfl⟩
  obtain ⟨haccepted, -, hany, hlast⟩ := run_spell hproper none fun _ => .error .notFound
  obtain ⟨-, -, htelling⟩ := hlast _ haccepted
  refine ⟨hproper, rfl, hsame, (hany _ hsame).2, hmappings, hvalues,
    htelling _ _ hmappings hvalues, ?_⟩
  have hread : readFormula (Request.ofParts lateParts).legacy "lamp" .default =
      .ok (.ofFormula "lamp" ⟨.legacy, [.symbol "lamp"]⟩) := by
    rw [readFormula]
    show (LiveFormula.ofSource ⟨.legacy, 64⟩ "lamp").mapError _ = _
    rw [hsource]
    rfl
  have hsettings : (Request.ofParts lateParts).settings none (fun _ => .error .notFound) =
      .ok .default := rfl
  have hformula : (Request.ofParts lateParts).formula = some "lamp" := rfl
  rw [run_eq_output hproper, Request.output, run_of_formula hformula, hsettings]
  show (match (readFormula (Request.ofParts lateParts).legacy "lamp" .default).map _ with
    | .ok output => output
    | .error trouble => (⟨1, "", trouble.render⟩ : Output)) = _
  rw [hread]
  rfl

end Dashboard.CommandLine
