import Dashboard.Proofs.Cache
import Mathlib

/-!
# Histories of a Parse Cache

A host gets formulas from a parse cache, invalidates one now and then, and clears the cache.
This module says what a history of such requests makes of a new cache. A formula that is got is
the one that its source text spells, as if there were no cache. What the cache decides is who
shares a formula with whom, and how many formulas it keeps; both are read off the history.

A shared formula is told by its number. A number that has been issued is **confined** to the
keys under which it is kept: no request brings it up under another key. At first this is the
key that it was read for, and once that key is dropped it is none at all.

## Main results

* `transition_step` — what one request does to a cache.
* `Transition.confined` — a number that has been issued does not turn up anywhere else.
* `isSome_find?_ofHistory_iff` — the keys that are kept after a history.
* `ofHistory_transparent` — the cache is transparent, and who shares what with whom.
-/

namespace Dashboard

namespace ParseCache

/-- What formulas are kept under. -/
abbrev Key := Formula.Dialect × String

/-! ### Requests -/

/-- What a host can ask of a cache. -/
inductive Request where
  | get (source : String) (dialect : Formula.Dialect)
  | invalidate (source : String) (dialect : Formula.Dialect)
  | clear

/-- Whether a request drops what is kept under a key. -/
def Request.drops (key : Key) : Request → Bool
  | .get _ _ => false
  | .invalidate source dialect => decide ((dialect, source) = key)
  | .clear => true

/-- What a request makes of a cache. A formula that cannot be read makes nothing of it. -/
def step (cache : ParseCache) : Request → ParseCache
  | .get source dialect =>
    match cache.get source dialect with
    | .ok got => got.2
    | .error _ => cache
  | .invalidate source dialect => cache.invalidate source dialect
  | .clear => cache.clear

/-- What a sequence of requests makes of a cache. -/
def after (cache : ParseCache) (requests : List Request) : ParseCache :=
  requests.foldl step cache

/-- A new cache after a history of requests. -/
def ofHistory (maxDepth : Nat) (history : List Request) : ParseCache :=
  (withMaxDepth maxDepth).after history

/-- The formula that is got, apart from what becomes of the cache. -/
def got (cache : ParseCache) (source : String) (dialect : Formula.Dialect) :
    Except Failure SharedFormula :=
  (cache.get source dialect).map Prod.fst

/-- A key is **held** after a history if it was requested, can be read, and was not dropped
since. -/
def Held (maxDepth : Nat) (history : List Request) (key : Key) : Prop :=
  ∃ earlier later, history = earlier ++ .get key.2 key.1 :: later ∧
    (∃ formula, Formula.ofSource ⟨key.1, maxDepth⟩ key.2 = .ok formula) ∧
    ∀ request ∈ later, request.drops key = false

variable {cache next : ParseCache} {request : Request} {key : Key} {kept : SharedFormula}

/-- Requests one after the other. -/
theorem after_append (cache : ParseCache) (first second : List Request) :
    cache.after (first ++ second) = (cache.after first).after second :=
  List.foldl_append

/-- What a request gets, together with the cache after it. -/
theorem got_eq_ok_iff {source : String} {dialect : Formula.Dialect} {shared : SharedFormula} :
    cache.got source dialect = .ok shared ↔
      cache.get source dialect = .ok (shared, cache.step (.get source dialect)) := by
  rw [got, step]
  cases cache.get source dialect with
  | error failure => exact ⟨nofun, nofun⟩
  | ok pair =>
      constructor
      · intro h
        exact congrArg (fun shared => Except.ok (shared, pair.2)) (Except.ok.inj h)
      · intro h
        exact congrArg (fun pair => Except.ok pair.1) (Except.ok.inj h)

/-- What is not kept is read when it is got. -/
theorem got_of_read {source : String} {dialect : Formula.Dialect} {formula : Formula}
    (hnone : cache.entries.find? (dialect, source) = none)
    (hread : Formula.ofSource ⟨dialect, cache.maxDepth⟩ source = .ok formula) :
    cache.got source dialect = .ok ⟨formula, cache.issued⟩ := by
  rw [got, get_of_find?_eq_none hnone, hread]
  rfl

/-- What is read is kept. -/
theorem step_of_read {source : String} {dialect : Formula.Dialect} {formula : Formula}
    (hnone : cache.entries.find? (dialect, source) = none)
    (hread : Formula.ofSource ⟨dialect, cache.maxDepth⟩ source = .ok formula) :
    cache.step (.get source dialect) = cache.keep source dialect formula := by
  rw [step, get_of_find?_eq_none hnone, hread]
  rfl

/-- What is kept is not read again. -/
theorem got_of_find? {source : String} {dialect : Formula.Dialect}
    (h : cache.entries.find? (dialect, source) = some kept) :
    cache.got source dialect = .ok kept := by
  rw [got, get_of_find? h]
  rfl

/-- What cannot be read leaves the cache as it was. -/
theorem step_of_got_eq_error {source : String} {dialect : Formula.Dialect} {failure : Failure}
    (h : cache.got source dialect = .error failure) : cache.step (.get source dialect) = cache := by
  rw [got] at h
  rw [step]
  cases hget : cache.get source dialect with
  | error failure => rfl
  | ok pair => rw [hget] at h; cases h

/-- What is got from a faithful cache is what reading gives. -/
theorem Faithful.map_got (h : cache.Faithful) (source : String) (dialect : Formula.Dialect) :
    (cache.got source dialect).map SharedFormula.formula =
      Formula.ofSource ⟨dialect, cache.maxDepth⟩ source := by
  rw [← h.map_get, got]
  cases cache.get source dialect with
  | error failure => rfl
  | ok pair => rfl

/-! ### What one request does -/

/-- What a request does to a cache, case by case. -/
inductive Transition (cache : ParseCache) : Request → ParseCache → Prop
  | hit {source : String} {dialect : Formula.Dialect} {kept : SharedFormula} :
      cache.entries.find? (dialect, source) = some kept →
      Transition cache (.get source dialect) cache
  | fail {source : String} {dialect : Formula.Dialect} {failure : Failure} :
      Formula.ofSource ⟨dialect, cache.maxDepth⟩ source = .error failure →
      Transition cache (.get source dialect) cache
  | read {source : String} {dialect : Formula.Dialect} {formula : Formula} :
      cache.entries.find? (dialect, source) = none →
      Formula.ofSource ⟨dialect, cache.maxDepth⟩ source = .ok formula →
      Transition cache (.get source dialect) (cache.keep source dialect formula)
  | invalidate {source : String} {dialect : Formula.Dialect} :
      Transition cache (.invalidate source dialect) (cache.invalidate source dialect)
  | clear : Transition cache .clear cache.clear

/-- Every request is one of the transitions. -/
theorem transition_step (cache : ParseCache) (request : Request) :
    cache.Transition request (cache.step request) := by
  cases request with
  | invalidate => exact .invalidate
  | clear => exact .clear
  | get source dialect =>
      rw [step]
      cases hfind : cache.entries.find? (dialect, source) with
      | some kept =>
          rw [get_of_find? hfind]
          exact .hit hfind
      | none =>
          rw [get_of_find?_eq_none hfind]
          cases hread : Formula.ofSource ⟨dialect, cache.maxDepth⟩ source with
          | error failure => exact .fail hread
          | ok formula => exact .read hfind hread

namespace Transition

/-- No transition changes the limit on nesting. -/
theorem maxDepth (h : cache.Transition request next) : next.maxDepth = cache.maxDepth := by
  cases h <;> rfl

/-- What is kept afterwards was kept before and is not dropped, or it was just read and has the
next number. -/
theorem cases_of_find? (h : cache.Transition request next)
    (hkept : next.entries.find? key = some kept) :
    (cache.entries.find? key = some kept ∧ request.drops key = false) ∨
      (request = .get key.2 key.1 ∧ Formula.ofSource ⟨key.1, cache.maxDepth⟩ key.2 =
        .ok kept.formula ∧ kept.number = cache.issued ∧ next.issued = cache.issued + 1) := by
  cases h with
  | hit | fail => exact .inl ⟨hkept, rfl⟩
  | clear => cases hkept
  | invalidate =>
      rw [ParseCache.invalidate, Table.find?_erase] at hkept
      split at hkept
      · cases hkept
      · next hne => exact .inl ⟨hkept, decide_eq_false hne⟩
  | read hnone hread =>
      rw [keep, Table.find?_insert] at hkept
      split at hkept
      · next heq =>
          cases heq
          cases hkept
          exact .inr ⟨rfl, hread, rfl, rfl⟩
      · exact .inl ⟨hkept, rfl⟩

/-- What is kept and not dropped is kept afterwards. -/
theorem find?_of_not_drops (h : cache.Transition request next)
    (hkept : cache.entries.find? key = some kept) (hnot : request.drops key = false) :
    next.entries.find? key = some kept := by
  cases h with
  | hit | fail => exact hkept
  | clear => cases hnot
  | invalidate =>
      rw [ParseCache.invalidate, Table.find?_erase, if_neg (of_decide_eq_false hnot)]
      exact hkept
  | read hnone hread =>
      rw [keep, Table.find?_insert_of_ne]
      · exact hkept
      · intro heq
        rw [heq, hkept] at hnone
        cases hnone

/-- What was requested and can be read is kept afterwards. -/
theorem isSome_find?_of_get {source : String} {dialect : Formula.Dialect} {formula : Formula}
    (h : cache.Transition (.get source dialect) next)
    (hread : Formula.ofSource ⟨dialect, cache.maxDepth⟩ source = .ok formula) :
    (next.entries.find? (dialect, source)).isSome = true := by
  cases h with
  | hit hkept =>
      rw [hkept]
      rfl
  | fail hfail =>
      rw [hread] at hfail
      cases hfail
  | read hnone hread' =>
      rw [keep, Table.find?_insert_self]
      rfl

/-- The numbers that have been issued stay issued. -/
theorem issued_le (h : cache.Transition request next) : cache.issued ≤ next.issued := by
  cases h with
  | hit | fail | invalidate | clear => exact Nat.le_refl _
  | read => exact Nat.le_succ _

/-- **What is kept stays what its source text spells.** -/
theorem faithful (h : cache.Transition request next) (hfaithful : cache.Faithful) :
    next.Faithful := by
  intro dialect source kept hkept
  rw [h.maxDepth]
  rcases h.cases_of_find? hkept with ⟨hold, -⟩ | ⟨-, hread, -⟩
  · exact hfaithful dialect source kept hold
  · exact hread

end Transition

/-! ### Numbers -/

/-- A number is **confined** to some keys: it has been issued, and it is not kept under any
other key. -/
structure Confined (cache : ParseCache) (number : Nat) (allowed : Key → Prop) : Prop where
  issued : number < cache.issued
  allowed : ∀ key kept, cache.entries.find? key = some kept → kept.number = number → allowed key

/-- Every number that is kept is confined to the key under which it is kept. -/
def Numbered (cache : ParseCache) : Prop :=
  ∀ key kept, cache.entries.find? key = some kept → cache.Confined kept.number (· = key)

/-- **A number that has been issued stays confined**: what is read gets another one. -/
theorem Transition.confined {number : Nat} {allowed : Key → Prop}
    (h : cache.Transition request next) (hconfined : cache.Confined number allowed) :
    next.Confined number allowed := by
  have hissued := hconfined.issued
  refine ⟨Nat.lt_of_lt_of_le hissued h.issued_le, ?_⟩
  intro key kept hkept hnumber
  rcases h.cases_of_find? hkept with ⟨hold, -⟩ | ⟨-, -, hnew, -⟩
  · exact hconfined.allowed key kept hold hnumber
  · omega

/-- **Numbers stay apart**, as every entry from before has a smaller one than what is read now. -/
theorem Transition.numbered (h : cache.Transition request next) (hnumbered : cache.Numbered) :
    next.Numbered := by
  intro key kept hkept
  rcases h.cases_of_find? hkept with ⟨hold, -⟩ | ⟨hget, -, hnew, hnext⟩
  · exact h.confined (hnumbered key kept hold)
  · refine ⟨by omega, ?_⟩
    intro other kept' hkept' hnumber
    rcases h.cases_of_find? hkept' with ⟨hold, -⟩ | ⟨hget', -⟩
    · have hlt := (hnumbered other kept' hold).issued
      omega
    · rw [hget] at hget'
      injection hget' with hsource hdialect
      exact Prod.ext hdialect.symm hsource.symm

/-- A number that is dropped is confined to no key at all. -/
theorem Transition.confined_of_drops {number : Nat} (h : cache.Transition request next)
    (hconfined : cache.Confined number (· = key)) (hdrops : request.drops key = true) :
    next.Confined number (fun _ => False) := by
  have hnext := h.confined hconfined
  refine ⟨hnext.issued, ?_⟩
  intro other kept hkept hnumber
  obtain rfl : other = key := hnext.allowed other kept hkept hnumber
  rcases h.cases_of_find? hkept with ⟨-, hnot⟩ | ⟨hget, -⟩
  · rw [hdrops] at hnot
    cases hnot
  · rw [hget] at hdrops
    cases hdrops

/-! ### Many requests -/

/-- Requests do not change the limit on nesting. -/
theorem maxDepth_after (cache : ParseCache) (requests : List Request) :
    (cache.after requests).maxDepth = cache.maxDepth := by
  induction requests generalizing cache with
  | nil => rfl
  | cons request rest ih =>
      exact (ih (cache.step request)).trans (transition_step cache request).maxDepth

/-- **A faithful cache stays faithful**, whatever is asked of it. -/
theorem Faithful.after (h : cache.Faithful) (requests : List Request) :
    (cache.after requests).Faithful := by
  induction requests generalizing cache with
  | nil => exact h
  | cons request rest ih => exact ih ((transition_step cache request).faithful h)

/-- Every number stays confined to its key. -/
theorem Numbered.after (h : cache.Numbered) (requests : List Request) :
    (cache.after requests).Numbered := by
  induction requests generalizing cache with
  | nil => exact h
  | cons request rest ih => exact ih ((transition_step cache request).numbered h)

/-- A number stays confined to the keys that it was confined to. -/
theorem Confined.after {number : Nat} {allowed : Key → Prop}
    (h : cache.Confined number allowed) (requests : List Request) :
    (cache.after requests).Confined number allowed := by
  induction requests generalizing cache with
  | nil => exact h
  | cons request rest ih => exact ih ((transition_step cache request).confined h)

/-- What is kept stays kept as long as it is not dropped. -/
theorem find?_after_of_not_drops {requests : List Request}
    (hkept : cache.entries.find? key = some kept)
    (hnot : ∀ request ∈ requests, request.drops key = false) :
    (cache.after requests).entries.find? key = some kept := by
  induction requests generalizing cache with
  | nil => exact hkept
  | cons request rest ih =>
      obtain ⟨hrequest, hrest⟩ := List.forall_mem_cons.mp hnot
      exact ih ((transition_step cache request).find?_of_not_drops hkept hrequest) hrest

/-- What is dropped on the way is confined to no key at all in the end. -/
theorem confined_after_of_drops {number : Nat} {requests : List Request}
    (h : cache.Confined number (· = key))
    (hdrops : ∃ request ∈ requests, request.drops key = true) :
    (cache.after requests).Confined number (fun _ => False) := by
  obtain ⟨request, hmem, hrequest⟩ := hdrops
  obtain ⟨first, second, rfl⟩ := List.append_of_mem hmem
  rw [after_append]
  exact ((transition_step _ request).confined_of_drops (h.after first) hrequest).after second

/-- The limit of a cache is the one it was made with. -/
theorem maxDepth_ofHistory (maxDepth : Nat) (history : List Request) :
    (ofHistory maxDepth history).maxDepth = maxDepth :=
  maxDepth_after (withMaxDepth maxDepth) history

/-- The last request of a history comes on top of the others. -/
theorem ofHistory_concat (maxDepth : Nat) (history : List Request) (request : Request) :
    ofHistory maxDepth (history ++ [request]) = (ofHistory maxDepth history).step request :=
  after_append _ _ _

/-! ### The keys that are kept -/

/-- A key is held after one more request if it was held and is not dropped, or if it has just been
read. -/
theorem held_append_singleton_iff {maxDepth : Nat} {history : List Request} :
    Held maxDepth (history ++ [request]) key ↔
      (Held maxDepth history key ∧ request.drops key = false) ∨
        (request = .get key.2 key.1 ∧
          ∃ formula, Formula.ofSource ⟨key.1, maxDepth⟩ key.2 = .ok formula) := by
  constructor
  · rintro ⟨earlier, later, hhistory, hread, hnot⟩
    rcases List.eq_nil_or_concat later with rfl | ⟨later, last, rfl⟩
    · obtain ⟨-, hlast⟩ := List.append_inj' hhistory rfl
      exact .inr ⟨List.singleton_inj.mp hlast, hread⟩
    · rw [List.concat_eq_append] at hhistory hnot
      rw [← List.cons_append, ← List.append_assoc] at hhistory
      obtain ⟨hbefore, hlast⟩ := List.append_inj' hhistory rfl
      obtain rfl := List.singleton_inj.mp hlast
      rw [List.forall_mem_append] at hnot
      exact .inl ⟨⟨earlier, later, hbefore, hread, hnot.1⟩,
        hnot.2 request (List.mem_singleton.mpr rfl)⟩
  · rintro (⟨⟨earlier, later, rfl, hread, hnot⟩, hrequest⟩ | ⟨rfl, hread⟩)
    · refine ⟨earlier, later ++ [request], ?_, hread, ?_⟩
      · rw [List.append_assoc, List.cons_append]
      · rw [List.forall_mem_append, List.forall_mem_singleton]
        exact ⟨hnot, hrequest⟩
    · exact ⟨history, [], rfl, hread, by simp⟩

/-- **The keys that are kept are those that are held**, by induction on the history. -/
theorem isSome_find?_ofHistory_iff {maxDepth : Nat} {history : List Request} :
    ((ofHistory maxDepth history).entries.find? key).isSome = true ↔
      Held maxDepth history key := by
  induction history using List.reverseRecOn with
  | nil =>
      refine ⟨nofun, ?_⟩
      rintro ⟨earlier, later, hhistory, -⟩
      exact absurd hhistory (by simp)
  | append_singleton history request ih =>
      have hdepth := maxDepth_ofHistory maxDepth history
      have h := transition_step (ofHistory maxDepth history) request
      rw [held_append_singleton_iff, ← ih, ofHistory_concat]
      constructor
      · intro hsome
        obtain ⟨kept, hkept⟩ := Option.isSome_iff_exists.mp hsome
        rcases h.cases_of_find? hkept with ⟨hold, hnot⟩ | ⟨hget, hread, -⟩
        · exact .inl ⟨Option.isSome_iff_exists.mpr ⟨kept, hold⟩, hnot⟩
        · rw [hdepth] at hread
          exact .inr ⟨hget, kept.formula, hread⟩
      · rintro (⟨hsome, hnot⟩ | ⟨rfl, formula, hread⟩)
        · obtain ⟨kept, hold⟩ := Option.isSome_iff_exists.mp hsome
          exact Option.isSome_iff_exists.mpr ⟨kept, h.find?_of_not_drops hold hnot⟩
        · rw [← hdepth] at hread
          exact h.isSome_find?_of_get hread

/-! ### Sharing -/

/-- What is got is kept afterwards. -/
theorem find?_step_of_got {source : String} {dialect : Formula.Dialect} {shared : SharedFormula}
    (h : cache.got source dialect = .ok shared) :
    (cache.step (.get source dialect)).entries.find? (dialect, source) = some shared := by
  rcases cases_of_get (got_eq_ok_iff.mp h) with ⟨hkept, hsame⟩ | ⟨formula, -, hshared, hkeep⟩
  · rw [hsame]
    exact hkept
  · rw [hkeep, keep, Table.find?_insert_self, hshared]

/-- **Who shares a formula with whom.** What was got is got again under the same key as long as
the key is not dropped, and its number is never got in another way. -/
theorem Numbered.number_eq_iff (h : cache.Numbered) {source source' : String}
    {dialect dialect' : Formula.Dialect} {shared shared' : SharedFormula} {between : List Request}
    (hfirst : cache.got source dialect = .ok shared)
    (hsecond : (cache.after (.get source dialect :: between)).got source' dialect' =
      .ok shared') :
    (shared'.number = shared.number ↔ (dialect', source') = (dialect, source) ∧
      ∀ request ∈ between, request.drops (dialect, source) = false) ∧
    (shared'.number = shared.number → shared' = shared) := by
  have hkept := find?_step_of_got hfirst
  have hconfined := (transition_step cache (.get source dialect)).numbered h _ _ hkept
  have hkept' := find?_step_of_got hsecond
  have hkey : shared'.number = shared.number → (dialect', source') = (dialect, source) :=
    ((transition_step _ _).confined (hconfined.after between)).allowed _ _ hkept'
  have hnot : shared'.number = shared.number →
      ∀ request ∈ between, request.drops (dialect, source) = false := by
    intro hnumber request hmem
    cases hdrops : request.drops (dialect, source) with
    | false => rfl
    | true =>
        have hgone := confined_after_of_drops hconfined ⟨request, hmem, hdrops⟩
        exact (((transition_step _ _).confined hgone).allowed _ _ hkept' hnumber).elim
  have hsame : (dialect', source') = (dialect, source) →
      (∀ request ∈ between, request.drops (dialect, source) = false) → shared' = shared := by
    intro heq hnone
    have hstill := find?_after_of_not_drops hkept hnone
    cases heq
    have hagain := (transition_step _ (.get source dialect)).find?_of_not_drops hstill rfl
    exact Option.some.inj (hkept'.symm.trans hagain)
  refine ⟨⟨fun hnumber => ⟨hkey hnumber, hnot hnumber⟩, ?_⟩, ?_⟩
  · rintro ⟨heq, hnone⟩
    rw [hsame heq hnone]
  · intro hnumber
    exact hsame (hkey hnumber) (hnot hnumber)

/-- A new cache keeps no numbers. -/
theorem numbered_withMaxDepth (maxDepth : Nat) : (withMaxDepth maxDepth).Numbered := by
  intro key kept hkept
  cases hkept

/-! ### Transparency -/

/-- **The cache is transparent.** After any history, to get a formula is to read its source
text, with the same formula or the same failure; and a failure leaves the cache as it was. Of
two formulas that are got the second is shared with the first one exactly if they are got under
the same key and nothing in between drops it, and then they are the same. The cache has as many
entries as there are keys that were requested, can be read, and were not dropped since. -/
theorem ofHistory_transparent (maxDepth : Nat) (history : List Request) :
    (∀ source dialect,
      ((ofHistory maxDepth history).got source dialect).map SharedFormula.formula =
        Formula.ofSource ⟨dialect, maxDepth⟩ source) ∧
    (∀ source dialect failure,
      (ofHistory maxDepth history).got source dialect = .error failure →
        ofHistory maxDepth (history ++ [.get source dialect]) = ofHistory maxDepth history) ∧
    (∀ source dialect shared between source' dialect' shared',
      (ofHistory maxDepth history).got source dialect = .ok shared →
      (ofHistory maxDepth (history ++ .get source dialect :: between)).got source' dialect' =
        .ok shared' →
      (shared'.number = shared.number ↔ (dialect', source') = (dialect, source) ∧
        ∀ request ∈ between, request.drops (dialect, source) = false) ∧
      (shared'.number = shared.number → shared' = shared)) ∧
    ∃ keys : List Key, keys.Nodup ∧ (∀ key, key ∈ keys ↔ Held maxDepth history key) ∧
      (ofHistory maxDepth history).size = keys.length := by
  refine ⟨?_, ?_, ?_, ?_⟩
  · intro source dialect
    have hfaithful : (ofHistory maxDepth history).Faithful :=
      (faithful_withMaxDepth maxDepth).after history
    rw [hfaithful.map_got, maxDepth_ofHistory]
  · intro source dialect failure hfail
    rw [ofHistory_concat]
    exact step_of_got_eq_error hfail
  · intro source dialect shared between source' dialect' shared' hfirst hsecond
    have hnumbered : (ofHistory maxDepth history).Numbered :=
      (numbered_withMaxDepth maxDepth).after history
    rw [ofHistory, after_append] at hsecond
    exact hnumbered.number_eq_iff hfirst hsecond
  · refine ⟨(ofHistory maxDepth history).entries.keys, Table.nodup _, ?_, (List.length_map _).symm⟩
    intro key
    rw [Table.mem_keys_iff, isSome_find?_ofHistory_iff]

/-! ### One source text, twice -/

/-- The symbol `x` as a simplified formula. -/
def sharedSymbol (number : Nat) : SharedFormula :=
  ⟨⟨.simplified, [.symbol "x"]⟩, number⟩

/-- A single name is a formula in both dialects. -/
theorem ofSource_symbol (dialect : Formula.Dialect) :
    Formula.ofSource ⟨dialect, 4⟩ "x" = .ok ⟨dialect, [.symbol "x"]⟩ := by
  have htokens : Formula.tokenize "x" = .ok [⟨.name "x", ⟨0, 1⟩⟩] := by cbv
  cases dialect with
  | legacy => exact Formula.ofSource_of_tokenize htokens rfl
  | simplified => exact Formula.ofSource_of_tokenize htokens rfl

/-- A formula is shared by those who get it before and after one in the other dialect, and
not with who gets it after it was dropped. What cannot be read leaves the cache as it was. -/
theorem ofHistory_transparent_symbol :
    (ofHistory 4 [.get "x" .simplified, .get "x" .legacy]).got "x" .simplified =
        .ok (sharedSymbol 0) ∧
      (∀ request ∈ [Request.get "x" .legacy], request.drops (.simplified, "x") = false) ∧
      (ofHistory 4 [.get "x" .simplified, .invalidate "x" .simplified]).got "x" .simplified =
        .ok (sharedSymbol 1) ∧
      ¬ (∀ request ∈ [Request.invalidate "x" .simplified],
        request.drops (.simplified, "x") = false) ∧
      (∃ failure, (ofHistory 4 []).got "(" .simplified = .error failure) ∧
      ofHistory 4 [.get "(" .simplified] = ofHistory 4 [] ∧
      ∃ keys : List Key, keys.Nodup ∧ (∀ key, key ∈ keys ↔ Held 4 [.get "x" .simplified] key) ∧
        (ofHistory 4 [.get "x" .simplified]).size = keys.length ∧ keys.length = 1 := by
  have hkeep : ofHistory 4 [.get "x" .simplified] =
      (withMaxDepth 4).keep "x" .simplified ⟨.simplified, [.symbol "x"]⟩ :=
    step_of_read rfl (ofSource_symbol .simplified)
  have hfirst : (ofHistory 4 []).got "x" .simplified = .ok (sharedSymbol 0) :=
    got_of_read rfl (ofSource_symbol .simplified)
  have hagain : (ofHistory 4 [.get "x" .simplified, .get "x" .legacy]).got "x" .simplified =
      .ok (sharedSymbol 0) := by
    show ((ofHistory 4 [.get "x" .simplified]).step (.get "x" .legacy)).got "x" .simplified = _
    rw [hkeep, step_of_read rfl (ofSource_symbol .legacy)]
    exact got_of_find? rfl
  have hanew : (ofHistory 4 [.get "x" .simplified, .invalidate "x" .simplified]).got "x"
      .simplified = .ok (sharedSymbol 1) := by
    show ((ofHistory 4 [.get "x" .simplified]).invalidate "x" .simplified).got "x" .simplified = _
    rw [hkeep]
    exact got_of_read rfl (ofSource_symbol .simplified)
  obtain ⟨hread, hfail, hshared, -⟩ := ofHistory_transparent 4 []
  obtain ⟨-, -, -, keys, hnodup, hkeys, hsize⟩ :=
    ofHistory_transparent 4 [.get "x" .simplified]
  have hstill := (hshared "x" .simplified _ [.get "x" .legacy] "x" .simplified _ hfirst
    hagain).1.mp rfl
  have hparse : Formula.parse ⟨.simplified, 4⟩ "(" = .error ⟨1, .unexpectedEnd⟩ := by cbv
  have herror : ∃ failure, (ofHistory 4 []).got "(" .simplified = .error failure := by
    have hmap := hread "(" .simplified
    rw [Formula.ofSource, hparse] at hmap
    cases hgot : (ofHistory 4 []).got "(" .simplified with
    | error failure => exact ⟨failure, rfl⟩
    | ok shared => rw [hgot] at hmap; cases hmap
  have hone : (ofHistory 4 [.get "x" .simplified]).size = 1 := by
    rw [hkeep]
    rfl
  refine ⟨hagain, hstill.2, hanew, ?_, herror, ?_, keys, hnodup, hkeys, hsize,
    hsize.symm.trans hone⟩
  · intro hnone
    have hnumber := (hshared "x" .simplified _ [.invalidate "x" .simplified] "x" .simplified _
      hfirst hanew).1.mpr ⟨rfl, hnone⟩
    cases hnumber
  · obtain ⟨failure, hfailed⟩ := herror
    exact hfail _ _ failure hfailed

end ParseCache

end Dashboard
