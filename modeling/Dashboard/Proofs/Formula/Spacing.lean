import Dashboard.Proofs.Formula.Respelling
import Dashboard.Proofs.Formula.Scanning
import Mathlib.Logic.Relation

/-!
# Blanks Between Tokens

A blank ends every token, so two texts with a blank between them are scanned apart: the first one
as if nothing followed, the second one as if it stood alone, further on. A formula may thus be laid
out at will. Blanks can be put in, taken out and exchanged wherever they part no token, as long as
one of them stays where there was one: the tokens keep their kinds, and the grammar does not look
at their places.

## Main results

* `Scans.tokenize_append` — what is behind a run and some blanks is scanned alone.
* `Respaces.map_kind_eq` — other blanks between tokens leave the kinds of the tokens as they are.
* `tokenize_spaced` — texts are scanned apart, and the blanks between tokens do not matter.
-/

namespace Dashboard.Formula

open Text (isBlank byteLength)

/-! ### Texts apart -/

/-- A text **is blank** if each of its characters is. -/
def Blank (w : String) : Prop :=
  ∀ c ∈ w.toList, isBlank c = true

/-- The empty text is blank. -/
theorem blank_empty : Blank "" := by
  rintro _ ⟨⟩

/-- The bytes of a text are those of its characters. -/
theorem byteLength_toList (s : String) : byteLength s.toList = s.utf8ByteSize := by
  suffices h : ∀ chars, (String.ofList chars).utf8ByteSize = byteLength chars by
    rw [← h, String.ofList_toList]
  intro chars
  induction chars with
  | nil => rfl
  | cons c chars ih =>
      rw [String.ofList_cons, String.utf8ByteSize_append, String.utf8ByteSize_singleton, ih,
        Text.byteLength_cons]

/-- Blanks in front of a text only move it. -/
theorem scan_blanks (offset : Nat) {blanks : List Char} (h : ∀ c ∈ blanks, isBlank c = true)
    (text : List Char) :
    scan offset (blanks ++ text) = scan (offset + byteLength blanks) text := by
  induction blanks generalizing offset with
  | nil => rfl
  | cons c blanks ih =>
      obtain ⟨hc, hblanks⟩ := List.forall_mem_cons.mp h
      rw [List.cons_append, scan_blank _ _ hc, ih _ hblanks, Text.byteLength_cons, Nat.add_assoc]

/-- **What is behind a run and some blanks is scanned alone**, as far on as the run and the blanks
take. -/
theorem Scans.tokenize_append {a w b : String} {tokens : List Token} (hw : Blank w)
    (h : Scans (w.toList ++ b.toList) 0 a.toList tokens) :
    tokenize (a ++ w ++ b) =
      ((tokenize b).mapError (Fault.shift (a ++ w).utf8ByteSize)).map
        fun others => tokens ++ others.map (Token.shift (a ++ w).utf8ByteSize) := by
  have hlength : byteLength a.toList + byteLength w.toList = 0 + (a ++ w).utf8ByteSize := by
    rw [Nat.zero_add, ← byteLength_toList, String.toList_append, Text.byteLength_append]
  rw [tokenize, String.toList_append, String.toList_append, List.append_assoc, h.scan_append,
    Nat.zero_add, scan_blanks _ hw, hlength, scan_shift, tokenize]
  cases scan 0 b.toList <;> rfl

/-- Blanks end what was read before them. -/
theorem curtails_blank {w : String} (hne : w ≠ "") (hw : Blank w) (left b : List Char) :
    Curtails left (w.toList ++ b) := by
  refine curtails_of_blank left fun c hc => hw c ?_
  obtain ⟨d, rest, hchars⟩ := List.exists_cons_of_ne_nil (mt String.toList_eq_nil_iff.mp hne)
  rw [hchars] at hc ⊢
  cases hc
  exact List.mem_cons_self

/-! ### Other blanks -/

/-- A source is **respaced** at one place between its tokens: the blanks there, if there are any,
become other ones. -/
inductive Respaces : String → String → Prop
  | between {a w w' b : String} {tokens : List Token} (hw : Blank w) (hw' : Blank w') (hne : w' ≠ "")
      (htokens : tokenize (a ++ w ++ b) = .ok tokens)
      (hplace : ∀ t ∈ tokens, ¬ t.PartedAt a.utf8ByteSize) :
      Respaces (a ++ w ++ b) (a ++ w' ++ b)

/-- **A respaced source has tokens of the same kinds.** -/
theorem Respaces.map_kind_eq {source source' : String} (h : Respaces source source') :
    ∃ tokens tokens', tokenize source = .ok tokens ∧ tokenize source' = .ok tokens' ∧
      tokens.map Token.kind = tokens'.map Token.kind := by
  cases h with
  | @between a w w' b tokens hw hw' hne htokens hplace =>
      have hscans : Scans [] 0 (a.toList ++ (w.toList ++ b.toList)) tokens := by
        rw [← List.append_assoc, ← String.toList_append, ← String.toList_append]
        exact scan_eq_ok_iff.mp htokens
      rw [← byteLength_toList, ← Nat.zero_add (byteLength _)] at hplace
      obtain ⟨tokens₁, -, -, hfront, -⟩ := hscans.split hplace
      rw [List.append_nil] at hfront
      have hsource := hfront.tokenize_append hw
      have hsource' := (hfront.curtail (curtails_blank hne hw' _ b.toList)).tokenize_append hw'
      rw [htokens] at hsource
      cases hback : tokenize b with
      | error fault => rw [hback] at hsource; cases hsource
      | ok others =>
          rw [hback] at hsource hsource'
          obtain rfl := Except.ok.inj hsource
          refine ⟨_, _, htokens, hsource', ?_⟩
          simp [Function.comp_def, Token.shift]

/-- Sources with tokens of the same kinds are read as the same formula. -/
theorem ofSource_congr {options : Options} {source source' : String} {tokens tokens' : List Token}
    (h : tokenize source = .ok tokens) (h' : tokenize source' = .ok tokens')
    (hkinds : tokens.map Token.kind = tokens'.map Token.kind) (f : Formula) :
    ofSource options source = .ok f ↔ ofSource options source' = .ok f := by
  rw [tokenize] at h h'
  rw [ofSource_eq_ok_iff, ofSource_eq_ok_iff, spelled_iff 0 0, spelled_iff 0 0, h, h']
  simpa using ofTokens_respelled (respelled_of_map_kind_eq hkinds) f

/-- **Texts with a blank between them are scanned apart**, and the blanks between the tokens of a
source do not matter to the formula that it is read as. -/
theorem tokenize_spaced :
    (∀ (a w b : String) (tokens : List Token), tokenize a = .ok tokens → w ≠ "" → Blank w →
      tokenize (a ++ w ++ b) =
        ((tokenize b).mapError (Fault.shift (a ++ w).utf8ByteSize)).map
          fun others => tokens ++ others.map (Token.shift (a ++ w).utf8ByteSize)) ∧
    ∀ source source' : String, Relation.ReflTransGen Respaces source source' →
      ∀ (options : Options) (f : Formula),
        ofSource options source = .ok f ↔ ofSource options source' = .ok f := by
  constructor
  · intro a w b tokens ha hne hw
    have hscans : Scans [] 0 a.toList tokens := scan_eq_ok_iff.mp ha
    exact (hscans.curtail (curtails_blank hne hw [] b.toList)).tokenize_append hw
  · intro source source' h options f
    induction h with
    | refl => exact Iff.rfl
    | tail _ hstep ih =>
        obtain ⟨tokens, tokens', htokens, htokens', hkinds⟩ := hstep.map_kind_eq
        exact ih.trans (ofSource_congr htokens htokens' hkinds f)

/-- A blank between `<` and `=` makes two tokens of them, and a quoted text without an end has its
fault further on. A sum is the same with a blank in it and with a line break more. -/
theorem tokenize_spaced_sum :
    tokenize "x< =y" = .ok [⟨.name "x", ⟨0, 1⟩⟩, ⟨.less, ⟨1, 2⟩⟩, ⟨.assign, ⟨3, 4⟩⟩,
        ⟨.name "y", ⟨4, 5⟩⟩] ∧
      tokenize "x< 'y" = .error ⟨3, .unterminatedText⟩ ∧
      ∀ (options : Options) (f : Formula),
        ofSource options "x+y" = .ok f ↔ ofSource options " x+\n y" = .ok f := by
  obtain ⟨happart, hrespaced⟩ := tokenize_spaced
  have hspace : Blank " " := by
    intro c hc
    obtain rfl := List.mem_singleton.mp hc
    rfl
  have hbreak : Blank "\n " := by
    intro c hc
    rcases List.mem_pair.mp hc with rfl | rfl
    all_goals rfl
  have hx : tokenize "x<" = .ok [⟨.name "x", ⟨0, 1⟩⟩, ⟨.less, ⟨1, 2⟩⟩] := by cbv
  have hy : tokenize "=y" = .ok [⟨.assign, ⟨0, 1⟩⟩, ⟨.name "y", ⟨1, 2⟩⟩] := by cbv
  have hquote : tokenize "'y" = .error ⟨0, .unterminatedText⟩ := by cbv
  have hsum : tokenize "x+y" = .ok [⟨.name "x", ⟨0, 1⟩⟩, ⟨.plus, ⟨1, 2⟩⟩, ⟨.name "y", ⟨2, 3⟩⟩] := by
    cbv
  have hsum' : tokenize " x+y" =
      .ok [⟨.name "x", ⟨1, 2⟩⟩, ⟨.plus, ⟨2, 3⟩⟩, ⟨.name "y", ⟨3, 4⟩⟩] := by cbv
  have hfront : Respaces "x+y" " x+y" :=
    @Respaces.between "" "" " " "x+y" _ blank_empty hspace (by decide) hsum (by decide)
  have hmiddle : Respaces " x+y" " x+\n y" :=
    @Respaces.between " x+" "" "\n " "y" _ blank_empty hbreak (by decide) hsum'
      (by decide)
  refine ⟨?_, ?_, hrespaced _ _ (.tail (.single hfront) hmiddle)⟩
  · have hapart := happart "x<" " " "=y" _ hx (by decide) hspace
    rw [hy] at hapart
    exact hapart
  · have hapart := happart "x<" " " "'y" _ hx (by decide) hspace
    rw [hquote] at hapart
    exact hapart

end Dashboard.Formula
