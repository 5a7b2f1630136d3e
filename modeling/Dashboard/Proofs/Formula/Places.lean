import Dashboard.Proofs.Formula.Located
import Dashboard.Proofs.Formula.Spacing
import Dashboard.Proofs.Formula.Tiling
import Mathlib.Data.List.DropRight

/-!
# Where a Formula is at Fault

A failure to read a formula is shown at a place of the source, so that the place can be marked.
The grammar finds its faults at tokens and at the end. The scanner finds its own where it stopped:
at the first character of the token that it could not read, or, if this token is a quoted text, at
an escape inside of it. So every place is on the boundary of two characters, and its line and its
column can be counted in the text in front of it.

## Main results

* `offset_of_quotedText`, `offset_of_lexeme` — where the scanner is at fault.
* `positionAt_byteLength` — the line and the column of a place, counted in front of it.
* `tokenize_eq_error_iff` — the faults of the scanner are where it stops.
* `failure_points` — every failure to read a formula points into its source.
-/

namespace Dashboard.Formula

open Text (isBlank byteLength Position)

/-! ### Lines and columns -/

/-- A line ends with every newline, and a column is counted from the last one. -/
theorem foldl_advance (front : List Char) :
    front.foldl Position.advance ⟨1, 1⟩ =
      ⟨front.count '\n' + 1, (front.rtakeWhile (· != '\n')).length + 1⟩ := by
  induction front using List.reverseRecOn with
  | nil => simp
  | append_singleton front c ih =>
      rw [List.foldl_concat, ih, Position.advance]
      by_cases hc : c = '\n'
      · subst hc
        simp
      · simp [hc]

/-- The characters in front of the end of a text's first part are those of that part. -/
theorem before_byteLength (front back : List Char) :
    Text.before (byteLength front) (front ++ back) = front := by
  induction front with
  | nil => rw [Text.byteLength_nil, Text.before]
  | cons c front ih =>
      obtain ⟨n, hn⟩ := Nat.exists_eq_add_one.mpr (byteLength_pos (List.cons_ne_nil c front))
      rw [hn, List.cons_append, Text.before, ← hn, Text.byteLength_cons, Nat.add_sub_cancel_left,
        ih]

/-- A part in front of a text is what stands in front of its end. -/
theorem before_of_prefix {front text : List Char} (h : front <+: text) :
    Text.before (byteLength front) text = front := by
  obtain ⟨back, rfl⟩ := h
  exact before_byteLength front back

/-- **The line and the column of a place**, counted in the text in front of it. -/
theorem positionAt_byteLength {source : String} {front : List Char}
    (h : front <+: source.toList) :
    Text.positionAt source (byteLength front) =
      ⟨front.count '\n' + 1, (front.rtakeWhile (· != '\n')).length + 1⟩ := by
  rw [Text.positionAt, before_of_prefix h, foldl_advance]

/-! ### The scanner -/

/-- **A quoted text is at fault** where it begins, or at the backslash of an escape that stands for
nothing. What is in front of the backslash is a quoted text if its last quote is put behind it. -/
theorem offset_of_quotedText {start : Nat} {quote : Char} (hquote : quote ≠ '\\') {offset : Nat}
    {text : List Char} {fault : Fault}
    (h : quotedText start quote offset text = .error fault) :
    fault.offset = start ∨ ∃ body c rest value, text = body ++ '\\' :: c :: rest ∧
      unescape? c = none ∧ fault.offset = offset + byteLength body ∧
      ∀ start' offset', quotedText start' quote offset' (body ++ [quote]) =
        .ok (value, body.length + 1) := by
  fun_induction quotedText start quote offset text with
  | case1 => cases h; exact .inl rfl
  | case2 => cases h; exact .inl rfl
  | case3 offset c rest hescape =>
      cases h
      refine .inr ⟨[], c, rest, [], rfl, hescape, rfl, fun start' offset' => ?_⟩
      rw [List.nil_append, quotedText_cons _ _ _ hquote, if_pos rfl]
      rfl
  | case4 offset c rest d hescape ih =>
      cases hrest : quotedText start quote (offset + 1 + c.utf8Size) rest with
      | ok quoted => rw [hrest] at h; cases h
      | error fault' =>
          rw [hrest] at h
          cases h
          rcases ih hrest with hstart | ⟨body, e, more, value, rfl, he, hoffset, hbody⟩
          · exact .inl hstart
          · refine .inr
              ⟨'\\' :: c :: body, e, more, d :: value, rfl, he, ?_, fun start' offset' => ?_⟩
            · rw [hoffset, Text.byteLength_cons, Text.byteLength_cons, ← Nat.add_assoc,
                ← Nat.add_assoc]
              rfl
            · rw [List.cons_append, List.cons_append, quotedText, hescape]
              exact Grammar.bind_eq_ok.mpr ⟨_, hbody _ _, rfl⟩
  | case5 => cases h
  | case6 offset c rest hlone hescape hother ih =>
      cases hrest : quotedText start quote (offset + c.utf8Size) rest with
      | ok quoted => rw [hrest] at h; cases h
      | error fault' =>
          rw [hrest] at h
          cases h
          rcases ih hrest with hstart | ⟨body, e, more, value, rfl, he, hoffset, hbody⟩
          · exact .inl hstart
          · refine .inr ⟨c :: body, e, more, c :: value, rfl, he, ?_, fun start' offset' => ?_⟩
            · rw [hoffset, Text.byteLength_cons, Nat.add_assoc]
            · rw [List.cons_append, quotedText_cons _ _ _ (ne_of_not_escape hlone hescape),
                if_neg hother, hbody]
              rfl

/-- A quote begins a quoted text and no other token. -/
theorem lexeme_quote (offset : Nat) {quote : Char} (hquote : quote = '\'' ∨ quote = '"')
    (rest : List Char) : lexeme offset quote rest = textLexeme offset quote rest := by
  rcases hquote with rfl | rfl <;> rfl

/-- **The scanner is at fault** where a token begins, or at an escape of a quoted text. -/
theorem offset_of_lexeme {offset : Nat} {first : Char} {rest : List Char} {fault : Fault}
    (h : lexeme offset first rest = .error fault) :
    fault.offset = offset ∨ ∃ body c more value, (first = '\'' ∨ first = '"') ∧
      rest = body ++ '\\' :: c :: more ∧ unescape? c = none ∧
      fault.offset = offset + byteLength (first :: body) ∧
      lexeme 0 first (body ++ [first]) = .ok ⟨.text value, body.length + 1⟩ := by
  by_cases hquote : first = '\'' ∨ first = '"'
  · rw [lexeme_quote _ hquote, textLexeme] at h
    have hbackslash : first ≠ '\\' := by rcases hquote with rfl | rfl <;> decide
    cases hquoted : quotedText offset first (offset + first.utf8Size) rest with
    | ok quoted => rw [hquoted] at h; cases h
    | error fault' =>
        rw [hquoted] at h
        cases h
        rcases offset_of_quotedText hbackslash hquoted with
          hstart | ⟨body, c, more, value, rfl, hc, hoffset, hbody⟩
        · exact .inl hstart
        · refine .inr ⟨body, c, more, String.ofList value, hquote, rfl, hc, ?_, ?_⟩
          · rw [hoffset, Text.byteLength_cons, Nat.add_assoc]
          · rw [lexeme_quote _ hquote, textLexeme]
            exact Grammar.bind_eq_ok.mpr ⟨_, hbody _ _, rfl⟩
  · left
    rw [lexeme] at h
    split at h
    · cases h
    · split at h
      · rw [Compound.lexeme] at h
        split at h
        · cases h
        · split at h <;> cases h
          rfl
      · rw [if_neg hquote] at h
        split at h
        · rw [numberLexeme] at h
          split at h <;> cases h
          rfl
        · split at h <;> cases h
          rfl

/-- The scanner **stops** in a source with a fault: it has scanned what is in front of a character
that is not blank, and the token that begins with this character cannot be read. -/
structure StopsAt (source front : List Char) (first : Char) (rest : List Char) (fault : Fault) :
    Prop where
  source_eq : source = front ++ first :: rest
  scans : ∃ tokens, Scans (first :: rest) 0 front tokens
  visible : isBlank first = false
  unreadable : lexeme (byteLength front) first rest = .error fault

/-- **A source has a fault in its tokens just if the scanner stops with it.** -/
theorem tokenize_eq_error_iff {source : String} {fault : Fault} :
    tokenize source = .error fault ↔
      ∃ front first rest, StopsAt source.toList front first rest fault := by
  constructor
  · intro h
    obtain ⟨front, first, rest, tokens, hsource, hscans, hvisible, hfault⟩ :=
      exists_scans_of_error h
    rw [Nat.zero_add] at hfault
    exact ⟨front, first, rest, hsource, ⟨tokens, hscans⟩, hvisible, hfault⟩
  · rintro ⟨front, first, rest, h⟩
    obtain ⟨tokens, hscans⟩ := h.scans
    rw [tokenize, h.source_eq, hscans.scan_append, Nat.zero_add, scan_visible _ _ h.visible,
      h.unreadable]
    rfl

/-! ### Every failure -/

/-- A **place of a fault** in a source, given by the text in front of it. If all tokens can be
read, it is the beginning of the source if there is no token behind the mark of a formula, the end
of the source, or the beginning of one of the tokens. Otherwise it is in the token that the scanner
was reading when it stopped, and it is where the scanner found its fault: the first character of
this token, or an escape inside of it. There it is a quoted text, which would end in place of the
escape if its quote stood there. -/
inductive FaultPlace (source : List Char) : List Char → Prop
  | nothing {dialect : Dialect} {tokens : List Token}
      (htokens : tokenize (String.ofList source) = .ok tokens)
      (hnone : dropMark dialect tokens = []) : FaultPlace source []
  | ending {tokens : List Token} (htokens : tokenize (String.ofList source) = .ok tokens) :
      FaultPlace source source
  | token {front : List Char} {tokens : List Token} {t : Token}
      (htokens : tokenize (String.ofList source) = .ok tokens) (ht : t ∈ tokens)
      (hfront : t.span.start = byteLength front) : FaultPlace source front
  | reading {front : List Char} {first : Char} {rest : List Char} {fault : Fault}
      (h : StopsAt source front first rest fault) (hplace : fault.offset = byteLength front) :
      FaultPlace source front
  | escape {front : List Char} {quote : Char} {body : List Char} {c : Char} {rest : List Char}
      {fault : Fault} {value : String} {span : Span}
      (h : StopsAt source front quote (body ++ '\\' :: c :: rest) fault)
      (hplace : fault.offset = byteLength (front ++ quote :: body))
      (hquote : quote = '\'' ∨ quote = '"')
      (hbody : tokenize (String.ofList (quote :: (body ++ [quote]))) = .ok [⟨.text value, span⟩])
      (hescape : unescape? c = none) : FaultPlace source (front ++ quote :: body)

/-- A failure **points into** a source: it is shown at a place between two characters where a fault
can be, with the line and the column of that place, both counted from one. If the source cannot be
cut into tokens, there is no other place where a fault can be. -/
def PointsInto (source : String) (failure : Failure) : Prop :=
  ∃ detail front, front <+: source.toList ∧ byteLength front ≤ source.utf8ByteSize ∧
    FaultPlace source.toList front ∧
    ((∀ tokens, tokenize source ≠ .ok tokens) →
      ∀ place, FaultPlace source.toList place → place = front) ∧
    failure = .malformed detail (byteLength front)
      ⟨front.count '\n' + 1, (front.rtakeWhile (· != '\n')).length + 1⟩

/-- In a source that cannot be cut into tokens, a place of a fault is where the scanner is at
fault. -/
theorem FaultPlace.offset_eq {source : String} {place : List Char} {fault : Fault}
    (h : FaultPlace source.toList place) (hfault : tokenize source = .error fault) :
    place <+: source.toList ∧ fault.offset = byteLength place := by
  have hreads : ∀ tokens, tokenize (String.ofList source.toList) ≠ .ok tokens := by
    intro tokens
    rw [String.ofList_toList, hfault]
    nofun
  have hstop : ∀ {front first rest fault'}, StopsAt source.toList front first rest fault' →
      fault = fault' := by
    intro front first rest fault' h
    have hsame := tokenize_eq_error_iff.mpr ⟨front, first, rest, h⟩
    rw [hfault] at hsame
    exact Except.error.inj hsame
  cases h with
  | nothing htokens => exact absurd htokens (hreads _)
  | ending htokens => exact absurd htokens (hreads _)
  | token htokens => exact absurd htokens (hreads _)
  | reading h hplace =>
      rw [hstop h]
      exact ⟨⟨_, h.source_eq.symm⟩, hplace⟩
  | @escape front quote body c rest _ _ _ h hplace =>
      rw [hstop h]
      exact ⟨⟨'\\' :: c :: rest, by simp [h.source_eq]⟩, hplace⟩

/-- **Where the scanner is at fault** in a source, there is the only place of a fault. -/
theorem faultPlace_of_tokenize {source : String} {fault : Fault}
    (h : tokenize source = .error fault) :
    ∃ front, front <+: source.toList ∧ fault.offset = byteLength front ∧
      FaultPlace source.toList front ∧
      ∀ place, FaultPlace source.toList place → place = front := by
  obtain ⟨front, first, rest, hstop⟩ := tokenize_eq_error_iff.mp h
  obtain ⟨place, hplace⟩ : ∃ place, FaultPlace source.toList place := by
    rcases offset_of_lexeme hstop.unreadable with
      hstart | ⟨body, c, more, value, hquote, rfl, hc, hoffset, hbody⟩
    · exact ⟨front, .reading hstop hstart⟩
    · have hquoted : lexeme 0 first ((body ++ [first]) ++ []) =
          .ok ⟨.text value, (body ++ [first]).length⟩ := by
        rw [List.append_nil, hbody, List.length_append, List.length_singleton]
      exact ⟨front ++ first :: body, .escape hstop (by rw [hoffset, Text.byteLength_append]) hquote
        (tokenize_piece hstop.visible hquoted) hc⟩
  obtain ⟨hpart, hoffset⟩ := hplace.offset_eq h
  refine ⟨place, hpart, hoffset, hplace, fun other hother => ?_⟩
  obtain ⟨hpart', hoffset'⟩ := hother.offset_eq h
  rw [← before_of_prefix hpart', ← hoffset', hoffset, before_of_prefix hpart]

/-- **Where the grammar is at fault** in a source. -/
theorem faultPlace_of_ofTokens {options : Options} {source : String} {tokens : List Token}
    {fault : Fault} (htokens : tokenize source = .ok tokens)
    (h : ofTokens options (byteLength source.toList) tokens = .error fault) :
    ∃ front, front <+: source.toList ∧ fault.offset = byteLength front ∧
      FaultPlace source.toList front := by
  have hsource : tokenize (String.ofList source.toList) = .ok tokens := by
    rwa [String.ofList_toList]
  rcases offset_of_ofTokens h with ⟨hnone, hzero⟩ | hend | ⟨t, ht, hstart⟩
  · exact ⟨[], List.nil_prefix, hzero, .nothing hsource hnone⟩
  · exact ⟨source.toList, List.prefix_rfl, hend, .ending hsource⟩
  · obtain ⟨front, piece, back, htext, -, hspan, -⟩ := (scan_eq_ok_iff.mp htokens).cutFrom ht
    rw [hspan] at hstart
    refine ⟨front, ⟨piece ++ back, by rw [htext, List.append_assoc]⟩, hstart, ?_⟩
    exact .token hsource ht (by rw [hspan])

/-- **Every failure to read a formula points into its source**, whichever half of the reader it
comes from. -/
theorem failure_points {options : Options} {source : String} {failure : Failure}
    (h : (tokenize source).mapError (Fault.toFailure source) = .error failure ∨
      ofSource options source = .error failure) :
    PointsInto source failure := by
  obtain ⟨fault, rfl, front, hpart, hoffset, hplace, honly⟩ : ∃ fault,
      failure = Fault.toFailure source fault ∧ ∃ front, front <+: source.toList ∧
        fault.offset = byteLength front ∧ FaultPlace source.toList front ∧
        ((∀ tokens, tokenize source ≠ .ok tokens) →
          ∀ place, FaultPlace source.toList place → place = front) := by
    cases htokens : tokenize source with
    | error fault =>
        obtain ⟨front, hpart, hoffset, hplace, honly⟩ := faultPlace_of_tokenize htokens
        refine ⟨fault, ?_, front, hpart, hoffset, hplace, fun _ => honly⟩
        rw [ofSource, parse, htokens] at h
        rcases h with h | h
        · cases h
          rfl
        · cases h
          rfl
    | ok tokens =>
        rw [ofSource, parse, htokens] at h
        rcases h with h | h
        · cases h
        · rw [Grammar.ok_bind] at h
          cases hformula : ofTokens options (byteLength source.toList) tokens with
          | ok f => rw [hformula] at h; cases h
          | error fault =>
              rw [hformula] at h
              cases h
              obtain ⟨front, hpart, hoffset, hplace⟩ := faultPlace_of_ofTokens htokens hformula
              exact ⟨fault, rfl, front, hpart, hoffset, hplace, fun hnone => absurd rfl (hnone _)⟩
  refine ⟨fault.cause.message, front, hpart, ?_, hplace, honly, ?_⟩
  · obtain ⟨back, hback⟩ := hpart
    rw [← byteLength_toList, ← hback, Text.byteLength_append]
    exact Nat.le_add_right _ _
  · rw [Fault.toFailure, Failure.malformedAt, hoffset, positionAt_byteLength hpart]

/-- An escape that stands for nothing, on the second line and behind a letter of two bytes, and a
parenthesis too many behind the mark of a formula. -/
theorem failure_points_escape :
    (∃ failure, (tokenize "x +\n 'é\\q'").mapError (Fault.toFailure "x +\n 'é\\q'") =
        .error failure ∧ PointsInto "x +\n 'é\\q'" failure) ∧
      ∃ failure, ofSource ⟨.simplified, 64⟩ "= x )" = .error failure ∧
        PointsInto "= x )" failure := by
  have hescape : (tokenize "x +\n 'é\\q'").mapError (Fault.toFailure "x +\n 'é\\q'") =
      .error (.malformed "unknown escape sequence '\\q'" 8 ⟨2, 4⟩) := by
    have hfault : tokenize "x +\n 'é\\q'" = .error ⟨8, .unknownEscape 'q'⟩ := by cbv
    rw [hfault]
    rfl
  have htokens : tokenize "= x )" =
      .ok [⟨.assign, ⟨0, 1⟩⟩, ⟨.name "x", ⟨2, 3⟩⟩, ⟨.rightParen, ⟨4, 5⟩⟩] := by cbv
  have hformula : ofSource ⟨.simplified, 64⟩ "= x )" =
      .error (.malformed "unexpected ')'" 4 ⟨1, 5⟩) := by
    rw [ofSource, parse, htokens]
    rfl
  exact ⟨⟨_, hescape, @failure_points ⟨.simplified, 64⟩ _ _ (.inl hescape)⟩,
    ⟨_, hformula, failure_points (.inr hformula)⟩⟩

end Dashboard.Formula
