import Dashboard.Proofs.Formula.Lookahead

/-!
# What the Scanner Has Read

The scanner reads a text from left to right. `Scans` is its run over the part that it has read,
in front of the part that is left: blanks, and tokens each of which is a piece of the text. The
scanner has no state but its offset, so the part that is left is scanned as if it stood alone, and
the run stays the same if the part that is left is curtailed.

Every fact about the tokens of a text is an induction on the run: where they stand, what is
between them, and that the text can be split between any two of them.

## Main results

* `Scans.scan_append` — what is left is scanned as if it stood alone, further on.
* `exists_scans`, `scan_eq_ok_iff` — success and failure of the scanner as runs.
* `Scans.curtail`, `Scans.split` — runs are shortened and split.
* `Scans.exists_piece`, `Scans.pairwise`, `Scans.isBlank_of_gap` — where the tokens of a run are.
* `scan_shift` — a text that stands further on has its tokens, and its fault, further on.
-/

namespace Dashboard.Formula

open Text (isBlank byteLength)

/-! ### Runs -/

/-- The scanner **scans** a part of a text, in front of what is left, into tokens. -/
inductive Scans (left : List Char) : Nat → List Char → List Token → Prop
  | done (offset : Nat) : Scans left offset [] []
  | blank {offset : Nat} {c : Char} {read : List Char} {tokens : List Token}
      (hblank : isBlank c = true) (h : Scans left (offset + c.utf8Size) read tokens) :
      Scans left offset (c :: read) tokens
  | token {offset : Nat} {first : Char} {piece read : List Char} {kind : Token.Kind}
      {tokens : List Token} (hfirst : isBlank first = false)
      (hlexeme : lexeme offset first (piece ++ (read ++ left)) = .ok ⟨kind, piece.length⟩)
      (h : Scans left (offset + byteLength (first :: piece)) read tokens) :
      Scans left offset (first :: (piece ++ read))
        (⟨kind, ⟨offset, offset + byteLength (first :: piece)⟩⟩ :: tokens)

variable {left read : List Char} {offset : Nat} {tokens : List Token}

/-- A piece that makes a token, and what is scanned behind it. -/
theorem scan_piece {first : Char} {piece rest : List Char} {kind : Token.Kind}
    (hfirst : isBlank first = false)
    (hlexeme : lexeme offset first (piece ++ rest) = .ok ⟨kind, piece.length⟩) :
    scan offset (first :: (piece ++ rest)) =
      (scan (offset + byteLength (first :: piece)) rest).map
        (⟨kind, ⟨offset, offset + byteLength (first :: piece)⟩⟩ :: ·) := by
  rw [scan_visible _ _ hfirst, hlexeme, Grammar.ok_bind]
  simp only [List.take_left, List.drop_left, Text.byteLength_cons, ← Nat.add_assoc]
  cases scan (offset + first.utf8Size + byteLength piece) rest <;> rfl

/-- **What is left is scanned as if it stood alone**, further on. -/
theorem Scans.scan_append (h : Scans left offset read tokens) :
    scan offset (read ++ left) =
      (scan (offset + byteLength read) left).map (tokens ++ ·) := by
  induction h with
  | done offset =>
      cases hleft : scan offset left <;> simp [hleft, Except.map]
  | blank hblank _ ih =>
      rw [List.cons_append, scan_blank _ _ hblank, ih, Text.byteLength_cons, Nat.add_assoc]
  | token hfirst hlexeme _ ih =>
      rw [List.cons_append, List.append_assoc, scan_piece hfirst hlexeme, ih,
        ← List.cons_append, Text.byteLength_append, Nat.add_assoc]
      cases scan _ left <;> rfl

/-- The tokens of a run over a whole text are its tokens. -/
theorem Scans.scan_eq (h : Scans [] offset read tokens) : scan offset read = .ok tokens := by
  have hscan := h.scan_append
  rw [List.append_nil, scan_nil] at hscan
  rw [hscan, Except.map, List.append_nil]

/-- The scanner reads a whole text, or it stops at a visible character where no token can be
read. -/
theorem exists_scans (offset : Nat) (text : List Char) :
    (∃ tokens, Scans [] offset text tokens) ∨
      ∃ read first rest tokens fault, text = read ++ first :: rest ∧
        Scans (first :: rest) offset read tokens ∧ isBlank first = false ∧
        lexeme (offset + byteLength read) first rest = .error fault := by
  match text with
  | [] => exact .inl ⟨[], .done offset⟩
  | first :: rest =>
      cases hfirst : isBlank first with
      | true =>
          rcases exists_scans (offset + first.utf8Size) rest with ⟨tokens, h⟩ | h
          · exact .inl ⟨tokens, .blank hfirst h⟩
          · obtain ⟨read, next, more, tokens, fault, rfl, h, hnext, hfault⟩ := h
            refine .inr ⟨first :: read, next, more, tokens, fault, rfl, .blank hfirst h, hnext, ?_⟩
            rwa [Text.byteLength_cons, ← Nat.add_assoc]
      | false =>
          cases hlexeme : lexeme offset first rest with
          | error fault =>
              exact .inr ⟨[], first, rest, [], fault, rfl, .done offset, hfirst, hlexeme⟩
          | ok l =>
              obtain ⟨kind, more⟩ := l
              obtain ⟨piece, left, hsplit, rfl, -⟩ := exists_piece_of_lexeme hlexeme
              have hshorter : left.length < (first :: rest).length := by
                rw [hsplit, List.length_cons, List.length_append]
                omega
              have hleft := exists_scans (offset + byteLength (first :: piece)) left
              subst hsplit
              rcases hleft with ⟨tokens, h⟩ | h
              · exact .inl ⟨_, .token hfirst (by rwa [List.append_nil]) h⟩
              · obtain ⟨read, next, more, tokens, fault, rfl, h, hnext, hfault⟩ := h
                refine .inr ⟨first :: (piece ++ read), next, more, _, fault, by simp,
                  .token hfirst hlexeme h, hnext, ?_⟩
                rwa [← List.cons_append, Text.byteLength_append, ← Nat.add_assoc]
termination_by text.length

/-- **A text has tokens just if the scanner runs over all of it.** -/
theorem scan_eq_ok_iff : scan offset read = .ok tokens ↔ Scans [] offset read tokens := by
  refine ⟨fun h => ?_, Scans.scan_eq⟩
  rcases exists_scans offset read with ⟨tokens', hscans⟩ | hfails
  · rw [hscans.scan_eq] at h
    cases h
    exact hscans
  · obtain ⟨read, first, rest, tokens', fault, rfl, hscans, hfirst, hfault⟩ := hfails
    rw [hscans.scan_append, scan_visible _ _ hfirst, hfault] at h
    cases h

/-- **A text has a fault just where the scanner stops**: at a visible character behind a run, where
no token can be read. -/
theorem exists_scans_of_error {text : List Char} {fault : Fault}
    (h : scan offset text = .error fault) :
    ∃ read first rest tokens, text = read ++ first :: rest ∧
      Scans (first :: rest) offset read tokens ∧ isBlank first = false ∧
      lexeme (offset + byteLength read) first rest = .error fault := by
  rcases exists_scans offset text with ⟨tokens', hscans⟩ | hfails
  · rw [hscans.scan_eq] at h
    cases h
  · obtain ⟨read, first, rest, tokens, fault', rfl, hscans, hfirst, hfault⟩ := hfails
    rw [hscans.scan_append, scan_visible _ _ hfirst, hfault] at h
    cases h
    exact ⟨read, first, rest, tokens, rfl, hscans, hfirst, hfault⟩

/-! ### Runs are shortened and split -/

/-- **A run is the same in front of a curtailed text.** -/
theorem Scans.curtail {left' : List Char} (h : Scans left offset read tokens)
    (hleft : Curtails left left') : Scans left' offset read tokens := by
  induction h with
  | done offset => exact .done offset
  | blank hblank _ ih => exact .blank hblank ih
  | token hfirst hlexeme _ ih =>
      exact .token hfirst (lexeme_curtail hlexeme (hleft.append _)) ih

/-- A place **parts** a token if it is behind its first byte and in front of its last one's end. -/
def Token.PartedAt (t : Token) (place : Nat) : Prop :=
  t.span.start < place ∧ place < t.span.stop

instance (t : Token) (place : Nat) : Decidable (t.PartedAt place) :=
  inferInstanceAs (Decidable (t.span.start < place ∧ place < t.span.stop))

/-- A text that is not empty takes bytes. -/
theorem byteLength_pos {text : List Char} (h : text ≠ []) : 0 < byteLength text := by
  obtain ⟨c, rest, rfl⟩ := List.exists_cons_of_ne_nil h
  have := Char.utf8Size_pos c
  rw [Text.byteLength_cons]
  omega

/-- A place in a text is behind its first piece, or it is inside that piece. -/
theorem exists_behind_or_inside {front back piece rest : List Char}
    (h : front ++ back = piece ++ rest) :
    (∃ others, front = piece ++ others ∧ rest = others ++ back) ∨
      byteLength front < byteLength piece := by
  rcases List.append_eq_append_iff.mp h with ⟨others, rfl, rfl⟩ | hbehind
  · cases others with
    | nil => exact .inl ⟨[], by simp, rfl⟩
    | cons c others =>
        have := Char.utf8Size_pos c
        rw [Text.byteLength_append, Text.byteLength_cons]
        omega
  · exact .inl hbehind

/-- **A run splits at every place that parts no token.** -/
theorem Scans.split {front back : List Char} (h : Scans left offset (front ++ back) tokens)
    (hplace : ∀ t ∈ tokens, ¬ t.PartedAt (offset + byteLength front)) :
    ∃ tokens₁ tokens₂, tokens = tokens₁ ++ tokens₂ ∧
      Scans (back ++ left) offset front tokens₁ ∧
      Scans left (offset + byteLength front) back tokens₂ := by
  generalize hread : front ++ back = read at h
  induction h generalizing front with
  | done offset =>
      obtain ⟨rfl, rfl⟩ := List.append_eq_nil_iff.mp hread
      exact ⟨[], [], rfl, .done _, .done _⟩
  | @blank offset c read tokens hblank h ih =>
      cases front with
      | nil =>
          subst hread
          exact ⟨[], _, rfl, .done _, .blank hblank h⟩
      | cons d front =>
          obtain ⟨rfl, rfl⟩ := List.cons.inj hread
          rw [Text.byteLength_cons, ← Nat.add_assoc] at hplace ⊢
          obtain ⟨tokens₁, tokens₂, rfl, hfront, hback⟩ := ih hplace rfl
          exact ⟨tokens₁, tokens₂, rfl, .blank hblank hfront, hback⟩
  | @token offset first piece read kind tokens hfirst hlexeme h ih =>
      by_cases hfront : front = []
      · subst hfront hread
        exact ⟨[], _, rfl, .done _, .token hfirst hlexeme h⟩
      · obtain ⟨hhere, hplace⟩ := List.forall_mem_cons.mp hplace
        rw [← List.cons_append] at hread
        rcases exists_behind_or_inside hread with ⟨others, rfl, rfl⟩ | hinside
        · rw [Text.byteLength_append, ← Nat.add_assoc] at hplace ⊢
          obtain ⟨tokens₁, tokens₂, rfl, hothers, hback⟩ := ih hplace rfl
          refine ⟨_ :: tokens₁, tokens₂, rfl, .token hfirst ?_ hothers, hback⟩
          rwa [List.append_assoc] at hlexeme
        · have hpos := byteLength_pos hfront
          exact absurd ⟨Nat.lt_add_of_pos_right hpos, Nat.add_lt_add_left hinside offset⟩ hhere

/-! ### Where the tokens of a run are -/

/-- **Every token of a run is a piece of what was read**, with its own lexeme and in its place. -/
theorem Scans.exists_piece (h : Scans left offset read tokens) {t : Token} (ht : t ∈ tokens) :
    ∃ front first piece back, read = front ++ first :: (piece ++ back) ∧
      t.span = ⟨offset + byteLength front, offset + byteLength front + byteLength (first :: piece)⟩ ∧
      isBlank first = false ∧
      lexeme 0 first (piece ++ (back ++ left)) = .ok ⟨t.kind, piece.length⟩ := by
  induction h with
  | done offset => cases ht
  | @blank offset c read tokens _ _ ih =>
      obtain ⟨front, first, piece, back, rfl, hspan, hfirst, hlexeme⟩ := ih ht
      refine ⟨c :: front, first, piece, back, rfl, ?_, hfirst, hlexeme⟩
      rw [hspan, Text.byteLength_cons c, Nat.add_assoc offset]
  | @token offset first piece read kind tokens hfirst hlexeme _ ih =>
      rcases List.mem_cons.mp ht with rfl | ht
      · exact ⟨[], first, piece, read, rfl, by simp, hfirst,
          lexeme_curtail hlexeme (curtails_self _)⟩
      · obtain ⟨front, next, piece', back, rfl, hspan, hnext, hlexeme'⟩ := ih ht
        refine ⟨first :: (piece ++ front), next, piece', back, by simp, ?_, hnext, hlexeme'⟩
        rw [hspan, ← List.cons_append, Text.byteLength_append (first :: piece), ← Nat.add_assoc]

/-- No token of a run begins in front of it. -/
theorem Scans.le_start (h : Scans left offset read tokens) {t : Token} (ht : t ∈ tokens) :
    offset ≤ t.span.start := by
  obtain ⟨front, first, piece, back, -, hspan, -⟩ := h.exists_piece ht
  rw [hspan]
  exact Nat.le_add_right _ _

/-- **The tokens of a run are in order and do not overlap.** -/
theorem Scans.pairwise (h : Scans left offset read tokens) :
    tokens.Pairwise fun t u => t.span.stop ≤ u.span.start := by
  induction h with
  | done offset => exact .nil
  | blank _ _ ih => exact ih
  | token _ _ h ih => exact .cons (fun u hu => h.le_start hu) ih

/-- A token **covers** a place if the byte there is one of its own. -/
def Token.Covers (t : Token) (place : Nat) : Prop :=
  t.span.start ≤ place ∧ place < t.span.stop

/-- **What no token of a run covers is blank.** -/
theorem Scans.isBlank_of_gap (h : Scans left offset read tokens) {front back : List Char} {c : Char}
    (hread : read = front ++ c :: back)
    (hgap : ∀ t ∈ tokens, ¬ t.Covers (offset + byteLength front)) : isBlank c = true := by
  induction h generalizing front with
  | done offset => simp at hread
  | @blank offset d read tokens hblank h ih =>
      cases front with
      | nil =>
          cases hread
          exact hblank
      | cons d' front =>
          cases hread
          rw [Text.byteLength_cons, ← Nat.add_assoc] at hgap
          exact ih rfl hgap
  | @token offset first piece read kind tokens _ _ h ih =>
      obtain ⟨hhere, hgap⟩ := List.forall_mem_cons.mp hgap
      rw [← List.cons_append] at hread
      rcases exists_behind_or_inside hread.symm with ⟨others, rfl, rfl⟩ | hinside
      · rw [Text.byteLength_append, ← Nat.add_assoc] at hgap
        exact ih rfl hgap
      · exact absurd ⟨Nat.le_add_right _ _, Nat.add_lt_add_left hinside offset⟩ hhere

/-! ### Further on -/

/-- A fault that is found further on. -/
def Fault.shift (bytes : Nat) (fault : Fault) : Fault :=
  { fault with offset := fault.offset + bytes }

/-- A token that stands further on. -/
def Token.shift (bytes : Nat) (t : Token) : Token :=
  { t with span := ⟨t.span.start + bytes, t.span.stop + bytes⟩ }

variable (bytes : Nat)

/-- A quoted text further on is the same, and its fault is further on. -/
theorem quotedText_shift (start : Nat) (quote : Char) (offset : Nat) (text : List Char) :
    quotedText (start + bytes) quote (offset + bytes) text =
      (quotedText start quote offset text).mapError (Fault.shift bytes) := by
  fun_induction quotedText start quote offset text with
  | case1 => rfl
  | case2 => rfl
  | case3 offset c rest hescape =>
      rw [quotedText, hescape]
      rfl
  | case4 offset c rest d hescape ih =>
      rw [quotedText, hescape]
      simp only [Nat.add_right_comm _ bytes, ih]
      cases quotedText start quote (offset + 1 + c.utf8Size) rest <;> rfl
  | case5 offset rest hlone hescape =>
      rw [quotedText_cons _ _ _ (ne_of_not_escape hlone hescape), if_pos rfl]
      rfl
  | case6 offset c rest hlone hescape hquote ih =>
      rw [quotedText_cons _ _ _ (ne_of_not_escape hlone hescape), if_neg hquote,
        Nat.add_right_comm, ih]
      cases quotedText start quote (offset + c.utf8Size) rest <;> rfl

/-- **A token that stands further on** has its fault further on. -/
theorem lexeme_shift (offset : Nat) (first : Char) (rest : List Char) :
    lexeme (offset + bytes) first rest =
      (lexeme offset first rest).mapError (Fault.shift bytes) := by
  rw [lexeme, lexeme]
  cases symbol? first with
  | some kind => rfl
  | none =>
      cases compound? first with
      | some op =>
          dsimp only
          rw [Compound.lexeme, Compound.lexeme]
          split
          · rfl
          · split <;> rfl
      | none =>
          dsimp only
          split
          · rw [textLexeme, textLexeme, Nat.add_right_comm, quotedText_shift]
            cases quotedText offset first (offset + first.utf8Size) rest <;> rfl
          · split
            · rw [numberLexeme, numberLexeme]
              split <;> rfl
            · split <;> rfl

/-- A run further on has the same tokens further on. -/
theorem Scans.shift (h : Scans left offset read tokens) :
    Scans left (offset + bytes) read (tokens.map (Token.shift bytes)) := by
  induction h with
  | done offset => exact .done _
  | blank hblank _ ih =>
      rw [Nat.add_right_comm] at ih
      exact .blank hblank ih
  | @token offset first piece read kind tokens hfirst hlexeme _ ih =>
      rw [Nat.add_right_comm] at ih
      rw [List.map_cons, Token.shift, Nat.add_right_comm offset]
      exact .token hfirst (lexeme_curtail hlexeme (curtails_self _)) ih

/-- **A text that stands further on** has its tokens, and its fault, further on. -/
theorem scan_shift (offset : Nat) (text : List Char) :
    scan (offset + bytes) text =
      ((scan offset text).mapError (Fault.shift bytes)).map (List.map (Token.shift bytes)) := by
  cases hscan : scan offset text with
  | ok tokens =>
      rw [((scan_eq_ok_iff.mp hscan).shift bytes).scan_eq]
      rfl
  | error fault =>
      obtain ⟨read, first, rest, tokens, rfl, hread, hfirst, hfault⟩ := exists_scans_of_error hscan
      rw [(hread.shift bytes).scan_append, Nat.add_right_comm, scan_visible _ _ hfirst,
        lexeme_shift, hfault]
      rfl

end Dashboard.Formula
