import Dashboard.Proofs.Formula.Scanning
import Mathlib

/-!
# Tokens Tile Their Source

The tokens of a source are pieces of it, in order, with nothing but blanks between them. A piece
says all about its token: cut out of the source and read alone, it is that token again. So the
spans of the tokens can be used to show, to mark and to replace parts of a formula, without
reading the rest of it.

## Main results

* `tokenize_piece` — a piece that makes a token in front of some text makes it alone.
* `tokenize_tiles` — the tokens of a source tile it.
-/

namespace Dashboard.Formula

open Text (isBlank byteLength)

/-- A token **is cut from** a text if its span is that of a piece of the text, which is not empty
and which has the token as its only one when it is read alone. -/
def Token.CutFrom (t : Token) (text : List Char) : Prop :=
  ∃ front piece back, text = front ++ piece ++ back ∧ piece ≠ [] ∧
    t.span = ⟨byteLength front, byteLength (front ++ piece)⟩ ∧
    tokenize (String.ofList piece) = .ok [⟨t.kind, ⟨0, byteLength piece⟩⟩]

/-- A piece that makes a token in front of some text makes it alone. -/
theorem tokenize_piece {offset : Nat} {first : Char} {piece rest : List Char} {kind : Token.Kind}
    (hfirst : isBlank first = false)
    (hlexeme : lexeme offset first (piece ++ rest) = .ok ⟨kind, piece.length⟩) :
    tokenize (String.ofList (first :: piece)) =
      .ok [⟨kind, ⟨0, byteLength (first :: piece)⟩⟩] := by
  have halone : lexeme 0 first (piece ++ []) = .ok ⟨kind, piece.length⟩ :=
    lexeme_curtail hlexeme (curtails_of_blank rest nofun)
  have hscan := scan_piece hfirst halone
  rw [List.append_nil, scan_nil, Nat.zero_add] at hscan
  rw [tokenize, String.toList_ofList, hscan]
  rfl

/-- Every token of a text is cut from it. -/
theorem Scans.cutFrom {text : List Char} {tokens : List Token} (h : Scans [] 0 text tokens)
    {t : Token} (ht : t ∈ tokens) : t.CutFrom text := by
  obtain ⟨front, first, piece, back, rfl, hspan, hfirst, hlexeme⟩ := h.exists_piece ht
  refine ⟨front, first :: piece, back, by simp, List.cons_ne_nil _ _, ?_,
    tokenize_piece hfirst hlexeme⟩
  rw [hspan, Nat.zero_add, Text.byteLength_append]

/-- The span of a token that is cut from a text is not empty. -/
theorem Token.CutFrom.start_lt_stop {t : Token} {text : List Char} (h : t.CutFrom text) :
    t.span.start < t.span.stop := by
  obtain ⟨front, piece, -, -, hne, hspan, -⟩ := h
  rw [hspan, Text.byteLength_append]
  exact Nat.lt_add_of_pos_right (byteLength_pos hne)

/-- **The tokens of a source tile it**: their spans are not empty and in order, they do not
overlap, each of them is a whole piece of the source that has the same token when it is read
alone, and the characters that no token covers are blank. -/
theorem tokenize_tiles {source : String} {tokens : List Token} (h : tokenize source = .ok tokens) :
    (∀ t ∈ tokens, t.span.start < t.span.stop ∧ t.CutFrom source.toList) ∧
      (tokens.Pairwise fun t u => t.span.stop ≤ u.span.start) ∧
      ∀ front c back, source.toList = front ++ c :: back →
        (∀ t ∈ tokens, ¬ t.Covers (byteLength front)) → isBlank c = true := by
  have hscans : Scans [] 0 source.toList tokens := scan_eq_ok_iff.mp h
  refine ⟨fun t ht => ?_, hscans.pairwise, fun front c back hsource hgap => ?_⟩
  · have hcut := hscans.cutFrom ht
    exact ⟨hcut.start_lt_stop, hcut⟩
  · exact hscans.isBlank_of_gap hsource (by simpa using hgap)

/-- A name, an operator of two characters, and a quoted text with a letter of two bytes, a blank
and an escape. -/
theorem tokenize_tiles_labels :
    let tokens : List Token :=
      [⟨.name "x", ⟨0, 1⟩⟩, ⟨.lessEqual, ⟨1, 3⟩⟩, ⟨.text "é '", ⟨4, 11⟩⟩]
    tokenize "x<= 'é \\''" = .ok tokens ∧
      (∀ t ∈ tokens, t.span.start < t.span.stop ∧ t.CutFrom "x<= 'é \\''".toList) ∧
      (tokens.Pairwise fun t u => t.span.stop ≤ u.span.start) ∧
      ∀ front c back, "x<= 'é \\''".toList = front ++ c :: back →
        (∀ t ∈ tokens, ¬ t.Covers (byteLength front)) → isBlank c = true := by
  have htokens : tokenize "x<= 'é \\''" =
      .ok [⟨.name "x", ⟨0, 1⟩⟩, ⟨.lessEqual, ⟨1, 3⟩⟩, ⟨.text "é '", ⟨4, 11⟩⟩] := by cbv
  exact ⟨htokens, tokenize_tiles htokens⟩

end Dashboard.Formula
