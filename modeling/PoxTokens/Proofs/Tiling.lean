import Mathlib.Data.List.Chain
import PoxTokens.Proofs.Cutting
import PoxTokens.Proofs.Utf8

/-!
# PoxTokens.Proofs.Tiling

The tokens of a scan tile the source: they start at 0, each starts where the one
before it stops, the last stops at the end, and each lexeme is the piece of the
source at the place of its token.  `tokenize_tiles` adds that the tiles are the
same whatever the options say about the end marker and about error reports.
-/

namespace PoxTokens

/-- Tokens that lie side by side and cover a source. -/
structure Tiling (source : String) (tokens : List Token) : Prop where
  no_marker : ∀ t ∈ tokens, t.kind ≠ .eof
  nonempty : ∀ t ∈ tokens, t.lexeme ≠ ""
  starts_at_zero : ∀ t ∈ tokens.head?, t.position = 0
  adjacent : tokens.IsChain fun t u => u.position = t.stop
  stops_at_end : ∀ t ∈ tokens.getLast?, t.stop = source.utf8ByteSize
  nil_iff : tokens = [] ↔ source = ""
  slice : ∀ t ∈ tokens, source.toUTF8.extract t.position t.stop = t.lexeme.toUTF8
  join : String.join (tokens.map (·.lexeme)) = source

/-! ## Placed lexemes -/

@[simp] theorem Lexeme.position_at (position : Nat) (l : Lexeme) :
    (l.at position).position = position := rfl

@[simp] theorem Lexeme.lexeme_at (position : Nat) (l : Lexeme) :
    (l.at position).lexeme = String.ofList l.text := rfl

@[simp] theorem Lexeme.stop_at (position : Nat) (l : Lexeme) :
    (l.at position).stop = position + byteLength l.text := by
  rw [Token.stop, Token.length, position_at, lexeme_at, utf8ByteSize_ofList]

/-- A placed token is one of the lexemes, behind the lexemes before it. -/
theorem exists_of_mem_place {t : Token} {position : Nat} {ls : List Lexeme}
    (h : t ∈ place position ls) :
    ∃ xs l ys, ls = xs ++ l :: ys ∧ t = l.at (position + byteLength (xs.flatMap (·.text))) := by
  induction ls generalizing position with
  | nil => simp [place] at h
  | cons m ms ih =>
      rcases List.mem_cons.mp h with rfl | h
      · exact ⟨[], m, ms, rfl, by simp⟩
      · obtain ⟨xs, l, ys, rfl, rfl⟩ := ih h
        exact ⟨m :: xs, l, ys, rfl, by simp [Nat.add_assoc]⟩

/-- The first token begins where the text does. -/
theorem position_of_mem_head?_place {t : Token} {position : Nat} {ls : List Lexeme}
    (h : t ∈ (place position ls).head?) : t.position = position := by
  cases ls with
  | nil => simp [place] at h
  | cons l ls =>
      rw [place, List.head?_cons, Option.mem_some] at h
      rw [← h, Lexeme.position_at]

/-- The last token ends where the text does. -/
theorem stop_of_mem_getLast?_place {t : Token} {position : Nat} {ls : List Lexeme}
    (h : t ∈ (place position ls).getLast?) :
    t.stop = position + byteLength (ls.flatMap (·.text)) := by
  induction ls generalizing position with
  | nil => simp [place] at h
  | cons l ls ih =>
      cases ls with
      | nil =>
          have ht : l.at position = t := by simpa [place] using h
          simp [← ht]
      | cons m ms =>
          have ht : t ∈ (place (position + byteLength l.text) (m :: ms)).getLast? := by
            simpa [place] using h
          rw [ih ht, List.flatMap_cons (x := l), byteLength_append, Nat.add_assoc]

/-- Each token begins where the one before it ends. -/
theorem isChain_place (position : Nat) (ls : List Lexeme) :
    (place position ls).IsChain fun t u => u.position = t.stop := by
  induction ls generalizing position with
  | nil => exact .nil
  | cons l ls ih =>
      rw [place, List.isChain_cons]
      refine ⟨fun u hu => ?_, ih _⟩
      rw [position_of_mem_head?_place hu, Lexeme.stop_at]

/-- The texts of the tokens together are the text. -/
theorem join_map_lexeme_place (position : Nat) (ls : List Lexeme) :
    String.join ((place position ls).map (·.lexeme)) = String.ofList (ls.flatMap (·.text)) := by
  induction ls generalizing position with
  | nil => rfl
  | cons l ls ih =>
      rw [place, List.map_cons, String.join_cons, ih, Lexeme.lexeme_at, List.flatMap_cons,
        String.ofList_append]

/-- Lexemes can be placed in two parts, the second behind the text of the first. -/
theorem place_append (position : Nat) (ls ms : List Lexeme) :
    place position (ls ++ ms) =
      place position ls ++ place (position + byteLength (ls.flatMap (·.text))) ms := by
  induction ls generalizing position with
  | nil => simp [place]
  | cons l ls ih => simp [place, ih, Nat.add_assoc]

theorem place_dropLast (position : Nat) (ls : List Lexeme) :
    place position ls.dropLast = (place position ls).dropLast := by
  induction ls generalizing position with
  | nil => rfl
  | cons l ls ih =>
      cases ls with
      | nil => rfl
      | cons m ms => rw [List.dropLast_cons_cons, place, ih]; rfl

/-- The token in a text that stands behind some bytes. -/
def Token.shift (offset : Nat) (t : Token) : Token := { t with position := offset + t.position }

/-- Placing lexemes further behind shifts their tokens. -/
theorem map_shift_place (offset position : Nat) (ls : List Lexeme) :
    (place position ls).map (Token.shift offset) = place (offset + position) ls := by
  induction ls generalizing position with
  | nil => rfl
  | cons l ls ih => simp [place, ih, Token.shift, Lexeme.at, Nat.add_assoc]

/-- The places of the lexemes of a text are a tiling of it. -/
theorem tiling_place {source : String} {ls : List Lexeme}
    (htext : ls.flatMap (·.text) = source.toList) (hkind : ∀ l ∈ ls, l.kind ≠ .eof)
    (hne : ∀ l ∈ ls, l.text ≠ []) : Tiling source (place 0 ls) where
  no_marker t ht := by
    obtain ⟨xs, l, ys, rfl, rfl⟩ := exists_of_mem_place ht
    exact hkind l (by simp)
  nonempty t ht := by
    obtain ⟨xs, l, ys, rfl, rfl⟩ := exists_of_mem_place ht
    have hl : l.text ≠ [] := hne l (by simp)
    simpa using hl
  starts_at_zero t ht := position_of_mem_head?_place ht
  adjacent := isChain_place 0 ls
  stops_at_end t ht := by
    rw [stop_of_mem_getLast?_place ht, htext, Nat.zero_add, byteLength_toList]
  nil_iff := by
    cases ls with
    | nil =>
        have hsource : source = "" := String.toList_eq_nil_iff.mp htext.symm
        simp [place, hsource]
    | cons l ls =>
        have hl : l.text ≠ [] := hne l (by simp)
        have hsource : source ≠ "" := by
          intro hempty
          subst hempty
          simp at htext
          exact hl htext.1
        simpa [place] using hsource
  slice t ht := by
    obtain ⟨xs, l, ys, rfl, rfl⟩ := exists_of_mem_place ht
    have hsource : source = String.ofList (xs.flatMap (·.text)) ++ String.ofList l.text ++
        String.ofList (ys.flatMap (·.text)) := by
      rw [← String.ofList_toList (s := source), ← htext]
      simp [String.append_assoc]
    have hcut := extract_toUTF8_append (String.ofList (xs.flatMap (·.text)))
      (String.ofList l.text) (String.ofList (ys.flatMap (·.text)))
    rw [← hsource] at hcut
    simpa [utf8ByteSize_ofList] using hcut
  join := by
    rw [join_map_lexeme_place, htext, String.ofList_toList]

/-! ## Scans -/

/-- The lexemes of a complete cut tile the source. -/
theorem Cuts.tiling {policy : Policy} {source : String} {ls : List Lexeme}
    (h : Cuts policy source.toList ls []) : Tiling source (place 0 ls) :=
  tiling_place h.flatMap_text (h.forall_mem fun _ _ => kind_ne_eof_of_select) h.text_ne_nil

/-- Whether a scan succeeds depends on the policy only. -/
theorem exists_ok_of_policy_eq {options others : ScanOptions} {source : String}
    (hpolicy : options.policy = others.policy)
    (h : ∃ tokens, tokenize options source = .ok tokens) :
    ∃ tokens, tokenize others source = .ok tokens := by
  obtain ⟨tokens, h⟩ := h
  obtain ⟨ls, hcut, -⟩ := tokenize_eq_ok_iff.mp h
  rw [hpolicy] at hcut
  exact ⟨_, tokenize_of_cuts_nil hcut⟩

/-- **Lossless tiling**: a scan that succeeds answers tokens that tile the source,
then the end marker if asked for.  The tiles, and whether the scan succeeds, depend
neither on the end marker nor on the width of error reports. -/
theorem tokenize_tiles (options : ScanOptions) (source : String) :
    (∀ tokens, tokenize options source = .ok tokens →
      ∃ ns, tokens = ns ++ endMarker options.emitEof source ∧ Tiling source ns ∧
        ∀ emitEof contextWidth, tokenize { options with emitEof, contextWidth } source =
          .ok (ns ++ endMarker emitEof source)) ∧
    ∀ emitEof contextWidth, (∃ tokens, tokenize options source = .ok tokens) ↔
      ∃ tokens, tokenize { options with emitEof, contextWidth } source = .ok tokens := by
  refine ⟨fun tokens h => ?_, fun emitEof contextWidth => ?_⟩
  · obtain ⟨ls, hcut, rfl⟩ := tokenize_eq_ok_iff.mp h
    exact ⟨place 0 ls, rfl, hcut.tiling, fun _ _ => tokenize_of_cuts_nil hcut⟩
  · exact ⟨exists_ok_of_policy_eq rfl, exists_ok_of_policy_eq rfl⟩

/-- A source with a character of two bytes inside a string, a number whose point
is not its own, and an end marker. -/
theorem tokenize_tiles_multibyte :
    let source := "x=\"é\" 1."
    let tokens : List Token := [⟨0, "x", .identifier⟩, ⟨1, "=", .equal⟩, ⟨2, "\"é\"", .string⟩,
      ⟨6, " ", .whiteSpace⟩, ⟨7, "1", .number⟩, ⟨8, ".", .dot⟩, ⟨9, "", .eof⟩]
    tokenize ⟨.longest, true, 3⟩ source = .ok tokens ∧
      ∃ ns, tokens = ns ++ endMarker true source ∧ Tiling source ns ∧
        ∀ emitEof contextWidth, tokenize ⟨.longest, emitEof, contextWidth⟩ source =
          .ok (ns ++ endMarker emitEof source) := by
  intro source tokens
  have hitems : items ⟨.longest, true, 3⟩ source = tokens.map .token := by decide +kernel
  have h : tokenize ⟨.longest, true, 3⟩ source = .ok tokens := by rw [tokenize, hitems]; rfl
  exact ⟨h, (tokenize_tiles _ source).1 _ h⟩

end PoxTokens
