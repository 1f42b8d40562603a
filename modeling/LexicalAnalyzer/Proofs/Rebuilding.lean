import LexicalAnalyzer.Proofs.ArtifactDecoding
import LexicalAnalyzer.Proofs.Rescanning

/-!
A source rebuilt from a result. A reader of the result knows the line and the lexeme of every token
that is no error, and a source with these lexemes on these lines has the same artifacts again. So
the result tells two texts apart just when it has to: when their tokens differ in a line, a kind or
a lexeme.
-/
namespace LexicalAnalyzer

namespace Decoded

/-- The line of a triple and the lexeme that it leads to. -/
def item? (d : Decoded) : Nat × Nat × Nat → Option (Nat × String)
  | (line, code, index) => (d.lexeme? code index).map fun lexeme => (line, lexeme)

/-- The line and the lexeme of every triple, if each leads to a lexeme. -/
def items? (d : Decoded) : Option (List (Nat × String)) := d.triples.mapM d.item?

end Decoded

/-- The last line with an item on it. -/
def lastLine (items : List (Nat × String)) : Nat := (items.map (·.1)).max?.getD 0

/-- The source with each item on its line and a space behind each, up to the last line that has an
item. The lines between may be empty. -/
def sourceOf (items : List (Nat × String)) : List Char :=
  (List.range' 1 (lastLine items)).flatMap fun n =>
    ((items.filter (·.1 = n)).flatMap fun item => item.2.toList ++ [' ']) ++ ['\n']

/-- What a reader of the result knows of a token. -/
def Token.item (t : Token) : Nat × String := (t.position.line, t.lexeme)

theorem TableKind.code_injective : Function.Injective TableKind.code := by
  intro k l h
  cases k <;> cases l <;> simp_all [code]

theorem Vocabulary.eq_of_entries {v w : Vocabulary}
    (hn : v.numbers.entries = w.numbers.entries)
    (hi : v.identifiers.entries = w.identifiers.entries) : v = w := by
  obtain ⟨⟨numbers⟩, ⟨identifiers⟩⟩ := v
  obtain ⟨⟨numbers'⟩, ⟨identifiers'⟩⟩ := w
  obtain rfl : numbers = numbers' := hn
  obtain rfl : identifiers = identifiers' := hi
  rfl

theorem Reference.triple_injective : Function.Injective Reference.triple := by
  rintro ⟨line, table, index⟩ ⟨line', table', index'⟩ h
  simp only [triple, Prod.mk.injEq] at h
  obtain ⟨rfl, hcode, rfl⟩ := h
  rw [TableKind.code_injective hcode]

/-- A reference stands for tokens of one mark only. -/
theorem Vocabulary.Refers.mark_eq {v : Vocabulary} {r : Reference} {s t : Token}
    (hs : v.Refers r s) (ht : v.Refers r t) : s.mark = t.mark := by
  have hkind : s.kind = t.kind := TokenKind.eq_of_table? hs.table ht.table
  have hline : s.position.line = t.position.line := hs.line.symm.trans ht.line
  have hlexeme : s.lexeme = t.lexeme := Option.some.inj (hs.lexeme.symm.trans ht.lexeme)
  rw [Token.mark, Token.mark, hkind, hline, hlexeme]

theorem map_mark_of_refers {v : Vocabulary} {rs : List Reference} {ts us : List Token}
    (ht : List.Forall₂ v.Refers rs ts) (hu : List.Forall₂ v.Refers rs us) :
    ts.map Token.mark = us.map Token.mark := by
  induction ht generalizing us with
  | nil =>
    cases hu
    rfl
  | cons hr _ ih =>
    cases hu with
    | cons hr' hu => rw [List.map_cons, List.map_cons, hr.mark_eq hr', ih hu]

theorem map_mark_properTokens (ts : List Token) :
    (properTokens ts).map Token.mark = (ts.map Token.mark).filter (·.2.1 ≠ .error) := by
  rw [properTokens, List.filter_map]
  rfl

section Rebuilt

variable {ts : List Token}

/-- The characters of a line of lexemes are spaces and characters with a class. -/
theorem class_of_mem_spaced (hts : ∀ t ∈ ts, IsLexeme t.lexeme.toList) {c : Char}
    (hc : c ∈ spaced ts) : c = ' ' ∨ CharClass.of c ≠ .invalid := by
  simp only [spaced, List.mem_flatMap, List.mem_append, List.mem_singleton] at hc
  obtain ⟨t, ht, hc | hc⟩ := hc
  · exact .inr fun hclass => (hts t ht).not_mem_of_invalid hclass hc
  · exact .inl hc

/-- Line by line, the rebuilt source holds the lexemes of the tokens. -/
theorem lines_sourceOf (hts : ∀ t ∈ ts, IsLexeme t.lexeme.toList) :
    lines (sourceOf (ts.map Token.item)) = (List.range' 1 (lastLine (ts.map Token.item))).map
      fun n => spaced (ts.filter (·.position.line = n)) := by
  have hline : ∀ n, (((ts.map Token.item).filter (·.1 = n)).flatMap
      fun item => item.2.toList ++ [' ']) = spaced (ts.filter (·.position.line = n)) := by
    intro n
    rw [List.filter_map, List.flatMap_map]
    rfl
  have hsource : sourceOf (ts.map Token.item) =
      ((List.range' 1 (lastLine (ts.map Token.item))).map
        fun n => spaced (ts.filter (·.position.line = n))).flatMap (· ++ ['\n']) := by
    simp only [sourceOf, hline, List.flatMap_map]
  rw [hsource]
  apply lines_flatMap_newline
  intro l hl
  obtain ⟨n, _, rfl⟩ := List.mem_map.mp hl
  have hclass : ∀ c ∈ spaced (ts.filter (·.position.line = n)),
      c = ' ' ∨ CharClass.of c ≠ .invalid :=
    fun c => class_of_mem_spaced fun t ht => hts t (List.mem_of_mem_filter ht)
  constructor
  · intro hc
    exact absurd (hclass _ hc) (by decide)
  · intro hc
    exact absurd (hclass _ (List.mem_of_getLast? hc)) (by decide)

/-- The rebuilt source reads as the tokens again. -/
theorem marks_sourceOf (hsound : ∀ t ∈ ts, t.Sound) (hproper : ∀ t ∈ ts, t.kind ≠ .error)
    (hordered : ts.Pairwise Token.Precedes) (hfirst : ∀ t ∈ ts, 1 ≤ t.position.line) :
    (tokensOf (scanText (sourceOf (ts.map Token.item)))).map Token.mark = ts.map Token.mark := by
  have hlines := lines_sourceOf fun t ht => (hsound t ht).isLexeme (hproper t ht)
  have hsorted : ts.Pairwise fun s t => s.position.line ≤ t.position.line := by
    refine hordered.imp fun {s t} h => ?_
    rcases (Position.compare_eq_lt_iff _ _).mp h with hlt | ⟨heq, _⟩
    · exact Nat.le_of_lt hlt
    · exact Nat.le_of_eq heq
  have hlast : ∀ t ∈ ts, t.position.line ≤ lastLine (ts.map Token.item) := by
    intro t ht
    apply List.le_max?_getD_of_mem
    rw [List.map_map]
    exact List.mem_map.mpr ⟨t, ht, rfl⟩
  rw [scanText, hlines, marks_scanLines_spaced hsound, flatMap_filter_key hsorted]
  intro t ht
  have hle := hlast t ht
  have hge := hfirst t ht
  omega

/-- The source rebuilt from the proper tokens of a text has these tokens again. -/
theorem marks_rebuilt (text : List Char) :
    (properTokens (tokensOf (scanText (sourceOf
      ((properTokens (tokensOf (scanText text))).map Token.item))))).map Token.mark =
      (properTokens (tokensOf (scanText text))).map Token.mark := by
  have hsound : ∀ t ∈ properTokens (tokensOf (scanText text)), t.Sound := fun t ht =>
    sound_of_mem_scanLines 1 .normal {} (lines text) t (List.mem_of_mem_filter ht)
  have hproper : ∀ t ∈ properTokens (tokensOf (scanText text)), t.kind ≠ .error := fun t ht => by
    simpa using List.of_mem_filter ht
  have hordered : (properTokens (tokensOf (scanText text))).Pairwise Token.Precedes :=
    (pairwise_tokensOf_scanLines 1 .normal {} (lines text)).filter _
  have hfirst : ∀ t ∈ properTokens (tokensOf (scanText text)), 1 ≤ t.position.line := fun t ht =>
    line_of_mem_scanLines 1 .normal {} (lines text) t (List.mem_of_mem_filter ht)
  rw [map_mark_properTokens, marks_sourceOf hsound hproper hordered hfirst,
    map_mark_properTokens, List.filter_filter]
  simp only [Bool.and_self]

end Rebuilt

namespace Analysis

variable {a c : Analysis} {ts us : List Token}

theorem mapM_item? {rs : List Reference} (h : List.Forall₂ a.vocabulary.Refers rs ts) :
    (rs.map Reference.triple).mapM a.decoded.item? = some (ts.map Token.item) := by
  induction h with
  | nil => rfl
  | @cons r t rs ts hr _ ih =>
    have hlexeme : a.decoded.lexeme? r.table.code r.index = some t.lexeme :=
      (a.lexeme?_decoded r.table r.index).trans hr.lexeme
    have hitem : a.decoded.item? r.triple = some t.item := by
      rw [Reference.triple, Decoded.item?, hlexeme, hr.line]
      rfl
    rw [List.map_cons, List.mapM_cons, hitem, ih]
    rfl

/-- A reader of the result finds the line and the lexeme of every token that is no error. -/
theorem AccountsFor.items?_decoded (h : a.AccountsFor ts) :
    a.decoded.items? = some ((properTokens ts).map Token.item) :=
  mapM_item? h.references

/-- The artifacts of a text depend on the marks of its proper tokens only. -/
theorem artifacts_congr {text other : List Char} (ha : ofText text = .ok a)
    (hc : ofText other = .ok c)
    (h : (properTokens (tokensOf (scanText other))).map Token.mark =
      (properTokens (tokensOf (scanText text))).map Token.mark) :
    Artifact.resultText c = Artifact.resultText a ∧ Artifact.logText c = Artifact.logText a := by
  obtain ⟨hv, hr⟩ := ofText_congr ha hc h
  simp only [Artifact.resultText, Artifact.resultPieces, Artifact.logText, Artifact.logPieces, hv,
    hr, and_self]

/-- Analyses with one result account for tokens of the same marks. -/
theorem AccountsFor.marks_eq (ha : a.AccountsFor ts) (hc : c.AccountsFor us)
    (hts : ∀ t ∈ ts, t.Sound) (hus : ∀ u ∈ us, u.Sound)
    (h : Artifact.resultText c = Artifact.resultText a) :
    (properTokens us).map Token.mark = (properTokens ts).map Token.mark := by
  have hdecoded : c.decoded = a.decoded := by
    have hread := hc.ofResult?_resultText hus
    rw [h, ha.ofResult?_resultText hts] at hread
    exact (Option.some.inj hread).symm
  obtain ⟨hnumbers, hidentifiers, htriples⟩ := Decoded.mk.inj hdecoded
  have hvocabulary : c.vocabulary = a.vocabulary := Vocabulary.eq_of_entries hnumbers hidentifiers
  have hreferences : c.references.toList = a.references.toList :=
    List.map_injective_iff.mpr Reference.triple_injective htriples
  have hrefers := hc.references
  rw [hvocabulary, hreferences] at hrefers
  exact map_mark_of_refers hrefers ha.references

end Analysis

/-- The result of a text determines a source that reproduces it. Taken apart, it gives the line and
the lexeme of every token that is no error, and the source that holds these lexemes on these lines,
with a space behind each, has the same result and the same log. What else the text holds, which is
its comments, its error characters, its spacing and its columns, is irrelevant: any other text has
this result, and with it this log, just when its tokens that are no errors have the same lines,
kinds and lexemes. -/
theorem rebuilt_source_reproduces (text : List Char) :
    ∃ a decoded items b log, Analysis.ofText text = .ok a ∧
      Decoded.ofResult? (Artifact.resultText a).toList = some decoded ∧
      decoded.items? = some items ∧
      Analysis.ofText (sourceOf items) = .ok b ∧
      Artifact.resultText b = Artifact.resultText a ∧
      Artifact.logText a = .ok log ∧ Artifact.logText b = .ok log ∧
      ∀ other, ∃ c, Analysis.ofText other = .ok c ∧
        (Artifact.resultText c = Artifact.resultText a ↔
          (properTokens (tokensOf (scanText other))).map Token.mark =
            (properTokens (tokensOf (scanText text))).map Token.mark) ∧
        (Artifact.resultText c = Artifact.resultText a → Artifact.logText c = .ok log) := by
  obtain ⟨a, ha, haccounts⟩ := Analysis.ofText_accountsFor text
  have hsound := sound_of_mem_scanLines 1 .normal {} (lines text)
  have hlisted := haccounts.logText_eq
  let items := (properTokens (tokensOf (scanText text))).map Token.item
  obtain ⟨b, hb, _⟩ := Analysis.ofText_accountsFor (sourceOf items)
  obtain ⟨hresult, hlog⟩ := Analysis.artifacts_congr ha hb (marks_rebuilt text)
  refine ⟨a, a.decoded, items, b, _, ha, haccounts.ofResult?_resultText hsound,
    haccounts.items?_decoded, hb, hresult, hlisted, hlog.trans hlisted, fun other => ?_⟩
  obtain ⟨c, hc, hcaccounts⟩ := Analysis.ofText_accountsFor other
  have hcsound := sound_of_mem_scanLines 1 .normal {} (lines other)
  have hmarks := haccounts.marks_eq hcaccounts hsound hcsound
  refine ⟨c, hc, ⟨hmarks, fun h => (Analysis.artifacts_congr ha hc h).1⟩, fun h => ?_⟩
  exact (Analysis.artifacts_congr ha hc (hmarks h)).2.trans hlisted

/-- A comment, an error character and the spacing leave no trace in the artifacts. -/
theorem rebuilt_source_reproduces_commented :
    ∃ a c, Analysis.ofText "x/*é*/:=@  1E".toList = .ok a ∧
      Analysis.ofText "x := 1E".toList = .ok c ∧
      Artifact.resultText c = Artifact.resultText a ∧
      Artifact.logText c = Artifact.logText a := by
  obtain ⟨a, _, _, _, log, ha, _, _, _, _, hlog, _, hothers⟩ :=
    rebuilt_source_reproduces "x/*é*/:=@  1E".toList
  obtain ⟨c, hc, hresult, hsame⟩ := hothers "x := 1E".toList
  have hequal : Artifact.resultText c = Artifact.resultText a := hresult.mpr (by decide +kernel)
  exact ⟨a, c, ha, hc, hequal, (hsame hequal).trans hlog.symm⟩

end LexicalAnalyzer
