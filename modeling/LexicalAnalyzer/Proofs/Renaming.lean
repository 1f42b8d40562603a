import LexicalAnalyzer.Proofs.FirstOccurrences
import LexicalAnalyzer.Proofs.Rebuilding
import Mathlib.Logic.Embedding.Basic
import Mathlib.Logic.Equiv.Basic

/-!
Identifiers renamed. A renaming takes identifiers to identifiers and keeps different ones apart, and
that is all an analysis sees of them: with the identifiers of a text renamed, the lexemes of its
lines read as the same tokens on the same lines, and every reference has the same place in tables
that differ in the names of the identifiers only.
-/
namespace LexicalAnalyzer

instance (w : List Char) : Decidable (TokenKind.identifier.Covers w) :=
  inferInstanceAs (Decidable (IsWord w ∧ String.ofList w ∉ keywords.entries))

/-- A word that is no keyword. -/
structure Identifier where
  name : String
  covers : TokenKind.identifier.Covers name.toList
  deriving DecidableEq

/-- A word is munched whole, whatever else its letters may mean. -/
theorem munches_of_isWord {w : List Char} (h : IsWord w) : Munches w w := by
  cases w with
  | nil => exact h.elim
  | cons c cs =>
    have hm := munches_word h.1 cs
    rwa [List.takeWhile_eq_self_iff.mpr h.2] at hm

/-- What a line holds is all that its tokens are made of. -/
theorem LineReading.lexeme_subset {line column : Nat} {mode last : Mode} {text : List Char}
    {ts : List Token} (h : LineReading line mode column text ts last) :
    ∀ t ∈ ts, t.lexeme.toList ⊆ text := by
  induction h with
  | done => simp
  | space _ ih => exact fun t ht => List.subset_cons_of_subset _ (ih t ht)
  | opening _ ih =>
    exact fun t ht => List.subset_cons_of_subset _ (List.subset_cons_of_subset _ (ih t ht))
  | token ht _ _ _ _ _ ih =>
    subst ht
    intro t hmem
    rcases List.mem_cons.mp hmem with rfl | hmem
    · rw [String.toList_ofList]
      exact List.subset_append_left _ _
    · exact List.subset_append_of_subset_right _ (ih t hmem)
  | closing _ ih =>
    exact fun t ht => List.subset_cons_of_subset _ (List.subset_cons_of_subset _ (ih t ht))
  | inside _ _ ih => exact fun t ht => List.subset_cons_of_subset _ (ih t ht)

theorem reading_of_mem_scanLines {number : Nat} {mode : Mode} {report : Report}
    {texts : List (List Char)} : ∀ line ∈ scanLines number mode report texts,
      line.text ∈ texts ∧
        LineReading line.number line.mode 1 line.text line.scan.tokens line.scan.mode := by
  induction texts generalizing number mode report with
  | nil => simp [scanLines]
  | cons text texts ih =>
    intro line hline
    rcases List.mem_cons.mp hline with rfl | hline
    · exact ⟨by simp, lineReading_scanLine text number mode report⟩
    · obtain ⟨htext, hreading⟩ := ih line hline
      exact ⟨List.mem_cons_of_mem _ htext, hreading⟩

section Renaming

variable (f : Identifier ↪ Identifier)

/-- A text with its name changed, if it is an identifier. -/
def renamed (s : String) : String :=
  if h : TokenKind.identifier.Covers s.toList then (f ⟨s, h⟩).name else s

/-- A token with its name changed, if it is an identifier. -/
def Token.renamed (t : Token) : Token :=
  if t.kind = .identifier then { t with lexeme := LexicalAnalyzer.renamed f t.lexeme } else t

/-- The lexemes of every line on a line of their own, each with a space behind it, and with the
identifiers renamed. -/
def renamedSource (text : List Char) : List Char :=
  (scanText text).flatMap fun line => spaced (line.scan.tokens.map (Token.renamed f)) ++ ['\n']

/-- A vocabulary with its identifiers renamed, entry by entry. -/
def Vocabulary.renamed (v : Vocabulary) : Vocabulary :=
  { v with identifiers := ⟨v.identifiers.entries.map (LexicalAnalyzer.renamed f)⟩ }

theorem renamed_of_covers {s : String} (h : TokenKind.identifier.Covers s.toList) :
    renamed f s = (f ⟨s, h⟩).name := dif_pos h

theorem covers_renamed {s : String} (h : TokenKind.identifier.Covers s.toList) :
    TokenKind.identifier.Covers (renamed f s).toList := by
  rw [renamed_of_covers f h]
  exact (f ⟨s, h⟩).covers

theorem Identifier.name_injective : Function.Injective Identifier.name := by
  rintro ⟨s, hs⟩ ⟨_, _⟩ rfl
  rfl

/-- Different texts have different names. -/
theorem renamed_injective : Function.Injective (renamed f) := by
  intro s s' h
  by_cases hs : TokenKind.identifier.Covers s.toList
  · by_cases hs' : TokenKind.identifier.Covers s'.toList
    · rw [renamed_of_covers f hs, renamed_of_covers f hs'] at h
      exact congrArg Identifier.name (f.injective (Identifier.name_injective h))
    · have hname := covers_renamed f hs
      rw [h, renamed, dif_neg hs'] at hname
      exact absurd hname hs'
  · by_cases hs' : TokenKind.identifier.Covers s'.toList
    · have hname := covers_renamed f hs'
      rw [← h, renamed, dif_neg hs] at hname
      exact absurd hname hs
    · rwa [renamed, renamed, dif_neg hs, dif_neg hs'] at h

namespace Token

variable {f} {t : Token}

theorem renamed_of_identifier (h : t.kind = .identifier) :
    t.renamed f = { t with lexeme := LexicalAnalyzer.renamed f t.lexeme } := if_pos h

theorem renamed_of_ne (h : t.kind ≠ .identifier) : t.renamed f = t := if_neg h

@[simp] theorem kind_renamed : (t.renamed f).kind = t.kind := by
  unfold renamed
  split <;> rfl

@[simp] theorem position_renamed : (t.renamed f).position = t.position := by
  unfold renamed
  split <;> rfl

/-- A renamed token has its kind and its edges still. -/
theorem Sound.renamed (h : t.Sound) : (t.renamed f).Sound := by
  by_cases hk : t.kind = .identifier
  · have hcovers := h.covers
    rw [hk] at hcovers
    have hname := covers_renamed f hcovers
    rw [renamed_of_identifier hk]
    refine ⟨munches_of_isWord hname.1, ?_, ?_⟩
    · rw [hk]
      exact hname
    · rintro c hc rfl
      obtain ⟨more, hmore⟩ := List.head?_eq_some_iff.mp hc
      dsimp only at hmore
      rw [hmore] at hname
      exact absurd hname.1.1 (by decide)
  · rwa [renamed_of_ne hk]

end Token

section Source

theorem eq_space_of_getLast?_spaced {ts : List Token} : ∀ c ∈ (spaced ts).getLast?, c = ' ' := by
  intro c hc
  rcases List.eq_nil_or_concat ts with rfl | ⟨front, t, rfl⟩
  · cases hc
  · have hlast : (spaced (front.concat t)).getLast? = some ' ' := by
      simp [spaced]
    exact (Option.some.inj (hlast.symm.trans hc)).symm

/-- The lexemes of a line make up a line again. -/
theorem feed_not_mem_spaced_renamed {text : List Char} {ts : List Token}
    (hts : ∀ t ∈ ts, t.Sound ∧ t.lexeme.toList ⊆ text) (htext : '\n' ∉ text) :
    '\n' ∉ spaced (ts.map (Token.renamed f)) := by
  intro hfeed
  simp only [spaced, List.mem_flatMap, List.mem_map, List.mem_append, List.mem_singleton] at hfeed
  obtain ⟨_, ⟨t, ht, rfl⟩, hc | hc⟩ := hfeed
  · obtain ⟨hsound, hsubset⟩ := hts t ht
    by_cases he : t.kind = .error
    · rw [Token.renamed_of_ne (by simp [he])] at hc
      exact htext (hsubset hc)
    · have hlexeme := (hsound.renamed (f := f)).isLexeme (by simpa using he)
      exact hlexeme.not_mem_of_invalid (by decide) hc
  · exact absurd hc (by decide)

theorem lines_renamedSource (text : List Char) : lines (renamedSource f text) =
    (scanText text).map fun line => spaced (line.scan.tokens.map (Token.renamed f)) := by
  have hsource : renamedSource f text =
      ((scanText text).map fun line => spaced (line.scan.tokens.map (Token.renamed f))).flatMap
        (· ++ ['\n']) := by
    rw [List.flatMap_map]
    rfl
  rw [hsource]
  apply lines_flatMap_newline
  intro l hl
  obtain ⟨line, hline, rfl⟩ := List.mem_map.mp hl
  obtain ⟨htext, hreading⟩ := reading_of_mem_scanLines line hline
  refine ⟨feed_not_mem_spaced_renamed f (fun t ht => ⟨hreading.sound t ht,
    hreading.lexeme_subset t ht⟩) (feed_not_mem_lines _ htext), fun hreturn => ?_⟩
  exact absurd (eq_space_of_getLast?_spaced _ hreturn) (by decide)

/-- Line by line the renamed lexemes are scanned as the renamed tokens, from whatever mode the line
they come from was scanned. -/
theorem marks_scanLines_renamed (number : Nat) (mode : Mode) (report report' : Report)
    (texts : List (List Char)) :
    let scanned := scanLines number mode report texts
    (tokensOf (scanLines number .normal report' (scanned.map fun line =>
        spaced (line.scan.tokens.map (Token.renamed f))))).map Token.mark =
      ((tokensOf scanned).map (Token.renamed f)).map Token.mark := by
  induction texts generalizing number mode report report' with
  | nil => rfl
  | cons text texts ih =>
    intro scanned
    have hreading := lineReading_scanLine text number mode report
    have hline : ∀ u ∈ (scanLine text number mode report).tokens.map (Token.renamed f),
        u.Sound ∧ u.position.line = number := by
      intro u hu
      obtain ⟨t, ht, rfl⟩ := List.mem_map.mp hu
      exact ⟨(hreading.sound t ht).renamed, by simpa using (hreading.ordered.1 t ht).1⟩
    obtain ⟨hmarks, hmode⟩ := marks_scanLine_spaced hline report'
    simp only [scanned, scanLines, List.map_cons, tokensOf, List.flatMap_cons, List.map_append,
      hmode]
    rw [hmarks]
    exact congrArg (_ ++ ·) (ih _ _ _ _)

theorem marks_renamedSource (text : List Char) :
    (tokensOf (scanText (renamedSource f text))).map Token.mark =
      ((tokensOf (scanText text)).map (Token.renamed f)).map Token.mark := by
  have hscan : scanText (renamedSource f text) = scanLines 1 .normal {}
    ((scanText text).map fun line => spaced (line.scan.tokens.map (Token.renamed f))) := by
    rw [scanText, lines_renamedSource]
  rw [hscan]
  exact marks_scanLines_renamed f 1 .normal {} {} (lines text)

end Source

section Tables

variable {ts us : List Token} {v : Vocabulary}

/-- Which lexemes there are of a kind is told by the marks. -/
theorem lexemesOf_congr (kind : TokenKind) (h : ts.map Token.mark = us.map Token.mark) :
    lexemesOf kind ts = lexemesOf kind us := by
  have hmarks (ws : List Token) : lexemesOf kind ws =
      ((ws.map Token.mark).filter (·.2.1 = kind)).map (·.2.2) := by
    rw [List.filter_map, List.map_map]
    rfl
  rw [hmarks, hmarks, h]

/-- Renaming keeps the kinds of tokens. -/
theorem filter_kind_renamed (p : TokenKind → Bool) (ts : List Token) :
    (ts.map (Token.renamed f)).filter (fun t => p t.kind) =
      (ts.filter fun t => p t.kind).map (Token.renamed f) := by
  have hkind : (fun t : Token => p t.kind) ∘ Token.renamed f = fun t => p t.kind := by
    funext t
    simp
  rw [List.filter_map, hkind]

theorem Vocabulary.takeIn_congr (h : ts.map Token.mark = us.map Token.mark) :
    v.takeIn ts = v.takeIn us := by
  rw [takeIn, takeIn, lexemesOf_congr .number h, lexemesOf_congr .identifier h]

theorem lexemesOf_renamed (ts : List Token) : lexemesOf .identifier (ts.map (Token.renamed f)) =
    (lexemesOf .identifier ts).map (renamed f) := by
  rw [lexemesOf, lexemesOf, filter_kind_renamed f (· = .identifier), List.map_map, List.map_map]
  refine List.map_congr_left fun t ht => ?_
  have hk : t.kind = .identifier := by simpa using List.of_mem_filter ht
  simp [Token.renamed_of_identifier hk]

theorem lexemesOf_renamed_of_ne {kind : TokenKind} (h : kind ≠ .identifier) (ts : List Token) :
    lexemesOf kind (ts.map (Token.renamed f)) = lexemesOf kind ts := by
  rw [lexemesOf, lexemesOf, filter_kind_renamed f (· = kind), List.map_map]
  refine List.map_congr_left fun t ht => ?_
  have hk : t.kind = kind := by simpa using List.of_mem_filter ht
  rw [Function.comp_apply, Token.renamed_of_ne (hk ▸ h)]

/-- The tables of renamed tokens are the tables of the tokens, renamed. -/
theorem takeIn_renamed (ts : List Token) :
    Vocabulary.takeIn {} (ts.map (Token.renamed f)) = (Vocabulary.takeIn {} ts).renamed f := by
  apply Vocabulary.eq_of_entries
  · change (SymbolTable.internAll {} _).entries = (SymbolTable.internAll {} _).entries
    rw [lexemesOf_renamed_of_ne f (by decide)]
  · change (SymbolTable.internAll {} _).entries =
      (SymbolTable.internAll {} _).entries.map (renamed f)
    rw [SymbolTable.entries_internAll, SymbolTable.entries_internAll, lexemesOf_renamed,
      eraseDups_map]
    exact fun x _ y _ h => renamed_injective f h

/-- A reference stands for a renamed token where it stood for the token. -/
theorem Vocabulary.Refers.renamed {r : Reference} {t : Token} (h : v.Refers r t) :
    (v.renamed f).Refers r (t.renamed f) := by
  refine ⟨by rw [Token.position_renamed, h.line], by rw [Token.kind_renamed, h.table], ?_⟩
  have hlexeme := h.lexeme
  have htable := h.table
  by_cases hk : t.kind = .identifier
  · obtain htable : TableKind.identifier = r.table := by simpa [hk, TokenKind.table?] using htable
    rw [← htable] at hlexeme ⊢
    rw [Token.renamed_of_identifier hk]
    change (v.identifiers.entries.map (LexicalAnalyzer.renamed f))[r.index]? = _
    rw [List.getElem?_map]
    exact congrArg (Option.map _) hlexeme
  · rw [Token.renamed_of_ne hk]
    have hsame : (v.renamed f).entries r.table = v.entries r.table := by
      cases hr : r.table with
      | identifier =>
        rw [hr] at htable
        exact absurd (TokenKind.eq_of_table? htable rfl) hk
      | keyword | separator | number => rfl
    rw [Vocabulary.resolve?, hsame]
    exact hlexeme

/-- Into tables without repetitions there is one reference for tokens of one mark. -/
theorem Vocabulary.Refers.eq_of_mark {r q : Reference} {t u : Token} (hr : v.Refers r t)
    (hq : v.Refers q u) (hn : ∀ table, (v.entries table).Nodup) (h : t.mark = u.mark) : r = q := by
  obtain ⟨hline, hkind, hlexeme⟩ : t.position.line = u.position.line ∧ t.kind = u.kind ∧
      t.lexeme = u.lexeme := by simpa [Token.mark] using h
  have htable : r.table = q.table :=
    Option.some.inj (hr.table.symm.trans ((congrArg TokenKind.table? hkind).trans hq.table))
  have hindex : r.index = q.index := (hr.index_eq_iff hq (hn _) htable).mpr hlexeme
  have hlines : r.line = q.line := hr.line.trans (hline.trans hq.line.symm)
  obtain ⟨line, table, index⟩ := r
  obtain ⟨line', table', index'⟩ := q
  rw [Reference.mk.injEq]
  exact ⟨hlines, htable, hindex⟩

theorem Vocabulary.references_unique (hn : ∀ table, (v.entries table).Nodup)
    {rs qs : List Reference} (hr : List.Forall₂ v.Refers rs ts) (hq : List.Forall₂ v.Refers qs us)
    (h : ts.map Token.mark = us.map Token.mark) : rs = qs := by
  induction hr generalizing qs us with
  | nil =>
    obtain rfl : us = [] := by simpa using h.symm
    cases hq
    rfl
  | cons hrt _ ih =>
    cases hq with
    | nil => cases h
    | cons hqu hq =>
      obtain ⟨hmark, hrest⟩ := List.cons.inj h
      rw [hrt.eq_of_mark hqu hn hmark, ih hq hrest]

end Tables

section Diagnostics

variable {ts us : List Token}

/-- What of a diagnostic does not depend on columns. -/
def Diagnostic.mark (d : Diagnostic) : DiagnosticKind × Nat × String :=
  (d.kind, d.position.line, d.message)

/-- What is wrong with tokens is told by their marks, but for the columns. -/
theorem map_mark_diagnostics (h : ts.map Token.mark = us.map Token.mark) :
    (ts.filterMap Token.diagnostic?).map Diagnostic.mark =
      (us.filterMap Token.diagnostic?).map Diagnostic.mark := by
  let place : Position → Position := fun p => ⟨p.line, 0⟩
  have htokens (ws : List Token) : ws.map (Token.relocate place) =
      (ws.map Token.mark).map fun m => ⟨m.2.1, m.2.2, ⟨m.1, 0⟩⟩ := by
    rw [List.map_map]
    rfl
  have hmarks (ws : List Token) : (ws.filterMap Token.diagnostic?).map Diagnostic.mark =
      ((ws.map (Token.relocate place)).filterMap Token.diagnostic?).map Diagnostic.mark := by
    rw [filterMap_diagnostic?_relocate, List.map_map]
    rfl
  rw [hmarks, hmarks us, htokens, htokens, h]

/-- Nothing is ever wrong with an identifier. -/
theorem filterMap_diagnostic?_renamed (ts : List Token) :
    (ts.map (Token.renamed f)).filterMap Token.diagnostic? = ts.filterMap Token.diagnostic? := by
  rw [List.filterMap_map]
  congr 1
  funext t
  by_cases hk : t.kind = .identifier
  · rw [Function.comp_apply, Token.renamed_of_identifier hk]
    simp [Token.diagnostic?, hk]
  · rw [Function.comp_apply, Token.renamed_of_ne hk]

end Diagnostics

/-- The identifiers of a text, as a table lists them. -/
theorem Analysis.AccountsFor.exists_identifiers {a : Analysis} {ts : List Token}
    (h : a.AccountsFor ts) (hts : ∀ t ∈ ts, t.Sound) :
    ∃ names : List Identifier, a.vocabulary.identifiers.entries = names.map Identifier.name := by
  have hcovers : ∀ s ∈ a.vocabulary.identifiers.entries,
      TokenKind.identifier.Covers s.toList := by
    intro s hs
    obtain ⟨t, ht, hk, rfl⟩ := (h.mem_identifiers s).mp hs
    exact hk ▸ (hts t ht).covers
  refine ⟨a.vocabulary.identifiers.entries.pmap Identifier.mk hcovers, ?_⟩
  rw [List.map_pmap, List.pmap_eq_map, List.map_id']

/-- What an analysis of renamed tokens holds, as that of the tokens tells it. -/
theorem Analysis.AccountsFor.of_renamed {a c : Analysis} {ts us : List Token}
    (ha : a.AccountsFor ts) (hc : c.AccountsFor us)
    (h : us.map Token.mark = (ts.map (Token.renamed f)).map Token.mark) :
    c.vocabulary = a.vocabulary.renamed f ∧ c.references = a.references ∧
      c.report.toList.map Diagnostic.mark = a.report.toList.map Diagnostic.mark := by
  have hvocabulary : c.vocabulary = a.vocabulary.renamed f := by
    rw [ha.vocabulary, hc.vocabulary, ← takeIn_renamed, Vocabulary.takeIn_congr h]
  refine ⟨hvocabulary, ?_, ?_⟩
  · have hnodup : ∀ table, (c.vocabulary.entries table).Nodup := by
      rw [hc.vocabulary]
      exact Vocabulary.nodup_entries_takeIn us
    have hrefers : List.Forall₂ c.vocabulary.Refers a.references.toList
        ((properTokens ts).map (Token.renamed f)) := by
      rw [hvocabulary, List.forall₂_map_right_iff]
      exact ha.references.imp fun _ _ hr => hr.renamed f
    have hproper : (properTokens us).map Token.mark =
        ((properTokens ts).map (Token.renamed f)).map Token.mark := by
      rw [map_mark_properTokens, h, ← map_mark_properTokens, properTokens, properTokens,
        filter_kind_renamed f (· ≠ .error)]
    exact Array.toList_inj.mp (Vocabulary.references_unique hnodup hc.references hrefers hproper)
  · rw [ha.report, hc.report, map_mark_diagnostics h, filterMap_diagnostic?_renamed]

/-- An analysis sees of identifiers only which of them are the same. Whatever injective renaming of
identifiers is chosen, the source that holds, line by line, the lexemes of a text with a space
behind each and the identifiers renamed, has the references of the text, number by number. It has
the same numbers too, its identifiers are those of the text, renamed one by one, and the same things
are wrong on the same lines, in the same order. -/
theorem renaming_keeps_references (f : Identifier ↪ Identifier) (text : List Char) :
    ∃ (a c : Analysis) (names : List Identifier),
      Analysis.ofText text = .ok a ∧ Analysis.ofText (renamedSource f text) = .ok c ∧
      c.references = a.references ∧
      c.vocabulary.numbers.entries = a.vocabulary.numbers.entries ∧
      a.vocabulary.identifiers.entries = names.map Identifier.name ∧
      c.vocabulary.identifiers.entries = (names.map fun identifier => (f identifier).name) ∧
      c.report.toList.map Diagnostic.mark = a.report.toList.map Diagnostic.mark := by
  obtain ⟨a, ha, haccounts⟩ := Analysis.ofText_accountsFor text
  obtain ⟨c, hc, hcaccounts⟩ := Analysis.ofText_accountsFor (renamedSource f text)
  obtain ⟨hvocabulary, hreferences, hreport⟩ :=
    haccounts.of_renamed f hcaccounts (marks_renamedSource f text)
  have hsound := sound_of_mem_scanLines 1 .normal {} (lines text)
  obtain ⟨names, hnames⟩ := haccounts.exists_identifiers hsound
  refine ⟨a, c, names, ha, hc, hreferences, by rw [hvocabulary]; rfl, hnames, ?_, hreport⟩
  have hrenamed : c.vocabulary.identifiers.entries =
      a.vocabulary.identifiers.entries.map (renamed f) := by
    rw [hvocabulary]
    rfl
  rw [hrenamed, hnames, List.map_map]
  exact List.map_congr_left fun identifier _ => renamed_of_covers f identifier.covers

/-- A name may end like a numeral, and its lexeme is parted from what it stood next to. -/
example : renamedSource (Equiv.swap ⟨"x", by decide⟩ ⟨"FFH", by decide⟩ : Identifier ≃ Identifier)
    "x:=0FFH/*x*/-FFH\n\n@x".toList = "FFH : = 0FFH - x \n\n@ FFH \n".toList := by
  decide +kernel

end Renaming

end LexicalAnalyzer
