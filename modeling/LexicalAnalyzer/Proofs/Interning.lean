import LexicalAnalyzer.Analysis
import LexicalAnalyzer.Proofs.SourceReading
import LexicalAnalyzer.Proofs.Splicing
import Mathlib.Data.List.Forall2

/-!
Tokens taken into the vocabulary. The tables only grow at their ends, so a position that was given
early means the same lexeme to the end. The scan makes keywords and separators of nothing but
entries of their tables, so the analysis of a text never fails, and its references stand for the
tokens that are no errors, one for one and in their order.
-/
namespace LexicalAnalyzer

namespace SymbolTable

variable (t : SymbolTable)

/-- Interns lexemes one after another. -/
def internAll (lexemes : List String) : SymbolTable :=
  lexemes.foldl (fun t lexeme => (t.intern lexeme).2) t

theorem internAll_append (ls ms : List String) :
    t.internAll (ls ++ ms) = (t.internAll ls).internAll ms :=
  List.foldl_append

theorem entries_prefix_intern (lexeme : String) : t.entries <+: (t.intern lexeme).2.entries := by
  rw [entries_intern]
  split
  · exact List.prefix_rfl
  · exact List.prefix_append _ _

theorem entries_prefix_internAll (lexemes : List String) :
    t.entries <+: (t.internAll lexemes).entries := by
  induction lexemes generalizing t with
  | nil => exact List.prefix_rfl
  | cons lexeme lexemes ih => exact (t.entries_prefix_intern lexeme).trans (ih _)

theorem mem_internAll (lexemes : List String) (s : String) :
    s ∈ (t.internAll lexemes).entries ↔ s ∈ t.entries ∨ s ∈ lexemes := by
  induction lexemes generalizing t with
  | nil => simp [internAll]
  | cons lexeme lexemes ih =>
    have hfirst : s ∈ (t.intern lexeme).2.entries ↔ s ∈ t.entries ∨ s = lexeme := by
      rw [entries_intern]
      split
      · rename_i h
        constructor
        · exact .inl
        · rintro (hs | rfl)
          · exact hs
          · exact h
      · simp
    rw [List.mem_cons, ← or_assoc, ← hfirst]
    exact ih _

end SymbolTable

/-- The lexemes of the tokens of a kind. -/
def lexemesOf (kind : TokenKind) (ts : List Token) : List String :=
  (ts.filter (·.kind = kind)).map (·.lexeme)

theorem lexemesOf_append (kind : TokenKind) (ts us : List Token) :
    lexemesOf kind (ts ++ us) = lexemesOf kind ts ++ lexemesOf kind us := by
  simp [lexemesOf]

theorem mem_lexemesOf {kind : TokenKind} {ts : List Token} {s : String} :
    s ∈ lexemesOf kind ts ↔ ∃ t ∈ ts, t.kind = kind ∧ t.lexeme = s := by
  simp [lexemesOf, and_assoc]

theorem TokenKind.eq_of_table? {k l : TokenKind} {table : TableKind} (hk : k.table? = some table)
    (hl : l.table? = some table) : k = l := by
  have h : k.table? = l.table? := hk.trans hl.symm
  clear hl
  cases k <;> cases l <;> simp [table?] at h hk ⊢

/-- What of a token an analysis goes by: its line, its kind and its lexeme. -/
def Token.mark (t : Token) : Nat × TokenKind × String := (t.position.line, t.kind, t.lexeme)

/-- The tokens that are no errors. -/
def properTokens (ts : List Token) : List Token := ts.filter (·.kind ≠ .error)

namespace Vocabulary

/-- Every table of the first vocabulary goes on in the second. -/
def Extends (v w : Vocabulary) : Prop := ∀ table, v.entries table <+: w.entries table

/-- The vocabulary with the numbers and identifiers among tokens taken in. -/
def takeIn (v : Vocabulary) (ts : List Token) : Vocabulary where
  numbers := v.numbers.internAll (lexemesOf .number ts)
  identifiers := v.identifiers.internAll (lexemesOf .identifier ts)

/-- A reference stands for a token: it has its line, its table and, through the table, its
lexeme. -/
structure Refers (v : Vocabulary) (r : Reference) (t : Token) : Prop where
  line : r.line = t.position.line
  table : t.kind.table? = some r.table
  lexeme : v.resolve? r.table r.index = some t.lexeme

variable {v w : Vocabulary}

theorem takeIn_append (v : Vocabulary) (ts us : List Token) :
    v.takeIn (ts ++ us) = (v.takeIn ts).takeIn us := by
  simp only [takeIn, lexemesOf_append, SymbolTable.internAll_append]

theorem extends_takeIn (v : Vocabulary) (ts : List Token) : v.Extends (v.takeIn ts) := by
  intro table
  cases table with
  | keyword => exact List.prefix_rfl
  | separator => exact List.prefix_rfl
  | number => exact v.numbers.entries_prefix_internAll _
  | identifier => exact v.identifiers.entries_prefix_internAll _

/-- What stands at a position stays there when the tables grow. -/
theorem Extends.resolve? (h : v.Extends w) {table : TableKind} {index : Nat} {s : String}
    (hs : v.resolve? table index = some s) : w.resolve? table index = some s := by
  obtain ⟨more, hmore⟩ := h table
  obtain ⟨hlt, hlexeme⟩ := List.getElem?_eq_some_iff.mp hs
  rw [Vocabulary.resolve?, ← hmore, List.getElem?_append_left hlt, List.getElem?_eq_getElem hlt,
    hlexeme]

/-- What a reference stands for does not change when the tables grow. -/
theorem Refers.mono {r : Reference} {t : Token} (hr : v.Refers r t) (h : v.Extends w) :
    w.Refers r t where
  line := hr.line
  table := hr.table
  lexeme := h.resolve? hr.lexeme

theorem fixedIndex_of_mem {fixed : FixedTable} {lexeme : String} (table : TableKind)
    (h : lexeme ∈ fixed.entries) :
    ∃ index, fixedIndex fixed table lexeme = .ok index ∧
      fixed.entries[index]? = some lexeme := by
  obtain ⟨index, hindex⟩ := Option.isSome_iff_exists.mp (List.isSome_idxOf?.mpr h)
  obtain ⟨hlt, heq, _⟩ := List.idxOf?_eq_some_iff.mp hindex
  refine ⟨index, ?_, ?_⟩
  · simp only [fixedIndex, FixedTable.indexOf?, hindex]
  · rw [List.getElem?_eq_getElem hlt, heq]

/-- A table that is empty at first holds the lexemes of its kind of tokens. -/
theorem mem_entries_takeIn {kind : TokenKind} (table : TableKind)
    (hk : kind.table? = some table) (hempty : entries {} table = []) (ts : List Token)
    (s : String) :
    s ∈ (takeIn {} ts).entries table ↔ ∃ t ∈ ts, t.kind = kind ∧ t.lexeme = s := by
  rw [← mem_lexemesOf]
  cases kind with
  | keyword =>
    obtain rfl : TableKind.keyword = table := by simpa [TokenKind.table?] using hk
    exact absurd hempty (by decide)
  | separator =>
    obtain rfl : TableKind.separator = table := by simpa [TokenKind.table?] using hk
    exact absurd hempty (by decide)
  | number =>
    obtain rfl : TableKind.number = table := by simpa [TokenKind.table?] using hk
    simp [entries, takeIn, SymbolTable.mem_internAll]
  | identifier =>
    obtain rfl : TableKind.identifier = table := by simpa [TokenKind.table?] using hk
    simp [entries, takeIn, SymbolTable.mem_internAll]
  | error => simp [TokenKind.table?] at hk

/-- A lexeme of its kind is taken into its table and found there again. -/
theorem intern_of_covers (v : Vocabulary) {t : Token} {table : TableKind}
    (hk : t.kind.Covers t.lexeme.toList) (ht : t.kind.table? = some table) :
    ∃ index, v.intern table t.lexeme = .ok (index, v.takeIn [t]) ∧
      (v.takeIn [t]).resolve? table index = some t.lexeme := by
  obtain ⟨kind, lexeme, position⟩ := t
  cases kind with
  | keyword =>
    obtain rfl : TableKind.keyword = table := by simpa [TokenKind.table?] using ht
    have hmem : lexeme ∈ keywords.entries := by
      simpa [TokenKind.Covers, IsKeyword] using hk
    obtain ⟨index, hindex, hget⟩ := fixedIndex_of_mem .keyword hmem
    exact ⟨index, by rw [intern, hindex]; rfl, hget⟩
  | separator =>
    obtain rfl : TableKind.separator = table := by simpa [TokenKind.table?] using ht
    have hmem : lexeme ∈ separators.entries := by
      simpa [TokenKind.Covers, IsSeparator] using hk
    obtain ⟨index, hindex, hget⟩ := fixedIndex_of_mem .separator hmem
    exact ⟨index, by rw [intern, hindex]; rfl, hget⟩
  | number =>
    obtain rfl : TableKind.number = table := by simpa [TokenKind.table?] using ht
    exact ⟨_, rfl, v.numbers.get?_intern lexeme⟩
  | identifier =>
    obtain rfl : TableKind.identifier = table := by simpa [TokenKind.table?] using ht
    exact ⟨_, rfl, v.identifiers.get?_intern lexeme⟩
  | error => simp [TokenKind.table?] at ht

end Vocabulary

namespace Analysis

/-- What taking in tokens makes of an analysis. -/
structure Takes (a : Analysis) (ts : List Token) (b : Analysis) : Prop where
  vocabulary : b.vocabulary = a.vocabulary.takeIn ts
  references : ∃ rs, b.references.toList = a.references.toList ++ rs ∧
    List.Forall₂ b.vocabulary.Refers rs (properTokens ts)
  report : b.report = a.report
  mode : b.mode = a.mode

variable {a b c : Analysis} {ts us : List Token} {t : Token}

theorem Takes.nil (a : Analysis) : a.Takes [] a where
  vocabulary := rfl
  references := ⟨[], by simp, .nil⟩
  report := rfl
  mode := rfl

theorem Takes.append (h : a.Takes ts b) (h' : b.Takes us c) : a.Takes (ts ++ us) c where
  vocabulary := by rw [h'.vocabulary, h.vocabulary, Vocabulary.takeIn_append]
  references := by
    obtain ⟨rs, hrs, hmeans⟩ := h.references
    obtain ⟨qs, hqs, hmeans'⟩ := h'.references
    have hgrown : b.vocabulary.Extends c.vocabulary := by
      rw [h'.vocabulary]
      exact b.vocabulary.extends_takeIn us
    refine ⟨rs ++ qs, by rw [hqs, hrs, List.append_assoc], ?_⟩
    rw [properTokens, List.filter_append]
    exact List.rel_append (hmeans.imp fun _ _ hr => hr.mono hgrown) hmeans'
  report := h'.report.trans h.report
  mode := h'.mode.trans h.mode

/-- A token of a scan is never refused. -/
theorem record_takes (a : Analysis) (hk : t.kind.Covers t.lexeme.toList) :
    ∃ b, a.record t = .ok b ∧ a.Takes [t] b := by
  cases ht : t.kind.table? with
  | none =>
    have he : t.kind = .error := by
      cases hkind : t.kind <;> simp [hkind, TokenKind.table?] at ht
      rfl
    refine ⟨a, by simp only [record, ht], ?_, ⟨[], by simp, ?_⟩, rfl, rfl⟩
    · simp [Vocabulary.takeIn, lexemesOf, he, SymbolTable.internAll]
    · simp [properTokens, he]
  | some table =>
    have he : t.kind ≠ .error := by
      intro he
      simp [he, TokenKind.table?] at ht
    obtain ⟨index, hintern, hget⟩ := a.vocabulary.intern_of_covers hk ht
    let r : Reference := ⟨t.position.line, table, index⟩
    refine ⟨{ a with
      vocabulary := a.vocabulary.takeIn [t], references := a.references.push r }, ?_, ?_⟩
    · simp only [record, ht, hintern, r]
    refine ⟨rfl, ⟨[r], by simp, ?_⟩, rfl, rfl⟩
    simp only [properTokens, List.filter_cons, ne_eq, he, not_false_eq_true, decide_true, if_true,
      List.filter_nil]
    exact .cons ⟨rfl, ht, hget⟩ .nil

theorem foldlM_record_takes (a : Analysis) (hts : ∀ t ∈ ts, t.kind.Covers t.lexeme.toList) :
    ∃ b, ts.foldlM record a = .ok b ∧ a.Takes ts b := by
  induction ts generalizing a with
  | nil => exact ⟨a, rfl, .nil a⟩
  | cons t ts ih =>
    obtain ⟨b, hb, htakes⟩ := a.record_takes (hts t (by simp))
    obtain ⟨c, hc, htakes'⟩ := ih b fun s hs => hts s (by simp [hs])
    refine ⟨c, ?_, htakes.append htakes'⟩
    rw [List.foldlM_cons, hb]
    exact hc

/-- Scanned lines are taken in token by token, and leave their last report and mode. -/
theorem extend_eq {scanned : List ScannedLine}
    (h : (tokensOf scanned).foldlM record a = .ok b) :
    a.extend scanned = .ok { b with
      report := reportBehind b.report scanned, mode := modeBehind b.mode scanned } := by
  have hfold : (scanned.flatMap (·.scan.tokens)).foldlM record a = .ok b := h
  rw [extend, hfold]
  rcases List.eq_nil_or_concat scanned with rfl | ⟨front, last, rfl⟩
  · rfl
  · simp only [List.concat_eq_append, List.getLast?_concat, reportBehind, modeBehind,
      List.foldl_concat]
    rfl

/-- Only the mark of a token matters to an analysis. -/
theorem record_congr (a : Analysis) {s t : Token} (h : s.mark = t.mark) :
    a.record s = a.record t := by
  obtain ⟨hline, hkind, hlexeme⟩ : s.position.line = t.position.line ∧ s.kind = t.kind ∧
      s.lexeme = t.lexeme := by simpa [Token.mark] using h
  simp only [record, hline, hkind, hlexeme]

theorem foldlM_record_congr (a : Analysis) (h : ts.map Token.mark = us.map Token.mark) :
    ts.foldlM record a = us.foldlM record a := by
  induction ts generalizing us a with
  | nil =>
    obtain rfl : us = [] := by simpa using h.symm
    rfl
  | cons t ts ih =>
    cases us with
    | nil => simp at h
    | cons u us =>
      obtain ⟨hmark, hrest⟩ := List.cons.inj h
      rw [List.foldlM_cons, List.foldlM_cons, record_congr a hmark]
      exact bind_congr fun b => ih b hrest

/-- Error tokens leave no trace but in the report. -/
theorem foldlM_record_properTokens (a : Analysis) (ts : List Token) :
    (properTokens ts).foldlM record a = ts.foldlM record a := by
  induction ts generalizing a with
  | nil => rfl
  | cons t ts ih =>
    by_cases he : t.kind = .error
    · have hskip : a.record t = .ok a := by simp [record, he, TokenKind.table?]
      have hproper : properTokens (t :: ts) = properTokens ts := by simp [properTokens, he]
      rw [hproper, ih, List.foldlM_cons, hskip]
      rfl
    · have hproper : properTokens (t :: ts) = t :: properTokens ts := by
        simp [properTokens, he]
      rw [hproper, List.foldlM_cons, List.foldlM_cons]
      exact bind_congr fun b => ih b

/-- What an analysis holds of the tokens of a text: numbers and identifiers in its vocabulary,
a reference for every token that is no error, and what is wrong with the tokens in its report. -/
structure AccountsFor (a : Analysis) (ts : List Token) : Prop where
  vocabulary : a.vocabulary = Vocabulary.takeIn {} ts
  references : List.Forall₂ a.vocabulary.Refers a.references.toList (properTokens ts)
  report : a.report.toList = ts.filterMap Token.diagnostic?

theorem AccountsFor.mem_numbers (h : a.AccountsFor ts) (s : String) :
    s ∈ a.vocabulary.numbers.entries ↔ ∃ t ∈ ts, t.kind = .number ∧ t.lexeme = s := by
  rw [h.vocabulary]
  exact Vocabulary.mem_entries_takeIn .number rfl rfl ts s

theorem AccountsFor.mem_identifiers (h : a.AccountsFor ts) (s : String) :
    s ∈ a.vocabulary.identifiers.entries ↔ ∃ t ∈ ts, t.kind = .identifier ∧ t.lexeme = s := by
  rw [h.vocabulary]
  exact Vocabulary.mem_entries_takeIn .identifier rfl rfl ts s

/-- The analysis of a text never fails. It is that of the tokens, with the report and the mode
behind the last line. -/
theorem exists_ofText (text : List Char) :
    ∃ b, (tokensOf (scanText text)).foldlM record {} = .ok b ∧
      Takes {} (tokensOf (scanText text)) b ∧
      ofText text = .ok { b with
        report := reportBehind b.report (scanText text),
        mode := modeBehind b.mode (scanText text) } := by
  have hsound := sound_of_mem_scanLines 1 .normal {} (lines text)
  obtain ⟨b, hb, htakes⟩ := foldlM_record_takes {} fun t ht => (hsound t ht).covers
  exact ⟨b, hb, htakes, extend_eq hb⟩

theorem ofText_accountsFor (text : List Char) :
    ∃ a, ofText text = .ok a ∧ a.AccountsFor (tokensOf (scanText text)) := by
  obtain ⟨b, _, htakes, ha⟩ := exists_ofText text
  obtain ⟨rs, hrs, hmeans⟩ := htakes.references
  refine ⟨_, ha, htakes.vocabulary, ?_, ?_⟩
  · have hall : b.references.toList = rs := by simpa using hrs
    rw [hall]
    exact hmeans
  · have hreport := reportBehind_scanLines 1 .normal {} (lines text)
    rw [htakes.report]
    exact (congrArg Report.toList hreport).trans (Report.toList_recordAll _ _)

theorem accountsFor_of_ofText {text : List Char} (h : ofText text = .ok a) :
    a.AccountsFor (tokensOf (scanText text)) := by
  obtain ⟨b, hb, haccounts⟩ := ofText_accountsFor text
  obtain rfl := Except.ok.inj (h.symm.trans hb)
  exact haccounts

/-- Texts whose proper tokens have the same marks give the same tables and references. -/
theorem ofText_congr {text other : List Char} (ha : ofText text = .ok a)
    (hc : ofText other = .ok c)
    (h : (properTokens (tokensOf (scanText other))).map Token.mark =
      (properTokens (tokensOf (scanText text))).map Token.mark) :
    c.vocabulary = a.vocabulary ∧ c.references = a.references := by
  obtain ⟨b, hb, _, hb'⟩ := exists_ofText text
  obtain ⟨d, hd, _, hd'⟩ := exists_ofText other
  have hsame := foldlM_record_congr {} h
  rw [foldlM_record_properTokens, foldlM_record_properTokens, hb, hd] at hsame
  obtain rfl := Except.ok.inj hsame
  obtain rfl := Except.ok.inj (ha.symm.trans hb')
  obtain rfl := Except.ok.inj (hc.symm.trans hd')
  exact ⟨rfl, rfl⟩

end Analysis

/-- The analysis of a text never fails, since the scan makes keywords and separators of entries of
their tables only. Its references stand for the tokens that are no errors, one for one and in their
order: each has the number of the line that its token is found on, the table of the token's kind,
and a position that leads to the token's lexeme in the tables as they are in the end. -/
theorem references_resolve (text : List Char) :
    (∀ t ∈ tokensOf (scanText text),
      (t.kind = .keyword → t.lexeme ∈ keywords.entries) ∧
      (t.kind = .separator → t.lexeme ∈ separators.entries)) ∧
    ∃ a, Analysis.ofText text = .ok a ∧
      List.Forall₂ (fun (r : Reference) (number, t) => r.line = number ∧
          t.kind.table? = some r.table ∧
          a.vocabulary.resolve? r.table r.index = some t.lexeme)
        a.references.toList
        ((tokensByLine 1 (scanText text)).filter fun (_, t) => t.kind ≠ .error) := by
  constructor
  · intro t ht
    have hk := (sound_of_mem_scanLines 1 .normal {} (lines text) t ht).covers
    constructor
    · intro hkind
      simpa [hkind, TokenKind.Covers, IsKeyword] using hk
    · intro hkind
      simpa [hkind, TokenKind.Covers, IsSeparator] using hk
  · obtain ⟨a, ha, haccounts⟩ := Analysis.ofText_accountsFor text
    refine ⟨a, ha, ?_⟩
    rw [scanText, tokensByLine_scanLines, List.filter_map, List.forall₂_map_right_iff]
    exact haccounts.references.imp fun _ _ h => ⟨h.line, h.table, h.lexeme⟩

/-- A keyword behind an error, a malformed numeral and a comment is still one of the table. -/
theorem references_resolve_begin :
    let text := "x @ 1E\n/**/ begin".toList
    let t : Token := ⟨.keyword, "begin", ⟨2, 6⟩⟩
    t ∈ tokensOf (scanText text) ∧ t.lexeme ∈ keywords.entries ∧
      ∃ a, Analysis.ofText text = .ok a := by
  intro text t
  have ht : t ∈ tokensOf (scanText text) := by decide +kernel
  obtain ⟨hfixed, a, ha, _⟩ := references_resolve text
  exact ⟨ht, (hfixed t ht).1 rfl, a, ha⟩

end LexicalAnalyzer
