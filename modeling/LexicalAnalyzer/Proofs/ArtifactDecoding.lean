import LexicalAnalyzer.Artifact
import LexicalAnalyzer.Proofs.Interning
import LexicalAnalyzer.Text.Unicode

/-!
The artifacts as a reader takes them apart. The result has three lines, its items are what stands
between white space, and the items of the last line are three numbers each. Lexemes hold no white
space and are never empty, so the reader gets back exactly the tables and the references, and the
log says of them what the result says.
-/
namespace LexicalAnalyzer

/-- What stands between the white space of a text. -/
def words (text : List Char) : List (List Char) :=
  (text.splitOnP Unicode.isWhiteSpace).filter (· ≠ [])

/-- The number that decimal digits write. -/
def readNatural? (text : List Char) : Option Nat :=
  if text ≠ [] ∧ text.all Char.isDigit = true then some (Nat.ofDigitChars 10 text 0) else none

/-- Three numbers with commas between them. -/
def readTriple? (text : List Char) : Option (Nat × Nat × Nat) :=
  match (text.splitOn ',').map readNatural? with
  | [some line, some code, some index] => some (line, code, index)
  | _ => none

/-- What a reader knows of a result: the two tables that it lists, and for every token its line,
the code of its table and its position there. -/
structure Decoded where
  numbers : List String
  identifiers : List String
  triples : List (Nat × Nat × Nat)
  deriving DecidableEq, Repr

namespace Decoded

/-- Takes a result apart. It has three lines and nothing behind them. -/
def ofResult? (text : List Char) : Option Decoded :=
  match text.splitOn '\n' with
  | [numbers, identifiers, triples, []] =>
    ((words triples).mapM readTriple?).map fun triples =>
      ⟨(words numbers).map String.ofList, (words identifiers).map String.ofList, triples⟩
  | _ => none

/-- The lexeme at a position of the table with a code. The result lists two of the tables, the other
two are fixed. -/
def lexeme? (d : Decoded) (code index : Nat) : Option String :=
  match code with
  | 1 => keywords.entries[index]?
  | 2 => separators.entries[index]?
  | 3 => d.numbers[index]?
  | 4 => d.identifiers[index]?
  | _ => none

/-- A table as the log lists it, a line for each entry. -/
def listing (entries : List String) : List String :=
  entries.mapIdx fun index entry => s!"{index}: {entry}"

/-- A token as the log lists it. -/
def tokenLine (triple : Nat × Nat × Nat) (lexeme : String) : String :=
  s!"({triple.2.1},{triple.2.2}) : {lexeme}"

/-- The lines of a log, given the lexemes of the triples. -/
def logLines (d : Decoded) (lexemes : List String) : List String :=
  ["[Identificators]"] ++ listing d.identifiers ++ ["", "[Numbers]"] ++ listing d.numbers ++
    ["", "[Tokens]"] ++ List.zipWith tokenLine d.triples lexemes

end Decoded

/-- A text that a reader of words takes as one. -/
def Unbroken (w : List Char) : Prop := w ≠ [] ∧ ∀ c ∈ w, Unicode.isWhiteSpace c = false

theorem words_append_space (x y : List Char) : words (x ++ ' ' :: y) = words x ++ words y := by
  rw [words, List.splitOnP_append_cons x y (by decide), List.filter_append]
  rfl

theorem Unbroken.words {w : List Char} (h : Unbroken w) : words w = [w] := by
  rw [LexicalAnalyzer.words, List.splitOnP_eq_singleton h.2]
  simp [h.1]

/-- Items with a space behind each are read back as they are. -/
theorem words_spaced {ws : List (List Char)} (h : ∀ w ∈ ws, Unbroken w) :
    words (ws.flatMap (· ++ [' '])) = ws := by
  induction ws with
  | nil => rfl
  | cons w ws ih =>
    have hrest := ih fun v hv => h v (by simp [hv])
    rw [List.flatMap_cons, List.append_assoc, List.singleton_append, words_append_space, hrest,
      (h w (by simp)).words]
    rfl

/-- The characters that have a class are printed ASCII characters. -/
theorem toNat_of_class {c : Char} (h : CharClass.of c ≠ .invalid) :
    0x21 ≤ c.toNat ∧ c.toNat ≤ 0x7E := by
  by_cases hd : c.isDigit = true
  · rw [Char.isDigit_iff_toNat] at hd
    have hbounds : 0x21 ≤ '0'.toNat ∧ '9'.toNat ≤ 0x7E := by decide
    omega
  · by_cases ha : c.isAlpha = true
    · rw [isAlpha_iff] at ha
      have hupper : 0x21 ≤ 'A'.toNat ∧ 'Z'.toNat ≤ 0x7E := by decide
      have hlower : 0x21 ≤ 'a'.toNat ∧ 'z'.toNat ≤ 0x7E := by decide
      omega
    · have hs : isSeparatorChar c = true := by grind [CharClass.of]
      have hall : ['+', '-', '=', '<', '>', '/', '*', ';', '.', '(', ')', ':', ','].all
          (fun x => 0x21 ≤ x.toNat && x.toNat ≤ 0x7E) = true := by decide
      have hc := List.all_eq_true.mp hall c (by simpa [isSeparatorChar] using hs)
      simpa using hc

theorem isWhiteSpace_eq_false_of_class {c : Char} (h : CharClass.of c ≠ .invalid) :
    Unicode.isWhiteSpace c = false := by
  obtain ⟨hl, hr⟩ := toNat_of_class h
  simp only [Unicode.isWhiteSpace, Unicode.whiteSpace, Unicode.Ranges.contains, List.any_cons,
    List.any_nil, Bool.or_false, Bool.or_eq_false_iff, Bool.and_eq_false_iff,
    decide_eq_false_iff_not]
  omega

theorem IsLexeme.unbroken {w : List Char} (h : IsLexeme w) : Unbroken w := by
  refine ⟨h.ne_nil, fun c hc => isWhiteSpace_eq_false_of_class fun hclass => ?_⟩
  exact h.not_mem_of_invalid hclass hc

theorem newline_not_mem {ws : List (List Char)} (h : ∀ w ∈ ws, Unbroken w) :
    '\n' ∉ ws.flatMap (· ++ [' ']) := by
  simp only [List.mem_flatMap, List.mem_append, not_exists, not_and]
  rintro w hw (hc | hc)
  · have hwhite := (h w hw).2 '\n' hc
    exact absurd hwhite (by decide)
  · exact absurd hc (by decide)

/-- Three lines of items are taken apart into their items. -/
theorem splitOn_lines {xs ys zs : List (List Char)} (hx : ∀ w ∈ xs, Unbroken w)
    (hy : ∀ w ∈ ys, Unbroken w) (hz : ∀ w ∈ zs, Unbroken w) :
    (xs.flatMap (· ++ [' ']) ++ '\n' :: (ys.flatMap (· ++ [' ']) ++
      '\n' :: (zs.flatMap (· ++ [' ']) ++ ['\n']))).splitOn '\n' =
      [xs.flatMap (· ++ [' ']), ys.flatMap (· ++ [' ']), zs.flatMap (· ++ [' ']), []] := by
  rw [List.splitOn_append_cons_self_of_not_mem (newline_not_mem hx),
    List.splitOn_append_cons_self_of_not_mem (newline_not_mem hy),
    List.splitOn_append_cons_self_of_not_mem (newline_not_mem hz), List.splitOn_nil]

theorem isDigit_of_mem_repr {n : Nat} {c : Char} (h : c ∈ n.repr.toList) : c.isDigit = true := by
  rw [Nat.toList_repr] at h
  exact Nat.isDigit_of_mem_toDigits (by decide) (by decide) h

theorem readNatural?_repr (n : Nat) : readNatural? n.repr.toList = some n := by
  have hne : n.repr.toList ≠ [] := by
    rw [Nat.toList_repr]
    exact Nat.toDigits_ne_nil
  have hall : n.repr.toList.all Char.isDigit = true :=
    List.all_eq_true.mpr fun c hc => isDigit_of_mem_repr hc
  rw [readNatural?, if_pos ⟨hne, hall⟩, Nat.toList_repr, Nat.ofDigitChars_ten_toDigits]

/-- What a reader gets back from a reference. -/
def Reference.triple (r : Reference) : Nat × Nat × Nat := (r.line, r.table.code, r.index)

/-- A reference as it is written. -/
theorem Reference.toList_text (r : Reference) : r.text.toList =
    r.line.repr.toList ++ ',' :: (r.table.code.repr.toList ++ ',' :: r.index.repr.toList) := by
  have htext : r.text = r.line.repr ++ "," ++ r.table.code.repr ++ "," ++ r.index.repr := rfl
  simp [htext, String.toList_append]

theorem comma_not_mem_repr (n : Nat) : ',' ∉ n.repr.toList := by
  intro h
  exact absurd (isDigit_of_mem_repr h) (by decide)

theorem readTriple?_text (r : Reference) : readTriple? r.text.toList = some r.triple := by
  have hsplit : r.text.toList.splitOn ',' =
      [r.line.repr.toList, r.table.code.repr.toList, r.index.repr.toList] := by
    rw [r.toList_text, List.splitOn_append_cons_self_of_not_mem (comma_not_mem_repr _),
      List.splitOn_append_cons_self_of_not_mem (comma_not_mem_repr _),
      List.splitOn_eq_singleton (comma_not_mem_repr _)]
  simp only [readTriple?, hsplit, List.map_cons, List.map_nil, readNatural?_repr]
  rfl

theorem mapM_readTriple? (rs : List Reference) :
    (rs.map (·.text.toList)).mapM readTriple? = some (rs.map Reference.triple) := by
  induction rs with
  | nil => rfl
  | cons r rs ih =>
    rw [List.map_cons, List.mapM_cons, readTriple?_text, ih]
    rfl

/-- Digits and commas make up a written reference. -/
theorem Reference.unbroken_text (r : Reference) : Unbroken r.text.toList := by
  have hdigit : ∀ (n : Nat) (c : Char), c ∈ n.repr.toList → CharClass.of c ≠ .invalid := by
    intro n c hc
    simp [CharClass.of, isDigit_of_mem_repr hc]
  rw [r.toList_text]
  refine ⟨by simp, fun c hc => isWhiteSpace_eq_false_of_class ?_⟩
  simp only [List.mem_append, List.mem_cons] at hc
  rcases hc with hc | rfl | hc | rfl | hc
  · exact hdigit _ c hc
  · decide
  · exact hdigit _ c hc
  · decide
  · exact hdigit _ c hc

namespace Analysis

/-- What a reader is to get back from the result of an analysis. -/
def decoded (a : Analysis) : Decoded where
  numbers := a.vocabulary.numbers.entries
  identifiers := a.vocabulary.identifiers.entries
  triples := a.references.toList.map Reference.triple

variable {a : Analysis} {ts : List Token}

/-- The codes lead to the tables that they stand for. -/
theorem lexeme?_decoded (a : Analysis) (table : TableKind) (index : Nat) :
    a.decoded.lexeme? table.code index = a.vocabulary.resolve? table index := by
  cases table <;> rfl

/-- The result is three lines of items with a space behind each. -/
theorem toList_resultText (a : Analysis) : (Artifact.resultText a).toList =
    (a.vocabulary.numbers.entries.map String.toList).flatMap (· ++ [' ']) ++ '\n' ::
      ((a.vocabulary.identifiers.entries.map String.toList).flatMap (· ++ [' ']) ++ '\n' ::
        ((a.references.toList.map (·.text.toList)).flatMap (· ++ [' ']) ++ ['\n'])) := by
  simp [Artifact.resultText, Artifact.resultPieces, String.toList_join, List.flatMap_map,
    String.toList_append]

/-- What the tables of an analysis hold is never broken up. -/
theorem AccountsFor.unbroken (h : a.AccountsFor ts) (hts : ∀ t ∈ ts, t.Sound) {s : String}
    (hs : s ∈ a.vocabulary.numbers.entries ∨ s ∈ a.vocabulary.identifiers.entries) :
    Unbroken s.toList := by
  obtain ⟨t, ht, he, rfl⟩ : ∃ t ∈ ts, t.kind ≠ .error ∧ t.lexeme = s := by
    rcases hs with hs | hs
    · obtain ⟨t, ht, hk, hlexeme⟩ := (h.mem_numbers s).mp hs
      exact ⟨t, ht, by simp [hk], hlexeme⟩
    · obtain ⟨t, ht, hk, hlexeme⟩ := (h.mem_identifiers s).mp hs
      exact ⟨t, ht, by simp [hk], hlexeme⟩
  exact ((hts t ht).isLexeme he).unbroken

/-- The result is taken apart into the tables and the references that it was written from. -/
theorem AccountsFor.ofResult?_resultText (h : a.AccountsFor ts) (hts : ∀ t ∈ ts, t.Sound) :
    Decoded.ofResult? (Artifact.resultText a).toList = some a.decoded := by
  have hnumbers : ∀ w ∈ a.vocabulary.numbers.entries.map String.toList, Unbroken w :=
    List.forall_mem_map.mpr fun _ hs => h.unbroken hts (.inl hs)
  have hidentifiers : ∀ w ∈ a.vocabulary.identifiers.entries.map String.toList, Unbroken w :=
    List.forall_mem_map.mpr fun _ hs => h.unbroken hts (.inr hs)
  have hreferences : ∀ w ∈ a.references.toList.map (·.text.toList), Unbroken w :=
    List.forall_mem_map.mpr fun r _ => r.unbroken_text
  rw [Decoded.ofResult?, toList_resultText, splitOn_lines hnumbers hidentifiers hreferences]
  simp only [words_spaced hnumbers, words_spaced hidentifiers, words_spaced hreferences,
    mapM_readTriple?]
  simp [decoded]

/-- References that stand for tokens are listed with the lexemes of the tokens. -/
theorem mapM_referenceLine {v : Vocabulary} {rs : List Reference}
    (h : List.Forall₂ v.Refers rs ts) :
    rs.mapM (Artifact.referenceLine v) = .ok ((List.zipWith Decoded.tokenLine
      (rs.map Reference.triple) (ts.map (·.lexeme))).map (· ++ "\n")) := by
  induction h with
  | nil => rfl
  | @cons r t rs ts hr _ ih =>
    have hresolve : v.resolve r.table r.index = .ok t.lexeme := by
      rw [Vocabulary.resolve, hr.lexeme]
    have hline : Artifact.referenceLine v r =
        .ok (Decoded.tokenLine r.triple t.lexeme ++ "\n") := by
      rw [Artifact.referenceLine, hresolve]
      rfl
    rw [List.mapM_cons, hline, ih]
    rfl

theorem numbered_eq (entries : List String) :
    Artifact.numbered entries = (Decoded.listing entries).map (· ++ "\n") := by
  rw [Artifact.numbered, Decoded.listing, List.mapIdx_eq_zipIdx_map, List.map_map]
  rfl

/-- The log never fails, and it lists what the result holds. -/
theorem AccountsFor.logText_eq (h : a.AccountsFor ts) :
    Artifact.logText a = .ok (String.join
      ((a.decoded.logLines ((properTokens ts).map (·.lexeme))).map (· ++ "\n"))) := by
  have htokens := mapM_referenceLine h.references
  rw [Artifact.logText, Artifact.logPieces, htokens]
  simp only [numbered_eq, Decoded.logLines, List.map_append]
  rfl

/-- What a reader gets back leads from every reference to the lexeme of its token. -/
theorem AccountsFor.forall₂_lexeme? (h : a.AccountsFor ts) :
    List.Forall₂ (fun (_, code, index) lexeme => a.decoded.lexeme? code index = some lexeme)
      a.decoded.triples ((properTokens ts).map (·.lexeme)) := by
  rw [decoded, List.forall₂_map_left_iff, List.forall₂_map_right_iff]
  refine h.references.imp fun r t hr => ?_
  exact (a.lexeme?_decoded r.table r.index).trans hr.lexeme

end Analysis

/-- The result is taken apart into exactly what was analyzed, and the log agrees with it. A reader
finds three lines, the numbers and the identifiers by their positions in the first two, and in the
third the references in their order, each as a line, the code of a table and a position. The log is
never refused. It lists the same two tables, and for every triple the lexeme at its position, taken
from the lines of the result or from the fixed tables. -/
theorem result_decodes (text : List Char) :
    ∃ a decoded lexemes, Analysis.ofText text = .ok a ∧
      Decoded.ofResult? (Artifact.resultText a).toList = some decoded ∧
      decoded.numbers = a.vocabulary.numbers.entries ∧
      decoded.identifiers = a.vocabulary.identifiers.entries ∧
      decoded.triples = a.references.toList.map (fun r => (r.line, r.table.code, r.index)) ∧
      List.Forall₂ (fun (_, code, index) lexeme => decoded.lexeme? code index = some lexeme)
        decoded.triples lexemes ∧
      Artifact.logText a = .ok (String.join ((decoded.logLines lexemes).map (· ++ "\n"))) := by
  obtain ⟨a, ha, haccounts⟩ := Analysis.ofText_accountsFor text
  have hsound := sound_of_mem_scanLines 1 .normal {} (lines text)
  exact ⟨a, a.decoded, _, ha, haccounts.ofResult?_resultText hsound, rfl, rfl, rfl,
    haccounts.forall₂_lexeme?, haccounts.logText_eq⟩

end LexicalAnalyzer
