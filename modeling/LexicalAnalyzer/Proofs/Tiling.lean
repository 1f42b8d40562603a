import LexicalAnalyzer.Proofs.CommentBlanks

/-!
The scan of a line loses no character. The line is cut into runs of spaces, comments and the lexemes
of the tokens, one behind the other, and every token stands in the column that its lexeme begins in.
So tokens never overlap, and a character outside comments that is no space lies in exactly one.
-/
namespace LexicalAnalyzer

/-- A piece of a line. -/
inductive Segment where
  | blanks (count : Nat)
  | comment (text : List Char)
  | token (t : Token)
  deriving DecidableEq, Repr

namespace Segment

def text : Segment → List Char
  | .blanks count => List.replicate count ' '
  | .comment text => text
  | .token t => t.lexeme.toList

def token? : Segment → Option Token
  | .token t => some t
  | _ => none

/-- Whether each character of the segment lies in a comment. -/
def marks : Segment → List Bool
  | .blanks count => List.replicate count false
  | .comment text => List.replicate text.length true
  | .token t => List.replicate t.lexeme.toList.length false

end Segment

/-- A comment ends behind the first `*/`, or where the line ends when there is none. -/
def EndsComment (body after : List Char) : Prop :=
  (∃ inner, body = inner ++ ['*', '/'] ∧ ¬ ['*', '/'] <:+: inner ++ ['*']) ∨
  (after = [] ∧ ¬ ['*', '/'] <:+: body)

/-- What a segment is that stands between two parts of a line: all spaces up to the next other
character; a comment from its `/*`, or from the start of a line that starts in one, to its end; or a
token under its place. -/
def Segment.Fits (line : Nat) (mode : Mode) (before after : List Char) : Segment → Prop
  | .blanks count => 0 < count ∧ ∀ c ∈ after.head?, c ≠ ' '
  | .comment text => text ≠ [] ∧ ∃ body, EndsComment body after ∧
      (text = '/' :: '*' :: body ∨ before = [] ∧ mode = .comment ∧ text = body)
  | .token t => t.lexeme ≠ "" ∧ t.position = ⟨line, before.length + 1⟩

/-- Every segment fits where it stands, behind the text in front of them all. -/
def Tiles (line : Nat) (mode : Mode) : List Char → List Segment → Prop
  | _, [] => True
  | before, s :: rest =>
    s.Fits line mode before (rest.flatMap Segment.text) ∧ Tiles line mode (before ++ s.text) rest

theorem EndsComment.cons {c : Char} {body after : List Char} (h : EndsComment body after)
    (hc : ¬ ['*', '/'] <+: c :: (body ++ after)) : EndsComment (c :: body) after := by
  have noClose : ∀ part, part <+: body → ¬ ['*', '/'] <:+: part →
      ¬ ['*', '/'] <:+: c :: part := by
    intro part hp hn hin
    rcases List.infix_cons_iff.mp hin with hpre | hin
    · exact hc (hpre.trans (List.cons_prefix_cons.mpr
        ⟨rfl, hp.trans (List.prefix_append body after)⟩))
    · exact hn hin
  rcases h with ⟨inner, rfl, hn⟩ | ⟨rfl, hn⟩
  · refine .inl ⟨c :: inner, rfl, noClose _ ?_ hn⟩
    exact ⟨['/'], by simp⟩
  · exact .inr ⟨rfl, noClose body List.prefix_rfl hn⟩

/-- How a text with a part of the line before it is tiled: by what is left of the comment in which
it starts, and by the segments behind. -/
structure TiledBy (line : Nat) (start : Mode) (before : List Char) (mode : Mode)
    (text : List Char) (ts : List Token) (body : List Char) (segments : List Segment) : Prop where
  text_eq : text = body ++ segments.flatMap Segment.text
  tokens_eq : segments.filterMap Segment.token? = ts
  tiles : Tiles line start (before ++ body) segments
  marks_eq : (commentMarks mode text).1 =
    List.replicate body.length true ++ segments.flatMap Segment.marks
  outside : mode = .normal → body = []
  /-- The run of spaces in front can take one more. -/
  blanks : mode = .normal → text.head? = some ' ' →
    ∃ count rest, segments = .blanks count :: rest
  inside : mode = .comment → EndsComment body (segments.flatMap Segment.text)

namespace TiledBy

variable {line : Nat} {start : Mode} {before cs : List Char} {ts : List Token}
  {body : List Char} {segments : List Segment}

theorem done (mode : Mode) : TiledBy line start before mode [] [] [] [] where
  text_eq := rfl
  tokens_eq := rfl
  tiles := trivial
  marks_eq := by cases mode <;> rfl
  outside _ := rfl
  blanks _ h := by simp at h
  inside _ := .inr ⟨rfl, by simp⟩

theorem space_more {count : Nat} {rest : List Segment}
    (h : TiledBy line start (before ++ [' ']) .normal cs ts [] (.blanks count :: rest)) :
    TiledBy line start before .normal (' ' :: cs) ts [] (.blanks (count + 1) :: rest) where
  text_eq := by
    rw [h.text_eq]
    rfl
  tokens_eq := h.tokens_eq
  tiles := by
    obtain ⟨hfits, hright⟩ := h.tiles
    refine ⟨⟨by omega, hfits.2⟩, ?_⟩
    simp only [Segment.text, List.append_nil, List.append_assoc] at hright ⊢
    exact hright
  marks_eq := by
    rw [commentMarks_space, h.marks_eq]
    rfl
  outside _ := rfl
  blanks _ _ := ⟨_, _, rfl⟩
  inside hm := nomatch hm

theorem space_first (hsp : cs.head? ≠ some ' ')
    (h : TiledBy line start (before ++ [' ']) .normal cs ts [] segments) :
    TiledBy line start before .normal (' ' :: cs) ts [] (.blanks 1 :: segments) where
  text_eq := by
    rw [h.text_eq]
    rfl
  tokens_eq := h.tokens_eq
  tiles := by
    refine ⟨⟨by omega, ?_⟩, by simpa [Segment.text] using h.tiles⟩
    intro c hc hcsp
    subst hcsp
    rw [h.text_eq] at hsp
    exact hsp hc
  marks_eq := by
    rw [commentMarks_space, h.marks_eq]
    rfl
  outside _ := rfl
  blanks _ _ := ⟨_, _, rfl⟩
  inside hm := nomatch hm

theorem opening (h : TiledBy line start (before ++ ['/', '*']) .comment cs ts body segments) :
    TiledBy line start before .normal ('/' :: '*' :: cs) ts []
      (.comment ('/' :: '*' :: body) :: segments) where
  text_eq := by
    rw [h.text_eq]
    rfl
  tokens_eq := h.tokens_eq
  tiles :=
    ⟨⟨by simp, body, h.inside rfl, .inl rfl⟩, by simpa [Segment.text] using h.tiles⟩
  marks_eq := by
    rw [commentMarks_opening, h.marks_eq]
    rfl
  outside _ := rfl
  blanks _ hsp := by simp at hsp
  inside hm := nomatch hm

theorem token {w : List Char} {kind : TokenKind} (hs : ∀ c ∈ (w ++ cs).head?, c ≠ ' ')
    (ho : ¬ ['/', '*'] <+: w ++ cs) (hm : Munches w (w ++ cs))
    (h : TiledBy line start (before ++ w) .normal cs ts [] segments) :
    TiledBy line start before .normal (w ++ cs)
      (⟨kind, .ofList w, ⟨line, before.length + 1⟩⟩ :: ts) []
      (.token ⟨kind, .ofList w, ⟨line, before.length + 1⟩⟩ :: segments) where
  text_eq := by
    rw [h.text_eq, List.flatMap_cons, Segment.text, String.toList_ofList]
    rfl
  tokens_eq := by
    rw [← h.tokens_eq]
    rfl
  tiles := by
    refine ⟨⟨?_, by simp⟩, by simpa [Segment.text] using h.tiles⟩
    intro he
    have hw : (String.ofList w).toList = [] := congrArg String.toList he
    exact hm.ne_nil (by rwa [String.toList_ofList] at hw)
  marks_eq := by
    rw [commentMarks_token hm ho, h.marks_eq, List.flatMap_cons, Segment.marks,
      String.toList_ofList]
    rfl
  outside _ := rfl
  blanks _ hsp := absurd rfl (hs ' ' hsp)
  inside hm := nomatch hm

theorem closing (h : TiledBy line start (before ++ ['*', '/']) .normal cs ts [] segments) :
    TiledBy line start before .comment ('*' :: '/' :: cs) ts ['*', '/'] segments where
  text_eq := by
    rw [h.text_eq]
    rfl
  tokens_eq := h.tokens_eq
  tiles := by simpa using h.tiles
  marks_eq := by
    rw [commentMarks_closing, h.marks_eq]
    rfl
  outside hm := nomatch hm
  blanks hm := nomatch hm
  inside _ := .inl ⟨[], rfl, by decide⟩

theorem within {c : Char} (hc : ¬ ['*', '/'] <+: c :: cs)
    (h : TiledBy line start (before ++ [c]) .comment cs ts body segments) :
    TiledBy line start before .comment (c :: cs) ts (c :: body) segments where
  text_eq := by
    rw [h.text_eq]
    rfl
  tokens_eq := h.tokens_eq
  tiles := by simpa using h.tiles
  marks_eq := by
    rw [commentMarks_inside hc, h.marks_eq]
    rfl
  outside hm := nomatch hm
  blanks hm := nomatch hm
  inside _ := (h.inside rfl).cons (by rwa [← h.text_eq])

end TiledBy

/-- Every reading of a text tiles it, whatever the mode in which the line itself starts. -/
theorem LineReading.exists_tiledBy {line column : Nat} {mode last : Mode} {text : List Char}
    {ts : List Token} (h : LineReading line mode column text ts last) (start : Mode)
    (before : List Char) (hb : column = before.length + 1) :
    ∃ body segments, TiledBy line start before mode text ts body segments := by
  induction h generalizing before with
  | done mode column => exact ⟨[], [], .done mode⟩
  | @space column cs ts last _ ih =>
    obtain ⟨_, segments, htiled⟩ := ih (before ++ [' ']) (by simp [hb])
    obtain rfl := htiled.outside rfl
    by_cases hsp : cs.head? = some ' '
    · obtain ⟨count, rest, rfl⟩ := htiled.blanks rfl hsp
      exact ⟨_, _, htiled.space_more⟩
    · exact ⟨_, _, htiled.space_first hsp⟩
  | opening _ ih =>
    obtain ⟨body, segments, htiled⟩ := ih (before ++ ['/', '*']) (by simp [hb])
    exact ⟨_, _, htiled.opening⟩
  | @token column text w cs kind ts last ht hs ho hm hk _ ih =>
    subst ht hb
    obtain ⟨_, segments, htiled⟩ := ih (before ++ w) (by simp; omega)
    obtain rfl := htiled.outside rfl
    exact ⟨_, _, htiled.token hs ho hm⟩
  | closing _ ih =>
    obtain ⟨_, segments, htiled⟩ := ih (before ++ ['*', '/']) (by simp [hb])
    obtain rfl := htiled.outside rfl
    exact ⟨_, _, htiled.closing⟩
  | @inside column c cs ts last hc _ ih =>
    obtain ⟨body, segments, htiled⟩ := ih (before ++ [c]) (by simp [hb])
    exact ⟨_, _, htiled.within hc⟩

/-- The columns that a token takes up. -/
def Token.Spans (t : Token) (column : Nat) : Prop :=
  t.position.column ≤ column ∧ column < t.position.column + t.lexeme.length

theorem Segment.length_marks (s : Segment) : s.marks.length = s.text.length := by
  cases s <;> simp [marks, text]

namespace Tiles

variable {line : Nat} {mode : Mode} {before : List Char} {segments : List Segment}

/-- Tokens follow one another without overlap, from behind the text in front of them. -/
theorem pairwise (h : Tiles line mode before segments) :
    (∀ t ∈ segments.filterMap Segment.token?, before.length < t.position.column) ∧
      (segments.filterMap Segment.token?).Pairwise fun s t =>
        s.position.column < t.position.column ∧
          s.position.column + s.lexeme.length ≤ t.position.column := by
  induction segments generalizing before with
  | nil => simp
  | cons s rest ih =>
    obtain ⟨hfits, hrest⟩ := h
    obtain ⟨hbehind, hpairwise⟩ := ih hrest
    rw [List.length_append] at hbehind
    have hpast : ∀ t ∈ rest.filterMap Segment.token?, before.length < t.position.column := by
      intro t ht
      have := hbehind t ht
      omega
    cases s with
    | blanks count => exact ⟨hpast, hpairwise⟩
    | comment text => exact ⟨hpast, hpairwise⟩
    | token s =>
      obtain ⟨hne, hposition⟩ := hfits
      have hcolumn : s.position.column = before.length + 1 := by rw [hposition]
      have hlen : 0 < s.lexeme.length := by
        rw [Nat.pos_iff_ne_zero, ne_eq, String.length_eq_zero_iff]
        exact hne
      refine ⟨?_, List.pairwise_cons.mpr ⟨?_, hpairwise⟩⟩
      · intro t ht
        rcases List.mem_cons.mp ht with rfl | ht
        · omega
        · exact hpast t ht
      · intro t ht
        have := hbehind t ht
        simp only [Segment.text, String.length_toList] at this
        omega

/-- A character outside comments that is no space lies in a token. -/
theorem exists_spans (h : Tiles line mode before segments) {i : Nat} {c : Char}
    (hi : (segments.flatMap Segment.text)[i]? = some c) (hc : c ≠ ' ')
    (hm : (segments.flatMap Segment.marks)[i]? = some false) :
    ∃ t ∈ segments.filterMap Segment.token?, t.Spans (before.length + 1 + i) := by
  induction segments generalizing before i with
  | nil => simp at hi
  | cons s rest ih =>
    obtain ⟨hfits, hrest⟩ := h
    rw [List.flatMap_cons] at hi hm
    by_cases hlt : i < s.text.length
    · rw [List.getElem?_append_left hlt] at hi
      rw [List.getElem?_append_left (by rwa [s.length_marks])] at hm
      cases s with
      | blanks count =>
        have hmem := List.mem_of_getElem? hi
        exact absurd (List.eq_of_mem_replicate hmem) hc
      | comment text =>
        have hmem := List.mem_of_getElem? hm
        exact absurd (List.eq_of_mem_replicate hmem) (by decide)
      | token t =>
        obtain ⟨_, hposition⟩ := hfits
        refine ⟨t, List.mem_cons_self, ?_⟩
        simp only [Segment.text, String.length_toList] at hlt
        simp only [Token.Spans, hposition]
        omega
    · obtain ⟨j, rfl⟩ := Nat.exists_eq_add_of_le (Nat.le_of_not_lt hlt)
      rw [List.getElem?_append_right (by omega), Nat.add_sub_cancel_left] at hi
      rw [List.getElem?_append_right (by rw [s.length_marks]; omega), s.length_marks,
        Nat.add_sub_cancel_left] at hm
      obtain ⟨t, ht, hspans⟩ := ih hrest hi hm
      refine ⟨t, ?_, ?_⟩
      · rw [List.filterMap_cons]
        split
        · exact ht
        · exact List.mem_cons_of_mem _ ht
      · rw [List.length_append] at hspans
        simp only [Token.Spans] at hspans ⊢
        omega

/-- A column lies in one token at most. -/
theorem spans_unique (h : Tiles line mode before segments) {s t : Token} {i : Nat}
    (hs : s ∈ segments.filterMap Segment.token?) (ht : t ∈ segments.filterMap Segment.token?)
    (hsi : s.Spans i) (hti : t.Spans i) : s = t := by
  have apart : (segments.filterMap Segment.token?).Pairwise
      fun s t => s.Spans i → t.Spans i → s = t := by
    apply h.pairwise.2.imp
    intro s t hst hs ht
    have := hs.2
    have := ht.1
    omega
  have apart' : (segments.filterMap Segment.token?).Pairwise
      fun s t => t.Spans i → s.Spans i → t = s :=
    apart.imp fun himp ht hs => (himp hs ht).symm
  exact apart.forall_of_forall_of_flip (fun _ _ _ _ => rfl) apart' hs ht hsi hti

end Tiles

theorem exists_tiles_scanLine (text : List Char) (line : Nat) (mode : Mode) (report : Report) :
    ∃ segments : List Segment, segments.flatMap Segment.text = text ∧
      segments.filterMap Segment.token? = (scanLine text line mode report).tokens ∧
      segments.flatMap Segment.marks = (commentMarks mode text).1 ∧
      Tiles line mode [] segments := by
  obtain ⟨body, segments, htiled⟩ :=
    (lineReading_scanLine text line mode report).exists_tiledBy mode [] rfl
  by_cases hbody : body = []
  · subst hbody
    exact ⟨segments, htiled.text_eq.symm, htiled.tokens_eq, htiled.marks_eq.symm, htiled.tiles⟩
  · -- the line starts within a comment, whose end is the first segment
    have hm : mode = .comment := by
      cases mode with
      | normal => exact absurd (htiled.outside rfl) hbody
      | comment => rfl
    refine ⟨.comment body :: segments, htiled.text_eq.symm, htiled.tokens_eq,
      htiled.marks_eq.symm, ?_, htiled.tiles⟩
    exact ⟨hbody, body, htiled.inside hm, .inr ⟨rfl, hm, rfl⟩⟩

/-- The scan of a line tiles it: with spaces, with exactly the comments of the plain scan, and with
the lexemes of its tokens, all of them and in their order, each under its place. So tokens never
overlap, and every character outside comments that is no space lies in exactly one. -/
theorem scanLine_tiles (text : List Char) (line : Nat) (mode : Mode) (report : Report) :
    (∃ segments : List Segment, segments.flatMap Segment.text = text ∧
      segments.filterMap Segment.token? = (scanLine text line mode report).tokens ∧
      segments.flatMap Segment.marks = (commentMarks mode text).1 ∧
      Tiles line mode [] segments) ∧
    (scanLine text line mode report).tokens.Pairwise (fun s t =>
      s.position.column < t.position.column ∧
        s.position.column + s.lexeme.length ≤ t.position.column) ∧
    ∀ i c, text[i]? = some c → c ≠ ' ' → (commentMarks mode text).1[i]? = some false →
      ∃! t, t ∈ (scanLine text line mode report).tokens ∧ t.Spans (1 + i) := by
  obtain ⟨segments, htext, htokens, hmarks, htiles⟩ := exists_tiles_scanLine text line mode report
  refine ⟨⟨segments, htext, htokens, hmarks, htiles⟩, ?_, ?_⟩
  · rw [← htokens]
    exact htiles.pairwise.2
  · intro i c hi hc hm
    rw [← htext] at hi
    rw [← hmarks] at hm
    rw [← htokens]
    obtain ⟨t, ht, hspans⟩ := htiles.exists_spans hi hc hm
    refine ⟨t, ⟨ht, by simpa using hspans⟩, ?_⟩
    rintro s ⟨hs, hsi⟩
    exact htiles.spans_unique hs ht hsi (by simpa using hspans)

/-- Columns count characters: the last of these stands in the tenth, behind one of two bytes. -/
theorem scanLine_tiles_accented :
    ∃! t, t ∈ (scanLine "x /*b*/ é;".toList 1 .normal {}).tokens ∧ t.Spans 10 :=
  (scanLine_tiles "x /*b*/ é;".toList 1 .normal {}).2.2 9 ';' (by decide) (by decide) (by decide)

end LexicalAnalyzer
