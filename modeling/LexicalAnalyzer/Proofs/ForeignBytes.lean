import LexicalAnalyzer.Proofs.ArtifactWriting
import LexicalAnalyzer.Proofs.LossyDecoding
import LexicalAnalyzer.Proofs.NormalText
import LexicalAnalyzer.Proofs.OneLine
import Mathlib.Data.List.Forall2

/-!
Bytes beyond ASCII. Whatever they are read as are characters of no class, and no other character
gets lost in them. So other such bytes in the place of some in a comment change nothing but columns
behind them on their line, and outside comments every character that they are read as is an error.
-/
namespace LexicalAnalyzer

/-- Bytes beyond ASCII that have no other such bytes next to them. -/
structure IsForeign (front run back : Bytes) : Prop where
  ne_nil : run ≠ []
  beyond : ∀ b ∈ run, 0x80 ≤ b
  before : ∀ b ∈ front.getLast?, b < 0x80
  behind : ∀ b ∈ back.head?, b < 0x80

/-- The mode behind bytes, as the plain scan finds it in the bytes themselves. -/
def modeOfBytes (mode : Mode) (bytes : Bytes) : Mode :=
  commentMode mode (bytes.map fun b => Char.ofNat b.toNat)

/-- The place behind bytes at the start of a file. -/
def placeBehind (bytes : Bytes) : Position := Position.start.past (Utf8.decodeLossy bytes)

/-- What follows in a file behind its first bytes, and what follows them when foreign bytes in
comments get other ones in their place. Told is also what is in front of each of them. -/
inductive Refilled : Bytes → Bytes → Bytes → List Bytes → Prop where
  | same (front bytes : Bytes) : Refilled front bytes bytes []
  | fill {front kept run filled back back' : Bytes} {fronts : List Bytes}
      (hrun : IsForeign (front ++ kept) run back)
      (hmode : modeOfBytes .normal (front ++ kept) = .comment)
      (hne : filled ≠ []) (hfilled : ∀ b ∈ filled, 0x80 ≤ b)
      (hrest : Refilled (front ++ kept ++ run) back back' fronts) :
      Refilled front (kept ++ run ++ back) (kept ++ filled ++ back') ((front ++ kept) :: fronts)

/-- A place in the same line, and in the same column unless one of some places is in front of
it there. -/
structure Position.ShiftedBehind (places : List Position) (p q : Position) : Prop where
  line : q.line = p.line
  column : q.column ≠ p.column → ∃ r ∈ places, r.line = p.line ∧ r.column < p.column

structure Token.SameBut (places : List Position) (t u : Token) : Prop where
  content : u.content = t.content
  position : Position.ShiftedBehind places t.position u.position

structure Diagnostic.SameBut (places : List Position) (d e : Diagnostic) : Prop where
  content : e.content = d.content
  position : Position.ShiftedBehind places d.position e.position

section Characters

variable {c : Char} {run : List Char}

theorem class_of_foreign (h : 0x80 ≤ c.toNat) : CharClass.of c = .invalid := by
  by_contra hc
  have hascii := (toNat_of_class hc).2
  omega

theorem ne_of_foreign (h : 0x80 ≤ c.toNat) {d : Char} (hd : d.toNat < 0x80) : c ≠ d := by
  rintro rfl
  omega

theorem commentMode_nil (mode : Mode) : commentMode mode [] = mode := by cases mode <;> rfl

/-- Characters of no class at the end of a text leave the mode as it is. -/
theorem commentMode_append_of_invalid (h : ∀ c ∈ run, CharClass.of c = .invalid) (mode : Mode)
    (front : List Char) : commentMode mode (front ++ run) = commentMode mode front := by
  by_cases hne : run = []
  · rw [hne, List.append_nil]
  · have hrun := commentMode_append_run hne h mode front []
    rwa [List.append_nil, commentMode_nil] at hrun

theorem feed_not_mem_of_foreign (h : ∀ c ∈ run, 0x80 ≤ c.toNat) : '\n' ∉ run :=
  fun hm => ne_of_foreign (h _ hm) (by decide) rfl

theorem onOneLine_append_foreign (hne : run ≠ []) (h : ∀ c ∈ run, 0x80 ≤ c.toNat)
    (front behind : List Char) :
    onOneLine (front ++ run ++ behind) = onOneLine front ++ run ++ onOneLine behind := by
  have hlast : (front ++ run).getLast? = some '\r' → behind.head? ≠ some '\n' := by
    intro hr
    rw [List.getLast?_append_of_ne_nil _ hne] at hr
    exact absurd rfl (ne_of_foreign (h _ (List.mem_of_getLast? hr)) (by decide))
  have hhead : front.getLast? = some '\r' → run.head? ≠ some '\n' := fun _ hn =>
    feed_not_mem_of_foreign h (List.mem_of_head? hn)
  rw [onOneLine_append hlast, onOneLine_append hhead,
    onOneLine_of_no_feed (feed_not_mem_of_foreign h)]

end Characters

namespace Position.ShiftedBehind

variable {places : List Position} {p q : Position}

theorem next (h : ShiftedBehind places p q) (c : Char) :
    ShiftedBehind places (p.next c) (q.next c) := by
  by_cases hc : c = '\n'
  · rw [Position.next, Position.next, if_pos hc, if_pos hc, h.line]
    exact ⟨rfl, fun hne => absurd rfl hne⟩
  · rw [Position.next, Position.next, if_neg hc, if_neg hc]
    refine ⟨h.line, fun hne => ?_⟩
    obtain ⟨r, hr, hline, hlt⟩ := h.column fun he => hne (by rw [he])
    exact ⟨r, hr, hline, Nat.lt_succ_of_lt hlt⟩

theorem past (h : ShiftedBehind places p q) (text : List Char) :
    ShiftedBehind places (p.past text) (q.past text) := by
  induction text generalizing p q with
  | nil => exact h
  | cons c text ih => exact ih (h.next c)

/-- Behind other characters in the place of those at one of the places. -/
theorem past_of_mem (h : ShiftedBehind places p q) (hp : p ∈ places) {run filled : List Char}
    (hne : run ≠ []) (hrun : '\n' ∉ run) (hfilled : '\n' ∉ filled) :
    ShiftedBehind places (p.past run) (q.past filled) := by
  have hpos : 0 < run.length := List.length_pos_iff.mpr hne
  rw [past_of_no_feed _ hrun, past_of_no_feed _ hfilled]
  exact ⟨h.line, fun _ => ⟨p, hp, rfl, by simp only; omega⟩⟩

end Position.ShiftedBehind

section Modes

variable {front run behind : Bytes}

theorem toNat_octet (b : UInt8) : (Char.ofNat b.toNat).toNat = b.toNat := by
  have hb := b.toNat_lt
  exact Utf8.toNat_ofNat (.inl (by omega))

theorem class_of_octet {b : UInt8} (h : 0x80 ≤ b) :
    CharClass.of (Char.ofNat b.toNat) = .invalid := by
  rw [UInt8.le_iff_toNat_le] at h
  exact class_of_foreign (by rwa [toNat_octet])

theorem modeOfBytes_append_run (hne : run ≠ []) (h : ∀ b ∈ run, 0x80 ≤ b) (mode : Mode)
    (front behind : Bytes) : modeOfBytes mode (front ++ run ++ behind) =
      modeOfBytes (modeOfBytes mode front) behind := by
  rw [modeOfBytes, List.map_append, List.map_append]
  refine commentMode_append_run (by simpa using hne) ?_ mode _ _
  intro c hc
  obtain ⟨b, hb, rfl⟩ := List.mem_map.mp hc
  exact class_of_octet (h b hb)

theorem modeOfBytes_nil (mode : Mode) : modeOfBytes mode [] = mode := commentMode_nil mode

theorem modeOfBytes_append_of_foreign (hne : run ≠ []) (h : ∀ b ∈ run, 0x80 ≤ b) (mode : Mode)
    (front : Bytes) : modeOfBytes mode (front ++ run) = modeOfBytes mode front := by
  have hrun := modeOfBytes_append_run hne h mode front []
  rwa [List.append_nil, modeOfBytes_nil] at hrun

/-- Bytes that end in a foreign one may be left for what follows them. -/
theorem modeOfBytes_append (h : ∀ b ∈ front.getLast?, 0x80 ≤ b) (mode : Mode) (behind : Bytes) :
    modeOfBytes mode (front ++ behind) = modeOfBytes (modeOfBytes mode front) behind := by
  rcases List.eq_nil_or_concat front with rfl | ⟨front, b, rfl⟩
  · rw [List.nil_append, modeOfBytes_nil]
  · have hb : ∀ x ∈ [b], 0x80 ≤ x := by simpa using h b (by simp)
    rw [List.concat_eq_append, modeOfBytes_append_run (by simp) hb,
      modeOfBytes_append_of_foreign (by simp) hb]

/-- Bytes begin with what holds of them for as long as it does. -/
theorem exists_span (p : UInt8 → Bool) (bytes : Bytes) : ∃ front back,
    bytes = front ++ back ∧ (∀ b ∈ front, p b = true) ∧ ∀ b ∈ back.head?, p b = false := by
  refine ⟨bytes.takeWhile p, bytes.dropWhile p, List.takeWhile_append_dropWhile.symm,
    fun b hb => List.mem_takeWhile_imp hb, fun b hb => ?_⟩
  have hhead := List.head?_dropWhile_not p bytes
  rw [Option.mem_def.mp hb] at hhead
  simpa using hhead

theorem exists_foreign {bytes : Bytes} (h : ∃ b ∈ bytes, 0x80 ≤ b) : ∃ front run back,
    bytes = front ++ run ++ back ∧ (∀ b ∈ front, b < 0x80) ∧ IsForeign front run back := by
  obtain ⟨front, rest, rfl, hfront, hrest⟩ := exists_span (fun b => decide (b < 0x80)) bytes
  obtain ⟨run, back, rfl, hrun, hback⟩ := exists_span (fun b => decide (0x80 ≤ b)) rest
  simp only [decide_eq_true_eq, decide_eq_false_iff_not, UInt8.not_lt, UInt8.not_le]
    at hfront hrest hrun hback
  have hne : run ≠ [] := by
    rintro rfl
    obtain ⟨b, hb, hge⟩ := h
    cases back with
    | nil => exact UInt8.not_le.mpr (hfront b (by simpa using hb)) hge
    | cons c back => exact UInt8.not_le.mpr (hback c rfl) (hrest c rfl)
  exact ⟨front, run, back, (List.append_assoc ..).symm, hfront, hne, hrun,
    fun b hb => hfront b (List.mem_of_getLast? hb), hback⟩

theorem IsForeign.decodeLossy_append (h : IsForeign front run behind) :
    Utf8.decodeLossy (front ++ run ++ behind) =
      Utf8.decodeLossy front ++ Utf8.decodeLossy run ++ Utf8.decodeLossy behind := by
  rw [Utf8.decodeLossy_append (.inr h.behind), Utf8.decodeLossy_append (.inl h.before)]

theorem IsForeign.class_eq (h : IsForeign front run behind) :
    ∀ c ∈ Utf8.decodeLossy run, CharClass.of c = .invalid := fun c hc =>
  class_of_foreign (Utf8.le_of_mem_decodeLossy h.beyond c hc)

/-- Bytes have the mode of the text that they are read as: the scan may stop at foreign bytes, and
between them the bytes are the text. -/
theorem commentMode_decodeLossy (mode : Mode) (bytes : Bytes) :
    commentMode mode (Utf8.decodeLossy bytes) = modeOfBytes mode bytes := by
  induction hn : bytes.length using Nat.strong_induction_on generalizing mode bytes with
  | _ n ih =>
    by_cases h : ∃ b ∈ bytes, 0x80 ≤ b
    · obtain ⟨front, run, back, rfl, hfront, hrun⟩ := exists_foreign h
      have hlt : back.length < n := by
        have hpos : 0 < run.length := List.length_pos_iff.mpr hrun.ne_nil
        simp only [List.length_append] at hn
        omega
      rw [hrun.decodeLossy_append, commentMode_append_run (Utf8.decodeLossy_ne_nil hrun.ne_nil)
        hrun.class_eq, modeOfBytes_append_run hrun.ne_nil hrun.beyond, ih _ hlt _ back rfl,
        Utf8.decodeLossy_of_ascii hfront]
      rfl
    · have hascii : ∀ b ∈ bytes, b < 0x80 := fun b hb =>
        UInt8.not_le.mp fun hge => h ⟨b, hb, hge⟩
      rw [Utf8.decodeLossy_of_ascii hascii]
      rfl

end Modes

section Refilling

variable {front bytes other kept run filled back back' : Bytes} {fronts : List Bytes}

/-- A file cut at the end of foreign bytes, or not at all. -/
def Parted (front behind : Bytes) : Prop :=
  ∀ b ∈ front.getLast?, 0x80 ≤ b ∧ ∀ c ∈ behind.head?, c < 0x80

theorem Parted.meets_ascii (h : Parted front bytes) :
    (∀ b ∈ front.getLast?, b < 0x80) ∨ ∀ b ∈ bytes.head?, b < 0x80 := by
  cases hb : front.getLast? with
  | none => exact .inl (by simp)
  | some b => exact .inr (h b hb).2

theorem Parted.left (h : Parted front (bytes ++ other)) : Parted front bytes := by
  intro b hb
  refine ⟨(h b hb).1, fun c hc => (h b hb).2 c ?_⟩
  rw [Option.mem_def] at hc ⊢
  rw [List.head?_append, hc]
  rfl

theorem IsForeign.parted (h : IsForeign front run back) : Parted (front ++ run) back := by
  intro b hb
  rw [List.getLast?_append_of_ne_nil _ h.ne_nil] at hb
  exact ⟨h.beyond b (List.mem_of_getLast? hb), h.behind⟩

theorem Refilled.parted (h : Refilled front bytes other fronts) (hp : Parted front bytes) :
    Parted front other := by
  cases h with
  | same => exact hp
  | @fill _ kept run filled back back' _ hrun _ _ _ _ =>
    intro b hb
    refine ⟨(hp b hb).1, ?_⟩
    cases kept with
    | nil =>
      rw [List.append_nil] at hrun
      exact absurd (hp b hb).1 (UInt8.not_le.mpr (hrun.before b hb))
    | cons k kept => exact (hp b hb).2

/-- Foreign bytes that are followed by the same or by ASCII bytes may be filled in. -/
theorem IsForeign.refill (h : IsForeign (front ++ kept) run back)
    (hrest : Refilled (front ++ kept ++ run) back back' fronts) (hne : filled ≠ [])
    (hfilled : ∀ b ∈ filled, 0x80 ≤ b) : IsForeign (front ++ kept) filled back' := by
  obtain ⟨b, hb⟩ : ∃ b, (front ++ kept ++ run).getLast? = some b :=
    ⟨_, List.getLast?_eq_some_getLast (by simp [h.ne_nil])⟩
  exact ⟨hne, hfilled, h.before, (hrest.parted h.parted b hb).2⟩

theorem IsForeign.of_append (h : IsForeign (front ++ kept) run back) : IsForeign kept run back := by
  refine ⟨h.ne_nil, h.beyond, fun b hb => h.before b ?_, h.behind⟩
  rw [Option.mem_def] at hb ⊢
  rw [List.getLast?_append, hb]
  rfl

theorem placeBehind_append
    (h : (∀ b ∈ front.getLast?, b < 0x80) ∨ ∀ b ∈ bytes.head?, b < 0x80) :
    placeBehind (front ++ bytes) = (placeBehind front).past (Utf8.decodeLossy bytes) := by
  rw [placeBehind, Utf8.decodeLossy_append h, Position.past_append, placeBehind]

/-- The mode behind a file does not depend on what is filled in. -/
theorem Refilled.mode (h : Refilled front bytes other fronts) :
    modeOfBytes .normal (front ++ other) = modeOfBytes .normal (front ++ bytes) := by
  induction h with
  | same => rfl
  | @fill front kept run filled back back' _ hrun _ hne hfilled _ ih =>
    rw [modeOfBytes_append_run hrun.ne_nil hrun.beyond,
      modeOfBytes_append_run hrun.ne_nil hrun.beyond] at ih
    rw [← List.append_assoc, ← List.append_assoc, ← List.append_assoc, ← List.append_assoc,
      modeOfBytes_append_run hrun.ne_nil hrun.beyond, modeOfBytes_append_run hne hfilled, ih]

theorem sameBut_tokensFrom {places : List Position} {p q : Position}
    (h : Position.ShiftedBehind places p q) (mode : Mode) (text : List Char) :
    List.Forall₂ (Token.SameBut places) (tokensFrom mode p text) (tokensFrom mode q text) := by
  rw [tokensFrom, tokensFrom, List.forall₂_map_left_iff, List.forall₂_map_right_iff,
    List.forall₂_same]
  exact fun t _ => ⟨rfl, h.past _⟩

/-- Foreign bytes in a comment are passed over. -/
theorem IsForeign.tokensFrom_eq (h : IsForeign kept run back) {mode : Mode}
    (hmode : modeOfBytes mode kept = .comment) (p : Position) :
    tokensFrom mode p (Utf8.decodeLossy (kept ++ run ++ back)) =
      tokensFrom mode p (Utf8.decodeLossy kept) ++
        tokensFrom .comment ((p.past (Utf8.decodeLossy kept)).past (Utf8.decodeLossy run))
          (Utf8.decodeLossy back) := by
  have hne := Utf8.decodeLossy_ne_nil h.ne_nil
  have hone := onOneLine_append_foreign hne (Utf8.le_of_mem_decodeLossy h.beyond)
    (Utf8.decodeLossy kept) (Utf8.decodeLossy back)
  rw [← commentMode_decodeLossy] at hmode
  rw [h.decodeLossy_append, tokensFrom_bridge mode p hone hne h.class_eq fun _ _ => .inl hmode,
    hmode, Position.past_append]

/-- Files that differ in what is filled in have the same tokens, but for columns behind it. -/
theorem Refilled.sameBut_tokens (h : Refilled front bytes other fronts) (hp : Parted front bytes)
    {places : List Position} (hplaces : ∀ f ∈ fronts, placeBehind f ∈ places) {q : Position}
    (hq : Position.ShiftedBehind places (placeBehind front) q) :
    List.Forall₂ (Token.SameBut places)
      (tokensFrom (modeOfBytes .normal front) (placeBehind front) (Utf8.decodeLossy bytes))
      (tokensFrom (modeOfBytes .normal front) q (Utf8.decodeLossy other)) := by
  induction h generalizing q with
  | same => exact sameBut_tokensFrom hq _ _
  | @fill front kept run filled back back' fronts hrun hmode hne hfilled hrest ih =>
    -- Up to the foreign bytes the files are read alike. Behind them the columns may differ, but
    -- then the place of these bytes is in front of whatever is left of the line.
    have hkept : placeBehind (front ++ kept) =
        (placeBehind front).past (Utf8.decodeLossy kept) := by
      have hleft : Parted front kept := Parted.left (List.append_assoc kept run back ▸ hp)
      exact placeBehind_append hleft.meets_ascii
    have hplace : placeBehind (front ++ kept ++ run) =
        (placeBehind (front ++ kept)).past (Utf8.decodeLossy run) :=
      placeBehind_append (.inl hrun.before)
    have hinside : modeOfBytes (modeOfBytes .normal front) kept = .comment := by
      rw [← modeOfBytes_append fun b hb => (hp b hb).1, hmode]
    have hbehind : modeOfBytes .normal (front ++ kept ++ run) = .comment := by
      rw [modeOfBytes_append_of_foreign hrun.ne_nil hrun.beyond, hmode]
    have hq' : Position.ShiftedBehind places (placeBehind (front ++ kept ++ run))
        ((q.past (Utf8.decodeLossy kept)).past (Utf8.decodeLossy filled)) := by
      have hfront := hq.past (Utf8.decodeLossy kept)
      rw [← hkept] at hfront
      rw [hplace]
      exact hfront.past_of_mem (hplaces _ (by simp)) (Utf8.decodeLossy_ne_nil hrun.ne_nil)
        (feed_not_mem_of_foreign (Utf8.le_of_mem_decodeLossy hrun.beyond))
        (feed_not_mem_of_foreign (Utf8.le_of_mem_decodeLossy hfilled))
    have htail := ih hrun.parted (fun f hf => hplaces f (by simp [hf])) hq'
    rw [hbehind] at htail
    rw [hrun.of_append.tokensFrom_eq hinside, ← hkept, ← hplace,
      (hrun.refill hrest hne hfilled).of_append.tokensFrom_eq hinside]
    exact List.rel_append (sameBut_tokensFrom hq _ _) htail

end Refilling

section Reports

variable {places : List Position} {t u : Token} {ts us : List Token}

theorem Token.SameBut.diagnostic? (h : t.SameBut places u) :
    Option.Rel (Diagnostic.SameBut places) t.diagnostic? u.diagnostic? := by
  have hu : u = t.relocate fun _ => u.position := by
    obtain ⟨hkind, hlexeme⟩ := Prod.mk.inj h.content
    rw [Token.relocate, ← hkind, ← hlexeme]
  have hmoved := t.diagnostic?_relocate fun _ => u.position
  rw [← hu] at hmoved
  rw [hmoved]
  cases hd : t.diagnostic? with
  | none => exact .none
  | some d =>
    have hplace := Token.position_of_diagnostic? hd
    exact .some ⟨rfl, hplace ▸ h.position⟩

theorem sameBut_diagnostics (h : List.Forall₂ (Token.SameBut places) ts us) :
    List.Forall₂ (Diagnostic.SameBut places) (ts.filterMap Token.diagnostic?)
      (us.filterMap Token.diagnostic?) :=
  List.rel_filterMap (fun _ _ h => h.diagnostic?) h

theorem map_mark_of_sameBut (h : List.Forall₂ (Token.SameBut places) ts us) :
    (properTokens us).map Token.mark = (properTokens ts).map Token.mark := by
  induction h with
  | nil => rfl
  | @cons t u ts us htu _ ih =>
    obtain ⟨hkind, hlexeme⟩ := Prod.mk.inj htu.content
    have hmark : u.mark = t.mark := by
      rw [Token.mark, Token.mark, htu.position.line, hkind, hlexeme]
    by_cases he : t.kind = .error
    · simpa [properTokens, hkind, he] using ih
    · simpa [properTokens, hkind, he, hmark] using ih

end Reports

/-- Files that differ in what is filled in have the same analysis, but for columns behind it. -/
theorem Refilled.analyses {bytes other : Bytes} {fronts : List Bytes}
    (h : Refilled [] bytes other fronts) :
    ∃ a b, Analysis.ofBytes bytes = .ok a ∧ Analysis.ofBytes other = .ok b ∧
      b.references = a.references ∧ b.vocabulary = a.vocabulary ∧ b.mode = a.mode ∧
      List.Forall₂ (Diagnostic.SameBut (fronts.map placeBehind)) a.report.toList
        b.report.toList := by
  obtain ⟨a, ha, haccounts⟩ := Analysis.ofText_accountsFor (Utf8.decodeLossy bytes)
  obtain ⟨b, hb, hbaccounts⟩ := Analysis.ofText_accountsFor (Utf8.decodeLossy other)
  have htokens : List.Forall₂ (Token.SameBut (fronts.map placeBehind))
      (tokensOf (scanText (Utf8.decodeLossy bytes)))
      (tokensOf (scanText (Utf8.decodeLossy other))) := by
    have hnil : Parted [] bytes := by simp [Parted]
    have hstart : Position.ShiftedBehind (fronts.map placeBehind) (placeBehind []) .start :=
      ⟨rfl, fun hne => absurd rfl hne⟩
    rw [tokensOf_scanText, tokensOf_scanText]
    exact h.sameBut_tokens hnil (fun f hf => List.mem_map_of_mem hf) hstart
  have hmode : b.mode = a.mode := by
    rw [Analysis.mode_of_ofText ha, Analysis.mode_of_ofText hb, commentMode_decodeLossy,
      commentMode_decodeLossy]
    exact h.mode
  have hreport := sameBut_diagnostics htokens
  rw [← haccounts.report, ← hbaccounts.report] at hreport
  obtain ⟨hvocabulary, hreferences⟩ := Analysis.ofText_congr ha hb (map_mark_of_sameBut htokens)
  exact ⟨a, b, ha, hb, hreferences, hvocabulary, hmode, hreport⟩

/-- Every character that foreign bytes outside comments are read as is an error of its own. -/
theorem IsForeign.reported {front run back : Bytes} (h : IsForeign front run back)
    (hmode : modeOfBytes .normal front = .normal) {a : Analysis}
    (ha : Analysis.ofBytes (front ++ run ++ back) = .ok a) {before after : List Char} {c : Char}
    (hc : Utf8.decodeLossy run = before ++ c :: after) :
    let place := (placeBehind front).past before
    (tokensOf (scanText (Utf8.decodeLossy (front ++ run ++ back)))).filter (·.position = place) =
        [⟨.error, .ofList [c], place⟩] ∧
      a.report.toList.filter (·.position = place) =
        [⟨.unrecognizedCharacter, place, Diagnostic.undefinedMessage (.ofList [c])⟩] := by
  have hall : ∀ x ∈ before ++ c :: after, 0x80 ≤ x.toNat :=
    hc ▸ Utf8.le_of_mem_decodeLossy h.beyond
  have hforeign : 0x80 ≤ c.toNat := hall c (by simp)
  have hbefore : ∀ x ∈ before, CharClass.of x = .invalid := fun x hx =>
    class_of_foreign (hall x (by simp [hx]))
  have htext : Utf8.decodeLossy (front ++ run ++ back) =
      Utf8.decodeLossy front ++ before ++ c :: (after ++ Utf8.decodeLossy back) := by
    rw [h.decodeLossy_append, hc]
    simp
  have hnormal : commentMode .normal (Utf8.decodeLossy front ++ before) = .normal := by
    rw [commentMode_append_of_invalid hbefore, commentMode_decodeLossy, hmode]
  rw [Analysis.ofBytes, htext] at ha
  rw [placeBehind, ← Position.past_append, htext]
  exact stray_reported (class_of_foreign hforeign) (ne_of_foreign hforeign (by decide))
    (ne_of_foreign hforeign (by decide))
    (fun hr => absurd hr (ne_of_foreign hforeign (by decide))) hnormal ha

/-- Bytes beyond ASCII do not get out of comments. Where they are in a comment and others, at least
one, are put in their place, the analysis of the file is the same: references, tables, mode, and the
diagnostics one for one, which may be in other columns where such bytes are in front of them on
their line. Outside comments every character that such bytes are read as is the one token in its
place, an error, with one diagnostic. -/
theorem foreign_bytes_stay_in_comments {σ : Type} [FileStore σ] :
    (∀ (files files' : σ) (path path' : String) (bytes other : Bytes) (fronts : List Bytes),
      FileStore.read files path = .ok bytes → FileStore.read files' path' = .ok other →
      Refilled [] bytes other fronts →
      ∃ a b, ((Session.analyzeFile (m := StateM σ) path).run files).1.result = .ok a ∧
        ((Session.analyzeFile (m := StateM σ) path').run files').1.result = .ok b ∧
        b.references = a.references ∧ b.vocabulary = a.vocabulary ∧ b.mode = a.mode ∧
        List.Forall₂ (Diagnostic.SameBut (fronts.map placeBehind)) a.report.toList
          b.report.toList) ∧
    ∀ (files : σ) (path : String) (front run back : Bytes),
      FileStore.read files path = .ok (front ++ run ++ back) → IsForeign front run back →
      modeOfBytes .normal front = .normal →
      ∃ a, ((Session.analyzeFile (m := StateM σ) path).run files).1.result = .ok a ∧
        ∀ before c after, Utf8.decodeLossy run = before ++ c :: after →
          let text := Utf8.decodeLossy (front ++ run ++ back)
          let place := (placeBehind front).past before
          (tokensOf (scanText text)).filter (·.position = place) =
              [⟨.error, .ofList [c], place⟩] ∧
            a.report.toList.filter (·.position = place) =
              [⟨.unrecognizedCharacter, place, Diagnostic.undefinedMessage (.ofList [c])⟩] := by
  constructor
  · intro files files' path path' bytes other fronts hread hread' h
    obtain ⟨a, b, ha, hb, hsame⟩ := h.analyses
    exact ⟨a, b, Session.result_analyzeFile hread ha, Session.result_analyzeFile hread' hb, hsame⟩
  · intro files path front run back hread h hmode
    obtain ⟨a, ha, -⟩ := Analysis.ofText_accountsFor (Utf8.decodeLossy (front ++ run ++ back))
    exact ⟨a, Session.result_analyzeFile hread ha, fun _ _ _ hc => h.reported hmode ha hc⟩

/-- A byte that is no text in a comment, with three others in its place, which are read as two
characters. The error behind it moves; what is behind the line feed, read as two characters too,
does not. -/
theorem foreign_bytes_stay_in_comments_latin :
    let opened := Utf8.encode "a/*"
    let closed := Utf8.encode "*/@\n"
    let bytes := opened ++ [0xE9] ++ (closed ++ [0xFF, 0xC3, 0xA9])
    let other := opened ++ [0xFF, 0xC3, 0xA9] ++ (closed ++ [0xFF, 0xC3, 0xA9])
    let files : Disk.Tree :=
      { entries := [(["in.mlc"], .file bytes), (["other.mlc"], .file other)] }
    Refilled [] bytes other [opened] ∧ placeBehind opened = ⟨1, 4⟩ ∧
      ∃ a b, ((Session.analyzeFile (m := StateM Disk.Tree) "in.mlc").run files).1.result = .ok a ∧
        ((Session.analyzeFile (m := StateM Disk.Tree) "other.mlc").run files).1.result = .ok b ∧
        b.references = a.references ∧ b.vocabulary = a.vocabulary ∧ b.mode = a.mode ∧
        List.Forall₂ (Diagnostic.SameBut [⟨1, 4⟩]) a.report.toList b.report.toList ∧
        a.report.toList.filter (·.position = ⟨2, 1⟩) =
          [⟨.unrecognizedCharacter, ⟨2, 1⟩, "'\uFFFD' undefined identifier"⟩] ∧
        a.report.toList.filter (·.position = ⟨2, 2⟩) =
          [⟨.unrecognizedCharacter, ⟨2, 2⟩, "'é' undefined identifier"⟩] := by
  intro opened closed bytes other files
  have hstar : opened.getLast? = some 0x2A := by decide +kernel
  have hclosing : (closed ++ [0xFF, 0xC3, 0xA9]).head? = some 0x2A := by decide +kernel
  have hrun : IsForeign opened [0xE9] (closed ++ [0xFF, 0xC3, 0xA9]) :=
    ⟨by simp, by simp, by rw [hstar]; simp, by rw [hclosing]; simp⟩
  have hopened : modeOfBytes .normal opened = .comment := by decide +kernel
  have hfilled : Refilled [] bytes other [opened] :=
    @Refilled.fill [] opened [0xE9] [0xFF, 0xC3, 0xA9] _ _ [] hrun hopened (by simp) (by simp)
      (.same _ _)
  have hplace : placeBehind opened = ⟨1, 4⟩ := by decide +kernel
  let front := opened ++ [0xE9] ++ closed
  have hfeed : front.getLast? = some 0x0A := by decide +kernel
  have hlast : IsForeign front [0xFF, 0xC3, 0xA9] [] :=
    ⟨by simp, by simp, by rw [hfeed]; simp, by simp⟩
  have hclosed : modeOfBytes .normal front = .normal := by decide +kernel
  have hread : FileStore.read files "in.mlc" = .ok bytes := by decide +kernel
  have hread' : FileStore.read files "other.mlc" = .ok other := by decide +kernel
  have hparts : bytes = front ++ [0xFF, 0xC3, 0xA9] ++ [] := by decide +kernel
  obtain ⟨hinside, houtside⟩ := foreign_bytes_stay_in_comments (σ := Disk.Tree)
  obtain ⟨a, b, ha, hb, hreferences, hvocabulary, hmode, hreport⟩ :=
    hinside files files "in.mlc" "other.mlc" bytes other [opened] hread hread' hfilled
  obtain ⟨c, hc, hall⟩ :=
    houtside files "in.mlc" front [0xFF, 0xC3, 0xA9] [] (hparts ▸ hread) hlast hclosed
  obtain rfl := Except.ok.inj (ha.symm.trans hc)
  have hfirst := (hall [] '\uFFFD' ['é'] (by decide +kernel)).2
  have hsecond := (hall ['\uFFFD'] 'é' [] (by decide +kernel)).2
  rw [show (placeBehind front).past [] = ⟨2, 1⟩ by decide +kernel] at hfirst
  rw [show (placeBehind front).past ['\uFFFD'] = ⟨2, 2⟩ by decide +kernel] at hsecond
  rw [List.map_singleton, hplace] at hreport
  exact ⟨hfilled, hplace, a, b, ha, hb, hreferences, hvocabulary, hmode, hreport, hfirst, hsecond⟩

end LexicalAnalyzer
