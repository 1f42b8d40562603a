import LexicalAnalyzer.Proofs.ArtifactDecoding
import LexicalAnalyzer.Sink

/-!
Artifacts written into a sink with limited room. The pieces in which a text is written do not show
in the end: the sink takes the bytes of the text as far as there is room for them, and the writing
succeeds when that is all of them and the flush behind them succeeds. So no text that is cut short
is ever taken for a written one.
-/
namespace LexicalAnalyzer

theorem Utf8.encode_append (s t : String) : encode (s ++ t) = encode s ++ encode t := by
  simp [encode, String.toByteArray_append, ByteArray.data_append]

namespace Sink

variable (s : Sink) {xs : Bytes}

/-- Bytes taken in two parts are taken as one, also where the room ends within them. -/
theorem accept_append (xs ys : Bytes) : s.accept (xs ++ ys) = (s.accept xs).accept ys := by
  simp only [accept, List.length_append, List.take_append, List.append_assoc, Nat.sub_add_eq]

/-- A sink that has become full takes nothing any more. -/
theorem accept_append_of_full (h : s.room < xs.length) (ys : Bytes) :
    s.accept (xs ++ ys) = s.accept xs := by
  have hroom : s.room - xs.length = 0 := Nat.sub_eq_zero_of_le h.le
  rw [accept_append]
  simp [accept, hroom]

/-- What the writing of bytes is answered with. -/
def answer (bytes : Bytes) : Except SinkError Unit :=
  if bytes.length ≤ s.room then if s.flushes then .ok () else .error .flush else .error .full

theorem answer_accept (h : xs.length ≤ s.room) (ys : Bytes) :
    (s.accept xs).answer ys = s.answer (xs ++ ys) := by
  have hroom : ys.length ≤ s.room - xs.length ↔ (xs ++ ys).length ≤ s.room := by
    rw [List.length_append]
    omega
  exact if_congr hroom rfl rfl

theorem answer_append_of_full (h : s.room < xs.length) (ys : Bytes) :
    s.answer (xs ++ ys) = .error .full := by
  rw [answer, if_neg]
  rw [List.length_append]
  omega

/-- Writing pieces is writing the text that they make up. -/
theorem write_eq (pieces : List String) :
    s.write pieces =
      (s.answer (Utf8.encode (.join pieces)), s.accept (Utf8.encode (.join pieces))) := by
  induction pieces generalizing s with
  | nil => simp [write, answer, accept, Utf8.encode, String.join]
  | cons piece pieces ih =>
    rw [String.join_cons, Utf8.encode_append, write]
    by_cases hfits : (Utf8.encode piece).length ≤ s.room
    · rw [if_pos hfits, ih, s.answer_accept hfits, accept_append]
    · have hfull : s.room < (Utf8.encode piece).length := Nat.lt_of_not_le hfits
      rw [if_neg hfits, s.answer_append_of_full hfull, s.accept_append_of_full hfull]

/-- What has become of bytes that were written into an empty sink, as the sink and the answer to the
writer show it. -/
structure Received (room : Nat) (flushes : Bool) (bytes : Bytes)
    (written : Except SinkError Unit × Sink) : Prop where
  taken : written.2.taken = bytes.take room
  length_taken : written.2.taken.length = min room bytes.length
  ok_iff : written.1 = .ok () ↔ bytes.length ≤ room ∧ flushes = true
  full_iff : written.1 = .error .full ↔ room < bytes.length
  flush_iff : written.1 = .error .flush ↔ bytes.length ≤ room ∧ flushes = false

theorem received_write (room : Nat) (flushes : Bool) (pieces : List String) :
    Received room flushes (Utf8.encode (.join pieces)) (write { room, flushes } pieces) := by
  rw [write_eq]
  generalize Utf8.encode (.join pieces) = bytes
  by_cases hfits : bytes.length ≤ room
  · have hfull : ¬ room < bytes.length := Nat.not_lt_of_le hfits
    constructor <;> cases flushes <;> simp [accept, answer, hfits, hfull]
  · have hfull : room < bytes.length := Nat.lt_of_not_le hfits
    constructor <;> simp [accept, answer, hfits, hfull]

end Sink

/-- A log is made up of the pieces in which it is written. -/
theorem exists_pieces_of_logText {a : Analysis} {log : String} (h : Artifact.logText a = .ok log) :
    ∃ pieces, Artifact.logPieces a = .ok pieces ∧ String.join pieces = log := by
  rw [Artifact.logText] at h
  cases hp : Artifact.logPieces a with
  | error e =>
    rw [hp] at h
    cases h
  | ok pieces =>
    rw [hp] at h
    exact ⟨pieces, rfl, Except.ok.inj h⟩

/-- No artifact that is cut short is taken for a written one. Both artifacts of a text can be
written: the result is the one that a reader takes apart into the tables and references of the
analysis, and the log lists the same with the lexemes. In whatever pieces that is done, those of the
program among them, a sink with room for some number of bytes ends up with exactly that many of the
first bytes of the artifact, or with all of them. The writing succeeds just when there is room for
all and the flush succeeds, so room for the artifact and no more is enough; it fails as the write
does when there is less room, and as the flush does when that is what fails. -/
theorem short_writes_are_reported (text : List Char) :
    ∃ a decoded lexemes pieces, Analysis.ofText text = .ok a ∧
      Decoded.ofResult? (Artifact.resultText a).toList = some decoded ∧
      decoded.numbers = a.vocabulary.numbers.entries ∧
      decoded.identifiers = a.vocabulary.identifiers.entries ∧
      decoded.triples = a.references.toList.map (fun r => (r.line, r.table.code, r.index)) ∧
      List.Forall₂ (fun (_, code, index) lexeme => decoded.lexeme? code index = some lexeme)
        decoded.triples lexemes ∧
      let log := String.join ((decoded.logLines lexemes).map (· ++ "\n"))
      Artifact.logPieces a = .ok pieces ∧ Artifact.logText a = .ok log ∧ ∀ room flushes,
        let sink : Sink := { room, flushes }
        Sink.Received room flushes (Utf8.encode (Artifact.resultText a))
          (sink.write (Artifact.resultPieces a)) ∧
        Sink.Received room flushes (Utf8.encode log) (sink.write pieces) ∧
        ∀ cuts : List String,
          (String.join cuts = Artifact.resultText a →
            sink.write cuts = sink.write (Artifact.resultPieces a)) ∧
          (String.join cuts = log → sink.write cuts = sink.write pieces) := by
  obtain ⟨a, ha, haccounts⟩ := Analysis.ofText_accountsFor text
  have hsound := sound_of_mem_scanLines 1 .normal {} (lines text)
  have hlog := haccounts.logText_eq
  obtain ⟨pieces, hpieces, hjoin⟩ := exists_pieces_of_logText hlog
  refine ⟨a, a.decoded, _, pieces, ha, haccounts.ofResult?_resultText hsound, rfl, rfl, rfl,
    haccounts.forall₂_lexeme?, hpieces, hlog, fun room flushes => ?_⟩
  rw [← hjoin]
  refine ⟨Sink.received_write room flushes _, Sink.received_write room flushes _, fun cuts => ?_⟩
  constructor
  · intro hcuts
    rw [Sink.write_eq, Sink.write_eq, hcuts]
    rfl
  · intro hcuts
    rw [Sink.write_eq, Sink.write_eq, hcuts]

/-- Room for the eleven bytes of a result is enough, and with one byte less its last line feed is
refused, also when the result is written in two pieces. -/
theorem short_writes_are_reported_eleven :
    let halves := ["\nx \n1", ",4,0 \n"]
    ∃ a, Analysis.ofText "x".toList = .ok a ∧ String.join halves = Artifact.resultText a ∧
      (Sink.write { room := 11 } (Artifact.resultPieces a)).1 = .ok () ∧
      (Sink.write { room := 10 } (Artifact.resultPieces a)).1 = .error .full ∧
      Sink.write { room := 10 } halves = Sink.write { room := 10 } (Artifact.resultPieces a) := by
  intro halves
  obtain ⟨a, decoded, lexemes, pieces, ha, _, _, _, _, _, _, _, hwritten⟩ :=
    short_writes_are_reported "x".toList
  have htext : Artifact.resultText a = "\nx \n1,4,0 \n" := by
    have hx : (Analysis.ofText "x".toList).map Artifact.resultText = .ok "\nx \n1,4,0 \n" := by
      decide +kernel
    rw [ha] at hx
    exact Except.ok.inj hx
  have hlength : (Utf8.encode (Artifact.resultText a)).length = 11 := by
    rw [htext]
    decide +kernel
  have hjoin : String.join halves = Artifact.resultText a := by
    rw [htext]
    decide +kernel
  obtain ⟨henough, _⟩ := hwritten 11 true
  obtain ⟨hshort, _, hcuts⟩ := hwritten 10 true
  exact ⟨a, ha, hjoin, henough.ok_iff.mpr ⟨hlength.le, rfl⟩,
    hshort.full_iff.mpr (by omega), (hcuts halves).1 hjoin⟩

end LexicalAnalyzer
